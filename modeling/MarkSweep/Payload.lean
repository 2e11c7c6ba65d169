import MarkSweep.Word

/-!
# Payloads

The payload of an object is a byte array that is read word by word. Word `i` starts at byte `4 * i`.
-/

namespace MarkSweep

/-- Why the references in a payload could not be found. -/
inductive PayloadDefect where
  /-- Word `index` is not complete in a payload of `size` bytes. -/
  | truncated (index size : Nat)
  /-- No class is registered under the id. -/
  | unknownClass (id : Nat)
  /-- Nothing is known about payloads of this tag. -/
  | untraced
deriving DecidableEq

/-- The wording of the error. -/
def PayloadDefect.message : PayloadDefect → String
  | .truncated index size => s!"word {index} lies beyond a {size}-byte payload"
  | .unknownClass id => s!"unknown class id {id}"
  | .untraced => "no trace function registered for this tag"

/-- The bytes of an object. -/
abbrev Payload := Array UInt8

namespace Payload

/-- Word `i` of a payload. -/
def word (payload : Payload) (i : Nat) : Except PayloadDefect UInt32 :=
  match Word.at? payload (4 * i) with
  | some w => .ok w
  | none => .error (.truncated i payload.size)

end Payload

end MarkSweep
