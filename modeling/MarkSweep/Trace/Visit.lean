import MarkSweep.Address
import MarkSweep.Payload

/-!
# Visits

A visit to an object finds the addresses that its payload may refer to, in order. It can end early,
at a payload that does not have the expected shape; what was found until then counts nevertheless.
-/

namespace MarkSweep

/-- What a visit has found. -/
structure Visit where
  /-- Possible references, in the order found; null ones too. -/
  children : List Addr
  /-- Why the visit ended early, if it did. -/
  failure : Option PayloadDefect

namespace Visit

/-- A visit that finds nothing. -/
def nothing : Visit := ⟨[], none⟩

/-- A visit that fails at once. -/
def fail (cause : PayloadDefect) : Visit := ⟨[], some cause⟩

/-- Puts a child before those of a visit. -/
def cons (child : Addr) (v : Visit) : Visit := { v with children := child :: v.children }

/-- Finds the words with the given indices, up to the first that the payload does not have. -/
def words (payload : Payload) : List Nat → Visit
  | [] => nothing
  | i :: is =>
    match payload.word i with
    | .ok w => cons w.toNat (words payload is)
    | .error cause => fail cause

/-- Finds `count` words from index `i` on, up to the first that the payload does not have. -/
def run (payload : Payload) (i : Nat) : (count : Nat) → Visit
  | 0 => nothing
  | count + 1 =>
    match payload.word i with
    | .ok w => cons w.toNat (run payload (i + 1) count)
    | .error cause => fail cause

/-- A run of words is a list of words with consecutive indices. -/
theorem run_eq_words (payload : Payload) (i count : Nat) :
    run payload i count = words payload (List.range' i count) := by
  induction count generalizing i with
  | zero => rfl
  | succ count ih => simp only [run, List.range'_succ, words, ih]

end Visit

end MarkSweep
