/-!
# Object tags

A tag says how the payload of an object is laid out. Headers have six bits for it, so there are 64
of them: code `0` belongs to blocks that no tagged object was placed in, and codes `1` to `63` are
open to users, the first eight with a built-in meaning.
-/

namespace MarkSweep

/-- A tag, given by its six-bit code. -/
structure Tag where
  /-- The number stored in a header. -/
  code : Fin 64
deriving DecidableEq

namespace Tag

/-- The tag of a header that no tagged allocation has written. -/
def untagged : Tag := ⟨0⟩
/-- Instance of a class: the class id, then the fields. -/
def object : Tag := ⟨1⟩
/-- List: its length, then the elements. -/
def list : Tag := ⟨2⟩
/-- Text: raw bytes. -/
def text : Tag := ⟨3⟩
/-- Dictionary: the number of buckets, then the first entry of each. -/
def dict : Tag := ⟨4⟩
/-- Integer of any size: its digits. -/
def bigInt : Tag := ⟨5⟩
/-- Mutable cell that holds one reference. -/
def cell : Tag := ⟨6⟩
/-- Dictionary entry: key, value and the next entry. -/
def dictEntry : Tag := ⟨7⟩
/-- Raw bytes of no further meaning. -/
def blob : Tag := ⟨8⟩

/-- The tag with a given code, if there is one. -/
def ofCode? (n : Nat) : Option Tag :=
  if h : n < 64 then some ⟨⟨n, h⟩⟩ else none

/-- The tag that a user may give to an object: any but `untagged`. -/
def ofUserCode? (n : Nat) : Option Tag :=
  if n = 0 then none else ofCode? n

/-- All tags, by ascending code. -/
def all : List Tag := (List.finRange 64).map Tag.mk

/-- The name of a built-in tag, and `TAG(n)` for the others. -/
def name (t : Tag) : String :=
  match t.code.val with
  | 0 => "NONE"
  | 1 => "CLASS"
  | 2 => "LIST"
  | 3 => "STRING"
  | 4 => "DICT"
  | 5 => "BIGINT"
  | 6 => "REF"
  | 7 => "DICT_ENTRY"
  | 8 => "OPAQUE"
  | n => s!"TAG({n})"

/-- The tag by its number alone, as it is shown inside other values. -/
def describe (t : Tag) : String := s!"Tag({t.code.val})"

end Tag

end MarkSweep
