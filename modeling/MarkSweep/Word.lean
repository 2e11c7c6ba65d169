/-!
# Words in a byte array

A word is 32 bits wide and is kept as four bytes, the least significant first. Words may start at
any byte, aligned or not.
-/

namespace MarkSweep.Word

/-- The four bytes of a word, least significant first. -/
def bytes (w : UInt32) : List UInt8 :=
  [.ofNat w.toNat, .ofNat (w.toNat / 0x100), .ofNat (w.toNat / 0x10000),
    .ofNat (w.toNat / 0x1000000)]

/-- The word with the given bytes, least significant first. -/
def ofBytes (b₀ b₁ b₂ b₃ : UInt8) : UInt32 :=
  .ofNat (b₀.toNat + 0x100 * b₁.toNat + 0x10000 * b₂.toNat + 0x1000000 * b₃.toNat)

/-- The word that starts at byte `i`, if all four of its bytes are there. -/
def at? (data : Array UInt8) (i : Nat) : Option UInt32 :=
  if h : i + 4 ≤ data.size then
    some (ofBytes data[i] data[i + 1] data[i + 2] data[i + 3])
  else
    none

/-- A word can be read where all four of its bytes are there. -/
theorem at?_isSome_iff (data : Array UInt8) (i : Nat) :
    (at? data i).isSome ↔ i + 4 ≤ data.size := by
  unfold at?
  split <;> simp_all

end MarkSweep.Word
