import MarkSweep.Tag

/-!
# Block headers

A header describes one block: whether it is allocated, whether the marking of a collection has
reached it, the tag of the object in it and the size of the object's payload. In memory a header is
one 32-bit word,

    bits 31 … 8: payload size   bits 7 … 2: tag   bit 1: mark   bit 0: alloc

and the four fields use up all its bits, so headers and words correspond one to one
(`Header.ofWord_toWord`, `Header.toWord_ofWord`).
-/

namespace MarkSweep

/-- The contents of a header word. -/
structure Header where
  /-- The block holds an object that no sweep has released. -/
  alloc : Bool
  /-- The marking in progress has reached the object. -/
  mark : Bool
  /-- Layout of the payload. -/
  tag : Tag
  /-- Payload size in bytes. -/
  size : Nat
  /-- The size has 24 bits. -/
  size_lt : size < 0x1000000
deriving DecidableEq

namespace Header

/-- Bytes of a header word. -/
def width : Nat := 4

/-- The largest payload size that fits into a header. -/
def maxPayload : Nat := 0xFFFFFF

/-- Decodes a header word. -/
def ofWord (w : UInt32) : Header where
  alloc := w.toNat % 2 == 1
  mark := w.toNat / 2 % 2 == 1
  tag := ⟨⟨w.toNat / 4 % 64, Nat.mod_lt _ (by decide)⟩⟩
  size := w.toNat / 256
  size_lt := by have := w.toNat_lt; omega

/-- The header word. -/
def toWord (h : Header) : UInt32 :=
  UInt32.ofNat (h.alloc.toNat + 2 * h.mark.toNat + 4 * h.tag.code.val + 256 * h.size)

/-- The header of a block just allocated: allocated and unmarked. Only the low 24 bits of the size
are kept. -/
def fresh (tag : Tag) (size : Nat) : Header where
  alloc := true
  mark := false
  tag := tag
  size := size % 0x1000000
  size_lt := Nat.mod_lt _ (by decide)

/-- The header of a block that never held an object. -/
def blank : Header where
  alloc := false
  mark := false
  tag := .untagged
  size := 0
  size_lt := by decide

/-- Sets the mark. -/
def setMark (h : Header) : Header := { h with mark := true }

/-- Clears the mark. -/
def clearMark (h : Header) : Header := { h with mark := false }

/-- The header of a released block: neither allocated nor marked. Tag and size stay. -/
def released (h : Header) : Header := { h with alloc := false, mark := false }

/-- The header field by field. -/
def describe (h : Header) : String :=
  let tag := h.tag.describe
  s!"Header \x7b alloc: {h.alloc}, mark: {h.mark}, tag: {tag}, size: {h.size} \x7d"

/-- The fields of a header stand side by side in its word, the allocated bit lowest. -/
theorem toNat_toWord (h : Header) :
    h.toWord.toNat = h.alloc.toNat + 2 * h.mark.toNat + 4 * h.tag.code.val + 256 * h.size := by
  have hs := h.size_lt
  have ht := h.tag.code.isLt
  have ha := h.alloc.toNat_le
  have hm := h.mark.toNat_le
  rw [toWord, UInt32.toNat_ofNat']
  omega

/-- Decoding an encoded header gives it back. -/
@[simp]
theorem ofWord_toWord (h : Header) : ofWord h.toWord = h := by
  obtain ⟨alloc, mark, ⟨tag⟩, size, size_lt⟩ := h
  have key := toNat_toWord ⟨alloc, mark, ⟨tag⟩, size, size_lt⟩
  have ht := tag.isLt
  simp only [ofWord, key, mk.injEq, Tag.mk.injEq, Fin.ext_iff]
  cases alloc <;> cases mark <;> simp <;> omega

/-- Encoding a decoded word gives it back. -/
@[simp]
theorem toWord_ofWord (w : UInt32) : (ofWord w).toWord = w := by
  have hlt := w.toNat_lt
  apply UInt32.toNat_inj.mp
  rw [toNat_toWord]
  simp only [ofWord]
  rcases Nat.mod_two_eq_zero_or_one w.toNat with h0 | h0 <;>
    rcases Nat.mod_two_eq_zero_or_one (w.toNat / 2) with h1 | h1 <;>
      simp [h0, h1] <;> omega

end Header

end MarkSweep
