import Mathlib.Order.Interval.Set.Defs
import Mathlib.Data.Nat.Bitwise
import Mathlib.Data.Set.Function
import Mathlib.Data.Set.Prod
import MarkSweep.Header

/-!
# Header words

A header word can be worked on without decoding it: its fields are cut out by shifts and masks
(`Header.unpack`), a fresh one is put together by them (`Header.packFresh`), and marking, unmarking
and releasing set and clear single bits (`HeaderUpdate.onWord`). That this is the same as working on
the header is seen bit by bit (`Header.testBit_toWord`).

`Header.packing` says so for every word, every fresh header and every run of updates, and what comes
of it: words and fields correspond one to one, and after a run of updates the mark is as the last of
them has left it, while tag and size are what they were.
-/

namespace MarkSweep

namespace Header

/-- The bit of an allocated block. -/
def allocBit : UInt32 := 0x1

/-- The bit of a marked block. -/
def markBit : UInt32 := 0x2

/-- Where the tag begins. -/
def tagShift : UInt32 := 2

/-- The bits of a tag. -/
def tagMask : UInt32 := 0x3F

/-- Where the size begins. -/
def sizeShift : UInt32 := 8

/-- The bits of a size. -/
def sizeMask : UInt32 := 0xFFFFFF

/-- The fields of a header: alloc, mark, the code of the tag, and the size. -/
def fields (h : Header) : Bool × Bool × Nat × Nat := (h.alloc, h.mark, h.tag.code, h.size)

/-- The fields of a header word, cut out by shifts and masks. -/
def unpack (w : UInt32) : Bool × Bool × Nat × Nat :=
  (w &&& allocBit != 0, w &&& markBit != 0, ((w >>> tagShift) &&& tagMask).toNat,
    (w >>> sizeShift).toNat)

/-- The word of a fresh header, put together by shifts and masks. -/
def packFresh (tag : Tag) (size : UInt32) : UInt32 :=
  allocBit ||| ((.ofNat tag.code &&& tagMask) <<< tagShift) ||| ((size &&& sizeMask) <<< sizeShift)

end Header

/-- What is done to the header of a block that has been allocated. -/
inductive HeaderUpdate where
  /-- The mark is set. -/
  | mark
  /-- The mark is cleared. -/
  | unmark
  /-- The block is released. -/
  | release
deriving DecidableEq

namespace HeaderUpdate

/-- The update of a header. -/
def apply : HeaderUpdate → Header → Header
  | mark, h => h.setMark
  | unmark, h => h.clearMark
  | release, h => h.released

/-- The update of a header word. -/
def onWord : HeaderUpdate → UInt32 → UInt32
  | mark, w => w ||| Header.markBit
  | unmark, w => w &&& ~~~Header.markBit
  | release, w => w &&& ~~~(Header.allocBit ||| Header.markBit)

end HeaderUpdate

namespace Header

/-- The header after a run of updates. -/
def updated (us : List HeaderUpdate) (h : Header) : Header := us.foldl (fun h u => u.apply h) h

/-- The header word after a run of updates. -/
def updatedWord (us : List HeaderUpdate) (w : UInt32) : UInt32 := us.foldl (fun w u => u.onWord w) w

/-- A header word is as good as the header. -/
structure Packing : Prop where
  /-- The fields of a word are those of the header that it stands for. -/
  unpack_eq : ∀ w, unpack w = (ofWord w).fields
  /-- Words and fields correspond one to one: two bits, a tag of six bits and a size of 24. -/
  bijOn_unpack : Set.BijOn unpack Set.univ
    (Set.univ ×ˢ Set.univ ×ˢ Set.Iio 64 ×ˢ Set.Iio (2 ^ 24))
  /-- A fresh header is allocated and not marked, and of its size the low 24 bits are kept. -/
  packFresh_eq : ∀ tag (size : UInt32), packFresh tag size = (fresh tag size.toNat).toWord
  unpack_packFresh : ∀ tag (size : UInt32),
    unpack (packFresh tag size) = (true, false, tag.code.val, size.toNat % 2 ^ 24)
  /-- This is the whole size, if a block of that size may be asked for. -/
  unpack_packFresh_of_le : ∀ tag (size : UInt32), size.toNat ≤ maxPayload →
    unpack (packFresh tag size) = (true, false, tag.code.val, size.toNat)
  /-- It makes no difference whether the header or its word is updated. -/
  updatedWord_eq : ∀ us w, updatedWord us w = (updated us (ofWord w)).toWord
  /-- A header that has ever been released is not allocated any more, the last update decides about
  the mark, and no update changes tag or size. -/
  unpack_updatedWord : ∀ us w, unpack (updatedWord us w) =
    ((ofWord w).alloc && !us.contains .release,
      (us.getLast?.map (· == .mark)).getD (ofWord w).mark,
      (ofWord w).tag.code.val,
      (ofWord w).size)

variable {h : Header} {w : UInt32} {us : List HeaderUpdate}

/-! ### Bits -/

/-- Words with the same bits are the same. -/
theorem eq_of_testBit_eq {v w : UInt32}
    (h : ∀ i < 32, v.toNat.testBit i = w.toNat.testBit i) : v = w :=
  UInt32.toBitVec_inj.mp (BitVec.eq_of_getLsbD_eq h)

/-- The bits of a mask can be cleared. -/
theorem testBit_and_not (w mask : UInt32) {i : Nat} (hi : i < 32) :
    (w &&& ~~~mask).toNat.testBit i = (w.toNat.testBit i && !mask.toNat.testBit i) := by
  change (w &&& ~~~mask).toBitVec.getLsbD i = (w.toBitVec.getLsbD i && !mask.toBitVec.getLsbD i)
  rw [UInt32.toBitVec_and, UInt32.toBitVec_not, BitVec.getLsbD_and, BitVec.getLsbD_not,
    decide_eq_true hi, Bool.true_and]

theorem testBit_allocBit (i : Nat) : allocBit.toNat.testBit i = decide (i = 0) :=
  (Nat.testBit_two_pow (n := 0)).trans (by simp [eq_comm])

theorem testBit_markBit (i : Nat) : markBit.toNat.testBit i = decide (i = 1) :=
  (Nat.testBit_two_pow (n := 1)).trans (by simp [eq_comm])

theorem testBit_toNat (b : Bool) : b.toNat.testBit 0 = b := by
  cases b <;> rfl

/-- The bits of a header word, field by field. -/
theorem testBit_toWord (h : Header) (i : Nat) : h.toWord.toNat.testBit i =
    if i = 0 then h.alloc else if i = 1 then h.mark
    else if i < 8 then h.tag.code.val.testBit (i - 2) else h.size.testBit (i - 8) := by
  have hcode := h.tag.code.isLt
  have hmark := h.mark.toNat_le
  -- Each field begins above all that the fields below it can amount to.
  have hbelow₁ : h.alloc.toNat < 2 ^ 1 := h.alloc.toNat_lt
  have hbelow₂ : 2 ^ 1 * h.mark.toNat + h.alloc.toNat < 2 ^ 2 := by omega
  have hbelow₈ : 2 ^ 2 * h.tag.code.val + (2 ^ 1 * h.mark.toNat + h.alloc.toNat) < 2 ^ 8 := by
    omega
  have hword : h.toWord.toNat = 2 ^ 8 * h.size +
      (2 ^ 2 * h.tag.code.val + (2 ^ 1 * h.mark.toNat + h.alloc.toNat)) := by
    rw [toNat_toWord]
    omega
  rw [hword, Nat.testBit_two_pow_mul_add _ hbelow₈, Nat.testBit_two_pow_mul_add _ hbelow₂,
    Nat.testBit_two_pow_mul_add _ hbelow₁]
  obtain rfl | rfl | hi : i = 0 ∨ i = 1 ∨ 2 ≤ i := by omega
  · exact testBit_toNat h.alloc
  · exact testBit_toNat h.mark
  · have hlow : ¬ i < 2 ∧ i ≠ 0 ∧ i ≠ 1 := by omega
    simp only [hlow, if_false]

/-! ### Fields -/

/-- A mask of a single bit cuts this bit out. -/
theorem and_bne_zero {mask : UInt32} (k : Nat) (hmask : mask.toNat = 2 ^ k) :
    (w &&& mask != 0) = w.toNat.testBit k := by
  have hiff : w &&& mask = 0 ↔ w.toNat.testBit k = false := by
    rw [← UInt32.toNat_inj, UInt32.toNat_and, hmask, Nat.and_two_pow]
    cases w.toNat.testBit k <;> simp
  cases hbit : w.toNat.testBit k <;> simp [bne, hiff, hbit]

/-- Shifts and masks find the fields of the header that the word stands for. -/
theorem unpack_eq_fields (w : UInt32) : unpack w = (ofWord w).fields := by
  have halloc : (w &&& allocBit != 0) = (ofWord w).alloc := by
    rw [and_bne_zero 0 rfl, Nat.testBit_zero]
    rfl
  have hmark : (w &&& markBit != 0) = (ofWord w).mark := by
    rw [and_bne_zero 1 rfl, Nat.testBit_eq_decide_div_mod_eq]
    rfl
  have htag : ((w >>> tagShift) &&& tagMask).toNat = (ofWord w).tag.code.val := by
    rw [UInt32.toNat_and, UInt32.toNat_shiftRight, Nat.shiftRight_eq_div_pow]
    exact Nat.and_two_pow_sub_one_eq_mod _ 6
  have hsize : (w >>> sizeShift).toNat = (ofWord w).size := by
    rw [UInt32.toNat_shiftRight, Nat.shiftRight_eq_div_pow]
    rfl
  rw [unpack, halloc, hmark, htag, hsize, fields]

/-- A header is known by its fields. -/
theorem fields_injective : Function.Injective fields := by
  rintro ⟨_, _, ⟨_⟩, _, _⟩ ⟨_, _, ⟨_⟩, _, _⟩ h
  simpa [fields, Fin.ext_iff] using h

/-- Words and fields of their widths correspond one to one. -/
theorem bijOn_unpack : Set.BijOn unpack Set.univ
    (Set.univ ×ˢ Set.univ ×ˢ Set.Iio 64 ×ˢ Set.Iio (2 ^ 24)) := by
  refine ⟨fun w _ => ?_, fun v _ w _ h => ?_, ?_⟩
  · rw [unpack_eq_fields]
    exact ⟨trivial, trivial, (ofWord w).tag.code.isLt, (ofWord w).size_lt⟩
  · -- Encoding is undone by decoding, so no two words have the same fields.
    rw [unpack_eq_fields, unpack_eq_fields] at h
    rw [← toWord_ofWord v, fields_injective h, toWord_ofWord]
  · -- Fields of these ranges make a header, and its word has them.
    rintro ⟨alloc, mark, tag, size⟩ ⟨-, -, htag, hsize⟩
    let h : Header := ⟨alloc, mark, ⟨⟨tag, htag⟩⟩, size, hsize⟩
    exact ⟨h.toWord, trivial, by rw [unpack_eq_fields, ofWord_toWord, fields]⟩

/-! ### Fresh headers -/

/-- The lowest `n` bits of a word, shifted up by `k`. -/
theorem toNat_and_shiftLeft (w : UInt32) {mask shift : UInt32} (n k : Nat)
    (hmask : mask.toNat = 2 ^ n - 1) (hshift : shift.toNat = k) (hk : k < 32) (hkn : k + n ≤ 32) :
    ((w &&& mask) <<< shift).toNat = 2 ^ k * (w.toNat % 2 ^ n) := by
  have hlt : 2 ^ k * (w.toNat % 2 ^ n) < 2 ^ 32 := calc
    2 ^ k * (w.toNat % 2 ^ n) < 2 ^ k * 2 ^ n :=
      Nat.mul_lt_mul_of_pos_left (Nat.mod_lt _ (Nat.two_pow_pos n)) (Nat.two_pow_pos k)
    _ = 2 ^ (k + n) := (Nat.pow_add 2 k n).symm
    _ ≤ 2 ^ 32 := Nat.pow_le_pow_right (by decide) hkn
  rw [UInt32.toNat_shiftLeft, UInt32.toNat_and, hmask, hshift, Nat.and_two_pow_sub_one_eq_mod,
    Nat.mod_eq_of_lt hk, Nat.shiftLeft_eq, Nat.mul_comm, Nat.mod_eq_of_lt hlt]

/-- Shifts and masks put together the word of a fresh header. -/
theorem packFresh_eq (tag : Tag) (size : UInt32) :
    packFresh tag size = (fresh tag size.toNat).toWord := by
  have hcode := tag.code.isLt
  have htag : ((.ofNat tag.code &&& tagMask) <<< tagShift : UInt32).toNat = 2 ^ 2 * tag.code := by
    rw [toNat_and_shiftLeft _ 6 2 rfl rfl (by decide) (by decide), UInt32.toNat_ofNat']
    omega
  have hsize : ((size &&& sizeMask) <<< sizeShift).toNat = 2 ^ 8 * (size.toNat % 2 ^ 24) :=
    toNat_and_shiftLeft _ 24 8 rfl rfl (by decide) (by decide)
  have halloc : 1 < 2 ^ 2 := by decide
  have hbelow : 2 ^ 2 * tag.code.val + 1 < 2 ^ 8 := by omega
  apply UInt32.toNat_inj.mp
  calc (packFresh tag size).toNat
      = 2 ^ 8 * (size.toNat % 2 ^ 24) ||| (2 ^ 2 * tag.code ||| 1) := by
        rw [packFresh, UInt32.toNat_or, UInt32.toNat_or, htag, hsize, Nat.lor_comm,
          Nat.lor_comm allocBit.toNat]
        rfl
    -- No two of the fields have a bit in common, so putting them together is adding them.
    _ = 2 ^ 8 * (size.toNat % 2 ^ 24) + (2 ^ 2 * tag.code + 1) := by
        rw [← Nat.two_pow_add_eq_or_of_lt halloc, ← Nat.two_pow_add_eq_or_of_lt hbelow]
    _ = (fresh tag size.toNat).toWord.toNat := by
        rw [toNat_toWord]
        simp only [fresh, Bool.toNat_true, Bool.toNat_false]
        omega

/-- What is put together comes apart again, but for what is too large of the size. -/
theorem unpack_packFresh (tag : Tag) (size : UInt32) :
    unpack (packFresh tag size) = (true, false, tag.code.val, size.toNat % 2 ^ 24) := by
  rw [unpack_eq_fields, packFresh_eq, ofWord_toWord]
  rfl

/-! ### Updates -/

/-- Updating the word of a header is updating the header. -/
theorem onWord_toWord (u : HeaderUpdate) (h : Header) : u.onWord h.toWord = (u.apply h).toWord := by
  refine eq_of_testBit_eq fun i hi => ?_
  -- The masks have no bits but 0 and 1, so tag and size are out of reach.
  cases u with
  | mark =>
    rw [HeaderUpdate.onWord, UInt32.toNat_or, Nat.testBit_or, testBit_markBit, testBit_toWord,
      testBit_toWord]
    grind [HeaderUpdate.apply, setMark]
  | unmark =>
    rw [HeaderUpdate.onWord, testBit_and_not _ _ hi, testBit_markBit, testBit_toWord,
      testBit_toWord]
    grind [HeaderUpdate.apply, clearMark]
  | release =>
    rw [HeaderUpdate.onWord, testBit_and_not _ _ hi, UInt32.toNat_or, Nat.testBit_or,
      testBit_allocBit, testBit_markBit, testBit_toWord, testBit_toWord]
    grind [HeaderUpdate.apply, released]

/-- By induction on the updates, they come to the same on the word and on the header. -/
theorem updatedWord_toWord (us : List HeaderUpdate) (h : Header) :
    updatedWord us h.toWord = (updated us h).toWord := by
  induction us generalizing h with
  | nil => rfl
  | cons u us ih =>
    rw [updatedWord, List.foldl_cons, onWord_toWord]
    exact ih (u.apply h)

theorem updated_cons (u : HeaderUpdate) (us : List HeaderUpdate) (h : Header) :
    updated (u :: us) h = updated us (u.apply h) := rfl

/-- What no update changes, no run of updates changes. -/
theorem updated_eq_of_forall {α : Type} {f : Header → α}
    (hf : ∀ (u : HeaderUpdate) h, f (u.apply h) = f h) : f (updated us h) = f h := by
  induction us generalizing h with
  | nil => rfl
  | cons u us ih => rw [updated_cons, ih, hf]

/-- No update changes the tag. -/
theorem tag_updated (us : List HeaderUpdate) (h : Header) : (updated us h).tag = h.tag :=
  updated_eq_of_forall fun u _ => by cases u <;> rfl

theorem size_updated (us : List HeaderUpdate) (h : Header) : (updated us h).size = h.size :=
  updated_eq_of_forall fun u _ => by cases u <;> rfl

/-- Nothing but a release concerns the allocation, and nothing takes a release back. -/
theorem alloc_updated (us : List HeaderUpdate) (h : Header) :
    (updated us h).alloc = (h.alloc && !us.contains .release) := by
  induction us generalizing h with
  | nil => simp [updated]
  | cons u us ih =>
    rw [updated_cons, ih, List.contains_cons]
    cases u with
    | mark => rfl
    | unmark => rfl
    | release =>
      -- Whatever follows, the block is not allocated from here on.
      exact (Bool.and_false _).symm

/-- Every update concerns the mark, so only the last of them counts. -/
theorem mark_updated (us : List HeaderUpdate) (h : Header) :
    (updated us h).mark = (us.getLast?.map (· == .mark)).getD h.mark := by
  induction us generalizing h with
  | nil => rfl
  | cons u us ih =>
    rw [updated_cons, ih, List.getLast?_cons]
    -- The first update is the last one if no other follows.
    cases us.getLast? with
    | none => cases u <;> rfl
    | some last => rfl

/-- Header words can be worked on as they are: cutting out the fields, putting together a fresh
header and updating it give what they give on headers. -/
theorem packing : Packing where
  unpack_eq := unpack_eq_fields
  bijOn_unpack := bijOn_unpack
  packFresh_eq := packFresh_eq
  unpack_packFresh := unpack_packFresh
  unpack_packFresh_of_le tag size hsize := by
    have hlt : size.toNat < 2 ^ 24 := Nat.lt_succ_of_le hsize
    rw [unpack_packFresh, Nat.mod_eq_of_lt hlt]
  updatedWord_eq us w := by rw [← updatedWord_toWord, toWord_ofWord]
  unpack_updatedWord us w := by
    have hword : ofWord (updatedWord us w) = updated us (ofWord w) := by
      rw [← ofWord_toWord (updated us _), ← updatedWord_toWord, toWord_ofWord]
    rw [unpack_eq_fields, hword, fields, alloc_updated, mark_updated, tag_updated, size_updated]

-- A mark that is set after the release does not bring the block back.
example : unpack (updatedWord [.mark, .release, .mark] (packFresh .list 24)) =
    (false, true, 2, 24) := rfl

end Header

end MarkSweep
