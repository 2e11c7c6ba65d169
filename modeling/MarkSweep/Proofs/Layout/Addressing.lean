import Mathlib.Order.CompletePartialOrder
import Mathlib.Order.Interval.Set.Disjoint
import MarkSweep.Proofs.Layout

/-!
# Header tables and addresses of 32 bits

A program names an address by a word of 32 bits. The address of a header word is computed in such
words, too, from the start of the table and the number of the granule
(`Layout.headerAddr32`). The check of a layout measures the table against the memory, and a memory
may have more bytes than there are addresses.

`Layout.addressable_iff` says when the computed addresses of an accepted layout are the right ones:
exactly if the table ends within the first `2 ^ 32` bytes. In a memory of no more bytes than that it
always does. In a larger one the check also accepts a table that goes on behind the last address;
the addresses computed for the words there begin again at `0`, where the region may be
(`Layout.check_overlooks_wrap`).
-/

namespace MarkSweep.Layout

/-- The address of the header word of granule number `i`, computed in words of 32 bits. -/
def headerAddr32 (l : Layout) (i : Nat) : UInt32 :=
  .ofNat l.tableStart + .ofNat i * .ofNat Header.width

/-- The bytes at that address which are taken for the header word. -/
def headerWord32 (l : Layout) (i : Nat) : Set Addr :=
  Set.Ico (l.headerAddr32 i).toNat ((l.headerAddr32 i).toNat + Header.width)

/-- The numbers of the layout are words of 32 bits. -/
structure FitsWords (l : Layout) : Prop where
  start_lt : l.start < UInt32.size
  stop_lt : l.stop < UInt32.size
  granule_lt : l.granule < UInt32.size
  table_lt : ∀ p ∈ l.table?, p < UInt32.size

/-- The header words of all granules can be told apart by addresses of 32 bits, in a memory of
`memory` bytes. -/
structure Addressable (l : Layout) (memory : Nat) : Prop where
  /-- The computed address is the one where the header of the granule is kept. -/
  toNat_eq : ∀ i < l.granuleCount,
    (l.headerAddr32 i).toNat = l.headerAddr (l.start + i * l.granule)
  /-- The header word lies in the memory. -/
  inside : ∀ i < l.granuleCount, l.headerWord32 i ⊆ Set.Iio memory
  /-- It has no byte in common with the region. -/
  apart_region : ∀ i < l.granuleCount, Disjoint (l.headerWord32 i) l.region
  /-- Nor with the header word of another granule. -/
  apart : ∀ i < l.granuleCount, ∀ j < l.granuleCount, i ≠ j →
    Disjoint (l.headerWord32 i) (l.headerWord32 j)

variable {l : Layout} {memory i : Nat}

/-- In words of 32 bits, the address of a header is what is left of it after the wrap. -/
theorem toNat_headerAddr32 (l : Layout) (i : Nat) :
    (l.headerAddr32 i).toNat = (l.tableStart + i * Header.width) % UInt32.size := by
  simp [headerAddr32, UInt32.toNat_add, UInt32.toNat_mul, UInt32.toNat_ofNat', UInt32.size]

namespace Valid

variable (h : l.Valid memory)

include h

/-- The header words of the table stand one behind the other. -/
theorem headerAddr_granule (i : Nat) :
    l.headerAddr (l.start + i * l.granule) = l.tableStart + i * Header.width := by
  rw [headerAddr, Nat.add_sub_cancel_left, Nat.mul_div_cancel i h.granule_pos]

theorem granuleCount_pos : 0 < l.granuleCount := by
  have hlt := h.start_lt_stop
  have hdvd : l.granule ∣ l.stop - l.start := Nat.dvd_of_mod_eq_zero h.whole_granules
  exact Nat.div_pos (Nat.le_of_dvd (by lia) hdvd) h.granule_pos

/-- Below the last address nothing wraps around. -/
theorem toNat_headerAddr32_eq_iff :
    (l.headerAddr32 i).toNat = l.headerAddr (l.start + i * l.granule) ↔
      l.tableStart + i * Header.width < UInt32.size := by
  rw [toNat_headerAddr32, h.headerAddr_granule]
  constructor
  · intro heq
    rw [← heq]
    exact Nat.mod_lt _ (by decide)
  · exact Nat.mod_eq_of_lt

/-- If the addresses are right, then so are the words. -/
theorem headerWord32_eq (hi : i < l.granuleCount)
    (htable : l.tableStart + l.tableSize ≤ UInt32.size) :
    l.headerWord32 i =
      Set.Ico (l.tableStart + i * Header.width) (l.tableStart + (i + 1) * Header.width) := by
  have hlt : l.tableStart + i * Header.width < UInt32.size := by
    simp only [tableSize, Header.width] at htable ⊢
    lia
  rw [headerWord32, h.toNat_headerAddr32_eq_iff.mpr hlt, h.headerAddr_granule, Nat.add_assoc,
    ← Nat.succ_mul]

/-- The header words that are computed lie in the table. -/
theorem headerWord32_subset_table (hi : i < l.granuleCount)
    (htable : l.tableStart + l.tableSize ≤ UInt32.size) : l.headerWord32 i ⊆ l.table := by
  rw [h.headerWord32_eq hi htable]
  apply Set.Ico_subset_Ico
  · exact Nat.le_add_right _ _
  · exact Nat.add_le_add_left (Nat.mul_le_mul_right _ hi) _

/-- A table that ends within the first `2 ^ 32` bytes can be addressed. -/
theorem addressable (htable : l.tableStart + l.tableSize ≤ UInt32.size) :
    l.Addressable memory where
  toNat_eq i hi := by
    refine h.toNat_headerAddr32_eq_iff.mpr ?_
    simp only [tableSize, Header.width] at htable ⊢
    lia
  inside i hi a ha := (h.headerWord32_subset_table hi htable ha).2.trans_le h.table_le
  apart_region i hi := by
    refine Set.disjoint_of_subset_left (h.headerWord32_subset_table hi htable) ?_
    exact Set.disjoint_right.mpr fun a ha => h.region_subset_compl_table ha
  apart i hi j hj hij := by
    rw [h.headerWord32_eq hi htable, h.headerWord32_eq hj htable, Set.Ico_disjoint_Ico]
    simp only [Header.width]
    lia

/-- So can every table in a memory of no more bytes than that: there it does not matter whether
addresses of headers are computed in words or in numbers. -/
theorem addressable_of_memory_le (hmemory : memory ≤ UInt32.size) : l.Addressable memory :=
  h.addressable (h.table_le.trans hmemory)

/-- A table whose last word has the right address ends within the first `2 ^ 32` bytes. -/
theorem table_le_of_addressable (ha : l.Addressable memory) :
    l.tableStart + l.tableSize ≤ UInt32.size := by
  have hpos := h.granuleCount_pos
  have hlast : l.granuleCount - 1 < l.granuleCount := by lia
  have hlt := h.toNat_headerAddr32_eq_iff.mp (ha.toNat_eq _ hlast)
  -- The last word starts below the end of the addresses, at a multiple of its width.
  have haligned := h.table_aligned
  simp only [tableSize, Header.width, UInt32.size] at hlt haligned ⊢
  lia

end Valid

/-- The header words of an accepted layout can be addressed exactly if the table ends within the
first `2 ^ 32` bytes. -/
theorem addressable_iff (h : l.check memory = .ok ()) :
    l.Addressable memory ↔ l.tableStart + l.tableSize ≤ UInt32.size := by
  have hl := (check_eq_ok_iff l memory).mp h
  exact ⟨hl.table_le_of_addressable, hl.addressable⟩

/-- A table may end at the very last address. -/
theorem addressable_top :
    let l : Layout := { start := 4, stop := 16, granule := 4, table? := some 4294967284 }
    l.check 4294967296 = .ok () ∧ l.Addressable 4294967296 := by
  intro l
  have hcheck : l.check 4294967296 = .ok () := by decide
  exact ⟨hcheck, (addressable_iff hcheck).mpr (by decide)⟩

/-- The check also accepts layouts whose header words cannot be addressed. -/
theorem check_overlooks_wrap : ¬ ∀ (l : Layout) (memory : Nat), l.FitsWords →
    memory < UInt64.size → l.check memory = .ok () → l.Addressable memory := by
  intro hclaim
  -- The table of the three granules begins at the last word that has an address.
  let l : Layout := { start := 4, stop := 16, granule := 4, table? := some 4294967292 }
  have hfits : l.FitsWords := ⟨by decide, by decide, by decide, by decide⟩
  have hl : l.Addressable 4294967304 := hclaim l _ hfits (by decide) (by decide)
  -- The word of the third granule is looked for at the start of the region.
  have hword : 4 ∈ l.headerWord32 2 := ⟨by decide, by decide⟩
  have hregion : 4 ∈ l.region := ⟨by decide, by decide⟩
  exact Set.disjoint_left.mp (hl.apart_region 2 (by decide)) hword hregion

end MarkSweep.Layout
