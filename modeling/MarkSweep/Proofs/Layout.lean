import Mathlib.Order.Interval.Set.Basic
import MarkSweep.Layout

/-!
# Valid layouts

`Layout.Valid` collects what a successful `Layout.check` establishes (`check_eq_ok_iff`). From it
follows that the region does not meet the header table (`Valid.region_subset_compl_table`), and that
the header words of the granules lie in the table (`Valid.headerAddr_subset_table`) without overlap
(`headerAddr_apart`).
-/

namespace MarkSweep.Layout

/-- The addresses of the region. -/
def region (l : Layout) : Set Addr := Set.Ico l.start l.stop

/-- The addresses of the header table. -/
def table (l : Layout) : Set Addr := Set.Ico l.tableStart (l.tableStart + l.tableSize)

/-- The addresses of the header word of the granule of `p`. -/
def headerWord (l : Layout) (p : Addr) : Set Addr := Set.Ico (l.headerAddr p) (l.headerAddr p + 4)

/-- The layout makes sense in a memory of `memory` bytes. -/
structure Valid (l : Layout) (memory : Nat) : Prop where
  start_ne_zero : l.start ≠ 0
  start_lt_stop : l.start < l.stop
  granule_ne_zero : l.granule ≠ 0
  granule_aligned : l.granule % Header.width = 0
  start_aligned : l.start % Header.width = 0
  whole_granules : (l.stop - l.start) % l.granule = 0
  stop_le : l.stop ≤ memory
  table_aligned : l.tableStart % Header.width = 0
  table_le : l.tableStart + l.tableSize ≤ memory
  table_apart : l.stop ≤ l.tableStart ∨ l.tableStart + l.tableSize ≤ l.start

/-- One line of the check lets pass what has not got its defect. -/
theorem ite_error_eq_ok_iff {defect : LayoutDefect} {rest : Except LayoutDefect Unit} {p : Prop}
    [Decidable p] : (if p then .error defect else rest) = .ok () ↔ ¬ p ∧ rest = .ok () := by
  split
  next hp => simp [hp]
  next hp => simp [hp]

/-- The check accepts exactly the valid layouts. -/
theorem check_eq_ok_iff (l : Layout) (memory : Nat) : l.check memory = .ok () ↔ l.Valid memory := by
  simp only [check, ite_error_eq_ok_iff]
  constructor
  · rintro ⟨h₁, h₂, h₃, h₄, h₅, h₆, h₇, h₈, h₉, -⟩
    obtain ⟨h₃, h₃'⟩ := not_or.mp h₃
    exact ⟨h₁, Nat.lt_of_not_le h₂, h₃, not_not.mp h₃', not_not.mp h₄, not_not.mp h₅,
      Nat.le_of_not_lt h₆, not_not.mp h₇, Nat.le_of_not_lt h₈,
      (not_and_or.mp h₉).imp Nat.le_of_not_lt Nat.le_of_not_lt⟩
  · rintro ⟨h₁, h₂, h₃, h₄, h₅, h₆, h₇, h₈, h₉, h₁₀⟩
    have hapart := h₁₀.imp Nat.not_lt.mpr Nat.not_lt.mpr
    exact ⟨h₁, Nat.not_le.mpr h₂, not_or.mpr ⟨h₃, not_not.mpr h₄⟩, not_not.mpr h₅,
      not_not.mpr h₆, Nat.not_lt.mpr h₇, not_not.mpr h₈, Nat.not_lt.mpr h₉,
      not_and_or.mpr hapart, trivial⟩

/-- A granule starts at whole granules from the start of the region. -/
theorem isBoundary_iff {l : Layout} {p : Addr} :
    l.isBoundary p ↔ l.start ≤ p ∧ p < l.stop ∧ l.granule ∣ p - l.start := by
  simp only [isBoundary, Bool.and_eq_true, decide_eq_true_eq, beq_iff_eq, and_assoc,
    Nat.dvd_iff_mod_eq_zero]

/-- The header words of two granules do not overlap. -/
theorem headerAddr_apart {l : Layout} {p q : Addr} (hp : l.isBoundary p) (hq : l.isBoundary q)
    (hpq : p ≠ q) :
    l.headerAddr p + 4 ≤ l.headerAddr q ∨ l.headerAddr q + 4 ≤ l.headerAddr p := by
  obtain ⟨hp₁, -, hpd⟩ := isBoundary_iff.mp hp
  obtain ⟨hq₁, -, hqd⟩ := isBoundary_iff.mp hq
  have hne : (p - l.start) / l.granule ≠ (q - l.start) / l.granule := by
    intro heq
    have hsub : p - l.start = q - l.start := by
      rw [← Nat.div_mul_cancel hpd, heq, Nat.div_mul_cancel hqd]
    lia
  simp only [headerAddr, Header.width]
  lia

namespace Valid

variable {l : Layout} {memory : Nat} (h : l.Valid memory)

include h

theorem granule_pos : 0 < l.granule := Nat.pos_of_ne_zero h.granule_ne_zero

/-! ### Footprints -/

omit h in
theorem dvd_footprint (size : Nat) : l.granule ∣ l.footprint size := Nat.dvd_mul_left _ _

/-- A footprint has room for the payload, and for one byte at least. -/
theorem le_footprint (size : Nat) : max size 1 ≤ l.footprint size := by
  have hpos := h.granule_pos
  have hdiv := Nat.div_add_mod (max size 1 + l.granule - 1) l.granule
  have hmod := Nat.mod_lt (max size 1 + l.granule - 1) hpos
  rw [Nat.mul_comm] at hdiv
  simp only [footprint]
  lia

theorem footprint_pos (size : Nat) : 0 < l.footprint size :=
  (Nat.le_max_right _ _).trans (h.le_footprint size)

theorem size_le_footprint (size : Nat) : size ≤ l.footprint size :=
  (Nat.le_max_left _ _).trans (h.le_footprint size)

/-! ### The header table -/

/-- The header table and the region have no byte in common. -/
theorem region_subset_compl_table : l.region ⊆ l.tableᶜ := by
  rintro i ⟨hstart, hstop⟩ ⟨htable, htableStop⟩
  rcases h.table_apart with hapart | hapart
  · lia
  · lia

/-- The granule of a boundary is one of those that the table has words for. -/
theorem granule_index_lt {p : Addr} (hp : l.isBoundary p) :
    (p - l.start) / l.granule < l.granuleCount := by
  obtain ⟨h₁, h₂, -⟩ := isBoundary_iff.mp hp
  have hdvd : l.granule ∣ l.stop - l.start := Nat.dvd_of_mod_eq_zero h.whole_granules
  apply Nat.div_lt_of_lt_mul
  rw [granuleCount, Nat.mul_div_cancel' hdvd]
  lia

/-- The header word of a granule lies in the table. -/
theorem headerAddr_subset_table {p : Addr} (hp : l.isBoundary p) :
    Set.Ico (l.headerAddr p) (l.headerAddr p + 4) ⊆ l.table := by
  have hi := h.granule_index_lt hp
  apply Set.Ico_subset_Ico
  · exact Nat.le_add_right _ _
  · simp only [headerAddr, tableSize, Header.width]
    lia

/-- The header word of a granule lies in the memory. -/
theorem headerAddr_add_le {p : Addr} (hp : l.isBoundary p) : l.headerAddr p + 4 ≤ memory := by
  have hi := h.granule_index_lt hp
  have ht := h.table_le
  simp only [headerAddr, tableSize, Header.width] at ht ⊢
  lia

end Valid

end MarkSweep.Layout
