import Mathlib.Data.List.Basic
import MarkSweep.Proofs.AuditedHeap.Exposed

/-!
# What the report of an audited sweep tells

An audited sweep answers with the report of the heap. That report counts blocks, and the record
counts entries, so for each of its numbers there is one that the record could hold against it. Blocks
that are not on record and entries whose blocks have gone make the numbers differ
(`AuditedHeap.report_balance`), and a sweep that succeeds need not have noticed
(`AuditedHeap.report_unaccounted`). The numbers agree exactly if these two cancel out
(`AuditedHeap.report_accounts_iff`).
-/

namespace MarkSweep.AuditedHeap

open MarkSweep.Action
open BlockHeap (owns_iff)

/-- The blocks in use that are not on record. -/
def strays (a : AuditedHeap BlockHeap) : List Extent :=
  a.inner.map.blocks.filter fun b => !a.isTracked b.start

/-- The entries whose blocks are not in use any more. -/
def missing (a : AuditedHeap BlockHeap) : List Entry :=
  a.entries.filter fun e => !a.inner.owns e.addr

/-- The entries of one record that another one does not have. -/
def struckOff (a b : AuditedHeap BlockHeap) : List Entry :=
  a.entries.filter fun e => !b.isTracked e.addr

variable {a b : AuditedHeap BlockHeap} {h : BlockHeap} {p : Addr} {report : Sweep}

/-- A sweep that succeeds has treated all blocks, reports what the heap has counted and strikes the
entries off whose blocks are not there afterwards. -/
theorem treated_of_sweep_eq_ok (hm : a.inner.Mapped) (hok : sweep a = .ok report b) :
    report = a.inner.tally a.inner.map.blocks ∧ ∃ h,
      BlockHeap.Treated a.inner.map.blocks a.inner h ∧
        b = { a with inner := h, entries := a.entries.filter (h.owns ·.addr) } := by
  have hcourse := sweep_course hm
  rw [hok] at hcourse
  -- Of all courses that a sweep can take, one ends with an answer.
  cases hcourse with
  | completed _ hswept _ _ =>
    obtain ⟨-, rfl, htreated⟩ := BlockHeap.treated_of_eq_ok hm hswept
    exact ⟨rfl, _, htreated, rfl⟩

/-- The blocks on record and the entries with blocks are the same number, also of those at certain
addresses. -/
theorem length_filter_tracked (ha : a.Orderly) (Q : Addr → Bool) :
    (a.inner.map.blocks.filter fun c => a.isTracked c.start && Q c.start).length =
      (a.entries.filter fun e => a.inner.owns e.addr && Q e.addr).length := by
  -- Both sides count addresses that are in use and on record, each of them once.
  have hstarts := ha.mapped.map.nodup_starts
  have hperm : ((a.inner.map.blocks.map (·.start)).filter fun p => a.isTracked p && Q p).Perm
      ((a.entries.map (·.addr)).filter fun p => a.inner.owns p && Q p) := by
    refine (List.perm_ext_iff_of_nodup (hstarts.filter _) (ha.nodup.filter _)).mpr fun p => ?_
    have howns : p ∈ a.inner.map.blocks.map (·.start) ↔ a.inner.owns p := by
      rw [owns_iff, List.mem_map]
    simp only [List.mem_filter, Bool.and_eq_true, howns, isTracked_iff]
    tauto
  have hlength := hperm.length_eq
  rwa [List.filter_map, List.filter_map, List.length_map, List.length_map] at hlength

/-- A block is on record or a stray. -/
theorem length_filter_blocks (ha : a.Orderly) (Q : Addr → Bool) :
    (a.inner.map.blocks.filter fun c => Q c.start).length =
      (a.entries.filter fun e => a.inner.owns e.addr && Q e.addr).length +
        (a.strays.filter fun c => Q c.start).length := by
  rw [List.length_eq_length_filter_add fun c : Extent => a.isTracked c.start, List.filter_filter,
    length_filter_tracked ha, strays, List.filter_comm]

/-- Struck off are the entries whose blocks are not there afterwards. -/
theorem struckOff_filter (a : AuditedHeap BlockHeap) (h : BlockHeap) :
    a.struckOff { a with inner := h, entries := a.entries.filter (h.owns ·.addr) } =
      a.entries.filter fun e => !h.owns e.addr := by
  refine List.filter_congr fun e he => congrArg Bool.not ?_
  rw [Bool.eq_iff_iff, isTracked_iff, List.mem_map]
  constructor
  · rintro ⟨e', he', haddr⟩
    exact haddr ▸ (List.mem_filter.mp he').2
  · intro howns
    exact ⟨e, List.mem_filter.mpr ⟨he, howns⟩, rfl⟩

/-- An entry that is not of a block in use at certain addresses is missing, or of a block at another
address. -/
theorem length_filter_not_owned_and (a : AuditedHeap BlockHeap) (Q : Addr → Bool) :
    (a.entries.filter fun e => !(a.inner.owns e.addr && Q e.addr)).length =
      (a.entries.filter fun e => a.inner.owns e.addr && !Q e.addr).length + a.missing.length := by
  have howned : ∀ e : Entry, (a.inner.owns e.addr && !(a.inner.owns e.addr && Q e.addr)) =
      (a.inner.owns e.addr && !Q e.addr) := fun e => by cases a.inner.owns e.addr <;> rfl
  have hgone : ∀ e : Entry, (!a.inner.owns e.addr && !(a.inner.owns e.addr && Q e.addr)) =
      !a.inner.owns e.addr := fun e => by cases a.inner.owns e.addr <;> rfl
  rw [List.length_eq_length_filter_add fun e : Entry => a.inner.owns e.addr, List.filter_filter,
    List.filter_filter]
  simp only [howned, hgone, missing]

/-- What a sweep frees and what it strikes off the record differ by the strays and the missing; what
it keeps and what is left on record differ by the strays. -/
theorem report_balance (ha : a.Orderly) (hok : sweep a = .ok report b) :
    report.freedBlocks + a.missing.length = (a.struckOff b).length +
        (a.strays.filter fun c => !(a.inner.headerAt c.start).mark).length ∧
      report.liveBlocks = b.entries.length +
        (a.strays.filter fun c => (a.inner.headerAt c.start).mark).length := by
  obtain ⟨rfl, h, htreated, rfl⟩ := treated_of_sweep_eq_ok ha.mapped hok
  -- Whether a block is still there has been decided by its mark, so all numbers count marks.
  constructor
  · have hfreed := length_filter_blocks ha fun p => !(a.inner.headerAt p).mark
    have hstruck := length_filter_not_owned_and a fun p => (a.inner.headerAt p).mark
    rw [struckOff_filter]
    simp only [htreated.owns_eq, BlockHeap.tally, hfreed, hstruck]
    exact Nat.add_right_comm ..
  · have hlive := length_filter_blocks ha fun p => (a.inner.headerAt p).mark
    simp only [htreated.owns_eq, BlockHeap.tally, hlive]

/-- After a sweep that has succeeded, the report names as many blocks freed as entries have been
struck off exactly if there were as many strays without a mark as entries without a block. It names
as many blocks live as there are entries left exactly if no stray had a mark. -/
theorem report_accounts_iff (ha : Exposed a) (hok : sweep a = .ok report b) :
    (report.freedBlocks = (a.struckOff b).length ↔
      (a.strays.filter fun c => !(a.inner.headerAt c.start).mark).length = a.missing.length) ∧
    (report.liveBlocks = b.entries.length ↔
      ∀ c ∈ a.strays, (a.inner.headerAt c.start).mark = false) := by
  obtain ⟨hfreed, hlive⟩ := report_balance ha.orderly hok
  constructor
  · omega
  · have hnone : (∀ c ∈ a.strays, (a.inner.headerAt c.start).mark = false) ↔
        (a.strays.filter fun c => (a.inner.headerAt c.start).mark).length = 0 := by
      simp
    rw [hnone]
    omega

/-- A block on record is given back behind the record, and another one is handed out there. One
block is freed then and one entry struck off, though the two have nothing to do with each other. -/
theorem report_accounts_small :
    let a := (onInner (BlockHeap.Request.free 8).run).after <|
      (onInner (BlockHeap.Request.alloc 8).run).after <|
        (Heap.Request.allocate .cell 4).run.after (start BlockHeap.History.small.heap)
    Exposed a ∧ ∃ b, sweep a = .ok ⟨1, 8, 0⟩ b ∧ (a.struckOff b).length = 1 := by
  intro a
  have ha : Exposed a :=
    (((@Exposed.start (.filled 56 0xFF) { start := 8, stop := 40 } _ (by decide) rfl).request
      (.allocate .cell 4)).bypass (.alloc 8)).bypass (.free 8)
  have hok : sweep a = .ok ⟨1, 8, 0⟩ (sweep.after a) := eq_ok_of_answer? (by decide +kernel)
  obtain ⟨hfreed, -⟩ := report_accounts_iff ha hok
  have hcancel : (a.strays.filter fun c => !(a.inner.headerAt c.start).mark).length =
      a.missing.length := by
    decide +kernel
  exact ⟨ha, sweep.after a, hok, (hfreed.mpr hcancel).symm⟩

/-- A sweep may succeed although what it reports is not what has become of the record. -/
theorem report_unaccounted : ¬ ∀ (a b : AuditedHeap BlockHeap) (report : Sweep), Exposed a →
    sweep a = .ok report b →
      report.freedBlocks = (a.struckOff b).length ∧ report.liveBlocks = b.entries.length := by
  intro hclaim
  -- The only block has been handed out behind an empty record.
  let a := (onInner (BlockHeap.Request.alloc 4).run).after (start BlockHeap.History.small.heap)
  have ha : Exposed a :=
    (@Exposed.start (.filled 56 0xFF) { start := 8, stop := 40 } _ (by decide) rfl).bypass
      (.alloc 4)
  have hok : sweep a = .ok ⟨1, 8, 0⟩ (sweep.after a) := eq_ok_of_answer? (by decide +kernel)
  obtain ⟨hfreed, -⟩ := hclaim a (sweep.after a) ⟨1, 8, 0⟩ ha hok
  have hstruck : (a.struckOff (sweep.after a)).length = 0 := by decide +kernel
  exact Nat.one_ne_zero (hfreed.trans hstruck)

end MarkSweep.AuditedHeap
