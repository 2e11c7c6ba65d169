import Mathlib.Data.List.Perm.Subperm
import MarkSweep.Proofs.Marking.Steps

/-!
# Markings under way

Between the visits of a marking its heap is the heap with which it began, in which the objects that
it has marked have their marks (`Marking.Underway`). This needs no more of the heap than a valid
map. Objects without a mark are then those that are pending: the marking has not marked them, and
they had no mark before (`Underway.mark_eq_false_iff`).
-/

namespace MarkSweep

namespace BlockHeap

/-- Objects without a mark. -/
def Unmarked (h : BlockHeap) (p : Addr) : Prop := h.owns p ∧ (h.headerAt p).mark = false

instance (h : BlockHeap) : DecidablePred h.Unmarked := fun p =>
  inferInstanceAs (Decidable (h.owns p ∧ (h.headerAt p).mark = false))

variable {h : BlockHeap} {ps : List Addr} {p : Addr}

/-- There are no more objects than blocks. -/
theorem length_le_of_forall_owns (hnodup : ps.Nodup) (hps : ∀ p ∈ ps, h.owns p) :
    ps.length ≤ h.map.blocks.length := by
  have hsub : ps ⊆ h.map.blocks.map (·.start) := by
    intro p hp
    obtain ⟨b, hb, rfl⟩ := owns_iff.mp (hps p hp)
    exact List.mem_map_of_mem hb
  calc ps.length ≤ (h.map.blocks.map (·.start)).length :=
        (List.subperm_of_subset hnodup hsub).length_le
    _ = h.map.blocks.length := List.length_map _

/-- After marking some objects, those without a mark are the others that had none before. -/
theorem mark_markAll_eq_false_iff (hm : h.Mapped) (hps : ∀ q ∈ ps, h.owns q) (hp : h.owns p) :
    ((h.markAll ps).headerAt p).mark = false ↔ p ∉ ps ∧ h.Unmarked p := by
  rw [headerAt_markAll hm hps (hm.boundary hp)]
  split
  next hmem => simp [hmem, Header.setMark]
  next hmem => simp [hmem, Unmarked, hp]

end BlockHeap

namespace Marking

open BlockHeap

/-- What holds of a marking that began on the heap `h`, between two visits. -/
structure Underway (h : BlockHeap) (m : Marking BlockHeap) : Prop where
  heap_eq : m.heap = h.markAll m.marked
  nodup : m.marked.Nodup
  marked_unmarked : ∀ p ∈ m.marked, h.Unmarked p
  queue_owned : ∀ p ∈ m.queue, h.owns p

/-- An object that the marking has not marked yet, and that had no mark when it began. -/
def Pending (h : BlockHeap) (m : Marking BlockHeap) (p : Addr) : Prop :=
  h.Unmarked p ∧ p ∉ m.marked

instance (h : BlockHeap) (m : Marking BlockHeap) : DecidablePred (Pending h m) := fun p =>
  inferInstanceAs (Decidable (h.Unmarked p ∧ p ∉ m.marked))

variable {h : BlockHeap} {m : Marking BlockHeap} {p : Addr} {rest qs : List Addr}

theorem underway_start (h : BlockHeap) : Underway h (start h) where
  heap_eq := rfl
  nodup := List.nodup_nil
  marked_unmarked := by simp [start]
  queue_owned := by simp [start]

/-- A heap has less blocks than a marking may visit, for no block starts at 0. -/
theorem length_blocks_lt_budget (hm : h.Mapped) (hmemory : h.memory.size ≤ UInt32.size) :
    h.map.blocks.length < Marking.budget := by
  have hle := hm.map.length_blocks_add_le
  have hstart := hm.layout.start_ne_zero
  have hregion := hm.layout.stop_le
  rw [Marking.budget]
  lia

namespace Underway

variable (hu : Underway h m)

include hu

theorem owns_eq (p : Addr) : m.heap.owns p = h.owns p := by
  rw [hu.heap_eq, owns_markAll]

/-- What has been marked is owned. -/
theorem marked_owned : ∀ p ∈ m.marked, h.owns p := fun p hp => (hu.marked_unmarked p hp).1

/-- No more objects are marked than there are blocks. -/
theorem length_marked_le : m.marked.length ≤ h.map.blocks.length :=
  length_le_of_forall_owns hu.nodup hu.marked_owned

/-- Where an object is pending, there is one more block than has been marked. -/
theorem length_marked_lt (hp : Pending h m p) : m.marked.length < h.map.blocks.length :=
  length_le_of_forall_owns (List.nodup_cons.mpr ⟨hp.2, hu.nodup⟩)
    (List.forall_mem_cons.mpr ⟨hp.1.1, hu.marked_owned⟩)

/-- An object may be taken from the queue without a visit. -/
theorem skip (hqueue : m.queue = p :: rest) : Underway h { m with queue := rest } where
  heap_eq := hu.heap_eq
  nodup := hu.nodup
  marked_unmarked := hu.marked_unmarked
  queue_owned q hq := hu.queue_owned q (by simp [hqueue, hq])

/-- An object that is pending may be marked. -/
theorem visited (hp : Pending h m p) : Underway h (m.visited p) where
  heap_eq := by
    rw [Marking.visited, hu.heap_eq, markAll_cons, markAll_cons, markAll_nil]
  nodup := List.nodup_cons.mpr ⟨hp.2, hu.nodup⟩
  marked_unmarked := List.forall_mem_cons.mpr ⟨hp.1, hu.marked_unmarked⟩
  queue_owned := hu.queue_owned

/-- Objects may join the queue at any time, also those that have a mark. -/
theorem enqueue (hqs : ∀ q ∈ qs, h.owns q) : Underway h (enqueue qs m) where
  heap_eq := hu.heap_eq
  nodup := hu.nodup
  marked_unmarked := hu.marked_unmarked
  queue_owned := List.forall_mem_append.mpr ⟨hu.queue_owned, hqs⟩

variable (hm : h.Mapped)

include hm

theorem mapped : m.heap.Mapped := by
  rw [hu.heap_eq]
  exact mapped_markAll hm m.marked

/-- The objects without a mark are those that are pending. -/
theorem mark_eq_false_iff (hp : h.owns p) : (m.heap.headerAt p).mark = false ↔ Pending h m p := by
  rw [hu.heap_eq, mark_markAll_eq_false_iff hm hu.marked_owned hp]
  exact and_comm

/-- An object that is not pending has a mark. -/
theorem mark_of_not_pending (hp : h.owns p) (hnot : ¬ Pending h m p) :
    (m.heap.headerAt p).mark = true := by
  rw [← Bool.not_eq_false, hu.mark_eq_false_iff hm hp]
  exact hnot

/-- The header of a pending object is what it was in the beginning. -/
theorem headerAt_eq (hp : Pending h m p) : m.heap.headerAt p = h.headerAt p := by
  rw [hu.heap_eq, headerAt_markAll hm hu.marked_owned (hm.boundary hp.1.1), if_neg hp.2]

/-- The headers of objects can be read all the time. -/
theorem header_eq (hp : h.owns p) : Heap.header m.heap p = .ok (m.heap.headerAt p) :=
  (hu.mapped hm).header_eq ((hu.owns_eq p).trans hp)

/-- Of children of which none dangles, those that are queued are the pending ones. -/
theorem filter_children (hqs : ∀ q ∈ qs, h.isDangling q = false) :
    (qs.filter fun q => !q.isNull && !(m.heap.headerAt q).mark) =
      qs.filter fun q => Pending h m q := by
  refine List.filter_congr fun q hq => ?_
  rcases isDangling_eq_false.mp (hqs q hq) with rfl | hown
  · have hnull : ¬ Pending h m 0 := fun hp => hm.ne_zero hp.1.1 rfl
    simp [hnull, Addr.isNull]
  · have hiff := hu.mark_eq_false_iff hm hown
    rw [Bool.eq_iff_iff, decide_eq_true_eq, ← hiff]
    simp [Addr.isNull, hm.ne_zero hown]

omit hm in
theorem valid (hv : h.Valid) : m.heap.Valid := by
  rw [hu.heap_eq]
  exact valid_markAll hv hu.marked_owned

end Underway

end Marking

end MarkSweep
