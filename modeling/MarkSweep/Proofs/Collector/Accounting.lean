import Mathlib.Algebra.GroupWithZero.Nat
import MarkSweep.Proofs.Collector.Run

/-!
# Every allocation is accounted for once

Three parts of a collector keep count: the totals count allocations and collections, each sweep
reports what it has released, and the heap knows how much of it is in use. Over a whole run the
counts balance (`Collector.Run.accounted`). What has been allocated is in use or has been released
by exactly one completed collection, by the number of blocks and by bytes.

The reports and the footprints of a run are read off the requests (`Request.reports`,
`Request.footprints`). A collection that an allocation runs counts as well, also when there is no
room afterwards; one that is refused does not, whatever marks it leaves.
-/

namespace MarkSweep.Collector

open BlockHeap

namespace Request

/-- The state in which the request starts a collection, if it does. An allocation does when it has
found no room, and the trigger allows it. -/
def collectsIn (c : Collector BlockHeap) : Request → Option (Collector BlockHeap)
  | collect => some c
  | allocate tag size =>
    match c.trigger, onHeap (Heap.allocate tag size) c with
    | .onExhaustion, .ok none c' => some c'
    | _, _ => none
  | _ => none

/-- The report of the collection that is completed in the course of the request, if there is one. -/
def reports (c : Collector BlockHeap) (request : Request) : List Collection :=
  ((request.collectsIn c).bind Collector.collect.answer?).toList

/-- The size of the block that the request is answered with, if there is one. -/
def footprints (c : Collector BlockHeap) : Request → List Nat
  | allocate tag size =>
    match Collector.allocate tag size c with
    | .ok _ _ => [c.heap.layout.footprint size]
    | .error _ _ => []
  | _ => []

end Request

/-- A run of a collector over a new heap, in a memory of 32-bit addresses, with the reports of its
completed collections and the footprints of its objects, the latest first. -/
inductive Run : Collector BlockHeap → List Collection → List Nat → Prop where
  | start {memory : Memory} {layout : Layout} {heap : BlockHeap} (tracers : TracerMap)
      (trigger : Trigger) (memory_le : memory.size ≤ UInt32.size)
      (created : BlockHeap.create memory layout = .ok heap) :
      Run (.start heap tracers trigger) [] []
  | request {c : Collector BlockHeap} {reports : List Collection} {footprints : List Nat}
      (run : Run c reports footprints) (request : Request) (admissible : request.Admissible c) :
      Run (request.run.after c) (request.reports c ++ reports)
        (request.footprints c ++ footprints)

/-- The counts of a run balance. -/
structure Accounted (c : Collector BlockHeap) (reports : List Collection) (footprints : List Nat) :
    Prop where
  /-- Every object that was allocated is in use or has been released by a collection. -/
  allocations_eq : c.totals.allocations =
    (Heap.usage c.heap).usedBlocks + (reports.map (·.sweep.freedBlocks)).sum
  /-- So are all bytes that were handed out. -/
  footprints_sum : footprints.sum =
    (Heap.usage c.heap).usedBytes + (reports.map (·.sweep.freedBytes)).sum
  footprints_length : footprints.length = c.totals.allocations
  collections_eq : c.totals.collections = reports.length
  /-- The totals show what the last of the collections has reported. -/
  last_eq : ∀ r ∈ reports.head?, c.totals.lastMarked = r.marked ∧
    c.totals.lastFreed = r.sweep.freedBlocks ∧ c.totals.lastReclaimed = r.sweep.freedBytes

/-- A collection that the next request completes reports as many live blocks as are in use when it
is over. -/
def ReportsLive (c : Collector BlockHeap) : Prop :=
  ∀ (request : Request) (d d' : Collector BlockHeap) (r : Collection),
    request.collectsIn c = some d → Collector.collect d = .ok r d' →
      r.sweep.liveBlocks = (Heap.usage d'.heap).usedBlocks

variable {c c' d : Collector BlockHeap} {reports : List Collection} {footprints : List Nat}
  {ps : List Addr} {h h' heap : BlockHeap} {tag : Tag} {size : Nat} {p : Addr} {r : Collection}

/-! ### What a collection and an allocation count -/

/-- A sweep tells how many blocks and bytes have gone, and how many blocks are left. -/
structure Told (h h' : BlockHeap) (s : Sweep) : Prop where
  usedBlocks_eq : (Heap.usage h).usedBlocks = (Heap.usage h').usedBlocks + s.freedBlocks
  usedBytes_eq : (Heap.usage h).usedBytes = (Heap.usage h').usedBytes + s.freedBytes
  liveBlocks_eq : s.liveBlocks = (Heap.usage h').usedBlocks

/-- The counter of a valid heap shows how many blocks are in use. -/
theorem usedBlocks_eq (hv : h.Valid) : (Heap.usage h).usedBlocks = h.map.blocks.length :=
  hv.map.usedBlocks_eq

/-- The counter of a valid heap shows how many bytes the blocks in use have. -/
theorem usedBytes_eq (hv : h.Valid) :
    (Heap.usage h).usedBytes = Extent.totalSize h.map.blocks :=
  hv.map.usedBytes_eq

/-- A collection tells truly what has gone from its heap and what is left. -/
theorem told_of_collected (hv : h.Valid) (hps : ∀ q ∈ ps, h.owns q) (hc : Collected ps h h') :
    Told h h' ((h.markAll ps).tally h.map.blocks) := by
  -- The blocks that are kept and those that have gone are all the blocks, in another order.
  have hperm := List.filter_append_perm (fun b : Extent => h'.owns b.start) h.map.blocks
  rw [← hc.blocks_eq_filter_owns] at hperm
  rw [hc.tally_eq hv hps]
  refine ⟨?_, ?_, (usedBlocks_eq hc.valid).symm⟩
  · rw [usedBlocks_eq hv, usedBlocks_eq hc.valid, ← hperm.length_eq, List.length_append]
  · rw [usedBytes_eq hv, usedBytes_eq hc.valid, ← Extent.totalSize_perm hperm,
      Extent.totalSize_append]

namespace Accounted

variable (hb : Accounted c reports footprints)

include hb

/-- What a collection releases goes over from the heap to the reports. -/
theorem collected (htold : Told c.heap h' r.sweep) :
    Accounted { c with heap := h', totals := c.totals.countCollection r } (r :: reports)
      footprints := by
  refine ⟨?_, ?_, hb.footprints_length, congrArg (· + 1) hb.collections_eq, ?_⟩
  · calc c.totals.allocations
      _ = (Heap.usage h').usedBlocks + r.sweep.freedBlocks +
          (reports.map (·.sweep.freedBlocks)).sum := by
        rw [hb.allocations_eq, htold.usedBlocks_eq]
      _ = (Heap.usage h').usedBlocks + ((r :: reports).map (·.sweep.freedBlocks)).sum := by
        rw [List.map_cons, List.sum_cons, Nat.add_assoc]
  · calc footprints.sum
      _ = (Heap.usage h').usedBytes + r.sweep.freedBytes +
          (reports.map (·.sweep.freedBytes)).sum := by
        rw [hb.footprints_sum, htold.usedBytes_eq]
      _ = (Heap.usage h').usedBytes + ((r :: reports).map (·.sweep.freedBytes)).sum := by
        rw [List.map_cons, List.sum_cons, Nat.add_assoc]
  · rintro _ ⟨⟩
    exact ⟨rfl, rfl, rfl⟩

/-- A new object is counted when the heap has it. -/
theorem placed (hv : c.heap.Valid) (ha : Allocated tag size p c.heap heap) :
    Accounted (c.placed p heap) reports (c.heap.layout.footprint size :: footprints) := by
  have hblocks : (Heap.usage heap).usedBlocks = (Heap.usage c.heap).usedBlocks + 1 := by
    rw [usedBlocks_eq ha.valid, usedBlocks_eq hv, ha.blocks_perm.length_eq, List.length_cons]
  have hbytes : (Heap.usage heap).usedBytes =
      c.heap.layout.footprint size + (Heap.usage c.heap).usedBytes := by
    rw [usedBytes_eq ha.valid, usedBytes_eq hv, Extent.totalSize_perm ha.blocks_perm,
      Extent.totalSize]
  refine ⟨?_, ?_, congrArg (· + 1) hb.footprints_length, hb.collections_eq, hb.last_eq⟩
  · show c.totals.allocations + 1 = (Heap.usage heap).usedBlocks + _
    rw [hb.allocations_eq, hblocks, Nat.add_right_comm]
  · show _ = (Heap.usage heap).usedBytes + _
    rw [List.sum_cons, hb.footprints_sum, hbytes, Nat.add_assoc]

variable (hv : c.heap.Valid)

include hv

/-- A collection keeps the counts in balance, completed or refused. -/
theorem collect : Accounted (Action.after Collector.collect c)
    ((Collector.collect.answer? c).toList ++ reports) footprints := by
  rcases collect_cases hv with ⟨ps, h', hcomplete, hc, hok⟩ | ⟨e, ps, -, herror⟩
  · rw [Action.after_of_eq_ok hok, Action.answer?, hok]
    exact hb.collected (told_of_collected hv hcomplete.owns hc)
  · -- A collection that is refused is not counted and releases nothing.
    have husage : Heap.usage (c.heap.markAll ps) = Heap.usage c.heap := by
      simp only [Heap.usage, usage, markAll_map, markAll_layout]
    rw [Action.after_of_eq_error herror, Action.answer?, herror]
    refine ⟨?_, ?_, hb.footprints_length, hb.collections_eq, hb.last_eq⟩
    · show _ = (Heap.usage (c.heap.markAll ps)).usedBlocks + _
      rw [husage]
      exact hb.allocations_eq
    · show _ = (Heap.usage (c.heap.markAll ps)).usedBytes + _
      rw [husage]
      exact hb.footprints_sum

/-! ### Requests and runs -/

/-- An allocation keeps the counts in balance, with a collection in between or without. -/
theorem allocate (tag : Tag) (size : Nat) :
    Accounted ((Request.allocate tag size).run.after c)
      ((Request.allocate tag size).reports c ++ reports)
      ((Request.allocate tag size).footprints c ++ footprints) := by
  rw [Request.run, Action.after_discard, Request.reports, Request.footprints, Request.collectsIn]
  rcases allocate_courses hv.mapped tag size with
    ⟨hfirst, htoo⟩ | ⟨p, ⟨hle, hfit⟩, hfirst, hok⟩ |
      ⟨hfirst, ⟨htrigger, hnone⟩ | ⟨htrigger, ⟨e, c', he, herror⟩ | ⟨r, c', hr, hretry⟩⟩⟩
  · -- The size is refused at once.
    rw [Action.after_of_eq_error htoo, hfirst, htoo]
    simpa using hb
  · -- There is room at once.
    rw [Action.after_of_eq_ok hok, hfirst, hok]
    simpa using hb.placed hv (allocated_withObject hfit hv tag hle)
  · -- There is no room, and nothing is collected.
    rw [Action.after_of_eq_error hnone, hfirst, hnone, htrigger]
    exact hb
  · -- The collection is refused, and the allocation with it.
    have hcollect := hb.collect hv
    rw [Action.after_of_eq_error he] at hcollect
    rw [Action.after_of_eq_error herror, hfirst, herror, htrigger]
    exact hcollect
  · -- The collection is completed, and the second attempt finds room or does not.
    have hcollect := hb.collect hv
    have hafter := Action.after_of_eq_ok hr
    have hv' : c'.heap.Valid := hafter ▸ valid_collect hv
    have hlayout : c'.heap.layout = c.heap.layout := hafter ▸ layout_collect hv
    rw [hafter] at hcollect
    rw [hfirst, htrigger]
    rcases hretry with hnone | ⟨p, ⟨hle, hfit⟩, hok⟩
    · rw [Action.after_of_eq_error hnone, hnone]
      exact hcollect
    · rw [Action.after_of_eq_ok hok, hok, ← hlayout]
      exact hcollect.placed hv' (allocated_withObject hfit hv' tag hle)

/-- Every request keeps the balance. -/
theorem request (request : Request) :
    Accounted (request.run.after c) (request.reports c ++ reports)
      (request.footprints c ++ footprints) := by
  cases request with
  | allocate tag size => exact hb.allocate hv tag size
  | collect =>
    rw [Request.run, Action.after_discard]
    exact hb.collect hv
  | roots op =>
    rw [after_roots]
    exact { hb with }
  | write a bytes =>
    rw [after_write]
    exact { hb with }

end Accounted

/-- Nothing has been counted at the beginning. -/
theorem accounted_start {memory : Memory} {layout : Layout} (tracers : TracerMap)
    (trigger : Trigger) (hcreated : BlockHeap.create memory layout = .ok heap) :
    Accounted (.start heap tracers trigger) [] [] := by
  obtain ⟨-, -, -, hmap⟩ := create_eq_ok hcreated
  refine ⟨?_, ?_, rfl, rfl, nofun⟩
  · simp [start, Totals.zero, Heap.usage, usage, hmap, BlockMap.empty]
  · simp [start, Heap.usage, usage, hmap, BlockMap.empty]

/-- A request that collects does so in the state it has found. -/
theorem Request.eq_of_collectsIn {request : Request} (hm : c.heap.Mapped)
    (hd : request.collectsIn c = some d) : d = c := by
  cases request with
  | allocate tag size =>
    rw [collectsIn] at hd
    -- Only a first attempt that finds no room is followed by a collection, and it changes nothing.
    rcases allocate_courses hm tag size with ⟨hfirst, -⟩ | ⟨p, -, hfirst, -⟩ | ⟨hfirst, -⟩ <;>
      rw [hfirst] at hd
    · simp at hd
    · simp at hd
    · cases htrigger : c.trigger with
      | manual => simp [htrigger] at hd
      | onExhaustion => simpa [htrigger, eq_comm] using hd
  | collect => exact (Option.some.inj hd).symm
  | roots op => contradiction
  | write a bytes => contradiction

/-- On a valid heap, what a collection reports as live is what is in use afterwards. -/
theorem reportsLive_of_valid (hv : c.heap.Valid) : c.ReportsLive := by
  intro request d d' r hd hr
  obtain rfl := Request.eq_of_collectsIn hv.mapped hd
  rcases collect_cases hv with ⟨ps, h', hcomplete, hc, hok⟩ | ⟨e, ps, -, herror⟩
  · rw [hr] at hok
    obtain ⟨rfl, rfl⟩ := EStateM.Result.ok.inj hok
    exact (told_of_collected hv hcomplete.owns hc).liveBlocks_eq
  · rw [hr] at herror
    contradiction

namespace Run

/-- What a run leads to is reachable. -/
theorem reachable (hr : Run c reports footprints) : Reachable c := by
  induction hr with
  | start tracers trigger hmemory hcreated => exact .start tracers trigger hmemory hcreated
  | request _ request hadmissible ih => exact ih.step ⟨request, hadmissible, rfl⟩

/-- What has been allocated is in use or has been released by one collection, at every moment of
every run, and each collection reports what it leaves in use. -/
theorem accounted (hr : Run c reports footprints) :
    Accounted c reports footprints ∧ c.ReportsLive := by
  refine ⟨?_, reportsLive_of_valid hr.reachable.valid⟩
  induction hr with
  | start tracers trigger _ hcreated => exact accounted_start tracers trigger hcreated
  | request hrun request _ ih => exact ih.request hrun.reachable.valid request

end Run

/-- Two objects are dropped. A dangling root has a collection refused, and when it is gone, an
allocation collects the two. The next allocation collects as well, and still finds no room. -/
theorem accounted_small : ∃ c reports footprints, Run c reports footprints ∧
    footprints = [32, 16, 8] ∧ reports = [⟨1, ⟨0, 0, 1⟩⟩, ⟨0, ⟨2, 24, 0⟩⟩] ∧
    Accounted c reports footprints ∧ c.ReportsLive := by
  have r₀ : Run small [] [] :=
    @Run.start (.filled 56 0) { start := 8, stop := 40 } _ _ _ (by decide) rfl
  have r₁ := (r₀.request (.allocate .cell 4) trivial).request (.allocate .blob 16) trivial
  have r₂ := (r₁.request (.roots .enter) trivial).request (.roots (.bindSlot 0 24)) trivial
  have r₃ := (r₂.request .collect trivial).request (.roots .leave) trivial
  have r₄ := (r₃.request (.roots .openScope) trivial).request (.allocate .blob 32) trivial
  have r₅ := r₄.request (.allocate .cell 4) trivial
  exact ⟨_, _, _, r₅, by decide +kernel, by decide +kernel, r₅.accounted⟩

end MarkSweep.Collector
