import MarkSweep.Proofs.Collector.Collection
import MarkSweep.Proofs.RootSet

/-!
# Runs of a collector

A program uses a collector by requests: it allocates, collects, changes its roots, and writes the
memory outside the header table. `Collector.Step` is one request, whether it is refused or not, and
`Collector.Reachable` are the states that a collector with a new heap can come to.

In all of them the heap is valid (`Collector.Reachable.valid`). What a request does to the state is
said once for each kind of request (`after_collect`, `after_allocate`, `after_roots`,
`after_write`); an invariant of runs is proved from there.
-/

namespace MarkSweep

namespace Collector

open BlockHeap

/-- What a program can ask of a collector. -/
inductive Request where
  | allocate (tag : Tag) (size : Nat)
  | collect
  | roots (op : RootSet.Op)
  | write (a : Addr) (bytes : List UInt8)

namespace Request

/-- Carries the request out. The answer is not needed. -/
def run : Request → Action (Collector BlockHeap) Unit
  | allocate tag size => discard (Collector.allocate tag size)
  | collect => discard Collector.collect
  | roots op => onRoots op.run
  | write a bytes => onHeap (onMemory (modify fun m => m.overwrite a bytes))

/-- Programs do not write the header table. -/
def Admissible (c : Collector BlockHeap) : Request → Prop
  | write a bytes => Set.Ico a (a + bytes.length) ⊆ c.heap.layout.tableᶜ
  | _ => True

end Request

/-- A request takes the collector from one state to the next. -/
def Step (c c' : Collector BlockHeap) : Prop :=
  ∃ request : Request, request.Admissible c ∧ c' = request.run.after c

/-- The states of collectors whose heaps are new, in memories of 32-bit addresses, and what requests
make of them. -/
inductive Reachable : Collector BlockHeap → Prop where
  | start {memory : Memory} {layout : Layout} {heap : BlockHeap} (tracers : TracerMap)
      (trigger : Trigger) (memory_le : memory.size ≤ UInt32.size)
      (created : BlockHeap.create memory layout = .ok heap) :
      Reachable (.start heap tracers trigger)
  | step {c c' : Collector BlockHeap} (reachable : Reachable c) (step : Step c c') : Reachable c'

/-! ### What a request does to the state -/

/-- The collector with other bytes in its memory. -/
def written (a : Addr) (bytes : List UInt8) (c : Collector BlockHeap) : Collector BlockHeap :=
  { c with heap := { c.heap with memory := c.heap.memory.overwrite a bytes } }

variable {c c' : Collector BlockHeap} {P : Collector BlockHeap → Prop}

theorem after_write (a : Addr) (bytes : List UInt8) (c : Collector BlockHeap) :
    (Request.write a bytes).run.after c = c.written a bytes := by
  apply Action.after_of_eq_ok
  rw [Request.run, onHeap_apply, onMemory_apply, Action.modify_apply]
  rfl

theorem after_roots (op : RootSet.Op) (c : Collector BlockHeap) :
    (Request.roots op).run.after c = { c with roots := op.run.after c.roots } := by
  obtain ⟨heap, roots, tracers, trigger, totals⟩ := c
  simp only [Request.run, Action.after, onRoots, Action.within]
  cases op.run roots <;> rfl

/-- A collection leaves a collected heap behind, or it has done no more than to set some marks. -/
theorem after_collect (hv : c.heap.Valid)
    (hcollected : ∀ ps h' r, Marking.Complete c.tracers c.roots.roots c.heap ps →
      Collected ps c.heap h' →
        P { c with heap := h', totals := c.totals.countCollection r })
    (hhalted : ∀ ps e, Marking.Halted c.tracers c.roots.roots c.heap ps e →
      P { c with heap := c.heap.markAll ps }) : P (collect.after c) := by
  rcases collect_cases hv with ⟨ps, h', hcomplete, hc, hcollect⟩ | ⟨e, ps, hh, hcollect⟩
  · rw [Action.after_of_eq_ok hcollect]
    exact hcollected ps h' _ hcomplete hc
  · rw [Action.after_of_eq_error hcollect]
    exact hhalted ps e hh

/-- A collection keeps the heap valid, completed or refused. -/
theorem valid_collect (hv : c.heap.Valid) : (collect.after c).heap.Valid := by
  refine after_collect (P := fun c' => c'.heap.Valid) hv ?_ ?_
  · intro ps h' r _ hc
    exact hc.valid
  · intro ps e hh
    exact valid_markAll hv hh.owns

/-- A collection has no part in how objects are traced. -/
theorem tracers_collect (hv : c.heap.Valid) : (collect.after c).tracers = c.tracers :=
  after_collect (P := fun c' => c'.tracers = c.tracers) hv (fun _ _ _ _ _ => rfl) fun _ _ _ => rfl

/-- A collection does not change the roots. -/
theorem roots_collect (hv : c.heap.Valid) : (collect.after c).roots = c.roots :=
  after_collect (P := fun c' => c'.roots = c.roots) hv (fun _ _ _ _ _ => rfl) fun _ _ _ => rfl

theorem layout_collect (hv : c.heap.Valid) : (collect.after c).heap.layout = c.heap.layout :=
  after_collect (P := fun c' => c'.heap.layout = c.heap.layout) hv
    (fun _ _ _ _ hc => hc.layout_eq) fun _ _ _ => markAll_layout _ _

/-- What holds of a collector, is kept by a collection and is kept when a new object is placed,
holds after an allocation. -/
theorem after_allocate (tag : Tag) (size : Nat) (hv : c.heap.Valid) (hc : P c)
    (hcollect : P (collect.after c))
    (hplace : ∀ c' p heap, c'.heap.Valid → P c' → Allocated tag size p c'.heap heap →
      P (c'.placed p heap)) : P ((allocate tag size).after c) := by
  rcases allocate_cases hv tag size with
    htoo | ⟨e, c', hhalt, herror⟩ | ⟨c', hc', hnone | ⟨p, heap, hplaced, hok⟩⟩
  · rwa [Action.after_of_eq_error htoo]
  · rwa [Action.after_of_eq_error herror, ← Action.after_of_eq_error hhalt]
  · rw [Action.after_of_eq_error hnone]
    rcases hc' with rfl | ⟨r, hr⟩
    · exact hc
    · rwa [← Action.after_of_eq_ok hr]
  · -- The object is placed at once, or when a collection has made room.
    rw [Action.after_of_eq_ok hok]
    rcases hc' with rfl | ⟨r, hr⟩
    · exact hplace _ p heap hv hc hplaced
    · have hafter := Action.after_of_eq_ok hr
      exact hplace c' p heap (hafter ▸ valid_collect hv) (hafter ▸ hcollect) hplaced

/-! ### The invariant of the heap -/

/-- A write outside the header table leaves the headers and all other bytes. -/
theorem agreeOn_written (a : Addr) (bytes : List UInt8) (c : Collector BlockHeap) :
    c.heap.memory.AgreeOn (Set.Ico a (a + bytes.length))ᶜ (c.written a bytes).heap.memory :=
  c.heap.memory.agreeOn_overwrite a bytes

/-- Each step keeps the heap valid. -/
theorem Step.valid (hs : Step c c') (hv : c.heap.Valid) : c'.heap.Valid := by
  obtain ⟨request, hadmissible, rfl⟩ := hs
  cases request with
  | allocate tag size =>
    rw [Request.run, Action.after_discard]
    refine after_allocate (P := fun c' => c'.heap.Valid) tag size hv hv (valid_collect hv) ?_
    intro c' p heap _ _ hplaced
    exact hplaced.valid
  | collect =>
    rw [Request.run, Action.after_discard]
    exact valid_collect hv
  | roots op =>
    rw [after_roots]
    exact hv
  | write a bytes =>
    rw [after_write]
    exact hv.of_agreeOn ((agreeOn_written a bytes c).mono (Set.subset_compl_comm.mp hadmissible))

/-- The heap of a collector is valid, whatever has been asked of it. -/
theorem Reachable.valid (h : Reachable c) : c.heap.Valid := by
  induction h with
  | start _ _ hmemory hcreated => exact valid_of_create hmemory hcreated
  | step _ hstep ih => exact hstep.valid ih

/-! ### Requests in a row -/

/-- What a list of requests makes of a collector. -/
def serve (requests : List Request) (c : Collector BlockHeap) : Collector BlockHeap :=
  requests.foldl (fun c request => request.run.after c) c

/-- A run can go on with any requests that are admissible in every state. -/
theorem Reachable.serve {requests : List Request} (h : Reachable c)
    (hadmissible : ∀ request ∈ requests, ∀ c, request.Admissible c) :
    Reachable (c.serve requests) := by
  induction requests generalizing c with
  | nil => exact h
  | cons request rest ih =>
    rw [List.forall_mem_cons] at hadmissible
    exact ih (h.step ⟨request, hadmissible.1 c, rfl⟩) hadmissible.2

/-- A collector over a region of four granules, with the header table right behind the region. -/
def small : Collector BlockHeap :=
  .standard ⟨{ start := 8, stop := 40 }, .filled 56 0, .empty 8⟩

theorem reachable_small : Reachable small :=
  @Reachable.start (.filled 56 0) { start := 8, stop := 40 } _ _ _ (by decide) rfl

end Collector

end MarkSweep
