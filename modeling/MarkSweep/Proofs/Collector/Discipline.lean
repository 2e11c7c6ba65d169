import MarkSweep.Proofs.Collector.Run

/-!
# Disciplined programs

A program is disciplined when it keeps in its roots only what is null or an object, writes only into
its objects, leaves each of them with references of the same kind, and allocates only what refers
to nothing while it is zero. A collector that serves such a program never refuses a collection, and
an allocation only for lack of room (`Collector.Disciplined.sound`).

The invariant is `Collector.Closed`: no object has a mark, and from the roots and from all objects
only objects are referred to. It is kept by a collection (`Closed.exists_collect`), by the placing
of a new object (`Closed.placed`), by operations on the roots (`Closed.roots_after`) and by writes
(`Closed.written`).
-/

namespace MarkSweep.Collector

open BlockHeap Marking

/-- Requests of a disciplined program. -/
def Request.Careful (c : Collector BlockHeap) : Request → Prop
  | allocate tag size =>
    let v := c.tracers.visit tag (Array.replicate size 0)
    v.failure = none ∧ ∀ q ∈ v.children, q = 0
  | collect => True
  | roots op => ∀ p ∈ op.addresses, p = 0 ∨ c.heap.owns p
  | write a bytes => ∃ p, c.heap.owns p ∧
      Set.Ico a (a + bytes.length) ⊆ Set.Ico p (p + (c.heap.headerAt p).size) ∧
        let v := (c.written a bytes).heap.visitAt c.tracers p
        v.failure = none ∧ ∀ q ∈ v.children, q = 0 ∨ c.heap.owns q

/-- The states of collectors whose heaps are new, in memories of 32-bit addresses, and what the
requests of a disciplined program make of them. -/
inductive Disciplined : Collector BlockHeap → Prop where
  | start {memory : Memory} {layout : Layout} {heap : BlockHeap} (tracers : TracerMap)
      (trigger : Trigger) (memory_le : memory.size ≤ UInt32.size)
      (created : BlockHeap.create memory layout = .ok heap) :
      Disciplined (.start heap tracers trigger)
  | step {c : Collector BlockHeap} (request : Request) (disciplined : Disciplined c)
      (careful : request.Careful c) : Disciplined (request.run.after c)

/-- Roots and objects refer to nothing but objects, and all objects can be traced. -/
structure Sound (c : Collector BlockHeap) : Prop where
  roots : ∀ p ∈ c.roots.roots, p = 0 ∨ c.heap.owns p
  traced : ∀ p, c.heap.owns p → (c.heap.visitAt c.tracers p).failure = none
  children : ∀ p, c.heap.owns p → ∀ q ∈ (c.heap.visitAt c.tracers p).children,
    q = 0 ∨ c.heap.owns q

/-- The invariant of a collector that serves a disciplined program. -/
structure Closed (c : Collector BlockHeap) : Prop extends Sound c where
  valid : c.heap.Valid
  unmarked : ∀ p, c.heap.owns p → (c.heap.headerAt p).mark = false

namespace Closed

variable {c : Collector BlockHeap} {p : Addr} {tag : Tag} {size : Nat} {heap : BlockHeap}

/-- No object of a disciplined program has a defect. -/
theorem defectAt_eq_none (hc : Closed c) (hp : c.heap.owns p) :
    c.heap.defectAt c.tracers p = none :=
  defectAt_eq_none_iff.mpr ⟨hc.traced p hp, hc.children p hp⟩

/-- A collector that has done nothing yet has nothing that could be broken. -/
theorem of_create {memory : Memory} {layout : Layout} (tracers : TracerMap) (trigger : Trigger)
    (hmemory : memory.size ≤ UInt32.size) (hcreated : create memory layout = .ok heap) :
    Closed (.start heap tracers trigger) := by
  have hnone : ∀ p, ¬ heap.owns p := by
    intro p hp
    obtain ⟨b, hb, -⟩ := BlockHeap.owns_iff.mp hp
    rw [(create_eq_ok hcreated).2.2.2] at hb
    simp [BlockMap.blocks, BlockMap.empty] at hb
  refine ⟨⟨?_, ?_, ?_⟩, valid_of_create hmemory hcreated, ?_⟩
  · simp [start, RootSet.roots, RootSet.empty]
  · exact fun p hp => absurd hp (hnone p)
  · exact fun p hp => absurd hp (hnone p)
  · exact fun p hp => absurd hp (hnone p)

/-- A collection is not refused, for nothing is wrong with what it can reach. What it keeps refers
only to what it keeps. -/
theorem exists_collect (hc : Closed c) : ∃ r c', collect c = .ok r c' ∧ Closed c' := by
  rcases collect_cases hc.valid with ⟨ps, h', hcomplete, hcollected, hok⟩ | ⟨e, ps, hhalted, -⟩
  · refine ⟨_, _, hok, ?_⟩
    -- Without marks from before, what is kept is what has been reached.
    have hkept : ∀ p, h'.owns p → p ∈ ps ∧ c.heap.owns p := by
      intro p hp
      obtain ⟨hown, hmem⟩ := hcollected.owns_iff.mp hp
      exact ⟨hmem.resolve_right (by simp [hc.unmarked p hown]), hown⟩
    have hreached : ∀ p, c.heap.Reaches c.tracers c.roots.roots p → h'.owns p := fun p hp =>
      hcollected.owns_iff.mpr ⟨hp.admitted.1, .inl (hcomplete.mem_iff.mpr hp)⟩
    refine ⟨⟨?_, ?_, ?_⟩, hcollected.valid, fun p hp => hcollected.mark_eq_false hp⟩
    · intro p hp
      rcases hc.roots p hp with hnull | hown
      · exact .inl hnull
      · exact .inr (hreached p (.root hp ⟨hown, hc.unmarked p hown⟩))
    · intro p hp
      rw [hcollected.visitAt_eq hc.valid c.tracers hp]
      exact hc.traced p (hkept p hp).2
    · intro p hp q hq
      rw [hcollected.visitAt_eq hc.valid c.tracers hp] at hq
      rcases hc.children p (hkept p hp).2 q hq with hnull | hown
      · exact .inl hnull
      · have hreach := hcomplete.mem_iff.mp (hkept p hp).1
        exact .inr (hreached q (.child hreach hq ⟨hown, hc.unmarked q hown⟩))
  · -- Whatever the marking would have been refused for is ruled out by the invariant.
    exfalso
    rcases hhalted.cause with ⟨p, hp, hdangling, -⟩ | ⟨p, hreach, hdefect⟩
    · rw [isDangling_eq_false.mpr (hc.roots p hp)] at hdangling
      contradiction
    · rw [hc.defectAt_eq_none hreach.admitted.1] at hdefect
      contradiction

/-- A new object refers to nothing, and the others are as before. -/
theorem placed (hc : Closed c) (hclean : (Request.allocate tag size).Careful c)
    (hplaced : Allocated tag size p c.heap heap) : Closed (c.placed p heap) := by
  obtain ⟨hfailure, hnull⟩ := hclean
  have hnew : heap.visitAt c.tracers p = c.tracers.visit tag (Array.replicate size 0) := by
    rw [visitAt, hplaced.headerAt_self, hplaced.payloadAt_self, Header.fresh]
  -- The objects that were there have not changed; the new one has null references only.
  have hold : ∀ q, c.heap.owns q → heap.visitAt c.tracers q = c.heap.visitAt c.tracers q := by
    intro q hq
    rw [visitAt, hplaced.headerAt_eq hc.valid hq, hplaced.payloadAt_eq hc.valid hq, visitAt]
  have hstay : ∀ q, q = 0 ∨ c.heap.owns q → q = 0 ∨ heap.owns q := fun q =>
    Or.imp_right fun hq => hplaced.owns_iff.mpr (.inr hq)
  refine ⟨⟨?_, ?_, ?_⟩, hplaced.valid, ?_⟩
  · intro q hq
    rcases RootSet.mem_roots_hold hq with hq | rfl
    · exact hstay q (hc.roots q hq)
    · exact .inr (hplaced.owns_iff.mpr (.inl rfl))
  · intro q hq
    change (heap.visitAt c.tracers q).failure = none
    rcases hplaced.owns_iff.mp hq with rfl | hq
    · rw [hnew]
      exact hfailure
    · rw [hold q hq]
      exact hc.traced q hq
  · intro q hq s hs
    change s ∈ (heap.visitAt c.tracers q).children at hs
    rcases hplaced.owns_iff.mp hq with rfl | hq
    · rw [hnew] at hs
      exact .inl (hnull s hs)
    · rw [hold q hq] at hs
      exact hstay s (hc.children q hq s hs)
  · intro q hq
    change (heap.headerAt q).mark = false
    rcases hplaced.owns_iff.mp hq with rfl | hq
    · rw [hplaced.headerAt_self]
      rfl
    · rw [hplaced.headerAt_eq hc.valid hq]
      exact hc.unmarked q hq

/-- A disciplined change of the roots keeps the invariant. -/
theorem roots_after (hc : Closed c) {op : RootSet.Op} (hop : (Request.roots op).Careful c) :
    Closed { c with roots := op.run.after c.roots } := by
  refine ⟨⟨?_, hc.traced, hc.children⟩, hc.valid, hc.unmarked⟩
  intro p hp
  rcases RootSet.Op.mem_roots hp with hp | hp
  · exact hc.roots p hp
  · exact hop p hp

/-- A write into an object changes neither a header nor another object. -/
theorem written (hc : Closed c) {a : Addr} {bytes : List UInt8}
    (hwrite : (Request.write a bytes).Careful c) : Closed (c.written a bytes) := by
  obtain ⟨p, hown, hinside, hfailure, hchildren⟩ := hwrite
  have hagree := (agreeOn_written a bytes c).mono (Set.compl_subset_compl.mpr hinside)
  have htable : c.heap.memory.AgreeOn c.heap.layout.table (c.written a bytes).heap.memory := by
    refine hagree.mono (Set.subset_compl_comm.mp ?_)
    exact (hc.valid.object_subset_region hown).trans hc.valid.layout.region_subset_compl_table
  have hheader : ∀ q, c.heap.owns q →
      (c.written a bytes).heap.headerAt q = c.heap.headerAt q := fun q hq =>
    headerAt_congr _ hc.valid.layout rfl htable (hc.valid.boundary hq)
  -- Another object has its bytes elsewhere.
  have hother : ∀ q, c.heap.owns q → q ≠ p →
      (c.written a bytes).heap.visitAt c.tracers q = c.heap.visitAt c.tracers q := by
    intro q hq hqp
    have hpayload : (c.written a bytes).heap.payloadAt q = c.heap.payloadAt q := by
      refine payloadAt_congr (congrArg Header.size (hheader q hq)) (hagree.mono ?_)
      exact hc.valid.object_subset_compl_object hown hq hqp
    rw [visitAt, hheader q hq, hpayload, visitAt]
  refine ⟨⟨hc.roots, ?_, ?_⟩, hc.valid.of_agreeOn htable, ?_⟩
  · intro q hq
    by_cases hqp : q = p
    · exact hqp ▸ hfailure
    · exact (congrArg Visit.failure (hother q hq hqp)).trans (hc.traced q hq)
  · intro q hq s hs
    by_cases hqp : q = p
    · exact hchildren s (hqp ▸ hs)
    · exact hc.children q hq s (hother q hq hqp ▸ hs)
  · intro q hq
    rw [hheader q hq]
    exact hc.unmarked q hq

end Closed

/-- Every state of a disciplined program is closed. -/
theorem Disciplined.closed {c : Collector BlockHeap} (h : Disciplined c) : Closed c := by
  induction h with
  | start tracers trigger hmemory hcreated => exact .of_create tracers trigger hmemory hcreated
  | @step c request _ hcareful ih =>
    have hcollect : Closed (collect.after c) := by
      obtain ⟨r, c', hok, hc'⟩ := ih.exists_collect
      rwa [Action.after_of_eq_ok hok]
    cases request with
    | allocate tag size =>
      rw [Request.run, Action.after_discard]
      -- What a careful allocation is depends on the tracers alone, and those never change.
      have hcareful' : (Request.allocate tag size).Careful (collect.after c) := by
        rw [Request.Careful, tracers_collect ih.valid]
        exact hcareful
      refine (after_allocate (P := fun c' => Closed c' ∧ (Request.allocate tag size).Careful c')
        tag size ih.valid ⟨ih, hcareful⟩ ⟨hcollect, hcareful'⟩ ?_).1
      rintro c' p heap - ⟨hc', hclean⟩ hplaced
      exact ⟨hc'.placed hclean hplaced, hclean⟩
    | collect =>
      rw [Request.run, Action.after_discard]
      exact hcollect
    | roots op =>
      rw [after_roots]
      exact ih.roots_after hcareful
    | write a bytes =>
      rw [after_write]
      exact ih.written hcareful

/-- A disciplined program never sees its heap in disorder. Roots and objects refer to nothing but
objects at any time, also after a collection; no collection is refused, and an allocation only for
lack of room or for its size. -/
theorem Disciplined.no_integrity_error {c : Collector BlockHeap} (h : Disciplined c) :
    Sound c ∧ (∃ r c', collect c = .ok r c' ∧ Sound c') ∧
      ∀ tag size, (∃ p c', allocate tag size c = .ok p c') ∨
        (∃ c', allocate tag size c = .error (.outOfMemory size) c') ∨
          ∃ c', allocate tag size c = .error (.payloadTooLarge size) c' := by
  obtain ⟨r, c', hcollect, hc'⟩ := h.closed.exists_collect
  refine ⟨h.closed.toSound, ⟨r, c', hcollect, hc'.toSound⟩, fun tag size => ?_⟩
  rcases allocate_cases h.closed.valid tag size with
    htoo | ⟨e, c'', hhalt, -⟩ | ⟨c'', -, hnone | ⟨p, heap, -, hok⟩⟩
  · exact .inr (.inr ⟨c, htoo⟩)
  · rw [hcollect] at hhalt
    contradiction
  · exact .inr (.inl ⟨c'', hnone⟩)
  · exact .inl ⟨p, _, hok⟩

/-- Of two cells one is held, and refers to the other. -/
theorem no_integrity_error_small :
    let c := (small.serve [.allocate .cell 4, .roots .openScope, .allocate .cell 4]).written 16
      [8, 0, 0, 0]
    Disciplined c ∧ Sound c ∧ collect c = .ok ⟨2, ⟨0, 0, 2⟩⟩ (collect.after c) ∧
      Sound (collect.after c) := by
  intro c
  have hstart : Disciplined small :=
    @Disciplined.start (.filled 56 0) { start := 8, stop := 40 } _ _ _ (by decide) rfl
  have hfirst : Disciplined (small.serve [.allocate .cell 4]) := by
    refine hstart.step (.allocate .cell 4) ?_
    rw [Request.Careful]
    decide +kernel
  have hscope : Disciplined (small.serve [.allocate .cell 4, .roots .openScope]) := by
    refine hfirst.step (.roots .openScope) ?_
    simp [Request.Careful, RootSet.Op.addresses]
  have hsecond : Disciplined
      (small.serve [.allocate .cell 4, .roots .openScope, .allocate .cell 4]) := by
    refine hscope.step (.allocate .cell 4) ?_
    rw [Request.Careful]
    decide +kernel
  have hdisciplined : Disciplined c := by
    have hwrite := hsecond.step (.write 16 [8, 0, 0, 0])
      ⟨16, by decide +kernel, Set.Ico_subset_Ico_right (by decide +kernel), by decide +kernel⟩
    rwa [after_write] at hwrite
  have hcollect : collect c = .ok ⟨2, ⟨0, 0, 2⟩⟩ (collect.after c) :=
    Action.eq_ok_of_answer? (by decide +kernel)
  obtain ⟨hsound, ⟨r, c', hok, hsound'⟩, -⟩ := hdisciplined.no_integrity_error
  rw [← Action.after_of_eq_ok hok] at hsound'
  exact ⟨hdisciplined, hsound, hcollect, hsound'⟩

end MarkSweep.Collector
