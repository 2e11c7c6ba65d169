import MarkSweep.Proofs.Marking.Underway

/-!
# What a marking marks

A marking on a valid heap either ends with exactly the objects marked that can be reached from the
roots through objects without a mark, or is refused for a root or for a reached object
(`run_cases`). The heap never makes it fail, and neither does the budget.

`Explored` is the invariant of the loop: what has been marked can be reached, and whatever can be
reached in one step from there has been marked or waits in the queue. Steps of the loop keep it
(`Explored.skip`, `Explored.visit`), and with an empty queue it says that nothing has been left out
(`Explored.mem_marked_iff`).
-/

namespace MarkSweep

namespace BlockHeap

/-- Objects that can be reached from the roots through objects without a mark. -/
def Reaches (h : BlockHeap) (tracers : TracerMap) (roots : List Addr) : Addr → Prop :=
  Reach h.Unmarked (fun p => (h.visitAt tracers p).children) roots

variable {h : BlockHeap} {ps : List Addr} {p : Addr}

/-- After marking some objects, a child that had no mark before is one of them or still has none. -/
theorem mem_or_mem_filter_unmarked {children : List Addr} (hv : h.Valid)
    (hps : ∀ q ∈ ps, h.owns q) (hp : p ∈ children) (hunmarked : h.Unmarked p) :
    p ∈ ps ∨ p ∈ children.filter fun q => !q.isNull && !((h.markAll ps).headerAt q).mark := by
  by_cases hin : p ∈ ps
  · exact .inl hin
  · have hclear := (mark_markAll_eq_false_iff hv.mapped hps hunmarked.1).mpr ⟨hin, hunmarked⟩
    refine .inr (List.mem_filter.mpr ⟨hp, ?_⟩)
    simp [hclear, Addr.isNull, hv.ne_zero hunmarked.1]

end BlockHeap

namespace Marking

open BlockHeap

/-- What holds of a marking that began on the heap `h`, whenever it looks for the next object. -/
structure Explored (tracers : TracerMap) (roots : List Addr) (h : BlockHeap)
    (m : Marking BlockHeap) : Prop where
  heap_eq : m.heap = h.markAll m.marked
  nodup : m.marked.Nodup
  reached : ∀ p ∈ m.marked, h.Reaches tracers roots p
  sound : ∀ p ∈ m.marked, h.defectAt tracers p = none
  queue_owned : ∀ p ∈ m.queue, h.owns p
  queue_reached : ∀ p ∈ m.queue, h.Unmarked p → h.Reaches tracers roots p
  roots_seen : ∀ p ∈ roots, h.Unmarked p → p ∈ m.marked ∨ p ∈ m.queue
  children_seen : ∀ p ∈ m.marked, ∀ q ∈ (h.visitAt tracers p).children, h.Unmarked q →
    q ∈ m.marked ∨ q ∈ m.queue

variable {tracers : TracerMap} {roots : List Addr} {h : BlockHeap} {m : Marking BlockHeap}
  {p : Addr} {front rest : List Addr} {budget : Nat}

namespace Explored

/-- A marking that has explored what it has seen is underway. -/
theorem underway (hm : Explored tracers roots h m) : Underway h m :=
  ⟨hm.heap_eq, hm.nodup, fun p hp => (hm.reached p hp).admitted, hm.queue_owned⟩

/-- What is wrong with an object can be told from the heap as it was at first. -/
theorem defectAt_eq (hm : Explored tracers roots h m) (hv : h.Valid) (hp : h.owns p) :
    m.heap.defectAt tracers p = h.defectAt tracers p := by
  rw [hm.heap_eq]
  exact defectAt_markAll hv hm.underway.marked_owned tracers hp

/-- A tracer finds what it would have found in the heap as it was at first. -/
theorem visitAt_eq (hm : Explored tracers roots h m) (hv : h.Valid) (hp : h.owns p) :
    m.heap.visitAt tracers p = h.visitAt tracers p := by
  rw [hm.heap_eq]
  exact visitAt_markAll hv hm.underway.marked_owned tracers hp

/-- Objects that have a mark need not wait. -/
theorem skip (hm : Explored tracers roots h m) (hv : h.Valid) (hqueue : m.queue = front ++ rest)
    (hfront : ∀ p ∈ front, (m.heap.headerAt p).mark) :
    Explored tracers roots h { m with queue := rest } := by
  have hrest : ∀ p ∈ rest, p ∈ m.queue := fun p hp => by simp [hqueue, hp]
  have hseen : ∀ q, h.Unmarked q → q ∈ m.marked ∨ q ∈ m.queue → q ∈ m.marked ∨ q ∈ rest := by
    intro q hq hin
    rcases hin with hin | hin
    · exact .inl hin
    · rw [hqueue, List.mem_append] at hin
      rcases hin with hin | hin
      · -- What is skipped has a mark: it had one before, or this marking has set it.
        by_contra hout
        rw [not_or] at hout
        have hmark := (hm.underway.mark_eq_false_iff hv.mapped hq.1).mpr ⟨hq, hout.1⟩
        exact absurd (hfront q hin) (by simp [hmark])
      · exact .inr hin
  refine ⟨hm.heap_eq, hm.nodup, hm.reached, hm.sound, ?_, ?_, ?_, ?_⟩
  · exact fun p hp => hm.queue_owned p (hrest p hp)
  · exact fun p hp => hm.queue_reached p (hrest p hp)
  · exact fun p hp hunmarked => hseen p hunmarked (hm.roots_seen p hp hunmarked)
  · exact fun p hp q hq hunmarked => hseen q hunmarked (hm.children_seen p hp q hq hunmarked)

/-- A visit to a sound object keeps the invariant. -/
theorem visit (hm : Explored tracers roots h m) (hv : h.Valid) (hqueue : m.queue = p :: rest)
    (hmark : (m.heap.headerAt p).mark = false) (hsound : h.defectAt tracers p = none) :
    let m' := Marking.visited p { m with queue := rest }
    Explored tracers roots h (enqueue ((h.visitAt tracers p).children.filter fun q =>
      !q.isNull && !(m'.heap.headerAt q).mark) m') := by
  have hp : p ∈ m.queue := by simp [hqueue]
  have hown := hm.queue_owned p hp
  obtain ⟨hunmarked, hnew⟩ := (hm.underway.mark_eq_false_iff hv.mapped hown).mp hmark
  have hreached := hm.queue_reached p hp hunmarked
  have hheap : m.heap.markAll [p] = h.markAll (p :: m.marked) := by
    rw [markAll_cons, markAll_nil, hm.heap_eq, markAll_cons]
  have howned : ∀ q ∈ p :: m.marked, h.owns q :=
    List.forall_mem_cons.mpr ⟨hown, hm.underway.marked_owned⟩
  have hchildren := (defectAt_eq_none_iff.mp hsound).2
  simp only [visited, enqueue, hheap]
  -- What has been seen before stays seen; only `p` moves, from the queue to the marked objects.
  have hseen : ∀ q, q ∈ m.marked ∨ q ∈ m.queue →
      q ∈ p :: m.marked ∨ q ∈ rest ++ (h.visitAt tracers p).children.filter fun q =>
        !q.isNull && !((h.markAll (p :: m.marked)).headerAt q).mark := by
    intro q hin
    rw [hqueue] at hin
    simp only [List.mem_cons, List.mem_append] at hin ⊢
    tauto
  refine ⟨rfl, List.nodup_cons.mpr ⟨hnew, hm.nodup⟩, ?_, ?_, ?_, ?_, ?_, ?_⟩
  · exact List.forall_mem_cons.mpr ⟨hreached, hm.reached⟩
  · exact List.forall_mem_cons.mpr ⟨hsound, hm.sound⟩
  · refine List.forall_mem_append.mpr ⟨fun q hq => hm.queue_owned q (by simp [hqueue, hq]), ?_⟩
    -- The children that join the queue are not null, and none of the children dangles.
    intro q hq
    obtain ⟨hmem, hclear⟩ := List.mem_filter.mp hq
    have hnull : q ≠ 0 := by
      rintro rfl
      simp [Addr.isNull] at hclear
    exact (hchildren q hmem).resolve_left hnull
  · refine List.forall_mem_append.mpr ⟨fun q hq => hm.queue_reached q (by simp [hqueue, hq]), ?_⟩
    intro q hq hunmarked'
    exact .child hreached (List.mem_filter.mp hq).1 hunmarked'
  · exact fun q hq hq' => hseen q (hm.roots_seen q hq hq')
  · refine List.forall_mem_cons.mpr ⟨fun q hq hq' => ?_, ?_⟩
    · -- A child of `p` waits in the queue now, unless the visit has just marked it.
      rcases mem_or_mem_filter_unmarked hv howned hq hq' with hin | hin
      · exact .inl hin
      · exact .inr (List.mem_append.mpr (.inr hin))
    · exact fun r hr q hq hq' => hseen q (hm.children_seen r hr q hq hq')

/-- The loop begins with the roots in the queue, as far as they are not null, and nothing marked. -/
theorem start (hv : h.Valid) (hroots : ∀ p ∈ roots, p = 0 ∨ h.owns p) :
    Explored tracers roots h (enqueue (roots.filter fun p => !p.isNull) (Marking.start h)) := by
  refine ⟨rfl, List.nodup_nil, by simp [Marking.start, enqueue],
    by simp [Marking.start, enqueue], ?_, ?_, ?_, by simp [Marking.start, enqueue]⟩
  · intro p hp
    obtain ⟨hmem, hnull⟩ := List.mem_filter.mp hp
    exact (hroots p hmem).resolve_left (by simpa [Addr.isNull] using hnull)
  · intro p hp hunmarked
    exact .root (List.mem_filter.mp hp).1 hunmarked
  · intro p hp hunmarked
    refine .inr (List.mem_filter.mpr ⟨hp, ?_⟩)
    simp [Addr.isNull, hv.ne_zero hunmarked.1]

/-- When nothing waits, exactly the objects that can be reached have been marked. -/
theorem mem_marked_iff (hm : Explored tracers roots h m) (hqueue : m.queue = []) :
    p ∈ m.marked ↔ h.Reaches tracers roots p := by
  refine ⟨hm.reached p, fun hp => ?_⟩
  refine hp.mem_of_closed (S := {q | q ∈ m.marked}) ?_ ?_
  · intro q hq hunmarked
    simpa [hqueue] using hm.roots_seen q hq hunmarked
  · intro q hq r hr hunmarked
    simpa [hqueue] using hm.children_seen q hq r hr hunmarked

end Explored

/-- One turn of the loop: nothing is left to visit, or the first object in the queue without a mark
is visited. -/
theorem visitAll_step (hm : Explored tracers roots h m) (hv : h.Valid) :
    (visitAll tracers budget m = .ok () { m with queue := [] } ∧
      Explored tracers roots h { m with queue := [] }) ∨
    ∃ p rest, Explored tracers roots h { m with queue := p :: rest } ∧
      (m.heap.headerAt p).mark = false ∧
      visitAll tracers budget m = match budget with
        | 0 => .error (.corruptHeader p .markLost) m
        | budget + 1 => (do
            Marking.visit tracers p (m.heap.headerAt p)
            visitAll tracers budget) { m with queue := rest } := by
  have howned : ∀ p ∈ m.queue, m.heap.owns p := fun p hp =>
    (hm.underway.owns_eq p).trans (hm.queue_owned p hp)
  rcases nextUnmarked_cases (hm.underway.valid hv).mapped howned with
    ⟨hnone, hall⟩ | ⟨front, p, rest, hqueue, hfront, hmark, hsome⟩
  · -- Everything that waits has a mark, and the loop passes over it.
    refine .inl ⟨?_, hm.skip hv (List.append_nil _).symm hall⟩
    have hask : Action.ask (fun m : Marking BlockHeap => nextUnmarked m.heap m.queue) m =
        .ok none m := Action.ask_of_eq_ok hnone
    rw [visitAll, Action.bind_apply, hask]
    rfl
  · -- What waits in front of the next object has a mark.
    refine .inr ⟨p, rest, hm.skip hv hqueue hfront, hmark, ?_⟩
    have hask : Action.ask (fun m : Marking BlockHeap => nextUnmarked m.heap m.queue) m =
        .ok (some (p, m.heap.headerAt p, rest)) m := Action.ask_of_eq_ok hsome
    rw [visitAll, Action.bind_apply, hask]
    cases budget <;> rfl

/-- The loop ends: with nothing left to visit, or at an object with which something is wrong. A
budget for all objects that have no mark yet is enough. -/
theorem visitAll_cases (hm : Explored tracers roots h m) (hv : h.Valid)
    (hbudget : h.map.blocks.length ≤ budget + m.marked.length) :
    (∃ m', visitAll tracers budget m = .ok () m' ∧ Explored tracers roots h m' ∧ m'.queue = []) ∨
    ∃ e m', visitAll tracers budget m = .error e m' ∧ m'.heap = h.markAll m'.marked ∧
      (∀ p ∈ m'.marked, h.Reaches tracers roots p) ∧
        ∃ p ∈ m'.marked, h.defectAt tracers p = some e := by
  induction budget generalizing m with
  | zero =>
    rcases visitAll_step hm hv with ⟨hdone, hm'⟩ | ⟨p, rest, hm', hmark, -⟩
    · exact .inl ⟨_, hdone, hm', rfl⟩
    · -- All blocks are marked already, so none is left to visit.
      exfalso
      have hown := hm'.queue_owned p List.mem_cons_self
      have hpending := (hm.underway.mark_eq_false_iff hv.mapped hown).mp hmark
      have hlt := hm.underway.length_marked_lt hpending
      omega
  | succ budget ih =>
    rcases visitAll_step hm hv with ⟨hdone, hm'⟩ | ⟨p, rest, hm', hmark, hstep⟩
    · exact .inl ⟨_, hdone, hm', rfl⟩
    · have hown := hm'.queue_owned p List.mem_cons_self
      obtain ⟨hunmarked, -⟩ := (hm.underway.mark_eq_false_iff hv.mapped hown).mp hmark
      have hreached := hm'.queue_reached p List.mem_cons_self hunmarked
      -- The visit looks at the heap as marked so far, where the object is what it was in `h`.
      have hvisit := visit_eq (m := { m with queue := rest }) tracers (hm.underway.valid hv)
        ((hm.underway.owns_eq p).trans hown)
      rw [hm.defectAt_eq hv hown, hm.visitAt_eq hv hown] at hvisit
      rw [hstep]
      simp only [Action.bind_apply, hvisit]
      cases hdefect : h.defectAt tracers p with
      | some e =>
        refine .inr ⟨e, _, rfl, ?_, List.forall_mem_cons.mpr ⟨hreached, hm.reached⟩, p,
          List.mem_cons_self, hdefect⟩
        simp only [visited, markAll_cons, markAll_nil, hm.heap_eq]
      | none =>
        -- One more object is marked, and one less may be visited.
        refine ih (hm'.visit hv rfl hmark hdefect) ?_
        simp only [enqueue, visited, List.length_cons]
        omega

/-- `ps` are the objects that can be reached from the roots, each once, and nothing is wrong with
the roots or with any of them. -/
structure Complete (tracers : TracerMap) (roots : List Addr) (h : BlockHeap) (ps : List Addr) :
    Prop where
  nodup : ps.Nodup
  mem_iff : ∀ {p}, p ∈ ps ↔ h.Reaches tracers roots p
  roots_sound : ∀ p ∈ roots, p = 0 ∨ h.owns p
  sound : ∀ p ∈ ps, h.defectAt tracers p = none

/-- `ps` are some of the objects that can be reached from the roots, and `e` is what is wrong with a
root or with an object that can be reached. -/
structure Halted (tracers : TracerMap) (roots : List Addr) (h : BlockHeap) (ps : List Addr)
    (e : Refusal) : Prop where
  reached : ∀ p ∈ ps, h.Reaches tracers roots p
  cause : (∃ p ∈ roots, h.isDangling p ∧ e = .danglingRoot p) ∨
    ∃ p, h.Reaches tracers roots p ∧ h.defectAt tracers p = some e

/-- A completed marking has marked objects only. -/
theorem Complete.owns {ps : List Addr} (hc : Complete tracers roots h ps) : ∀ p ∈ ps, h.owns p :=
  fun _ hp => (hc.mem_iff.mp hp).admitted.1

theorem Halted.owns {ps : List Addr} {e : Refusal} (hh : Halted tracers roots h ps e) :
    ∀ p ∈ ps, h.owns p :=
  fun p hp => (hh.reached p hp).admitted.1

/-- A marking from the roots marks all that can be reached, or it is refused for something that is
wrong with a root or with an object that can be reached. -/
theorem run_cases (hv : h.Valid) (tracers : TracerMap) (roots : List Addr) :
    (∃ ps, run tracers roots (.start h) = .ok () ⟨h.markAll ps, [], ps⟩ ∧
      Complete tracers roots h ps) ∨
    ∃ e m, run tracers roots (.start h) = .error e m ∧ m.heap = h.markAll m.marked ∧
      Halted tracers roots h m.marked e := by
  rcases onHeap_liveRoots_cases h roots with ⟨p, hfirst, hlive⟩ | ⟨hnone, -, hlive⟩
  · -- Nothing has been marked when the roots are checked.
    refine .inr ⟨.danglingRoot p, .start h, ?_, rfl, by simp [start], .inl ⟨p, ?_, ?_, rfl⟩⟩
    · simp only [run, Action.bind_apply, hlive]
    · exact List.mem_of_find?_eq_some hfirst
    · exact List.find?_some hfirst
  · have hroots : ∀ p ∈ roots, p = 0 ∨ h.owns p := fun p hp =>
      isDangling_eq_false.mp (by simpa using List.find?_eq_none.mp hnone p hp)
    have hstart : Explored tracers roots h
        (enqueue (roots.filter fun p => !p.isNull) (.start h)) := .start hv hroots
    have hrun : run tracers roots (.start h) = visitAll tracers Marking.budget
        (enqueue (roots.filter fun p => !p.isNull) (.start h)) := by
      simp only [run, Action.bind_apply, hlive, Action.modify_apply]
    have hbudget := (length_blocks_lt_budget hv.mapped hv.memory_le).le
    rcases visitAll_cases hstart hv (Nat.le_add_right_of_le hbudget) with
      ⟨m, hok, hm, hqueue⟩ | ⟨e, m, herror, hheap, hreached, p, hp, hdefect⟩
    · refine .inl ⟨m.marked, ?_, hm.nodup, hm.mem_marked_iff hqueue, hroots, hm.sound⟩
      rw [hrun, hok, ← hm.heap_eq, ← hqueue]
    · exact .inr ⟨e, m, hrun.trans herror, hheap, hreached, .inr ⟨p, hreached p hp, hdefect⟩⟩

end Marking

end MarkSweep
