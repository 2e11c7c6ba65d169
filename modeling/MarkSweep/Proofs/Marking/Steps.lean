import Mathlib.Data.List.TakeWhile
import MarkSweep.Proofs.Marking.Graph

/-!
# Steps of a marking

What the parts of a marking do: the check of the roots (`liveRoots_eq`), the look at the children of
an object (`Children.find_eq`), the visit to an object (`visit_eq`) and the search for the next
object in the queue (`nextUnmarked_cases`). On a valid heap none of them is refused by the heap;
what is left to refuse are references to something that is not an object (`BlockHeap.isDangling`)
and objects that cannot be traced (`BlockHeap.defectAt`).

A visit has two parts. The first marks the object and reads its payload (`Marking.reveal`), the
second passes the payload to the tracers (`Marking.follow`). Only the first depends on what the
header says; the second is the same on every heap with a valid map (`follow_eq`).
-/

namespace MarkSweep

namespace BlockHeap

/-- Whether `p` would be a reference to something that is not an object. -/
def isDangling (h : BlockHeap) (p : Addr) : Bool := !p.isNull && !h.owns p

/-- What is wrong with the object at `p`: it cannot be traced, or one of its references dangles. -/
def defectAt (h : BlockHeap) (tracers : TracerMap) (p : Addr) : Option Refusal :=
  match (h.visitAt tracers p).failure, (h.visitAt tracers p).children.find? h.isDangling with
  | some cause, _ => some (.malformedObject p (h.headerAt p).tag cause)
  | none, some q => some (.danglingReference p q)
  | none, none => none

/-- What is wrong with an object when a visit to it has found `v`. A visit that ended early counts
before a reference that dangles, and of those the first counts. -/
def defectOf (h : BlockHeap) (p : Addr) (tag : Tag) (v : Visit) : Option Refusal :=
  match v.failure, v.children.find? h.isDangling with
  | some cause, _ => some (.malformedObject p tag cause)
  | none, some q => some (.danglingReference p q)
  | none, none => none

/-- What is wrong with an object is what its visit finds. -/
theorem defectAt_eq (h : BlockHeap) (tracers : TracerMap) (p : Addr) :
    h.defectAt tracers p = h.defectOf p (h.headerAt p).tag (h.visitAt tracers p) := rfl

/-- An object with nothing wrong has no reference that dangles. -/
theorem isDangling_of_defectOf_eq_none {h : BlockHeap} {p : Addr} {tag : Tag} {v : Visit}
    (hnone : h.defectOf p tag v = none) : ∀ q ∈ v.children, h.isDangling q = false := by
  unfold defectOf at hnone
  split at hnone
  next => contradiction
  next => contradiction
  next _ hfind => simpa using List.find?_eq_none.mp hfind

/-- References to null and to what is owned do not dangle. -/
theorem isDangling_eq_false {h : BlockHeap} {p : Addr} :
    h.isDangling p = false ↔ p = 0 ∨ h.owns p := by
  simp only [isDangling, Addr.isNull, Bool.and_eq_false_iff, Bool.not_eq_false', beq_iff_eq]

@[simp]
theorem isDangling_markAll (h : BlockHeap) (ps : List Addr) :
    (h.markAll ps).isDangling = h.isDangling := by
  funext q
  rw [isDangling, owns_markAll, isDangling]

/-- Nothing is wrong with an object that can be traced and refers to objects and null only. -/
theorem defectAt_eq_none_iff {h : BlockHeap} {tracers : TracerMap} {p : Addr} :
    h.defectAt tracers p = none ↔
      (h.visitAt tracers p).failure = none ∧
        ∀ q ∈ (h.visitAt tracers p).children, q = 0 ∨ h.owns q := by
  simp only [← isDangling_eq_false]
  unfold defectAt
  split
  next cause hfailure => simp [hfailure]
  next q hfailure hfind =>
    have hmem := List.mem_of_find?_eq_some hfind
    have hdangling := List.find?_some hfind
    simp only [reduceCtorEq, false_iff, not_and, hfailure]
    -- The child that was found is the one that dangles.
    intro _ hall
    exact absurd (hall q hmem) (by simp [hdangling])
  next hfailure hfind =>
    rw [List.find?_eq_none] at hfind
    simpa [hfailure] using hfind

@[simp]
theorem defectOf_markAll (h : BlockHeap) (ps : List Addr) :
    (h.markAll ps).defectOf = h.defectOf := by
  funext p tag v
  rw [defectOf, isDangling_markAll, defectOf]

/-- On a valid heap, marking objects changes nothing about what is wrong with one. -/
theorem defectAt_markAll {h : BlockHeap} {ps : List Addr} {p : Addr} (hv : h.Valid)
    (hps : ∀ q ∈ ps, h.owns q) (tracers : TracerMap) (hp : h.owns p) :
    (h.markAll ps).defectAt tracers p = h.defectAt tracers p := by
  have htag : ((h.markAll ps).headerAt p).tag = (h.headerAt p).tag := by
    rw [headerAt_markAll hv.mapped hps (hv.boundary hp)]
    split <;> rfl
  rw [defectAt, visitAt_markAll hv hps tracers hp, isDangling_markAll, htag, defectAt]

end BlockHeap

namespace Marking

open BlockHeap

variable {h : BlockHeap}

/-- The check of the roots stops at the first root that dangles. -/
theorem liveRoots_eq (h : BlockHeap) (roots : List Addr) :
    liveRoots roots h = match roots.find? h.isDangling with
      | some p => .error (.danglingRoot p) h
      | none => .ok (roots.filter fun p => !p.isNull) h := by
  induction roots with
  | nil => rfl
  | cons p ps ih =>
    rw [liveRoots, List.find?_cons, List.filter_cons]
    cases hnull : p.isNull with
    | true => simp [hnull, ih, isDangling]
    | false =>
      have hask : Heap.askOwns p h = .ok (h.owns p) h := rfl
      cases howns : h.owns p with
      | true =>
        simp only [Bool.false_eq_true, if_false, Action.bind_apply, hask, howns,
          Action.require_true, ih, isDangling, hnull]
        cases ps.find? h.isDangling <;> rfl
      | false =>
        simp [hnull, isDangling, hask, howns]

/-- A marking is refused at once if a root dangles; otherwise the roots that are not null are
objects. -/
theorem onHeap_liveRoots_cases (h : BlockHeap) (roots : List Addr) :
    (∃ p, roots.find? h.isDangling = some p ∧
      onHeap (liveRoots roots) (start h) = .error (.danglingRoot p) (start h)) ∨
    roots.find? h.isDangling = none ∧ (∀ p ∈ roots.filter fun p => !p.isNull, h.owns p) ∧
      onHeap (liveRoots roots) (start h) = .ok (roots.filter fun p => !p.isNull) (start h) := by
  have hlive := liveRoots_eq h roots
  cases hfind : roots.find? h.isDangling with
  | some p =>
    rw [hfind] at hlive
    exact .inl ⟨p, rfl, by simp only [onHeap, Action.within, start, hlive]⟩
  | none =>
    rw [hfind] at hlive
    refine .inr ⟨rfl, fun p hp => ?_, by simp only [onHeap, Action.within, start, hlive]⟩
    obtain ⟨hmem, hnull⟩ := List.mem_filter.mp hp
    have hdangling := List.find?_eq_none.mp hfind p hmem
    exact (isDangling_eq_false.mp (by simpa using hdangling)).resolve_left
      (by simpa [Addr.isNull] using hnull)

end Marking

/-- The look at the children stops at the first one that dangles, and passes over those that are
null or marked. -/
theorem Children.find_eq {h : BlockHeap} (hm : h.Mapped) (parent : Addr) (ps : List Addr) :
    Children.find parent ps h =
      (⟨(ps.takeWhile fun p => !h.isDangling p).filter fun p =>
            !p.isNull && !(h.headerAt p).mark,
          (ps.find? h.isDangling).map (.danglingReference parent)⟩, h) := by
  induction ps with
  | nil => rfl
  | cons p ps ih =>
    rw [Children.find, List.takeWhile_cons, List.find?_cons]
    cases hnull : p.isNull with
    | true => simp [hnull, ih, BlockHeap.isDangling]
    | false =>
      have hask : Heap.owns h p = (h.owns p, h) := rfl
      cases howns : h.owns p with
      | true =>
        have hheader : Heap.header h p = .ok (h.headerAt p) := hm.header_eq howns
        simp only [hnull, hask, howns, hheader, ih, BlockHeap.isDangling]
        cases hmark : (h.headerAt p).mark <;> simp [hnull, hmark, Children.cons]
      | false =>
        simp [hnull, hask, howns, BlockHeap.isDangling, Children.stop]

namespace Marking

open BlockHeap

section Parts

variable {H : Type} [Heap H]

/-- The first part of a visit: the object is marked, and its payload is read. -/
def reveal (p : Addr) (header : Header) : Action (Marking H) Payload := do
  onHeap (Heap.setHeader p header.setMark)
  modify fun m => { m with marked := p :: m.marked }
  Action.ask fun m : Marking H => Heap.payload m.heap p

/-- The second part of a visit: the payload is passed to the tracers, and the children are
queued. -/
def follow (tracers : TracerMap) (p : Addr) (tag : Tag) (payload : Payload) :
    Action (Marking H) Unit := do
  let found := tracers.visit tag payload
  let children ← onHeap (fun heap =>
    let (children, heap) := Children.find p found.children heap
    .ok children heap)
  match found.failure, children.defect with
  | some cause, _ => throw (.malformedObject p tag cause)
  | none, some defect => throw defect
  | none, none => modify (enqueue children.unmarked)

/-- A visit may be cut where the payload has been read, before it is passed to the tracers. -/
theorem visit_eq_bind (tracers : TracerMap) (p : Addr) (header : Header) :
    (visit tracers p header : Action (Marking H) Unit) =
      reveal p header >>= follow tracers p header.tag := by
  simp only [visit, reveal, bind_assoc]
  rfl

end Parts

variable {m : Marking BlockHeap} {p : Addr}

/-- The marking after a visit to `p`: the object is marked, and nothing is queued yet. -/
def visited (p : Addr) (m : Marking BlockHeap) : Marking BlockHeap :=
  ⟨m.heap.markAll [p], m.queue, p :: m.marked⟩

/-- A mark is not set in the header of a block that looks free. -/
theorem reveal_of_not_alloc (hp : m.heap.owns p) (halloc : (m.heap.headerAt p).alloc = false) :
    reveal p (m.heap.headerAt p) m = .error (.corruptHeader p .clearsAlloc) m := by
  have hset : Heap.setHeader p (m.heap.headerAt p).setMark m.heap =
      .error (.corruptHeader p .clearsAlloc) m.heap := by
    change setHeader p _ m.heap = _
    simp only [setHeader, Action.bind_apply, requireOwned_eq hp, Header.setMark, halloc,
      Action.require_false]
  simp only [reveal, onHeap, Action.within, Action.bind_apply, hset]

/-- The payload is read when the mark has been set already. -/
theorem reveal_eq (hm : m.heap.Mapped) (hp : m.heap.owns p) (halloc : (m.heap.headerAt p).alloc) :
    reveal p (m.heap.headerAt p) m = match (m.visited p).heap.payload p with
      | .ok payload => .ok payload (m.visited p)
      | .error e => .error e (m.visited p) := by
  have hset : Heap.setHeader p (m.heap.headerAt p).setMark m.heap = .ok () (m.heap.markAll [p]) :=
    hm.setHeader_eq hp halloc
  simp only [reveal, onHeap, Action.within, Action.bind_apply, hset, Action.modify_apply]
  change Action.ask (fun m : Marking BlockHeap => m.heap.payload p) (m.visited p) = _
  rw [Action.ask]
  cases (m.visited p).heap.payload p <;> rfl

/-- What is wrong with an object is found by the tracers or by a look at all of its children. -/
theorem follow_eq (hm : m.heap.Mapped) (tracers : TracerMap) (p : Addr) (tag : Tag)
    (payload : Payload) : follow tracers p tag payload m =
      match m.heap.defectOf p tag (tracers.visit tag payload) with
      | some e => .error e m
      | none => .ok () (enqueue ((tracers.visit tag payload).children.filter fun q =>
          !q.isNull && !(m.heap.headerAt q).mark) m) := by
  generalize hv : tracers.visit tag payload = v
  simp only [follow, onHeap, Action.within, Action.bind_apply, hv, Children.find_eq hm]
  unfold defectOf
  cases hfailure : v.failure with
  | some cause => rfl
  | none =>
    cases hfind : v.children.find? m.heap.isDangling with
    | some q => rfl
    | none =>
      -- No child dangles, so the look at the children goes through all of them.
      have hall : v.children.takeWhile (fun q => !m.heap.isDangling q) = v.children := by
        rw [List.takeWhile_eq_self_iff]
        simpa using List.find?_eq_none.mp hfind
      rw [hall]
      rfl

/-- A visit marks the object. It is refused for what is wrong with the object; otherwise the
children that have no mark after that join the queue. -/
theorem visit_eq (tracers : TracerMap) (hv : m.heap.Valid) (hp : m.heap.owns p) :
    visit tracers p (m.heap.headerAt p) m =
      match m.heap.defectAt tracers p with
      | some e => .error e (m.visited p)
      | none => .ok () (enqueue ((m.heap.visitAt tracers p).children.filter fun q =>
          !q.isNull && !((m.visited p).heap.headerAt q).mark) (m.visited p)) := by
  have hps : ∀ q ∈ [p], m.heap.owns q := by simpa using hp
  have hmarked : (m.visited p).heap.Valid := valid_markAll hv hps
  have hpayload : (m.visited p).heap.payload p = .ok (m.heap.payloadAt p) := by
    rw [← payloadAt_markAll hv hps hp]
    exact hmarked.payload_eq (by rwa [visited, owns_markAll])
  have hreveal : reveal p (m.heap.headerAt p) m = .ok (m.heap.payloadAt p) (m.visited p) := by
    rw [reveal_eq hv.mapped hp (hv.headerAt_alloc hp), hpayload]
  have hdefect : (m.visited p).heap.defectOf = m.heap.defectOf := defectOf_markAll ..
  rw [visit_eq_bind, Action.bind_apply, hreveal, defectAt_eq, visitAt]
  simp only [follow_eq hmarked.mapped, hdefect]

/-- The search for an object to visit passes over the marked ones in front of it. -/
theorem nextUnmarked_cases {h : BlockHeap} (hm : h.Mapped) {queue : List Addr}
    (hqueue : ∀ p ∈ queue, h.owns p) :
    (nextUnmarked h queue = .ok none ∧ ∀ p ∈ queue, (h.headerAt p).mark) ∨
      ∃ front p rest, queue = front ++ p :: rest ∧ (∀ q ∈ front, (h.headerAt q).mark) ∧
        (h.headerAt p).mark = false ∧
          nextUnmarked h queue = .ok (some (p, h.headerAt p, rest)) := by
  induction queue with
  | nil => exact .inl ⟨rfl, by simp⟩
  | cons p ps ih =>
    rw [List.forall_mem_cons] at hqueue
    have hheader : Heap.header h p = .ok (h.headerAt p) := hm.header_eq hqueue.1
    have hstep : nextUnmarked h (p :: ps) =
        if (h.headerAt p).mark then nextUnmarked h ps
        else .ok (some (p, h.headerAt p, ps)) := by
      rw [nextUnmarked, hheader]
      rfl
    cases hmark : (h.headerAt p).mark with
    | false =>
      refine .inr ⟨[], p, ps, rfl, by simp, hmark, ?_⟩
      rw [hstep, hmark]
      rfl
    | true =>
      -- A marked object joins the front, whatever is found behind it.
      have hskip : nextUnmarked h (p :: ps) = nextUnmarked h ps := by
        rw [hstep, hmark]
        rfl
      rcases ih hqueue.2 with ⟨hnone, hall⟩ | ⟨front, q, rest, rfl, hfront, hq, hsome⟩
      · exact .inl ⟨hskip.trans hnone, by simpa [hmark] using hall⟩
      · exact .inr ⟨p :: front, q, rest, rfl, by simpa [hmark] using hfront, hq, hskip.trans hsome⟩

end Marking

end MarkSweep
