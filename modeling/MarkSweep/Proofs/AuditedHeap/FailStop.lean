import MarkSweep.FaultyHeap
import MarkSweep.Proofs.AuditedHeap.Faithful
import MarkSweep.Proofs.Collector.Collection
import MarkSweep.Proofs.BlockHeap.History

/-!
# Heaps that have failed stay stopped

A question about ownership cannot be refused, so a disagreement that it shows is remembered by the
audited heap and reported from then on. Of the disagreements shown so far (`AuditedHeap.Watched`)
the one that is remembered is the first (`Watched.mismatch_eq`), whatever the program does to the
heap, also behind the record.

With a disagreement on record the heap refuses everything that can be refused, and nothing changes
any more (`AuditedHeap.Stopped`). A collector over it comes to a stop as well: the questions that it
asks about its roots are the only ones still answered, and then it needs a header or a sweep. What
is proved holds of block heaps, also of those whose headers are read through a fault
(`AuditedHeap.fail_stop`).
-/

namespace MarkSweep

open MarkSweep.Action

/-- Questions about ownership leave the heap as it is. -/
def Heap.Quiet (H : Type) [Heap H] : Prop := ∀ (heap : H) (p : Addr), (Heap.owns heap p).2 = heap

/-- A block heap takes no note of what it is asked to own. -/
theorem BlockHeap.quiet : Heap.Quiet BlockHeap := fun _ _ => rfl

/-- A fault in reading headers does not make a heap take note of questions. -/
theorem FaultyHeap.quiet {H : Type} [Heap H] (hquiet : Heap.Quiet H) :
    Heap.Quiet (FaultyHeap H) := by
  intro f p
  show { f with inner := (Heap.owns f.inner p).2 } = f
  rw [hquiet]

/-- The error that reports a disagreement. -/
def Mismatch.refusal (m : Mismatch) : Refusal := .ownershipMismatch m.addr m.heap !m.heap

namespace AuditedHeap

variable {H : Type} [Heap H]

/-- The disagreement that a request shows, if it is a question on which heap and record differ. -/
def shown (a : AuditedHeap H) {α : Type} : Heap.Request α → List Mismatch
  | .owns p =>
    let answer := (Heap.owns a.inner p).1
    if answer = a.isTracked p then [] else [⟨p, answer⟩]
  | _ => []

/-- What can happen to an audited heap, with the disagreements that are shown meanwhile: it is used,
audited, or changed behind the record. -/
inductive Step (a : AuditedHeap H) : AuditedHeap H → List Mismatch → Prop where
  | request {α : Type} (request : Heap.Request α) : Step a (request.run.after a) (a.shown request)
  | audit : Step a (audit.after a) []
  | bypass (x : Action H Unit) : Step a ((onInner x).after a) []

/-- The states of an audited heap, with all disagreements that have been shown, the first one
first. -/
inductive Watched : AuditedHeap H → List Mismatch → Prop where
  | start (inner : H) : Watched (.start inner) []
  | step {a b : AuditedHeap H} {seen shown : List Mismatch} (watched : Watched a seen)
      (step : Step a b shown) : Watched b (seen ++ shown)

/-- The disagreement is reported by everything that can be refused, and nothing is changed by what
is asked of the heap, the answered questions included. -/
structure Stopped (m : Mismatch) (a : AuditedHeap H) : Prop where
  allocate : ∀ tag size, allocate tag size a = .error m.refusal a
  header : ∀ p, a.header p = .error m.refusal
  setHeader : ∀ p hd, setHeader p hd a = .error m.refusal a
  payload : ∀ p, a.payload p = .error m.refusal
  sweep : sweep a = .error m.refusal a
  audit : audit a = .error m.refusal a
  owns : ∀ p, (a.owns p).2 = a

variable {a b : AuditedHeap H} {m : Mismatch} {seen shown : List Mismatch} {α : Type}

/-! ### Only questions put a disagreement on record -/

/-- What is done leaves the disagreement on record, or the lack of one. -/
def Remembers (x : Action (AuditedHeap H) α) (a : AuditedHeap H) : Prop :=
  (x.after a).mismatch? = a.mismatch?

section Remembers

omit [Heap H]

/-- Nothing that is done to the heap behind the record changes what is remembered. -/
theorem remembers_onInner (x : Action H α) (a : AuditedHeap H) : Remembers (onInner x) a := by
  rw [Remembers, after_onInner]

theorem remembers_ask (question : AuditedHeap H → Except Refusal α) (a : AuditedHeap H) :
    Remembers (ask question) a := by
  rw [Remembers, after_ask]

theorem remembers_require (condition : Bool) (e : Refusal) (a : AuditedHeap H) :
    Remembers (require condition e) a := by
  rw [Remembers, after_require]

/-- What remembers in each of its parts remembers as a whole. -/
theorem Remembers.bind {β : Type} {x : Action (AuditedHeap H) α}
    {f : α → Action (AuditedHeap H) β} (hx : Remembers x a)
    (hf : ∀ answer b, Remembers (f answer) b) : Remembers (x >>= f) a := by
  rw [Remembers] at hx ⊢
  cases h : x a with
  | ok answer b =>
    rw [after_of_eq_ok h] at hx
    rw [after_bind_of_eq_ok h, ← hx]
    exact hf answer b
  | error e b =>
    rw [after_of_eq_error h] at hx
    rwa [after_bind_of_eq_error h]

/-- What is read of the state is the state itself. -/
theorem remembers_get_bind {f : AuditedHeap H → Action (AuditedHeap H) α}
    (hf : Remembers (f a) a) : Remembers (get >>= f) a := hf

end Remembers

theorem remembers_allocate (tag : Tag) (size : Nat) (a : AuditedHeap H) :
    Remembers (allocate tag size) a := by
  -- A new object becomes an entry of the record; what is remembered is not part of that.
  refine (remembers_ask ..).bind fun _ a => (remembers_onInner ..).bind fun room a => ?_
  cases room with
  | none => exact rfl
  | some p =>
    refine remembers_get_bind ((remembers_require ..).bind fun _ a => ?_)
    exact (remembers_ask ..).bind fun _ a => rfl

/-- Replacing a header leaves what is remembered, refused or not. -/
theorem remembers_setHeader (p : Addr) (hd : Header) (a : AuditedHeap H) :
    Remembers (setHeader p hd) a := by
  refine (remembers_ask ..).bind fun _ a => remembers_get_bind ?_
  cases a.entry? p with
  | none => exact rfl
  | some entry => exact (remembers_require ..).bind fun _ a => remembers_onInner ..

/-- By induction on the entries, going through the record leaves what is remembered. -/
theorem remembers_auditEntries (es : List Entry) (a : AuditedHeap H) :
    Remembers (auditEntries es) a := by
  induction es generalizing a with
  | nil => exact rfl
  | cons e rest ih =>
    refine (remembers_onInner ..).bind fun owned a => (remembers_require ..).bind fun _ a => ?_
    exact (remembers_ask ..).bind fun _ a => ih a

/-- An audit leaves what is remembered, also when it finds something. -/
theorem remembers_audit (a : AuditedHeap H) : Remembers audit a :=
  (remembers_ask ..).bind fun _ _ => remembers_get_bind (remembers_auditEntries ..)

/-- By induction on the entries, looking for survivors leaves what is remembered. -/
theorem remembers_survivors (es : List Entry) (a : AuditedHeap H) :
    Remembers (survivors es) a := by
  induction es generalizing a with
  | nil => exact rfl
  | cons e rest ih =>
    refine (remembers_onInner ..).bind fun owned a => ?_
    cases owned with
    | true => exact (ih a).bind fun _ a => rfl
    | false => exact (remembers_ask ..).bind fun _ a => ih a

/-- A sweep leaves what is remembered, wherever it ends. -/
theorem remembers_sweep (a : AuditedHeap H) : Remembers sweep a := by
  refine (remembers_ask ..).bind fun _ a => (remembers_onInner ..).bind fun report a => ?_
  -- The record is emptied, revised and compared, but what is remembered stays.
  have hrevise : Remembers (survivors a.entries) { a with entries := [] } := remembers_survivors ..
  have hrest : Remembers (survivors a.entries >>= fun kept => do
      modify fun a : AuditedHeap H => { a with entries := kept }
      audit
      return report) { a with entries := [] } :=
    hrevise.bind fun kept b => Remembers.bind rfl fun _ b =>
      (remembers_audit b).bind fun _ b => rfl
  exact remembers_get_bind hrest

/-- A request adds to what is remembered what it shows, unless there is something already. -/
theorem mismatch_after_request (request : Heap.Request α) (a : AuditedHeap H) :
    (request.run.after a).mismatch? = a.mismatch?.or (a.shown request).head? := by
  cases request with
  | owns p =>
    show a.mismatch?.or _ = _
    rw [shown]
    split <;> rfl
  | allocate tag size => exact (remembers_allocate tag size a).trans Option.or_none.symm
  | setHeader p hd => exact (remembers_setHeader p hd a).trans Option.or_none.symm
  | sweep => exact (remembers_sweep a).trans Option.or_none.symm
  | header p => exact (remembers_ask _ a).trans Option.or_none.symm
  | payload p => exact (remembers_ask _ a).trans Option.or_none.symm
  | usage => exact Option.or_none.symm

/-- The first disagreement is kept. Without one, the first that the step shows is remembered. -/
theorem Step.mismatch_eq (hs : Step a b shown) : b.mismatch? = a.mismatch?.or shown.head? := by
  cases hs with
  | request request => exact mismatch_after_request request a
  | audit => exact (remembers_audit a).trans Option.or_none.symm
  | bypass x => exact (remembers_onInner x a).trans Option.or_none.symm

/-- The first disagreement that has been shown is the one on record. -/
theorem Watched.mismatch_eq (hw : Watched a seen) : a.mismatch? = seen.head? := by
  induction hw with
  | start inner => rfl
  | step _ hstep ih => rw [hstep.mismatch_eq, ih, List.head?_append]

omit [Heap H] in
/-- If an operation begins with a look at the record and leaves what is remembered, then no
disagreement is on record when it has been answered. -/
theorem mismatch_of_eq_ok {f : Unit → Action (AuditedHeap H) α} {answer : α}
    (hx : Remembers (ask checkMismatch >>= f) a)
    (hok : (ask checkMismatch >>= f) a = .ok answer b) : b.mismatch? = none := by
  obtain ⟨_, t, hcheck, -⟩ := bind_eq_ok_iff.mp hok
  rw [Remembers, after_of_eq_ok hok] at hx
  rw [hx]
  have hnone := (ask_eq_ok_iff.mp hcheck).1
  unfold checkMismatch at hnone
  cases hm : a.mismatch? with
  | none => rfl
  | some m =>
    rw [hm] at hnone
    contradiction

/-! ### What a heap with a disagreement does -/

/-- With a disagreement remembered, an audited heap is at a stop. -/
theorem stopped_of_mismatch (hquiet : Heap.Quiet H) (hm : a.mismatch? = some m) :
    Stopped m a := by
  have hcheck : a.checkMismatch = .error m.refusal := by
    rw [checkMismatch, hm]
    rfl
  -- All that can be refused begins with a look at the record.
  have hask : ask checkMismatch a = .error m.refusal a := ask_eq_error_iff.mpr ⟨hcheck, rfl⟩
  refine ⟨?_, ?_, ?_, ?_, ?_, ?_, ?_⟩
  · intro tag size
    rw [allocate, bind_apply, hask]
  · intro p
    rw [header, hcheck]
    rfl
  · intro p hd
    rw [setHeader, bind_apply, hask]
  · intro p
    rw [payload, hcheck]
    rfl
  · rw [sweep, bind_apply, hask]
  · rw [audit, bind_apply, hask]
  · intro p
    show { a with inner := (Heap.owns a.inner p).2, mismatch? := a.mismatch?.or _ } = a
    rw [hquiet, hm, Option.some_or, ← hm]

/-- What a collection or an allocation does to an audited heap is what requests do to it. -/
def Goes (a b : AuditedHeap H) : Prop := ∀ seen, Watched a seen → ∃ more, Watched b (seen ++ more)

/-- What a step leads to can be reached from wherever the heap has been watched. -/
theorem Step.goes (hs : Step a b shown) : Goes a b := fun _ hw => ⟨shown, hw.step hs⟩

/-- All that a collection does to its heap are steps of it. -/
theorem tracks_goes : Heap.Tracks (Goes (H := H)) where
  refl a seen hw := ⟨[], by rwa [List.append_nil]⟩
  trans a b c hab hbc seen hw := by
    obtain ⟨more, hw⟩ := hab seen hw
    obtain ⟨most, hw⟩ := hbc _ hw
    exact ⟨more ++ most, by rwa [← List.append_assoc]⟩
  owns a p := (Step.request (.owns p)).goes
  setMark a p hd _ := (Step.request (.setHeader p hd.setMark)).goes
  sweep a := (Step.request .sweep).goes

end AuditedHeap

/-! ### Collectors -/

namespace Marking

variable {H : Type} [Heap H] {heap : H} {e : Refusal}

/-- Roots are looked up without a change, if the heap takes no note of questions. -/
theorem liveRoots_cases (howns : ∀ p, (Heap.owns heap p).2 = heap) (ps : List Addr) :
    (∃ live, liveRoots ps heap = .ok live heap) ∨
      ∃ p ∈ ps, liveRoots ps heap = .error (.danglingRoot p) heap := by
  induction ps with
  | nil => exact .inl ⟨[], rfl⟩
  | cons p rest ih =>
    -- The question leaves the heap, so the rest of the roots is looked up in the same one.
    have hask : Heap.askOwns p heap = .ok (Heap.owns heap p).1 heap := by
      rw [Heap.askOwns, howns]
    rw [liveRoots]
    cases p.isNull with
    | true =>
      rcases ih with hlive | ⟨q, hq, herror⟩
      · exact .inl hlive
      · exact .inr ⟨q, .tail _ hq, herror⟩
    | false =>
      simp only [Bool.false_eq_true, if_false, bind_apply, hask]
      cases (Heap.owns heap p).1 with
      | false => exact .inr ⟨p, .head _, rfl⟩
      | true =>
        rcases ih with ⟨live, hlive⟩ | ⟨q, hq, herror⟩
        · exact .inl ⟨p :: live, by simp only [require_true, hlive, pure_apply]⟩
        · exact .inr ⟨q, .tail _ hq, by simp only [require_true, herror]⟩

/-- If no header can be read, the queue is found empty or nothing is done. -/
theorem visitAll_of_header_eq (hheader : ∀ p, Heap.header heap p = .error e)
    (tracers : TracerMap) (budget : Nat) (queue marked : List Addr) :
    visitAll tracers budget ⟨heap, queue, marked⟩ = .ok () ⟨heap, queue, marked⟩ ∨
      visitAll tracers budget ⟨heap, queue, marked⟩ = .error e ⟨heap, queue, marked⟩ := by
  rw [visitAll, bind_apply]
  cases queue with
  | nil => exact .inl rfl
  | cons p rest =>
    have hnext : nextUnmarked heap (p :: rest) = .error e := by
      rw [nextUnmarked, hheader]
      rfl
    exact .inr (by rw [ask, hnext])

/-- A marking changes nothing then: a root is dangling, or the first object cannot be visited, or
there is no object to visit. -/
theorem run_cases_of_header_eq (howns : ∀ p, (Heap.owns heap p).2 = heap)
    (hheader : ∀ p, Heap.header heap p = .error e) (tracers : TracerMap) (roots : List Addr) :
    ∃ m : Marking H, m.heap = heap ∧ (run tracers roots (.start heap) = .ok () m ∨
      ∃ e', run tracers roots (.start heap) = .error e' m ∧
        (e' = e ∨ ∃ p ∈ roots, e' = .danglingRoot p)) := by
  rcases liveRoots_cases howns roots with ⟨live, hlive⟩ | ⟨p, hp, herror⟩
  · have hfound : onHeap (liveRoots roots) (.start heap) = .ok live (.start heap) := by
      simp only [onHeap, within, start, hlive]
    have hrun : run tracers roots (.start heap) =
        visitAll tracers budget (enqueue live (.start heap)) := by
      rw [run, bind_apply, hfound]
      rfl
    refine ⟨enqueue live (.start heap), rfl, ?_⟩
    rw [hrun]
    rcases visitAll_of_header_eq hheader tracers budget ([] ++ live) [] with hok | herror
    · exact .inl hok
    · exact .inr ⟨e, herror, .inl rfl⟩
  · have hfound :
        onHeap (liveRoots roots) (.start heap) = .error (.danglingRoot p) (.start heap) := by
      simp only [onHeap, within, start, herror]
    refine ⟨.start heap, rfl, .inr ⟨_, ?_, .inr ⟨p, hp, rfl⟩⟩⟩
    rw [run, bind_apply, hfound]

end Marking

namespace Collector

variable {H : Type} [Heap H] {c d : Collector (AuditedHeap H)} {m : Mismatch} {seen : List Mismatch}

/-- What can become of a collector over an audited heap: it is used, its roots are changed, or
something happens to its heap. -/
inductive Later (c : Collector (AuditedHeap H)) : Collector (AuditedHeap H) → Prop where
  | refl : Later c c
  | allocate {d : Collector (AuditedHeap H)} (later : Later c d) (tag : Tag) (size : Nat) :
      Later c ((allocate tag size).after d)
  | collect {d : Collector (AuditedHeap H)} (later : Later c d) : Later c (collect.after d)
  | roots {d : Collector (AuditedHeap H)} {α : Type} (later : Later c d) (x : Action RootSet α) :
      Later c ((onRoots x).after d)
  | heap {d : Collector (AuditedHeap H)} {a : AuditedHeap H} {shown : List Mismatch}
      (later : Later c d) (step : AuditedHeap.Step d.heap a shown) : Later c { d with heap := a }

/-- The collector neither collects nor allocates, and nothing changes when it is asked to. -/
structure Stopped (m : Mismatch) (c : Collector (AuditedHeap H)) : Prop where
  allocate : ∀ tag size, allocate tag size c = .error m.refusal c
  collect : ∃ e, collect c = .error e c ∧ (e = m.refusal ∨ ∃ p ∈ c.roots.roots, e = .danglingRoot p)

omit [Heap H] in
/-- An operation on the heap of a collector succeeds if it does on the heap, and the rest of the
collector stays. -/
theorem onHeap_eq_ok_iff {α : Type} {x : Action (AuditedHeap H) α} {answer : α} :
    onHeap x c = .ok answer d ↔
      ∃ heap, x c.heap = .ok answer heap ∧ d = { c with heap := heap } := by
  rw [onHeap_apply]
  cases x c.heap <;> simp [eq_comm]

/-- A collector over a heap at a stop is at a stop itself. -/
theorem stopped_of_heap (ha : c.heap.Stopped m) : Stopped m c := by
  have hrefused : ∀ {α : Type} (x : Action (AuditedHeap H) α),
      x c.heap = .error m.refusal c.heap → onHeap x c = .error m.refusal c := by
    intro α x hx
    rw [onHeap_apply, hx]
  refine ⟨fun tag size => ?_, ?_⟩
  · have htry := hrefused (Heap.allocate tag size) (ha.allocate tag size)
    rw [allocate, bind_apply, findRoom, bind_apply, htry]
  · -- If the roots are in order, the first object needs a header; without one there is the sweep.
    obtain ⟨n, hheap, hok | ⟨e, herror, he⟩⟩ :=
      Marking.run_cases_of_header_eq ha.owns ha.header c.tracers c.roots.roots
    · refine ⟨m.refusal, ?_, .inl rfl⟩
      have hmark : mark c = .ok n.marked.length c := by
        simp only [mark, hok, hheap]
      rw [collect, bind_apply, hmark]
      show (onHeap Heap.sweep >>= _) c = _
      rw [bind_apply, hrefused Heap.sweep ha.sweep]
    · have hmark : mark c = .error e c := by
        simp only [mark, herror, hheap]
      exact ⟨e, by rw [collect, bind_apply, hmark], he⟩

/-- A collector does nothing to its heap but by requests. -/
theorem Later.goes (hl : Later c d) : c.heap.Goes d.heap := by
  have htracks := AuditedHeap.tracks_goes (H := H)
  induction hl with
  | refl => exact htracks.refl _
  | allocate _ tag size ih =>
    -- Two attempts at most, and perhaps a collection between them.
    refine htracks.trans _ _ _ ih (moves_allocate htracks tag size (fun a => ?_) _)
    exact (AuditedHeap.Step.request (.allocate tag size)).goes
  | collect _ ih => exact htracks.trans _ _ _ ih (moves_collect htracks _)
  | @roots d _ _ x ih =>
    have hheap : ((onRoots x).after d).heap = d.heap := by
      obtain ⟨heap, roots, tracers, trigger, totals⟩ := d
      simp only [Action.after, onRoots, Action.within]
      cases x roots <;> rfl
    rwa [hheap]
  | heap _ hstep ih => exact htracks.trans _ _ _ ih hstep.goes

/-- A collection that is answered has seen no disagreement, for the sweep comes last. -/
theorem mismatch_of_collect_eq_ok {r : Collection} (hr : collect c = .ok r d) :
    d.heap.mismatch? = none := by
  obtain ⟨marked, c₁, -, hr⟩ := bind_eq_ok_iff.mp hr
  obtain ⟨sweep, c₂, hsweep, hr⟩ := bind_eq_ok_iff.mp hr
  obtain ⟨heap, hok, rfl⟩ := onHeap_eq_ok_iff.mp hsweep
  -- Then only the totals are brought up to date.
  cases hr
  exact AuditedHeap.mismatch_of_eq_ok (AuditedHeap.remembers_sweep c₁.heap) hok

/-- Room is looked for with an answer only by a heap without a disagreement. -/
theorem mismatch_of_findRoom_eq_ok {tag : Tag} {size : Nat} {room : Option Addr}
    (hr : findRoom tag size c = .ok room d) : d.heap.mismatch? = none := by
  -- Both attempts end with an allocation by the heap, which looks at the record.
  have htry : ∀ {c d : Collector (AuditedHeap H)} {room : Option Addr},
      onHeap (Heap.allocate tag size) c = .ok room d → d.heap.mismatch? = none := by
    intro c d room hroom
    obtain ⟨heap, hok, rfl⟩ := onHeap_eq_ok_iff.mp hroom
    exact AuditedHeap.mismatch_of_eq_ok (AuditedHeap.remembers_allocate tag size c.heap) hok
  obtain ⟨first, c₁, hfirst, hr⟩ := bind_eq_ok_iff.mp hr
  cases first with
  | some p =>
    cases hr
    exact htry hfirst
  | none =>
    obtain ⟨c₂, c₃, hget, hr⟩ := bind_eq_ok_iff.mp hr
    cases hget
    cases htrigger : c₁.trigger with
    | manual =>
      rw [htrigger] at hr
      cases hr
      exact htry hfirst
    | onExhaustion =>
      rw [htrigger] at hr
      obtain ⟨_, c₄, -, hr⟩ := bind_eq_ok_iff.mp hr
      exact htry hr

/-- An allocation that is answered has seen none either, for room is found last of all. -/
theorem mismatch_of_allocate_eq_ok {tag : Tag} {size : Nat} {p : Addr}
    (hr : allocate tag size c = .ok p d) : d.heap.mismatch? = none := by
  obtain ⟨room, c₁, hfind, hr⟩ := bind_eq_ok_iff.mp hr
  have hnone := mismatch_of_findRoom_eq_ok hfind
  cases room with
  | none => cases hr
  | some q =>
    cases hr
    exact hnone

end Collector

namespace AuditedHeap

/-- The first disagreement that a question shows is a stop for good. -/
structure FailStop (H : Type) [Heap H] : Prop where
  /-- The heap reports it, whatever else has been shown or done since. -/
  heap : ∀ (a : AuditedHeap H) m later, Watched a (m :: later) → Stopped m a
  /-- The disagreements shown to a collector are shown to its heap, and the first one stops the
  collector as well. -/
  collector : ∀ (c d : Collector (AuditedHeap H)) seen, Watched c.heap seen → c.Later d →
    ∃ more, Watched d.heap (seen ++ more) ∧ ∀ m ∈ (seen ++ more).head?, d.Stopped m
  /-- A collection that is answered has seen no disagreement, and none was shown before. -/
  collection : ∀ (c d : Collector (AuditedHeap H)) r seen, Watched d.heap seen →
    Collector.collect c = .ok r d → seen = []
  /-- The same is true of an allocation. -/
  allocation : ∀ (c d : Collector (AuditedHeap H)) tag size p seen, Watched d.heap seen →
    Collector.allocate tag size c = .ok p d → seen = []

/-- Over a heap that takes no note of questions, the first disagreement stops everything. -/
theorem failStop_of_quiet {H : Type} [Heap H] (hquiet : Heap.Quiet H) : FailStop H where
  heap a m later hw := stopped_of_mismatch hquiet hw.mismatch_eq
  collector c d seen hw hl := by
    obtain ⟨more, hw'⟩ := hl.goes seen hw
    refine ⟨more, hw', fun m hm => Collector.stopped_of_heap (stopped_of_mismatch hquiet ?_)⟩
    rw [hw'.mismatch_eq]
    exact hm
  collection c d r seen hw hr := by
    rw [← List.head?_eq_none_iff, ← hw.mismatch_eq]
    exact Collector.mismatch_of_collect_eq_ok hr
  allocation c d tag size p seen hw hr := by
    rw [← List.head?_eq_none_iff, ← hw.mismatch_eq]
    exact Collector.mismatch_of_allocate_eq_ok hr

/-- Block heaps stop at the first disagreement, with or without a fault in reading headers. -/
theorem fail_stop : FailStop BlockHeap ∧ FailStop (FaultyHeap BlockHeap) :=
  ⟨failStop_of_quiet BlockHeap.quiet, failStop_of_quiet (FaultyHeap.quiet BlockHeap.quiet)⟩

/-- A block is given back behind the record; when it has been handed out again there, another one is
found that was never on record. Through a fault, a new block is not taken on record. -/
theorem fail_stop_small :
    (∃ a : AuditedHeap BlockHeap, Watched a [⟨8, false⟩, ⟨16, true⟩] ∧ Stopped ⟨8, false⟩ a ∧
      ∃ d, (Collector.standard a).Later d ∧ d.roots.roots = [16] ∧ d.Stopped ⟨8, false⟩) ∧
    ∃ a : AuditedHeap (FaultyHeap BlockHeap), Watched a [⟨8, true⟩] ∧ Stopped ⟨8, true⟩ a := by
  let free : Action BlockHeap Unit := (BlockHeap.Request.free 8).run
  let alloc : Action BlockHeap Unit := (BlockHeap.Request.alloc 4).run
  have w₁ := (Watched.start BlockHeap.History.small.heap).step (.request (.allocate .cell 4))
  have w₂ := ((w₁.step (.bypass free)).step (.request (.owns 8))).step (.bypass alloc)
  have w₃ := ((w₂.step (.bypass alloc)).step (.request (.owns 8))).step (.request (.owns 16))
  have v₁ := (Watched.start (⟨BlockHeap.History.small.heap, 1⟩ : FaultyHeap BlockHeap)).step
    (.request (.allocate .cell 4))
  have v₂ := v₁.step (.request (.owns 8))
  obtain ⟨a, hw⟩ : ∃ a : AuditedHeap BlockHeap, Watched a [⟨8, false⟩, ⟨16, true⟩] :=
    ⟨_, Eq.subst (by decide +kernel) w₃⟩
  obtain ⟨b, hv⟩ : ∃ b : AuditedHeap (FaultyHeap BlockHeap), Watched b [⟨8, true⟩] :=
    ⟨_, Eq.subst (by decide +kernel) v₂⟩
  -- A program binds the second block, which is then a dangling root.
  have hlater := ((Collector.Later.refl (c := .standard a)).roots (modify RootSet.enter)).roots
    (RootSet.bindSlot 0 16)
  obtain ⟨more, -, hstopped⟩ := fail_stop.1.collector _ _ _ hw hlater
  exact ⟨⟨a, hw, fail_stop.1.heap a _ _ hw, _, hlater, rfl, hstopped _ rfl⟩,
    b, hv, fail_stop.2.heap b _ _ hv⟩

end AuditedHeap

end MarkSweep
