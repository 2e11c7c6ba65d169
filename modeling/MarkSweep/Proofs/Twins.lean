import MarkSweep.Collector
import MarkSweep.Proofs.Alike

/-!
# Twin heaps

A program cannot tell two heaps apart if all requests go alike on them (`Heap.Twins`). Requests that
would change more of a header than its mark are left out, for a collector makes none.

Then a collector over one heap goes like a collector over the other: `Collector.alike_collect`,
`Collector.alike_allocate` and `Collector.alike_onRoots` say so for everything a program can ask of
a collector. The proofs follow the texts of marking and collection, which know a heap by its
requests only.
-/

namespace MarkSweep

open MarkSweep.Action

namespace Heap

variable {H K : Type} [Heap H] [Heap K] {α : Type}

/-- What a program can ask of a heap, by the type of the answer. -/
inductive Request : Type → Type where
  | allocate (tag : Tag) (size : Nat) : Request (Option Addr)
  | header (p : Addr) : Request Header
  | setHeader (p : Addr) (header : Header) : Request Unit
  | payload (p : Addr) : Request Payload
  | sweep : Request Sweep
  | owns (p : Addr) : Request Bool
  | usage : Request Usage

namespace Request

/-- Carries the request out. -/
def run : Request α → Action H α
  | allocate tag size => Heap.allocate tag size
  | header p => ask fun heap => Heap.header heap p
  | setHeader p hd => Heap.setHeader p hd
  | payload p => ask fun heap => Heap.payload heap p
  | sweep => Heap.sweep
  | owns p => askOwns p
  | usage => ask fun heap => .ok (Heap.usage heap)

/-- If the request replaces the header of a block, it changes no more than the mark. -/
def OnlyMarks (heap : H) : Request α → Prop
  | setHeader p hd => (Heap.owns heap p).1 →
      (Heap.header heap p).map Header.clearMark = .ok hd.clearMark
  | _ => True

end Request

/-- All requests go alike on related heaps. -/
def Twins (R : H → K → Prop) : Prop :=
  ∀ h k, R h k → ∀ (α : Type) (request : Request α), request.OnlyMarks k →
    Alike R request.run request.run h k

namespace Twins

variable {R : H → K → Prop} {h : H} {k : K} (hR : Twins R) (hhk : R h k)

include hR hhk

/-- Twins have the same headers, and refuse the same questions for them. -/
theorem header_eq (p : Addr) : Heap.header h p = Heap.header k p :=
  (alike_ask_iff.mp (hR h k hhk _ (.header p) trivial)).1

/-- Twins have the same payloads. -/
theorem payload_eq (p : Addr) : Heap.payload h p = Heap.payload k p :=
  (alike_ask_iff.mp (hR h k hhk _ (.payload p) trivial)).1

/-- Twins own the same addresses. -/
theorem owns_eq (p : Addr) : (Heap.owns h p).1 = (Heap.owns k p).1 :=
  Option.some.inj (hR h k hhk _ (.owns p) trivial).answer_eq

/-- To be asked who owns an address leaves twins related, although it may change them. -/
theorem owns (p : Addr) : R (Heap.owns h p).2 (Heap.owns k p).2 :=
  (hR h k hhk _ (.owns p) trivial).after

/-- To set the mark in a header that has just been read goes alike on twins. -/
theorem setMark {p : Addr} {hd : Header} (hheader : Heap.header k p = .ok hd) :
    Alike R (Heap.setHeader p hd.setMark) (Heap.setHeader p hd.setMark) h k := by
  refine hR h k hhk _ (.setHeader p hd.setMark) fun _ => ?_
  rw [hheader]
  rfl

end Twins

end Heap

/-! ### Marking -/

namespace Children

variable {H K : Type} [Heap H] [Heap K] {R : H → K → Prop}

/-- The children of an object come to the same. -/
theorem alike_find (hR : Heap.Twins R) (parent : Addr) (ps : List Addr) {h : H} {k : K}
    (hhk : R h k) : Alike R (fun h => .ok (find parent ps h).1 (find parent ps h).2)
      (fun k => .ok (find parent ps k).1 (find parent ps k).2) h k := by
  suffices hfind : (find parent ps h).1 = (find parent ps k).1 ∧
      R (find parent ps h).2 (find parent ps k).2 from
    alike_of_eq_ok rfl (by rw [hfind.1]) hfind.2
  induction ps generalizing h k with
  | nil => exact ⟨rfl, hhk⟩
  | cons p ps ih =>
    have howns := hR.owns hhk p
    have hanswer := hR.owns_eq hhk p
    rw [find, find]
    cases hnull : p.isNull with
    | true => exact ih hhk
    | false =>
      -- The heaps may have taken note of the question; the rest is asked of what they are then.
      generalize Heap.owns h p = answer at howns hanswer ⊢
      generalize Heap.owns k p = answer' at howns hanswer ⊢
      obtain ⟨owned, h⟩ := answer
      obtain ⟨owned', k⟩ := answer'
      obtain rfl : owned = owned' := hanswer
      have hheader := hR.header_eq howns p
      cases owned with
      | false => exact ⟨rfl, howns⟩
      | true =>
        obtain ⟨hfind, hafter⟩ := ih howns
        simp only [Bool.false_eq_true, if_false, hheader]
        cases Heap.header k p with
        | error e => exact ⟨rfl, howns⟩
        | ok hd => exact ⟨by simp only [hfind], hafter⟩

end Children

namespace Marking

variable {H K : Type} {R : H → K → Prop} {m : Marking H} {n : Marking K} {α : Type}

/-- Two markings that have done the same, on related heaps. -/
structure Related (R : H → K → Prop) (m : Marking H) (n : Marking K) : Prop where
  heap : R m.heap n.heap
  queue_eq : m.queue = n.queue
  marked_eq : m.marked = n.marked

/-- What goes alike on the heaps goes alike on markings of them. -/
theorem alike_onHeap {x : Action H α} {y : Action K α} (hmn : Related R m n)
    (hxy : Alike R x y m.heap n.heap) : Alike (Related R) (onHeap x) (onHeap y) m n :=
  Alike.within hxy fun _ _ hhk => ⟨hhk, hmn.queue_eq, hmn.marked_eq⟩

/-- The queues of related markings grow alike. -/
theorem Related.enqueue (hmn : Related R m n) (ps : List Addr) :
    Related R (m.enqueue ps) (n.enqueue ps) :=
  ⟨hmn.heap, congrArg (· ++ ps) hmn.queue_eq, hmn.marked_eq⟩

variable [Heap H] [Heap K]

/-- From the same roots, the same are found to be live on both heaps, or the same one dangles. -/
theorem alike_liveRoots (hR : Heap.Twins R) (ps : List Addr) {h : H} {k : K} (hhk : R h k) :
    Alike R (liveRoots ps) (liveRoots ps) h k := by
  induction ps generalizing h k with
  | nil => exact alike_pure _ hhk
  | cons p ps ih =>
    rw [liveRoots, liveRoots]
    cases p.isNull with
    | true => exact ih hhk
    | false =>
      refine (hR h k hhk _ (.owns p) trivial).bind fun owned h k _ _ hhk => ?_
      refine (alike_require owned _ hhk).bind fun _ h k _ _ hhk => ?_
      exact (ih hhk).bind fun _ h k _ _ hhk => alike_pure _ hhk

/-- A visit with the header that the object has goes alike on both heaps. -/
theorem alike_visit (hR : Heap.Twins R) (tracers : TracerMap) {p : Addr} {hd : Header}
    (hmn : Related R m n) (hheader : Heap.header n.heap p = .ok hd) :
    Alike (Related R) (visit tracers p hd) (visit tracers p hd) m n := by
  -- The mark is set, the visit is noted, the payload is read and the children are looked up.
  refine (alike_onHeap hmn (hR.setMark hmn.heap hheader)).bind fun _ m n _ _ hmn => ?_
  have hmarked : Related R { m with marked := p :: m.marked } { n with marked := p :: n.marked } :=
    ⟨hmn.heap, hmn.queue_eq, congrArg (p :: ·) hmn.marked_eq⟩
  refine (alike_modify hmarked).bind fun _ m n _ _ hmn => ?_
  have hpayload : Alike (Related R) (ask fun m : Marking H => Heap.payload m.heap p)
      (ask fun n : Marking K => Heap.payload n.heap p) m n :=
    alike_ask_iff.mpr ⟨hR.payload_eq hmn.heap p, hmn⟩
  refine hpayload.bind fun payload m n _ _ hmn => ?_
  refine (alike_onHeap hmn (Children.alike_find hR p _ hmn.heap)).bind fun _ m n _ _ hmn => ?_
  split
  · exact alike_throw _ hmn
  · exact alike_throw _ hmn
  · exact alike_modify (hmn.enqueue _)

/-- The next object to visit is the same. -/
theorem nextUnmarked_eq (hR : Heap.Twins R) (queue : List Addr) {h : H} {k : K} (hhk : R h k) :
    nextUnmarked h queue = nextUnmarked k queue := by
  induction queue with
  | nil => rfl
  | cons p rest ih => rw [nextUnmarked, nextUnmarked, hR.header_eq hhk p, ih]

/-- The object that is found comes with its header. -/
theorem header_of_nextUnmarked {k : K} {queue rest : List Addr} {p : Addr} {hd : Header}
    (hnext : nextUnmarked k queue = .ok (some (p, hd, rest))) : Heap.header k p = .ok hd := by
  induction queue with
  | nil => cases hnext
  | cons q qs ih =>
    rw [nextUnmarked] at hnext
    cases hheader : Heap.header k q with
    | error e =>
      rw [hheader] at hnext
      cases hnext
    | ok hd' =>
      rw [hheader] at hnext
      change (if hd'.mark then nextUnmarked k qs else .ok (some (q, hd', qs))) = _ at hnext
      cases hmark : hd'.mark with
      | true =>
        rw [hmark, if_pos rfl] at hnext
        exact ih hnext
      | false =>
        rw [hmark, if_neg Bool.false_ne_true] at hnext
        cases hnext
        exact hheader

/-- Markings of twins agree on which object is the next. -/
theorem alike_nextUnmarked (hR : Heap.Twins R) (hmn : Related R m n) :
    Alike (Related R) (ask fun m : Marking H => nextUnmarked m.heap m.queue)
      (ask fun n : Marking K => nextUnmarked n.heap n.queue) m n := by
  refine alike_ask_iff.mpr ⟨?_, hmn⟩
  rw [hmn.queue_eq]
  exact nextUnmarked_eq hR n.queue hmn.heap

/-- By induction on the budget, the visits of two related markings go alike. -/
theorem alike_visitAll (hR : Heap.Twins R) (tracers : TracerMap) (budget : Nat)
    (hmn : Related R m n) :
    Alike (Related R) (visitAll tracers budget) (visitAll tracers budget) m n := by
  induction budget generalizing m n with
  | zero =>
    rw [visitAll, visitAll]
    refine (alike_nextUnmarked hR hmn).bind fun found m n _ _ hmn => ?_
    match found with
    | none => exact alike_modify ⟨hmn.heap, rfl, hmn.marked_eq⟩
    | some _ => exact alike_throw _ hmn
  | succ budget ih =>
    rw [visitAll, visitAll]
    refine (alike_nextUnmarked hR hmn).bind fun found m' n' _ hn hmn' => ?_
    obtain ⟨hfound, rfl⟩ := ask_eq_ok_iff.mp hn
    match found, hfound with
    | none, _ => exact alike_modify ⟨hmn'.heap, rfl, hmn'.marked_eq⟩
    | some (p, hd, rest), hfound =>
      have hheader := header_of_nextUnmarked hfound
      have hrest : Related R { m' with queue := rest } { n' with queue := rest } :=
        ⟨hmn'.heap, rfl, hmn'.marked_eq⟩
      refine (alike_modify hrest).bind fun _ m'' n'' _ hn' hmn'' => ?_
      -- The header was read before the queue was cut.
      obtain rfl : { n' with queue := rest } = n'' := by simpa using hn'
      exact (alike_visit hR tracers hmn'' hheader).bind fun _ _ _ _ _ hmn => ih hmn

/-- A marking of one twin goes like a marking of the other. -/
theorem alike_run (hR : Heap.Twins R) (tracers : TracerMap) (roots : List Addr)
    (hmn : Related R m n) :
    Alike (Related R) (run tracers roots) (run tracers roots) m n := by
  refine (alike_onHeap hmn (alike_liveRoots hR roots hmn.heap)).bind fun live m n _ _ hmn => ?_
  refine (alike_modify (hmn.enqueue live)).bind fun _ m n _ _ hmn => ?_
  exact alike_visitAll hR tracers budget hmn

end Marking

/-! ### Collectors -/

namespace Collector

variable {H K : Type} {R : H → K → Prop} {c : Collector H} {d : Collector K} {α : Type}

/-- Two collectors over related heaps that agree on everything else. -/
structure Related (R : H → K → Prop) (c : Collector H) (d : Collector K) : Prop where
  heap : R c.heap d.heap
  roots_eq : c.roots = d.roots
  tracers_eq : c.tracers = d.tracers
  trigger_eq : c.trigger = d.trigger
  totals_eq : c.totals = d.totals

/-- What goes alike on the heaps goes alike on the collectors that own them. -/
theorem alike_onHeap {x : Action H α} {y : Action K α} (hcd : Related R c d)
    (hxy : Alike R x y c.heap d.heap) : Alike (Related R) (onHeap x) (onHeap y) c d :=
  Alike.within hxy fun _ _ hhk =>
    ⟨hhk, hcd.roots_eq, hcd.tracers_eq, hcd.trigger_eq, hcd.totals_eq⟩

/-- The roots know nothing of the heap. -/
theorem alike_onRoots (x : Action RootSet α) (hcd : Related R c d) :
    Alike (Related R) (onRoots x) (onRoots x) c d := by
  have hx : Alike Eq x x c.roots d.roots := by
    rw [hcd.roots_eq]
    exact ⟨rfl, rfl, rfl⟩
  exact Alike.within hx fun _ _ hroots =>
    ⟨hcd.heap, hroots, hcd.tracers_eq, hcd.trigger_eq, hcd.totals_eq⟩

variable [Heap H] [Heap K]

/-- Collectors over twins mark alike. -/
theorem alike_mark (hR : Heap.Twins R) (hcd : Related R c d) :
    Alike (Related R) mark mark c d := by
  obtain ⟨heap, roots, tracers, trigger, totals⟩ := c
  obtain ⟨heap', roots', tracers', trigger', totals'⟩ := d
  obtain ⟨hheap, rfl, rfl, rfl, rfl⟩ := hcd
  have hstart : Marking.Related R (.start heap) (.start heap') := ⟨hheap, rfl, rfl⟩
  rcases (Marking.alike_run hR tracers roots.roots hstart).cases with
    ⟨_, m, n, hm, hn, hmn⟩ | ⟨e, m, n, hm, hn, hmn⟩
  · have hc : mark ⟨heap, roots, tracers, trigger, totals⟩ =
        .ok m.marked.length ⟨m.heap, roots, tracers, trigger, totals⟩ := by simp only [mark, hm]
    have hd : mark ⟨heap', roots, tracers, trigger, totals⟩ =
        .ok m.marked.length ⟨n.heap, roots, tracers, trigger, totals⟩ := by
      simp only [mark, hn, hmn.marked_eq]
    exact alike_of_eq_ok hc hd ⟨hmn.heap, rfl, rfl, rfl, rfl⟩
  · have hc : mark ⟨heap, roots, tracers, trigger, totals⟩ =
        .error e ⟨m.heap, roots, tracers, trigger, totals⟩ := by simp only [mark, hm]
    have hd : mark ⟨heap', roots, tracers, trigger, totals⟩ =
        .error e ⟨n.heap, roots, tracers, trigger, totals⟩ := by simp only [mark, hn]
    exact alike_of_eq_error hc hd ⟨hmn.heap, rfl, rfl, rfl, rfl⟩

/-- Collectors over twins collect alike: with the same report, or the same refusal. -/
theorem alike_collect (hR : Heap.Twins R) (hcd : Related R c d) :
    Alike (Related R) collect collect c d := by
  refine (alike_mark hR hcd).bind fun marked c d _ _ hcd => ?_
  have hsweep := hR c.heap d.heap hcd.heap _ .sweep trivial
  refine (alike_onHeap hcd hsweep).bind fun sweep c d _ _ hcd => ?_
  refine (alike_modify ⟨hcd.heap, hcd.roots_eq, hcd.tracers_eq, hcd.trigger_eq, ?_⟩).bind
    fun _ c d _ _ hcd => alike_pure _ hcd
  rw [hcd.totals_eq]

/-- Collectors over twins find room alike, and collect at the same moments for it. -/
theorem alike_findRoom (hR : Heap.Twins R) (tag : Tag) (size : Nat) (hcd : Related R c d) :
    Alike (Related R) (findRoom tag size) (findRoom tag size) c d := by
  have htry : ∀ c d, Related R c d → Alike (Related R) (onHeap (Heap.allocate tag size))
      (onHeap (Heap.allocate tag size)) c d := fun c d hcd =>
    alike_onHeap hcd (hR c.heap d.heap hcd.heap _ (.allocate tag size) trivial)
  refine (htry c d hcd).bind fun room c d _ _ hcd => ?_
  cases room with
  | some p => exact alike_pure _ hcd
  | none =>
    -- Of the collectors only the trigger is read, and that is the same.
    refine alike_get_bind ?_
    rw [hcd.trigger_eq]
    cases d.trigger with
    | manual => exact alike_pure _ hcd
    | onExhaustion =>
      exact (alike_collect hR hcd).discard.bind fun _ c d _ _ hcd => htry c d hcd

/-- Collectors over twins allocate alike, at the same addresses. -/
theorem alike_allocate (hR : Heap.Twins R) (tag : Tag) (size : Nat) (hcd : Related R c d) :
    Alike (Related R) (allocate tag size) (allocate tag size) c d := by
  refine (alike_findRoom hR tag size hcd).bind fun room c d _ _ hcd => ?_
  cases room with
  | none => exact alike_throw _ hcd
  | some p =>
    refine (alike_modify ⟨hcd.heap, ?_, hcd.tracers_eq, hcd.trigger_eq, ?_⟩).bind
      fun _ c d _ _ hcd => alike_pure _ hcd
    · rw [hcd.roots_eq]
    · rw [hcd.totals_eq]

end Collector

end MarkSweep
