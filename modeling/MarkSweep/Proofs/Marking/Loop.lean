import Mathlib.Data.List.Nodup
import MarkSweep.Proofs.BlockHeap.Frames
import MarkSweep.Proofs.Marking.Underway

/-!
# The loop of a marking

`Marking.visitAll` gives up when a budget is spent. What it computes is a loop that takes one turn
after the other as long as an object waits (`Marking.turn`). `Loop` says what such a loop comes to
if nothing limits the number of its turns, and lists the objects whose payloads are passed to the
tracers. A loop that goes on forever comes to nothing.

If the map of the heap is in order, the loop of a marking ends, whatever stands in the memory:
payloads and headers may say anything, and objects may refer to each other and to themselves
(`Marking.run_terminates`). Each turn leaves fewer objects without a mark, or as many and a shorter
queue (`Underway.of_turn`), for setting a mark changes no other header. The result is that of
`Marking.run`, so the budget is never spent, and no object is traced that had a mark before or has
been traced already.
-/

namespace MarkSweep

/-! ### Loops -/

/-- What a turn of a loop comes to. The loop has states in `σ` and a result in `ρ`. -/
structure Turn (σ ρ : Type) where
  /-- The object whose payload is passed to the tracers, if it comes to that. -/
  traced : List Addr
  /-- The result of the loop if it ends, otherwise the state in which it goes on. -/
  next : ρ ⊕ σ
deriving DecidableEq

/-- A loop from a state to its result, with the objects that it traces, in order. It may take any
number of turns. -/
inductive Loop {σ ρ : Type} (turn : σ → Turn σ ρ) : σ → List Addr → ρ → Prop where
  | ends {s : σ} {traced : List Addr} {r : ρ} (turn_eq : turn s = ⟨traced, .inl r⟩) :
      Loop turn s traced r
  | goesOn {s t : σ} {traced log : List Addr} {r : ρ} (turn_eq : turn s = ⟨traced, .inr t⟩)
      (rest : Loop turn t log r) : Loop turn s (traced ++ log) r

/-- A loop comes to at most one result. -/
theorem Loop.unique {σ ρ : Type} {turn : σ → Turn σ ρ} {s : σ} {log log' : List Addr} {r r' : ρ}
    (hl : Loop turn s log r) (hl' : Loop turn s log' r') : log' = log ∧ r' = r := by
  -- Both loops begin with the same turn, and end with it or go on together.
  induction hl generalizing log' r' with
  | ends hturn =>
    cases hl' with
    | ends hturn' =>
      rw [hturn] at hturn'
      cases hturn'
      exact ⟨rfl, rfl⟩
    | goesOn hturn' _ =>
      rw [hturn] at hturn'
      cases hturn'
  | goesOn hturn _ ih =>
    cases hl' with
    | ends hturn' =>
      rw [hturn] at hturn'
      cases hturn'
    | goesOn hturn' hrest =>
      rw [hturn] at hturn'
      cases hturn'
      obtain ⟨rfl, rfl⟩ := ih hrest
      exact ⟨rfl, rfl⟩

namespace BlockHeap

/-- What there is to find at an object whose mark has been set. -/
inductive Finding where
  /-- The payload cannot be read, and is not passed to the tracers. -/
  | unreadable (e : Refusal)
  /-- The tracers cannot make out the references in the payload. -/
  | malformed (cause : PayloadDefect)
  /-- This is the first reference to something that is not an object. -/
  | dangling (child : Addr)
  /-- Nothing is wrong, and these are the references. -/
  | sound (children : List Addr)

/-- What there is to find at the object at `p` when some objects have been marked. That an object is
malformed counts before its references. The payload is read with the marks in place, for a header
may give a size with which the payload reaches into the header table. -/
def findingAt (h : BlockHeap) (tracers : TracerMap) (marked : List Addr) (p : Addr) : Finding :=
  match (h.markAll marked).payload p with
  | .error e => .unreadable e
  | .ok payload =>
    let found := tracers.visit (h.headerAt p).tag payload
    match found.failure, found.children.find? h.isDangling with
    | some cause, _ => .malformed cause
    | none, some child => .dangling child
    | none, none => .sound found.children

end BlockHeap

namespace Marking

open BlockHeap

/-! ### The loop of a marking -/

/-- The result of a marking. -/
abbrev Outcome (H : Type) := EStateM.Result Refusal (Marking H) Unit

section Turns

variable {H : Type} [Heap H]

/-- One turn of the loop: the next object is taken from the queue and visited, unless it has a mark.
The loop ends when no object waits, and when a visit is refused. -/
def turn (tracers : TracerMap) (m : Marking H) : Turn (Marking H) (Outcome H) :=
  match m.queue with
  | [] => ⟨[], .inl (.ok () m)⟩
  | p :: rest =>
    let m := { m with queue := rest }
    match Heap.header m.heap p with
    | .error e => ⟨[], .inl (.error e m)⟩
    | .ok header =>
      if header.mark then
        ⟨[], .inr m⟩
      else
        match reveal p header m with
        | .error e m => ⟨[], .inl (.error e m)⟩
        | .ok payload m =>
          match follow tracers p header.tag payload m with
          | .error e m => ⟨[p], .inl (.error e m)⟩
          | .ok () m => ⟨[p], .inr m⟩

/-- A marking from the roots, with a loop that may take any number of turns, and the objects that it
traces. -/
inductive Runs (tracers : TracerMap) (roots : List Addr) (h : H) :
    List Addr → Outcome H → Prop where
  | refused {e : Refusal} {m : Marking H}
      (roots_eq : onHeap (liveRoots roots) (start h) = .error e m) :
      Runs tracers roots h [] (.error e m)
  | loop {live log : List Addr} {m : Marking H} {r : Outcome H}
      (roots_eq : onHeap (liveRoots roots) (start h) = .ok live m)
      (loop : Loop (turn tracers) (enqueue live m) log r) : Runs tracers roots h log r

variable {tracers : TracerMap} {roots : List Addr} {h : H} {m : Marking H} {p : Addr}
  {rest log log' : List Addr} {r r' : Outcome H} {header : Header}

/-- Roots, tracers and heap determine what a marking traces and what it comes to. -/
theorem Runs.unique (hr : Runs tracers roots h log r) (hr' : Runs tracers roots h log' r') :
    log' = log ∧ r' = r := by
  cases hr with
  | refused hroots =>
    cases hr' with
    | refused hroots' =>
      rw [hroots] at hroots'
      cases hroots'
      exact ⟨rfl, rfl⟩
    | loop hroots' _ =>
      rw [hroots] at hroots'
      cases hroots'
  | loop hroots hloop =>
    cases hr' with
    | refused hroots' =>
      rw [hroots] at hroots'
      cases hroots'
    | loop hroots' hloop' =>
      rw [hroots] at hroots'
      cases hroots'
      exact hloop.unique hloop'

/-- The loop ends when nothing waits. -/
theorem turn_of_queue_eq_nil (tracers : TracerMap) (hqueue : m.queue = []) :
    turn tracers m = ⟨[], .inl (.ok () m)⟩ := by
  simp only [turn, hqueue]

theorem visitAll_of_queue_eq_nil (tracers : TracerMap) (budget : Nat) (hqueue : m.queue = []) :
    visitAll tracers budget m = .ok () m := by
  obtain ⟨heap, queue, marked⟩ := m
  obtain rfl : queue = [] := hqueue
  rw [visitAll, Action.bind_apply]
  rfl

/-- While the budget lasts, an object without a mark is visited as in a turn of the loop. -/
theorem visitAll_of_not_mark (tracers : TracerMap) (budget : Nat) (hqueue : m.queue = p :: rest)
    (hheader : Heap.header m.heap p = .ok header) (hmark : header.mark = false) :
    visitAll tracers (budget + 1) m =
      Sum.elim id (visitAll tracers budget) (turn tracers m).next := by
  have hnext : nextUnmarked m.heap m.queue = .ok (some (p, header, rest)) := by
    rw [hqueue, nextUnmarked, hheader]
    simp only [bind, Except.bind, hmark, Bool.false_eq_true, if_false]
    rfl
  have hask : Action.ask (fun m : Marking H => nextUnmarked m.heap m.queue) m =
      .ok (some (p, header, rest)) m := Action.ask_of_eq_ok hnext
  rw [visitAll, Action.bind_apply, hask]
  -- Cut where the payload has been read, the visit is the turn.
  simp only [Action.bind_apply, Action.modify_apply, visit_eq_bind, turn, hqueue, hheader, hmark,
    Bool.false_eq_true, if_false]
  cases reveal p header { m with queue := rest } with
  | error e m' => rfl
  | ok payload m' =>
    cases hfollow : follow tracers p header.tag payload m' with
    | error e m'' =>
      simp only [hfollow]
      rfl
    | ok u m'' =>
      simp only [hfollow]
      rfl

/-- It makes no difference for the loop with a budget whether objects with a mark are taken from the
queue first. -/
theorem visitAll_congr (tracers : TracerMap) (budget : Nat)
    {next : Option (Addr × Header × List Addr)} (hnext : nextUnmarked m.heap m.queue = .ok next)
    (hrest : nextUnmarked m.heap rest = .ok next) :
    visitAll tracers (budget + 1) m = visitAll tracers (budget + 1) { m with queue := rest } := by
  have hask : Action.ask (fun m : Marking H => nextUnmarked m.heap m.queue) m = .ok next m :=
    Action.ask_of_eq_ok hnext
  have hask' : Action.ask (fun m : Marking H => nextUnmarked m.heap m.queue)
      { m with queue := rest } = .ok next { m with queue := rest } := Action.ask_of_eq_ok hrest
  rw [visitAll, Action.bind_apply, Action.bind_apply, hask, hask']
  cases next <;> rfl

end Turns

/-! ### What is left to do -/

/-- What is left to do: objects that may still be marked, and objects that wait. -/
def toDo (h : BlockHeap) (m : Marking BlockHeap) : ℕ × ℕ :=
  (h.map.blocks.length - m.marked.length, m.queue.length)

/-- The courses that a turn can take. -/
inductive Course (h : BlockHeap) (m : Marking BlockHeap) :
    Turn (Marking BlockHeap) (Outcome BlockHeap) → Prop where
  /-- Nothing waits. -/
  | done (queue_eq : m.queue = []) : Course h m ⟨[], .inl (.ok () m)⟩
  /-- The next object is passed over. -/
  | skip {p : Addr} {rest : List Addr} (queue_eq : m.queue = p :: rest)
      (passed : ¬ Pending h m p) : Course h m ⟨[], .inr { m with queue := rest }⟩
  /-- The visit to the next object is refused, before or after its payload has been passed to the
  tracers. -/
  | refused {p : Addr} {rest traced : List Addr} {e : Refusal} {m' : Marking BlockHeap}
      (queue_eq : m.queue = p :: rest) (pending : Pending h m p) (traced_sub : traced.Sublist [p]) :
      Course h m ⟨traced, .inl (.error e m')⟩
  /-- The next object is marked, and others join the queue. -/
  | visit {p : Addr} {rest qs : List Addr} (queue_eq : m.queue = p :: rest)
      (pending : Pending h m p) (owned : ∀ q ∈ qs, h.owns q) :
      Course h m ⟨[p], .inr (enqueue qs (visited p { m with queue := rest }))⟩

variable {tracers : TracerMap} {roots : List Addr} {h : BlockHeap} {m m' : Marking BlockHeap}
  {p : Addr} {rest log qs : List Addr} {r : Outcome BlockHeap} {budget : Nat}

namespace Underway

variable (hu : Underway h m) (hm : h.Mapped)

include hu hm

/-! ### What a turn does -/

/-- An object that has a mark when its turn comes is passed over. -/
theorem turn_of_not_pending (tracers : TracerMap) (hqueue : m.queue = p :: rest)
    (hp : ¬ Pending h m p) : turn tracers m = ⟨[], .inr { m with queue := rest }⟩ := by
  have hown := hu.queue_owned p (by simp [hqueue])
  have hmark := hu.mark_of_not_pending hm hown hp
  simp only [turn, hqueue, hu.header_eq hm hown, hmark, if_true]

/-- The first part of the visit to a pending object whose header does not say that it is free. -/
theorem reveal_eq (hp : Pending h m p) (halloc : (h.headerAt p).alloc) :
    reveal p (h.headerAt p) m = match (h.markAll (p :: m.marked)).payload p with
      | .ok payload => .ok payload (m.visited p)
      | .error e => .error e (m.visited p) := by
  have hheap : (m.visited p).heap = h.markAll (p :: m.marked) := (hu.visited hp).heap_eq
  have hown := (hu.owns_eq p).trans hp.1.1
  rw [← hu.headerAt_eq hm hp] at halloc ⊢
  have hreveal := Marking.reveal_eq (hu.mapped hm) hown halloc
  cases hpayload : (h.markAll (p :: m.marked)).payload p <;>
    simp only [hreveal, hheap, hpayload]

/-- The second part of a visit: of the children those join the queue that are pending. -/
theorem follow_eq (tracers : TracerMap) (p : Addr) (tag : Tag) (payload : Payload) :
    follow tracers p tag payload m = match h.defectOf p tag (tracers.visit tag payload) with
      | some e => .error e m
      | none => .ok () (Marking.enqueue
          ((tracers.visit tag payload).children.filter fun q => Pending h m q) m) := by
  have hdefectOf : m.heap.defectOf = h.defectOf := by
    rw [hu.heap_eq, defectOf_markAll]
  rw [Marking.follow_eq (hu.mapped hm), hdefectOf]
  cases hdefect : h.defectOf p tag (tracers.visit tag payload) with
  | some e => rfl
  | none => simp only [hu.filter_children hm (isDangling_of_defectOf_eq_none hdefect)]

/-- A pending object is visited, unless its header says that the block is free. -/
theorem turn_of_pending (tracers : TracerMap) (hqueue : m.queue = p :: rest)
    (hp : Pending h m p) : turn tracers m =
      let m₁ := Marking.visited p { m with queue := rest }
      if (h.headerAt p).alloc then
        match h.findingAt tracers (p :: m.marked) p with
        | .unreadable e => ⟨[], .inl (.error e m₁)⟩
        | .malformed cause => ⟨[p], .inl (.error (.malformedObject p (h.headerAt p).tag cause) m₁)⟩
        | .dangling child => ⟨[p], .inl (.error (.danglingReference p child) m₁)⟩
        | .sound children =>
          ⟨[p], .inr (Marking.enqueue (children.filter fun q => Pending h m₁ q) m₁)⟩
      else ⟨[], .inl (.error (.corruptHeader p .clearsAlloc) { m with queue := rest })⟩ := by
  have hskip := hu.skip hqueue
  have hhead := hu.headerAt_eq hm hp
  have hheader : Heap.header m.heap p = .ok (h.headerAt p) := by
    rw [hu.header_eq hm hp.1.1, hhead]
  have hmark : (h.headerAt p).mark = false := hp.1.2
  simp only [turn, hqueue, hheader, hmark, Bool.false_eq_true, if_false]
  cases halloc : (h.headerAt p).alloc with
  | false =>
    have hreveal := reveal_of_not_alloc (m := { m with queue := rest })
      ((hskip.owns_eq p).trans hp.1.1) (by rw [hhead, halloc])
    rw [hhead] at hreveal
    simp only [hreveal, Bool.false_eq_true, if_false]
  | true =>
    -- The payload is read when the mark has been set, and the children are looked up after that.
    have hfollow := (hskip.visited hp).follow_eq hm tracers p (h.headerAt p).tag
    simp only [hskip.reveal_eq hm hp halloc, findingAt, if_true]
    cases hpayload : (h.markAll (p :: m.marked)).payload p with
    | error e => rfl
    | ok payload =>
      simp only [hfollow, defectOf]
      generalize tracers.visit (h.headerAt p).tag payload = v
      cases v.failure with
      | some cause => rfl
      | none => cases v.children.find? h.isDangling <;> rfl

/-- Every turn of a marking that is underway has one of these courses. -/
theorem course (tracers : TracerMap) : Course h m (turn tracers m) := by
  cases hqueue : m.queue with
  | nil =>
    rw [turn_of_queue_eq_nil tracers hqueue]
    exact .done hqueue
  | cons p rest =>
    by_cases hp : Pending h m p
    · rw [hu.turn_of_pending hm tracers hqueue hp]
      dsimp only
      split
      next =>
        split
        next => exact .refused hqueue hp (List.nil_sublist _)
        next => exact .refused hqueue hp (List.Sublist.refl _)
        next => exact .refused hqueue hp (List.Sublist.refl _)
        next children _ =>
          refine .visit hqueue hp fun q hq => ?_
          exact (of_decide_eq_true (List.mem_filter.mp hq).2).1.1
      next => exact .refused hqueue hp (List.nil_sublist _)
    · rw [hu.turn_of_not_pending hm tracers hqueue hp]
      exact .skip hqueue hp

/-- A turn with which the loop does not end. What it traces was pending and has been marked, and
there is less to do: either fewer objects without a mark, or as many and a shorter queue. -/
theorem of_turn (hturn : turn tracers m = ⟨log, .inr m'⟩) :
    Underway h m' ∧ m'.marked = log ++ m.marked ∧ log.Nodup ∧ (∀ p ∈ log, Pending h m p) ∧
      Prod.Lex (· < ·) (· < ·) (toDo h m') (toDo h m) := by
  have hcourse := hu.course hm tracers
  rw [hturn] at hcourse
  cases hcourse with
  | skip hqueue _ =>
    refine ⟨hu.skip hqueue, rfl, List.nodup_nil, by simp, .right _ ?_⟩
    simp [hqueue]
  | visit hqueue hp hqs =>
    refine ⟨((hu.skip hqueue).visited hp).enqueue hqs, rfl, List.nodup_singleton _,
      by simpa using hp, .left _ _ ?_⟩
    have hlt := hu.length_marked_lt hp
    simp only [Marking.enqueue, Marking.visited, List.length_cons]
    lia

/-- The loop traces pending objects, each once. -/
theorem nodup_of_loop (hl : Loop (turn tracers) m log r) :
    log.Nodup ∧ ∀ p ∈ log, Pending h m p := by
  induction hl with
  | @ends m traced r hturn =>
    have hcourse := hu.course hm tracers
    rw [hturn] at hcourse
    cases hcourse with
    | done _ => simp
    | refused _ hp hsub =>
      refine ⟨(List.nodup_singleton _).sublist hsub, fun q hq => ?_⟩
      obtain rfl := List.mem_singleton.mp (hsub.subset hq)
      exact hp
  | @goesOn m m' traced log r hturn _ ih =>
    obtain ⟨hu', hmarked, hnodup, hpending, -⟩ := hu.of_turn hm hturn
    obtain ⟨hnodup', hpending'⟩ := ih hu'
    -- What is traced later is still pending after the turn, so it is not what the turn has traced.
    simp only [Pending, hmarked, List.mem_append, not_or] at hpending'
    refine ⟨List.nodup_append'.mpr ⟨hnodup, hnodup', ?_⟩, ?_⟩
    · exact fun p hp hp' => (hpending' p hp').2.1 hp
    · refine List.forall_mem_append.mpr ⟨hpending, fun p hp => ?_⟩
      exact ⟨(hpending' p hp).1, (hpending' p hp).2.2⟩

end Underway

/-- The loop ends. -/
theorem Underway.exists_loop {m : Marking BlockHeap} (hu : Underway h m) (hm : h.Mapped)
    (tracers : TracerMap) : ∃ log r, Loop (turn tracers) m log r := by
  -- The queue may grow with a turn, so the recursion is on what is left to do.
  match hturn : turn tracers m with
  | ⟨traced, .inl r⟩ => exact ⟨_, _, .ends hturn⟩
  | ⟨traced, .inr m'⟩ =>
    obtain ⟨hu', -, -, -, hless⟩ := hu.of_turn hm hturn
    obtain ⟨log, r, hrest⟩ := hu'.exists_loop hm tracers
    exact ⟨_, _, .goesOn hturn hrest⟩
termination_by toDo h m
decreasing_by exact hless

/-! ### The budget -/

namespace Underway

variable (hu : Underway h m) (hm : h.Mapped)

include hu hm

/-- A visit takes one from the budget, and the loop goes on with the turn that it is. -/
theorem visitAll_of_pending (tracers : TracerMap) (budget : Nat) (hqueue : m.queue = p :: rest)
    (hp : Pending h m p) : visitAll tracers (budget + 1) m =
      Sum.elim id (visitAll tracers budget) (turn tracers m).next :=
  visitAll_of_not_mark tracers budget hqueue (hu.header_eq hm hp.1.1)
    ((hu.mark_eq_false_iff hm hp.1.1).mpr hp)

/-- What is passed over takes nothing from the budget. -/
theorem visitAll_of_not_pending (tracers : TracerMap) (budget : Nat) (hqueue : m.queue = p :: rest)
    (hp : ¬ Pending h m p) : visitAll tracers (budget + 1) m =
      visitAll tracers (budget + 1) { m with queue := rest } := by
  have hown := hu.queue_owned p (by simp [hqueue])
  have hmark := hu.mark_of_not_pending hm hown hp
  have hskip : nextUnmarked m.heap m.queue = nextUnmarked m.heap rest := by
    rw [hqueue, nextUnmarked, hu.header_eq hm hown]
    simp only [bind, Except.bind, hmark, if_true]
  have hrest : ∀ q ∈ rest, m.heap.owns q := fun q hq =>
    (hu.owns_eq q).trans (hu.queue_owned q (by simp [hqueue, hq]))
  -- The search in the rest of the queue is not refused, for objects wait there.
  rcases nextUnmarked_cases (hu.mapped hm) hrest with ⟨hnone, -⟩ | ⟨-, q, rest', -, -, -, hsome⟩
  · exact visitAll_congr tracers budget (hskip.trans hnone) hnone
  · exact visitAll_congr tracers budget (hskip.trans hsome) hsome

/-- With a budget for more objects than can still be marked, the result is that of the loop. -/
theorem visitAll_eq (hl : Loop (turn tracers) m log r)
    (hbudget : h.map.blocks.length < budget + m.marked.length) : visitAll tracers budget m = r := by
  induction hl generalizing budget with
  | @ends m traced r hturn =>
    -- There is always a turn left in the budget, for no more than all blocks have been marked.
    have hle := hu.length_marked_le
    obtain ⟨budget, rfl⟩ : ∃ n, budget = n + 1 := Nat.exists_eq_succ_of_ne_zero (by lia)
    have hcourse := hu.course hm tracers
    rw [hturn] at hcourse
    cases hcourse with
    | done hqueue => exact visitAll_of_queue_eq_nil tracers _ hqueue
    | refused hqueue hp _ =>
      rw [hu.visitAll_of_pending hm tracers budget hqueue hp, hturn]
      rfl
  | @goesOn m m' traced log r hturn _ ih =>
    have hle := hu.length_marked_le
    obtain ⟨budget, rfl⟩ : ∃ n, budget = n + 1 := Nat.exists_eq_succ_of_ne_zero (by lia)
    obtain ⟨hu', -, -, -, -⟩ := hu.of_turn hm hturn
    have hcourse := hu.course hm tracers
    rw [hturn] at hcourse
    cases hcourse with
    | skip hqueue hp =>
      -- The loop with a budget passes over objects for free.
      rw [hu.visitAll_of_not_pending hm tracers budget hqueue hp]
      exact ih hu' hbudget
    | visit hqueue hp _ =>
      -- One more object is marked, and one less may be visited.
      rw [hu.visitAll_of_pending hm tracers budget hqueue hp, hturn]
      refine ih hu' ?_
      simp only [Marking.enqueue, Marking.visited, List.length_cons]
      lia

end Underway

/-- There is a run of a marking, and its result is that of `run`. -/
theorem exists_runs (hm : h.Mapped) (hmemory : h.memory.size ≤ UInt32.size)
    (tracers : TracerMap) (roots : List Addr) : ∃ log r, Runs tracers roots h log r ∧
      run tracers roots (.start h) = r ∧ log.Nodup ∧ ∀ p ∈ log, h.Unmarked p := by
  rcases onHeap_liveRoots_cases h roots with ⟨p, -, herror⟩ | ⟨-, hlive, hok⟩
  · refine ⟨[], _, .refused herror, ?_, List.nodup_nil, by simp⟩
    simp only [run, Action.bind_apply, herror]
  · have hu := (underway_start h).enqueue hlive
    obtain ⟨log, r, hloop⟩ := hu.exists_loop hm tracers
    obtain ⟨hnodup, hpending⟩ := hu.nodup_of_loop hm hloop
    refine ⟨log, r, .loop hok hloop, ?_, hnodup, fun p hp => (hpending p hp).1⟩
    simp only [run, Action.bind_apply, hok, Action.modify_apply]
    exact hu.visitAll_eq hm hloop (length_blocks_lt_budget hm hmemory)

/-- A marking ends, whatever stands in the memory: there is exactly one run of it, and its result is
that of `run`. It passes no payload to the tracers twice, and none of an object that had a mark. -/
theorem run_terminates (hm : h.Mapped) (hmemory : h.memory.size ≤ UInt32.size)
    (tracers : TracerMap) (roots : List Addr) : ∃ log r,
      (∀ log' r', Runs tracers roots h log' r' ↔ log' = log ∧ r' = r) ∧
        run tracers roots (.start h) = r ∧ log.Nodup ∧ ∀ p ∈ log, h.Unmarked p := by
  obtain ⟨log, r, hr, hrest⟩ := exists_runs hm hmemory tracers roots
  refine ⟨log, r, fun log' r' => ⟨fun hr' => hr.unique hr', ?_⟩, hrest⟩
  rintro ⟨rfl, rfl⟩
  exact hr

/-- The object at 8 refers to the one at 16, which refers to itself, back to 8, and to 32. The
header of 32 has been overwritten: it has a mark and says that the block is free. -/
theorem run_terminates_small :
    let h := (History.small.serve [.allocate .cell 4, .allocate .dictEntry 12, .allocate .cell 4,
      .write 8 [16, 0, 0, 0], .write 16 [16, 0, 0, 0, 8, 0, 0, 0, 32, 0, 0, 0],
      .write 52 [2, 0, 0, 0]]).heap
    h.Mapped ∧ (run (.standard .empty) [8, 32, 8]).answer? (.start h) = some () ∧ ∃ log r,
      (∀ log' r', Runs (.standard .empty) [8, 32, 8] h log' r' ↔ log' = log ∧ r' = r) ∧
        run (.standard .empty) [8, 32, 8] (.start h) = r ∧ log.Nodup ∧ ∀ p ∈ log, h.Unmarked p := by
  intro h
  have hm : h.Mapped := ((reachable_small fun _ _ => True).serve (by simp)).mapped
  have hmemory : h.memory.size ≤ UInt32.size := by decide +kernel
  exact ⟨hm, by decide +kernel, run_terminates hm hmemory (.standard .empty) [8, 32, 8]⟩

end Marking

end MarkSweep
