import MarkSweep.Proofs.BlockHeap.Table
import MarkSweep.Proofs.Collector.Collection
import MarkSweep.Proofs.Marking.Loop

/-!
# Breadth first

A breadth-first search puts an object into its queue when it sees the object for the first time, so
none waits twice (`Search.see`). A marking queues an object again and again as long as it has no
mark, and sorts this out when the turn of the object comes. Both come to the same
(`Collector.mark_breadth_first`): they visit the same objects in the same order, are refused for the
same reason at the same object, and leave the same marks.

The search that corresponds to a marking has in its queue the objects that are pending, each where
it waits first (`Marking.search`). When the marking passes over an object, this does not change
(`search_skip`); when it visits one, the search visits the same (`search_visited`); and what the
marking queues, the search sees (`foldl_see_search`).
-/

namespace MarkSweep

/-- A breadth-first search. -/
@[ext]
structure Search where
  /-- Objects that have been seen and wait for their visit, the next one first. -/
  queue : List Addr
  /-- Objects that have been visited, the latest first. -/
  visited : List Addr
deriving DecidableEq

namespace Search

open BlockHeap

/-- What a search comes to. -/
structure Report where
  /-- Objects that have been visited, the latest first. -/
  visited : List Addr
  /-- Why the search has been given up, if it has. -/
  refusal : Option Refusal
deriving DecidableEq

/-- An object without a mark is put into the queue when it is seen for the first time. -/
def see (h : BlockHeap) (s : Search) (p : Addr) : Search :=
  if h.Unmarked p ∧ p ∉ s.visited ∧ p ∉ s.queue then { s with queue := s.queue ++ [p] } else s

/-- One turn of the search: the next object is visited, and its children are seen one after the
other. -/
def turn (h : BlockHeap) (tracers : TracerMap) (s : Search) : Turn Search Report :=
  match s.queue with
  | [] => ⟨[], .inl ⟨s.visited, none⟩⟩
  | p :: rest =>
    let visited := p :: s.visited
    match h.findingAt tracers visited p with
    | .unreadable e => ⟨[], .inl ⟨visited, some e⟩⟩
    | .malformed cause => ⟨[p], .inl ⟨visited, some (.malformedObject p (h.headerAt p).tag cause)⟩⟩
    | .dangling child => ⟨[p], .inl ⟨visited, some (.danglingReference p child)⟩⟩
    | .sound children => ⟨[p], .inr (children.foldl (see h) ⟨rest, visited⟩)⟩

/-- A search that sees the roots first, one after the other. It is not begun if one of them
dangles. -/
inductive FromRoots (h : BlockHeap) (tracers : TracerMap) (roots : List Addr) :
    List Addr → Report → Prop where
  | refused {p : Addr} (first : roots.find? h.isDangling = some p) :
      FromRoots h tracers roots [] ⟨[], some (.danglingRoot p)⟩
  | loop {traced : List Addr} {report : Report} (none_dangles : roots.find? h.isDangling = none)
      (loop : Loop (turn h tracers) (roots.foldl (see h) ⟨[], []⟩) traced report) :
      FromRoots h tracers roots traced report

variable {h : BlockHeap} {tracers : TracerMap} {roots traced traced' : List Addr}
  {report report' : Report}

/-- There is one search only from given roots. -/
theorem FromRoots.unique (hs : FromRoots h tracers roots traced report)
    (hs' : FromRoots h tracers roots traced' report') : traced' = traced ∧ report' = report := by
  cases hs with
  | refused hfirst =>
    cases hs' with
    | refused hfirst' =>
      rw [hfirst] at hfirst'
      cases hfirst'
      exact ⟨rfl, rfl⟩
    | loop hnone _ =>
      rw [hfirst] at hnone
      contradiction
  | loop hnone hloop =>
    cases hs' with
    | refused hfirst =>
      rw [hfirst] at hnone
      contradiction
    | loop _ hloop' => exact hloop.unique hloop'

end Search

namespace Marking

open BlockHeap

/-- The search that corresponds to a marking of the heap `h`. -/
def search (h : BlockHeap) (m : Marking BlockHeap) : Search where
  queue := (m.queue.filter fun p => Pending h m p).eraseDups
  visited := m.marked

/-- The report of a search and the result of a marking tell of the same. -/
inductive Reports (h : BlockHeap) : Outcome BlockHeap → Search.Report → Prop where
  | ok {m : Marking BlockHeap} (underway : Underway h m) : Reports h (.ok () m) ⟨m.marked, none⟩
  | error {e : Refusal} {m : Marking BlockHeap} (underway : Underway h m) :
      Reports h (.error e m) ⟨m.marked, some e⟩

/-- A search that tells of the same as a marking visits blocks in use only. -/
theorem Reports.owned {h : BlockHeap} {r : Outcome BlockHeap} {report : Search.Report}
    (hreports : Reports h r report) : ∀ p ∈ report.visited, h.owns p := by
  cases hreports with
  | ok hu => exact hu.marked_owned
  | error hu => exact hu.marked_owned

variable {h : BlockHeap} {m : Marking BlockHeap} {p : Addr} {rest qs : List Addr}
  {tracers : TracerMap} {roots : List Addr}

/-- An object that is passed over does not wait in the queue of the search. -/
theorem search_skip (hqueue : m.queue = p :: rest) (hp : ¬ Pending h m p) :
    search h { m with queue := rest } = search h m := by
  have hfilter : m.queue.filter (fun p => Pending h m p) =
      rest.filter fun p => Pending h m p := by
    rw [hqueue, List.filter_cons_of_neg (by simpa using hp)]
  simp only [search, hfilter]
  rfl

/-- An object that is visited waits at the head of the queue of the search, and nowhere else. -/
theorem search_visited (hqueue : m.queue = p :: rest) (hp : Pending h m p) :
    search h m = ⟨p :: (search h (visited p { m with queue := rest })).queue, m.marked⟩ := by
  have hfilter : m.queue.filter (fun p => Pending h m p) =
      p :: rest.filter fun p => Pending h m p := by
    rw [hqueue, List.filter_cons_of_pos (by simpa using hp)]
  simp only [search, hfilter, List.eraseDups_cons, List.filter_filter]
  -- Pending are now the objects that were pending before and are not `p`.
  have hpending : (rest.filter fun q => (!q == p) && decide (Pending h m q)) =
      rest.filter fun q => Pending h (visited p { m with queue := rest }) q := by
    refine List.filter_congr fun q _ => ?_
    rw [Bool.eq_iff_iff]
    simp only [Pending, visited, List.mem_cons]
    grind
  rw [hpending]
  rfl

/-- The search sees what joins the queue of the marking. -/
theorem see_search (h : BlockHeap) (m : Marking BlockHeap) (p : Addr) :
    (search h m).see h p = search h (enqueue [p] m) := by
  have hqueue : (search h (enqueue [p] m)).queue =
      ((m.queue ++ [p]).filter fun q => Pending h m q).eraseDups := rfl
  rw [List.filter_append, List.eraseDups_append] at hqueue
  by_cases hp : Pending h m p
  · rw [List.filter_cons_of_pos (by simpa using hp), List.filter_nil] at hqueue
    by_cases hwaits : p ∈ m.queue
    · -- The object waits already, for the search and for the marking.
      have hseen : p ∈ (search h m).queue := by
        simp [search, hwaits, hp]
      rw [Search.see, if_neg fun hnew => hnew.2.2 hseen]
      have hremove : [p].removeAll (m.queue.filter fun q => Pending h m q) = [] := by
        simp [List.removeAll, hwaits, hp]
      rw [hremove, List.eraseDups_nil, List.append_nil] at hqueue
      exact Search.ext hqueue.symm rfl
    · have hnew : p ∉ (search h m).queue := by
        simp [search, hwaits]
      rw [Search.see, if_pos ⟨hp.1, hp.2, hnew⟩]
      have hremove : [p].removeAll (m.queue.filter fun q => Pending h m q) = [p] := by
        simp [List.removeAll, hwaits]
      rw [hremove] at hqueue
      exact Search.ext hqueue.symm rfl
  · -- Neither of them has to visit the object.
    rw [List.filter_cons_of_neg (by simpa using hp)] at hqueue
    simp only [List.filter_nil, List.nil_removeAll, List.eraseDups_nil, List.append_nil] at hqueue
    rw [Search.see, if_neg fun hnew => hp ⟨hnew.1, hnew.2.1⟩]
    exact Search.ext hqueue.symm rfl

/-- By induction on the objects, the search sees what the marking queues, one after the other. -/
theorem foldl_see_search (h : BlockHeap) (m : Marking BlockHeap) (qs : List Addr) :
    qs.foldl (Search.see h) (search h m) = search h (enqueue qs m) := by
  induction qs generalizing m with
  | nil => simp [enqueue]
  | cons q qs ih =>
    rw [List.foldl_cons, see_search, ih]
    simp [enqueue]

/-- It makes no difference whether objects that are not pending join the queue. -/
theorem search_enqueue_filter {f : Addr → Bool} (hf : ∀ q ∈ qs, Pending h m q → f q) :
    search h (enqueue (qs.filter f) m) = search h (enqueue qs m) := by
  have hfilter : ((qs.filter f).filter fun q => Pending h m q) =
      qs.filter fun q => Pending h m q := by
    rw [List.filter_filter]
    refine List.filter_congr fun q hq => ?_
    by_cases hp : Pending h m q <;> simp [hp, hf q hq]
  have hqueue : (m.queue ++ qs.filter f).filter (fun q => Pending h m q) =
      (m.queue ++ qs).filter fun q => Pending h m q := by
    rw [List.filter_append, List.filter_append, hfilter]
  exact Search.ext (congrArg List.eraseDups hqueue) rfl

/-- Where the marking visits an object, the search does so, too. -/
theorem search_turn_of_pending (tracers : TracerMap) (hqueue : m.queue = p :: rest)
    (hp : Pending h m p) : Search.turn h tracers (search h m) =
      let m₁ := visited p { m with queue := rest }
      match h.findingAt tracers (p :: m.marked) p with
      | .unreadable e => ⟨[], .inl ⟨m₁.marked, some e⟩⟩
      | .malformed cause =>
        ⟨[p], .inl ⟨m₁.marked, some (.malformedObject p (h.headerAt p).tag cause)⟩⟩
      | .dangling child => ⟨[p], .inl ⟨m₁.marked, some (.danglingReference p child)⟩⟩
      | .sound children =>
        ⟨[p], .inr (search h (enqueue (children.filter fun q => Pending h m₁ q) m₁))⟩ := by
  rw [search_visited hqueue hp]
  simp only [Search.turn]
  cases h.findingAt tracers (p :: m.marked) p with
  | sound children =>
    -- Of the children the marking leaves out those that the search would not take note of.
    have hsee := foldl_see_search h (visited p { m with queue := rest }) children
    rw [← search_enqueue_filter fun q _ hq => decide_eq_true hq] at hsee
    exact congrArg (fun s => (⟨[p], .inr s⟩ : Turn Search Search.Report)) hsee
  | _ => rfl

/-- The loop of a marking and that of the search which corresponds to it trace the same objects, and
their results tell of the same. -/
theorem exists_search {m : Marking BlockHeap} (hu : Underway h m) (hm : h.Mapped)
    (halloc : ∀ p, h.owns p → (h.headerAt p).alloc) (tracers : TracerMap) :
    ∃ log r report, Loop (turn tracers) m log r ∧
      Loop (Search.turn h tracers) (search h m) log report ∧ Reports h r report := by
  -- The turns of the marking lead the way; to one that visits an object corresponds one of the
  -- search, and to one that passes over an object none.
  cases hqueue : m.queue with
  | nil =>
    have hstep : Search.turn h tracers (search h m) = ⟨[], .inl ⟨m.marked, none⟩⟩ := by
      simp [Search.turn, search, hqueue]
    exact ⟨_, _, _, .ends (turn_of_queue_eq_nil tracers hqueue), .ends hstep, .ok hu⟩
  | cons p rest =>
    by_cases hp : Pending h m p
    · have hturn := hu.turn_of_pending hm tracers hqueue hp
      have hstep := search_turn_of_pending tracers hqueue hp
      have hu₁ := (hu.skip hqueue).visited hp
      -- A visit that is refused leaves its object marked, in the marking and in the search.
      simp only [halloc p hp.1.1, if_true] at hturn
      cases hfinding : h.findingAt tracers (p :: m.marked) p with
      | unreadable e =>
        simp only [hfinding] at hturn hstep
        exact ⟨_, _, _, .ends hturn, .ends hstep, .error hu₁⟩
      | malformed cause =>
        simp only [hfinding] at hturn hstep
        exact ⟨_, _, _, .ends hturn, .ends hstep, .error hu₁⟩
      | dangling child =>
        simp only [hfinding] at hturn hstep
        exact ⟨_, _, _, .ends hturn, .ends hstep, .error hu₁⟩
      | sound children =>
        simp only [hfinding] at hturn hstep
        obtain ⟨hu', -, -, -, hless⟩ := hu.of_turn hm hturn
        obtain ⟨log, r, report, hloop, hsearch, hreports⟩ := exists_search hu' hm halloc tracers
        exact ⟨_, _, _, .goesOn hturn hloop, .goesOn hstep hsearch, hreports⟩
    · -- The marking passes over an object, and the search does nothing.
      have hturn := hu.turn_of_not_pending hm tracers hqueue hp
      obtain ⟨hu', -, -, -, hless⟩ := hu.of_turn hm hturn
      obtain ⟨log, r, report, hloop, hsearch, hreports⟩ := exists_search hu' hm halloc tracers
      rw [search_skip hqueue hp] at hsearch
      exact ⟨_, _, _, .goesOn hturn hloop, hsearch, hreports⟩
termination_by toDo h m
decreasing_by
  all_goals exact hless

/-- A marking from the roots traces what a search from the roots does, and the two tell of the
same. -/
theorem exists_fromRoots (hm : h.Mapped) (halloc : ∀ p, h.owns p → (h.headerAt p).alloc)
    (tracers : TracerMap) (roots : List Addr) :
    ∃ log r report, Runs tracers roots h log r ∧ Search.FromRoots h tracers roots log report ∧
      Reports h r report := by
  rcases onHeap_liveRoots_cases h roots with ⟨p, hfirst, hroots⟩ | ⟨hnone, hlive, hroots⟩
  · exact ⟨[], _, _, .refused hroots, .refused hfirst, .error (underway_start h)⟩
  · obtain ⟨log, r, report, hloop, hsearch, hreports⟩ :=
      exists_search ((underway_start h).enqueue hlive) hm halloc tracers
    -- The search sees all roots, for it takes no note of those that are null.
    rw [search_enqueue_filter, ← foldl_see_search] at hsearch
    · exact ⟨log, r, report, .loop hroots hloop, .loop hnone hsearch, hreports⟩
    · intro q _ hq
      simpa [Addr.isNull] using hm.ne_zero hq.1.1

end Marking

namespace Collector

open BlockHeap Marking

/-- What the marking of a collector comes to when its search comes to this. -/
def reported (c : Collector BlockHeap) (report : Search.Report) :
    EStateM.Result Refusal (Collector BlockHeap) Nat :=
  match report.refusal with
  | none => .ok report.visited.length { c with heap := c.heap.markAll report.visited }
  | some e => .error e { c with heap := c.heap.markAll report.visited }

/-- The marking of a collector is a breadth-first search. -/
structure BreadthFirst (c : Collector BlockHeap) (traced : List Addr) (report : Search.Report) :
    Prop where
  /-- There is one search, which traces these objects and ends with this report. -/
  fromRoots_iff : ∀ traced' report',
    Search.FromRoots c.heap c.tracers c.roots.roots traced' report' ↔
      traced' = traced ∧ report' = report
  /-- The marking traces the same objects. -/
  runs_iff : ∀ log, (∃ r, Runs c.tracers c.roots.roots c.heap log r) ↔ log = traced
  /-- It ends with the same report. -/
  mark_eq : mark c = c.reported report
  /-- Afterwards the objects that the search has visited have a mark, and those that had one. -/
  mark_iff : ∀ p, c.heap.owns p → (((mark.after c).heap.headerAt p).mark ↔
    (c.heap.headerAt p).mark ∨ p ∈ report.visited)

variable {c : Collector BlockHeap}

/-- The marking of a collector tells of what its run tells of. -/
theorem mark_of_run_eq {r : Outcome BlockHeap} {report : Search.Report}
    (hrun : Marking.run c.tracers c.roots.roots (.start c.heap) = r)
    (hreports : Reports c.heap r report) : mark c = c.reported report := by
  obtain ⟨heap, roots, tracers, trigger, totals⟩ := c
  cases hreports with
  | ok hu => simp only [mark, hrun, reported, ← hu.heap_eq]
  | error hu => simp only [mark, hrun, reported, ← hu.heap_eq]

/-- Whether it is refused or not, a marking leaves the marks of what its search has visited. -/
theorem heap_after_mark {report : Search.Report} (hmark : mark c = c.reported report) :
    (mark.after c).heap = c.heap.markAll report.visited := by
  obtain ⟨visited, refusal⟩ := report
  cases refusal with
  | none => rw [Action.after_of_eq_ok hmark]
  | some e => rw [Action.after_of_eq_error hmark]

/-- Nothing but the map and the allocated bits of the headers matters. -/
theorem breadthFirst_of_mapped (hm : c.heap.Mapped) (hmemory : c.heap.memory.size ≤ UInt32.size)
    (halloc : ∀ p, c.heap.owns p → (c.heap.headerAt p).alloc) :
    ∃ traced report, c.BreadthFirst traced report := by
  obtain ⟨traced, r, report, hruns, hsearch, hreports⟩ :=
    exists_fromRoots hm halloc c.tracers c.roots.roots
  -- A marking has one run, so the one found beside the search is that of the collector.
  obtain ⟨_, _, hruns', hrun, -, -⟩ := exists_runs hm hmemory c.tracers c.roots.roots
  obtain ⟨rfl, rfl⟩ := hruns'.unique hruns
  have hmark := mark_of_run_eq hrun hreports
  refine ⟨traced, report, ?_, ?_, hmark, ?_⟩
  · intro traced' report'
    refine ⟨fun hsearch' => hsearch.unique hsearch', ?_⟩
    rintro ⟨rfl, rfl⟩
    exact hsearch
  · intro log
    refine ⟨fun ⟨r', hruns'⟩ => (hruns.unique hruns').1, ?_⟩
    rintro rfl
    exact ⟨_, hruns⟩
  · intro p hp
    rw [heap_after_mark hmark, mark_markAll_iff hm hreports.owned hp]
    exact or_comm

/-- If the program has not written the header table itself, a marking is a breadth-first search,
whatever marks the objects had, and whatever the roots and the tracers are. -/
theorem mark_breadth_first {s : History}
    (hs : BlockHeap.Reachable (fun h request => request.SparesTable h) s)
    (hheap : c.heap = s.heap) : ∃ traced report, c.BreadthFirst traced report := by
  have hc := hs.consistent
  have hmemory := hs.memory_le
  rw [← hheap] at hc hmemory
  exact breadthFirst_of_mapped hc.mapped hmemory hc.alloc

/-- The object at 24 is a root and a child of 8 twice, and 32 is a child of both. Each of them is
visited once; the reference of 32 to the inside of 8 is where the marking is refused. -/
theorem mark_breadth_first_small :
    let s := History.small.serve [.allocate .dictEntry 12, .allocate .cell 4, .allocate .cell 4]
    let t := s.next (.write 8 [24, 0, 0, 0, 32, 0, 0, 0, 24, 0, 0, 0, 0, 0, 0, 0, 32, 0, 0, 0,
      0, 0, 0, 0, 16, 0, 0, 0])
    let c := { standard t.heap with roots := ⟨[], [8, 8, 24], [0]⟩ }
    c.BreadthFirst [8, 24, 32] ⟨[32, 24, 8], some (.danglingReference 32 16)⟩ := by
  intro s t c
  let admits : BlockHeap → BlockHeap.Request → Prop :=
    fun h request => request.SparesTable h
  have hs : BlockHeap.Reachable admits s :=
    (BlockHeap.reachable_small admits).serve
      (by simp [admits, BlockHeap.Request.SparesTable, BlockHeap.Request.written])
  have ht : BlockHeap.Reachable admits t := by
    refine hs.next (Set.Subset.trans ?_ hs.mapped.layout.region_subset_compl_table)
    exact Set.Ico_subset_Ico (by decide +kernel) (by decide +kernel)
  obtain ⟨traced, report, hbreadth⟩ := mark_breadth_first (c := c) ht rfl
  have hloop : Loop (Search.turn c.heap c.tracers) ⟨[8, 24], []⟩ [8, 24, 32]
      ⟨[32, 24, 8], some (.danglingReference 32 16)⟩ := by
    refine @Loop.goesOn _ _ _ _ ⟨[24, 32], [8]⟩ [8] _ _ (by decide +kernel) ?_
    refine @Loop.goesOn _ _ _ _ ⟨[32], [24, 8]⟩ [24] _ _ (by decide +kernel) ?_
    exact .ends (by decide +kernel)
  have hroots : c.roots.roots.foldl (Search.see c.heap) ⟨[], []⟩ = ⟨[8, 24], []⟩ := by
    decide +kernel
  rw [← hroots] at hloop
  have hsearch := Search.FromRoots.loop (by decide +kernel) hloop
  obtain ⟨rfl, rfl⟩ := (hbreadth.fromRoots_iff _ _).mp hsearch
  exact hbreadth

end Collector

end MarkSweep
