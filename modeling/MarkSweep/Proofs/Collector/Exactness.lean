import Mathlib.Data.Set.Card
import MarkSweep.Proofs.Collector.Run

/-!
# Exactness of collections

A completed collection keeps exactly the objects that can be reached from the roots, and those that
had a mark before (`Collector.collect_exact`). From a heap without marks, a collection is refused
exactly if something is wrong with a root or with an object that can be reached, and a refused
collection has changed nothing but marks (`Collector.collect_refused`).
-/

namespace MarkSweep.Collector

open BlockHeap Marking

/-- Objects that have a mark already. A collection that was refused has left them so. -/
def Premarked (c : Collector BlockHeap) (p : Addr) : Prop :=
  c.heap.owns p ∧ (c.heap.headerAt p).mark

/-- What can be reached from the roots without passing through an object that has a mark already. -/
def Found (c : Collector BlockHeap) : Addr → Prop :=
  Reach (fun p => p ≠ 0 ∧ ¬ c.Premarked p) (fun p => (c.heap.visitAt c.tracers p).children)
    c.roots.roots

/-- Objects that can be reached from the roots. -/
def Live (c : Collector BlockHeap) : Addr → Prop :=
  Reach (fun p => p ≠ 0 ∧ c.heap.owns p) (fun p => (c.heap.visitAt c.tracers p).children)
    c.roots.roots

/-- `c'` is `c` after a collection with the report `r`: what is owned is what had a mark or has been
found, each such block is as before but for its mark, and the report counts both sides. -/
structure Exact (c : Collector BlockHeap) (r : Collection) (c' : Collector BlockHeap) : Prop where
  owns_iff : ∀ p, c'.heap.owns p ↔ c.Premarked p ∨ c.Found p
  mem_blocks : ∀ b ∈ c.heap.map.blocks, c'.heap.owns b.start → b ∈ c'.heap.map.blocks
  header_eq : ∀ p, c'.heap.owns p →
    ∃ hd, c.heap.header p = .ok hd ∧ c'.heap.header p = .ok hd.clearMark
  marked_eq : r.marked = {p | c.Found p}.ncard
  liveBlocks_eq : r.sweep.liveBlocks = {p | c.Premarked p ∨ c.Found p}.ncard
  freedBlocks_eq : r.sweep.freedBlocks =
    (c.heap.map.blocks.filter fun b => !c'.heap.owns b.start).length
  freedBytes_eq : r.sweep.freedBytes =
    Extent.totalSize (c.heap.map.blocks.filter fun b => !c'.heap.owns b.start)

variable {c c' : Collector BlockHeap} {r : Collection} {e : Refusal} {p : Addr} {ps : List Addr}

/-- A list without repetitions is as long as the set that it lists is large. -/
theorem ncard_eq_length {S : Addr → Prop} (hnodup : ps.Nodup) (hmem : ∀ p, p ∈ ps ↔ S p) :
    {p | S p}.ncard = ps.length := by
  have hset : {p | S p} = (ps.toFinset : Set Addr) := by
    ext p
    rw [Set.mem_ofPred_eq, Finset.mem_coe, List.mem_toFinset, hmem]
  rw [hset, Set.ncard_coe_finset, List.toFinset_card_of_nodup hnodup]

/-- When nothing is wrong with what a marking reaches, the objects that it reaches are those found
by following all references that are not null. -/
theorem found_iff_reaches (hv : c.heap.Valid)
    (hcomplete : Complete c.tracers c.roots.roots c.heap ps) :
    c.Found p ↔ c.heap.Reaches c.tracers c.roots.roots p := by
  have hunmarked : ∀ q, (q = 0 ∨ c.heap.owns q) → q ≠ 0 ∧ ¬ c.Premarked q → c.heap.Unmarked q := by
    rintro q hq ⟨hnull, hmark⟩
    have hown := hq.resolve_left hnull
    exact ⟨hown, by simpa [Premarked, hown] using hmark⟩
  -- Only what is sound is followed, so leaving out what is no object leaves out nothing.
  constructor
  · refine Reach.mono (fun q hq hadmits => ?_) (fun q hreach s hs hadmits => ?_)
    · exact hunmarked q (hcomplete.roots_sound q hq) hadmits
    · have hsound := hcomplete.sound q (hcomplete.mem_iff.mpr hreach)
      exact hunmarked s ((defectAt_eq_none_iff.mp hsound).2 s hs) hadmits
  · have hadmits : ∀ q, c.heap.Unmarked q → q ≠ 0 ∧ ¬ c.Premarked q := fun q hq =>
      ⟨hv.ne_zero hq.1, fun hmark => absurd hmark.2 (by simp [hq.2])⟩
    exact Reach.mono (fun q _ => hadmits q) (fun _ _ q _ => hadmits q)

/-- A completed collection of any collector, whatever has been asked of it before and however its
objects are traced, keeps exactly what it finds and what had a mark already. -/
theorem collect_exact (hc : Reachable c) (hcollect : collect c = .ok r c') : Exact c r c' := by
  have hv := hc.valid
  rcases collect_cases hv with ⟨ps, h', hcomplete, hcollected, hok⟩ | ⟨e, ps, -, herror⟩
  · rw [hcollect] at hok
    obtain ⟨rfl, rfl⟩ := EStateM.Result.ok.inj hok
    have hps := hcomplete.owns
    have hfound : ∀ p, p ∈ ps ↔ c.Found p := fun p =>
      hcomplete.mem_iff.trans (found_iff_reaches hv hcomplete).symm
    have howns : ∀ p, h'.owns p ↔ c.Premarked p ∨ c.Found p := by
      intro p
      rw [hcollected.owns_iff, ← hfound, Premarked]
      constructor
      · rintro ⟨hown, hp | hmark⟩
        · exact .inr hp
        · exact .inl ⟨hown, hmark⟩
      · rintro (⟨hown, hmark⟩ | hp)
        · exact ⟨hown, .inr hmark⟩
        · exact ⟨hps p hp, .inl hp⟩
    have htally := hcollected.tally_eq hv hps
    refine ⟨howns, ?_, ?_, (ncard_eq_length hcomplete.nodup hfound).symm, ?_, ?_, ?_⟩
    · -- A block that is kept is the same block in the new map.
      intro b hb hown
      refine hcollected.mem_blocks_iff.mpr ⟨hb, ?_⟩
      exact (hcollected.owns_iff.mp hown).2
    · intro p hp
      refine ⟨_, hv.header_eq (hcollected.owns_iff.mp hp).1, ?_⟩
      rw [← hcollected.headerAt_eq p hp]
      exact hcollected.valid.header_eq hp
    · -- The starts of the blocks that are left are the objects that are kept, each once.
      rw [htally]
      have hnodup : (h'.map.blocks.map (·.start)).Nodup :=
        List.pairwise_map.mpr hcollected.valid.map.pairwise_blocks_start_ne
      have hmem : ∀ p, p ∈ h'.map.blocks.map (·.start) ↔ c.Premarked p ∨ c.Found p := by
        intro p
        rw [← howns, BlockHeap.owns_iff, List.mem_map]
      rw [ncard_eq_length hnodup hmem, List.length_map]
    · rw [htally]
    · rw [htally]
  · rw [hcollect] at herror
    contradiction

/-- Of two objects the one that nothing holds is released. -/
theorem collect_exact_small :
    let c := small.serve [.allocate .blob 3, .roots .openScope, .allocate .cell 4]
    let r : Collection := ⟨1, ⟨1, 8, 1⟩⟩
    ∃ c', collect c = .ok r c' ∧ Exact c r c' := by
  intro c r
  have hcollect : collect c = .ok r (collect.after c) :=
    Action.eq_ok_of_answer? (by decide +kernel)
  have hreachable : Reachable c :=
    reachable_small.serve (by simp [Request.Admissible])
  exact ⟨collect.after c, hcollect, collect_exact hreachable hcollect⟩

/-! ### Collections that are refused -/

/-- Something is wrong with the roots or with what can be reached from them: a root or a reference
that is neither null nor an object, or an object that cannot be traced. -/
def Broken (c : Collector BlockHeap) : Prop :=
  (∃ p ∈ c.roots.roots, p ≠ 0 ∧ ¬ c.heap.owns p) ∨
    ∃ p, c.Live p ∧ ((c.heap.visitAt c.tracers p).failure ≠ none ∨
      ∃ q ∈ (c.heap.visitAt c.tracers p).children, q ≠ 0 ∧ ¬ c.heap.owns q)

/-- `c'` is `c` with the marks of some objects set that can be reached from the roots. -/
structure OnlyMarked (c c' : Collector BlockHeap) : Prop where
  map_eq : c'.heap.map = c.heap.map
  layout_eq : c'.heap.layout = c.heap.layout
  roots_eq : c'.roots = c.roots
  tracers_eq : c'.tracers = c.tracers
  trigger_eq : c'.trigger = c.trigger
  totals_eq : c'.totals = c.totals
  agreeOn : c.heap.memory.AgreeOn c.heap.layout.tableᶜ c'.heap.memory
  readHeader_eq : ∀ p, c.heap.layout.isBoundary p →
    c'.heap.readHeader p = c.heap.readHeader p ∨
      c.Live p ∧ ∃ hd, c.heap.readHeader p = .ok hd ∧ c'.heap.readHeader p = .ok hd.setMark

/-- Without marks from before, what can be reached is what a marking can reach. -/
theorem live_iff_reaches (hv : c.heap.Valid) (hclear : ∀ p, ¬ c.Premarked p) :
    c.Live p ↔ c.heap.Reaches c.tracers c.roots.roots p := by
  have hadmits : (fun p => p ≠ 0 ∧ c.heap.owns p) = c.heap.Unmarked := by
    funext q
    rw [Unmarked, eq_iff_iff]
    constructor
    · rintro ⟨-, hown⟩
      exact ⟨hown, by simpa [Premarked, hown] using hclear q⟩
    · rintro ⟨hown, -⟩
      exact ⟨hv.ne_zero hown, hown⟩
  rw [Live, Reaches, hadmits]

/-- A defect is a payload that cannot be traced, or a reference to something that is not an object.
-/
theorem defectAt_ne_none_iff {h : BlockHeap} {tracers : TracerMap} :
    h.defectAt tracers p ≠ none ↔ (h.visitAt tracers p).failure ≠ none ∨
      ∃ q ∈ (h.visitAt tracers p).children, q ≠ 0 ∧ ¬ h.owns q := by
  rw [Ne, defectAt_eq_none_iff, not_and_or]
  simp only [not_forall, not_or, exists_prop, ne_eq]

/-- A marking that marks all it reaches has found nothing wrong. -/
theorem not_broken_of_complete (hv : c.heap.Valid) (hclear : ∀ p, ¬ c.Premarked p)
    (hcomplete : Complete c.tracers c.roots.roots c.heap ps) : ¬ c.Broken := by
  rintro (⟨p, hp, hnull, hown⟩ | ⟨p, hlive, hdefect⟩)
  · exact hown ((hcomplete.roots_sound p hp).resolve_left hnull)
  · have hmem := hcomplete.mem_iff.mpr ((live_iff_reaches hv hclear).mp hlive)
    exact defectAt_ne_none_iff.mpr hdefect (hcomplete.sound p hmem)

/-- If the marking is refused, something is wrong. -/
theorem broken_of_halted (hv : c.heap.Valid) (hclear : ∀ p, ¬ c.Premarked p)
    (hhalted : Halted c.tracers c.roots.roots c.heap ps e) : c.Broken := by
  rcases hhalted.cause with ⟨p, hp, hdangling, -⟩ | ⟨p, hreach, hdefect⟩
  · refine .inl ⟨p, hp, ?_⟩
    rw [← not_or, ← isDangling_eq_false, hdangling]
    simp
  · refine .inr ⟨p, (live_iff_reaches hv hclear).mpr hreach, defectAt_ne_none_iff.mp ?_⟩
    simp [hdefect]

/-- A marking that is refused has set marks of objects that can be reached, and nothing else. -/
theorem onlyMarked_of_halted (hv : c.heap.Valid) (hclear : ∀ p, ¬ c.Premarked p)
    (hhalted : Halted c.tracers c.roots.roots c.heap ps e) :
    OnlyMarked c { c with heap := c.heap.markAll ps } := by
  have hps := hhalted.owns
  have hv' := valid_markAll hv hps
  refine ⟨markAll_map _ _, markAll_layout _ _, rfl, rfl, rfl, rfl,
    agreeOn_markAll hv.mapped hps, ?_⟩
  intro p hp
  have hp' : (c.heap.markAll ps).layout.isBoundary p := by
    rw [markAll_layout]
    exact hp
  change (c.heap.markAll ps).readHeader p = _ ∨ _ ∧ ∃ _, _ ∧ (c.heap.markAll ps).readHeader p = _
  rw [readHeader_eq hv'.layout hp', readHeader_eq hv.layout hp, headerAt_markAll hv.mapped hps hp]
  split
  next hmem =>
    exact .inr ⟨(live_iff_reaches hv hclear).mpr (hhalted.reached p hmem), _, rfl, rfl⟩
  next => exact .inl rfl

/-- From a heap without marks, a collection is refused exactly if something is wrong with what can
be reached from the roots. It has released nothing then, and changed nothing but marks. -/
theorem collect_refused (hc : Reachable c) (hclear : ∀ p, ¬ c.Premarked p) :
    ((∃ e c', collect c = .error e c') ↔ c.Broken) ∧
      ∀ e c', collect c = .error e c' → OnlyMarked c c' := by
  have hv := hc.valid
  rcases collect_cases hv with ⟨ps, h', hcomplete, -, hok⟩ | ⟨e, ps, hhalted, herror⟩
  · -- A complete marking is followed by a sweep, and a sweep is never refused.
    have hnone : ∀ e c', collect c ≠ .error e c' := by
      intro e c' herror
      rw [hok] at herror
      contradiction
    refine ⟨iff_of_false ?_ (not_broken_of_complete hv hclear hcomplete), ?_⟩
    · rintro ⟨e, c', herror⟩
      exact hnone e c' herror
    · intro e c' herror
      exact absurd herror (hnone e c')
  · refine ⟨iff_of_true ⟨e, _, herror⟩ (broken_of_halted hv hclear hhalted), ?_⟩
    intro e' c' herror'
    rw [herror] at herror'
    obtain ⟨-, rfl⟩ := EStateM.Result.error.inj herror'
    exact onlyMarked_of_halted hv hclear hhalted

/-- The object at 8 is held and refers to 24, where there is none. The collection is refused when
the object has been marked. -/
theorem collect_refused_small :
    let c := (small.serve [.roots .openScope, .allocate .cell 4]).written 8 [24, 0, 0, 0]
    ∃ c', collect c = .error (.danglingReference 8 24) c' ∧ c.Broken ∧ OnlyMarked c c' := by
  intro c
  have hcell : Reachable (small.serve [.roots .openScope, .allocate .cell 4]) :=
    reachable_small.serve (by simp [Request.Admissible])
  have hreachable : Reachable c := by
    refine hcell.step ⟨.write 8 [24, 0, 0, 0], ?_, (after_write ..).symm⟩
    refine Set.Subset.trans ?_ hcell.valid.layout.region_subset_compl_table
    exact Set.Ico_subset_Ico (by decide +kernel) (by decide +kernel)
  -- Only blocks can have a mark, and there is one block.
  have hclear : ∀ p, ¬ c.Premarked p := by
    rintro p ⟨hown, hmark⟩
    obtain ⟨b, hb, rfl⟩ := BlockHeap.owns_iff.mp hown
    have hall : ∀ b ∈ c.heap.map.blocks, (c.heap.headerAt b.start).mark = false := by
      decide +kernel
    exact absurd hmark (by simp [hall b hb])
  have hcollect : collect c = .error (.danglingReference 8 24) (collect.after c) :=
    Action.eq_error_of_refusal? (by decide +kernel)
  obtain ⟨hiff, honly⟩ := collect_refused hreachable hclear
  exact ⟨collect.after c, hcollect, hiff.mp ⟨_, _, hcollect⟩, honly _ _ hcollect⟩

end MarkSweep.Collector
