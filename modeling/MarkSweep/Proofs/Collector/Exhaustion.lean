import MarkSweep.Proofs.BlockHeap.FirstFit
import MarkSweep.Proofs.Collector.Exactness

/-!
# Exhaustion

An allocation is given up only when it has to be. If there is room, the object is placed at the
lowest vacancy and nothing is collected. If there is none and the trigger allows it, one collection
is run, and what counts then are the objects that can be reached from the roots: the object is
placed at the lowest vacancy beside them, and the allocation is refused only if there is no such
vacancy (`Collector.allocate_served`). No space is lost to how the released blocks lay, for the
search for space is exact (`BlockHeap.firstFit?_eq_some_iff`) and so is the collection.
-/

namespace MarkSweep.Collector

open BlockHeap Marking

/-- The addresses in the blocks of the objects that can be reached from the roots. -/
def liveBytes (c : Collector BlockHeap) : Set Addr :=
  {i | ∃ b ∈ c.heap.map.blocks, c.Live b.start ∧ i ∈ Set.Ico b.start b.stop}

/-- Where an object can be placed beside those that can be reached from the roots. -/
def liveVacancies (c : Collector BlockHeap) (size : Nat) : Set Addr :=
  c.heap.layout.vacancies c.liveBytes (c.heap.layout.footprint size)

/-- How an allocation is served. `c'` is what a collection makes of `c`. -/
structure Served (tag : Tag) (size : Nat) (c c' : Collector BlockHeap) : Prop where
  /-- A size that no header can hold is refused, and nothing changes. -/
  too_large : Header.maxPayload < size →
    allocate tag size c = .error (.payloadTooLarge size) c
  /-- If there is a vacancy, the object is placed at the lowest one, and nothing is collected. -/
  at_once : size ≤ Header.maxPayload → ∀ p, IsLeast (c.heap.vacancies size) p →
    ∃ heap, Allocated tag size p c.heap heap ∧ allocate tag size c = .ok p (c.placed p heap)
  /-- If there is none, an allocation with a manual trigger is refused, and nothing changes. -/
  manual : size ≤ Header.maxPayload → c.heap.vacancies size = ∅ → c.trigger = .manual →
    allocate tag size c = .error (.outOfMemory size) c
  /-- With the other trigger one collection is run, and the object is placed at the lowest vacancy
  beside what can be reached. -/
  collected : size ≤ Header.maxPayload → c.heap.vacancies size = ∅ → c.trigger = .onExhaustion →
    ∀ p, IsLeast (c.liveVacancies size) p →
      ∃ heap, Allocated tag size p c'.heap heap ∧ allocate tag size c = .ok p (c'.placed p heap)
  /-- Without such a vacancy the allocation is refused when the collection has been run. -/
  exhausted : size ≤ Header.maxPayload → c.heap.vacancies size = ∅ → c.trigger = .onExhaustion →
    c.liveVacancies size = ∅ → allocate tag size c = .error (.outOfMemory size) c'
  /-- The collection is counted, once. -/
  collections_eq : c'.totals.collections = c.totals.collections + 1
  /-- An allocation is counted if it is answered. -/
  allocations_of_ok : ∀ p d, allocate tag size c = .ok p d →
    d.totals.allocations = c.totals.allocations + 1
  allocations_of_error : ∀ e d, allocate tag size c = .error e d →
    d.totals.allocations = c.totals.allocations

variable {c c' : Collector BlockHeap} {r : Collection} {h' : BlockHeap} {ps : List Addr}
  {tag : Tag} {size : Nat} {p : Addr}

/-! ### Room and vacancies -/

/-- Room is found at the lowest vacancy. -/
theorem hasRoom_iff (hm : c.heap.Mapped) (hsize : size ≤ Header.maxPayload) :
    c.HasRoom size p ↔ IsLeast (c.heap.vacancies size) p := by
  rw [HasRoom, firstFit?_eq_some_iff hm]
  exact and_iff_right hsize

/-- An attempt without a vacancy is answered with nothing, and changes nothing. -/
theorem onHeap_allocate_of_no_vacancy (hm : c.heap.Mapped) (tag : Tag)
    (hsize : size ≤ Header.maxPayload) (hnone : c.heap.vacancies size = ∅) :
    onHeap (Heap.allocate tag size) c = .ok none c := by
  have hfit := (firstFit?_eq_none_iff hm).mpr hnone
  rw [onHeap_allocate]
  rcases BlockHeap.allocate_cases_of_mapped hm tag size with
    ⟨hlt, -⟩ | ⟨-, -, hok⟩ | ⟨-, p, hfit', -⟩
  · exact absurd hsize (Nat.not_le.mpr hlt)
  · rw [hok]
  · rw [hfit] at hfit'
    contradiction

/-- When a collection has been completed, what is taken are the blocks of what can be reached. -/
theorem taken_of_collected (hv : c.heap.Valid) (hclear : ∀ p, ¬ c.Premarked p)
    (hcomplete : Complete c.tracers c.roots.roots c.heap ps) (hcollected : Collected ps c.heap h') :
    h'.map.taken = c.liveBytes := by
  have hlive : ∀ b ∈ c.heap.map.blocks,
      (b.start ∈ ps ∨ (c.heap.headerAt b.start).mark) ↔ c.Live b.start := by
    intro b hb
    have hown : c.heap.owns b.start := BlockHeap.owns_iff.mpr ⟨b, hb, rfl⟩
    -- Nothing had a mark before, so a block is kept for no other reason than that it is reached.
    have hmark : ¬ (c.heap.headerAt b.start).mark := fun hmark => hclear _ ⟨hown, hmark⟩
    rw [live_iff_reaches hv hclear, ← hcomplete.mem_iff]
    exact or_iff_left hmark
  ext i
  simp only [BlockMap.taken, liveBytes, hcollected.mem_blocks_iff, Set.mem_ofPred_eq, and_assoc]
  exact exists_congr fun b => and_congr_right fun hb => and_congr_left' (hlive b hb)

/-- After a collection the vacancies are those beside what could be reached before. -/
theorem vacancies_of_collected (hv : c.heap.Valid) (hclear : ∀ p, ¬ c.Premarked p)
    (hcomplete : Complete c.tracers c.roots.roots c.heap ps) (hcollected : Collected ps c.heap h')
    (size : Nat) : h'.vacancies size = c.liveVacancies size := by
  rw [BlockHeap.vacancies, hcollected.layout_eq, taken_of_collected hv hclear hcomplete hcollected,
    liveVacancies]

/-! ### Allocations -/

/-- A size that no header can hold is refused before there is any collection. -/
theorem allocate_too_large (tag : Tag) (c : Collector BlockHeap) (hlt : Header.maxPayload < size) :
    allocate tag size c = .error (.payloadTooLarge size) c := by
  have hfirst : onHeap (Heap.allocate tag size) c = .error (.payloadTooLarge size) c := by
    rw [onHeap_allocate, BlockHeap.allocate, if_pos hlt]
    rfl
  simp only [allocate, findRoom, Action.bind_apply, hfirst]

/-- An allocation is counted exactly if it is answered, whether a collection is run or not. -/
theorem allocations_allocate (hm : c.heap.Mapped) (hcollect : collect c = .ok r c')
    (hsame : c'.totals.allocations = c.totals.allocations) (tag : Tag) (size : Nat) :
    (∀ p d, allocate tag size c = .ok p d →
      d.totals.allocations = c.totals.allocations + 1) ∧
    ∀ e d, allocate tag size c = .error e d → d.totals.allocations = c.totals.allocations := by
  -- A refused collection is not among the courses, since this one is completed.
  rcases allocate_courses hm tag size with
    ⟨-, htoo⟩ | ⟨p, -, -, hok⟩ |
      ⟨-, ⟨-, hnone⟩ | ⟨-, ⟨e, d, herror, -⟩ | ⟨s, d, hs, hnone | ⟨p, -, hok⟩⟩⟩⟩
  · simp [htoo]
  · rw [hok]
    refine ⟨?_, by simp⟩
    rintro _ _ ⟨⟩
    rfl
  · simp [hnone]
  · rw [hcollect] at herror
    contradiction
  · obtain ⟨-, rfl⟩ := EStateM.Result.ok.inj (hcollect.symm.trans hs)
    simp [hnone, hsame]
  · obtain ⟨-, rfl⟩ := EStateM.Result.ok.inj (hcollect.symm.trans hs)
    rw [hok]
    refine ⟨?_, by simp⟩
    rintro _ _ ⟨⟩
    exact congrArg (· + 1) hsame

/-- From a heap without marks, and if a collection would be completed, an allocation collects at
most once, and is refused for want of room exactly if there is none beside what can be reached. -/
theorem allocate_served (hc : Reachable c) (hclear : ∀ p, ¬ c.Premarked p)
    (hcollect : collect c = .ok r c') (tag : Tag) (size : Nat) : Served tag size c c' := by
  have hv := hc.valid
  have hm := hv.mapped
  rcases collect_cases hv with ⟨ps, h', hcomplete, hcollected, hok⟩ | ⟨e, ps, -, herror⟩
  · have hresult := hcollect.symm.trans hok
    obtain ⟨rfl, rfl⟩ := EStateM.Result.ok.inj hresult
    -- What the second search finds is said about `h'`, and what is claimed about `c`.
    have hm' : h'.Mapped := hcollected.valid.mapped
    have hvacancies := vacancies_of_collected hv hclear hcomplete hcollected size
    obtain ⟨hanswered, hrefused⟩ := allocations_allocate hm hcollect rfl tag size
    refine ⟨allocate_too_large tag c, ?_, ?_, ?_, ?_, rfl, hanswered, hrefused⟩
    · intro hsize p hp
      have hroom := (hasRoom_iff hm hsize).mpr hp
      exact ⟨_, allocated_withObject hroom.2 hv tag hsize, allocate_of_hasRoom hm tag hroom⟩
    · intro hsize hnone htrigger
      exact allocate_of_manual (onHeap_allocate_of_no_vacancy hm tag hsize hnone) htrigger
    · intro hsize hnone htrigger p hp
      have hfirst := onHeap_allocate_of_no_vacancy hm tag hsize hnone
      rw [← hvacancies] at hp
      have hfit := (firstFit?_eq_some_iff hm').mpr hp
      exact ⟨_, allocated_withObject hfit hcollected.valid tag hsize,
        allocate_of_collect_eq_ok hfirst htrigger hcollect hm' ⟨hsize, hfit⟩⟩
    · intro hsize hnone htrigger hfull
      have hfirst := onHeap_allocate_of_no_vacancy hm tag hsize hnone
      rw [← hvacancies] at hfull
      refine allocate_of_second_eq_none hfirst htrigger hcollect ?_
      exact onHeap_allocate_of_no_vacancy hm' tag hsize hfull
  · rw [hcollect] at herror
    contradiction

/-- Four objects fill the region, and only the one at 16 is held. The collection joins the space of
the two behind it, and the new object is placed there, for in front of 16 there is not enough. -/
theorem allocate_served_small :
    let c := small.serve [.allocate .cell 4, .allocate .cell 4, .allocate .cell 4,
      .allocate .cell 4, .roots .enter, .roots (.bindSlot 0 16)]
    (allocate .list 12).answer? c = some 24 ∧
      ∃ r c', collect c = .ok r c' ∧ Served .list 12 c c' := by
  intro c
  have hreachable : Reachable c := reachable_small.serve (by simp [Request.Admissible])
  -- Only blocks can have a mark, and none of the four has one.
  have hclear : ∀ p, ¬ c.Premarked p := by
    rintro p ⟨hown, hmark⟩
    obtain ⟨b, hb, rfl⟩ := BlockHeap.owns_iff.mp hown
    have hall : ∀ b ∈ c.heap.map.blocks, (c.heap.headerAt b.start).mark = false := by
      decide +kernel
    exact absurd hmark (by simp [hall b hb])
  have hcollect : collect c = .ok ⟨1, ⟨3, 24, 1⟩⟩ (collect.after c) :=
    Action.eq_ok_of_answer? (by decide +kernel)
  exact ⟨by decide +kernel, _, _, hcollect, allocate_served hreachable hclear hcollect .list 12⟩

end MarkSweep.Collector
