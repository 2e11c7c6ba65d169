import MarkSweep.Proofs.BlockHeap.Allocation
import MarkSweep.Proofs.BlockHeap.Upkeep
import MarkSweep.Proofs.Marking.Traversal
import MarkSweep.Proofs.Moves

/-!
# Collections and allocations

What a collection does to a collector with a valid heap (`Collector.collect_cases`): either all that
can be reached has been marked, the rest is swept, and `BlockHeap.Collected` describes the heap that
is left; or the marking is refused, and all that has changed is some marks. What an allocation does
follows from it (`Collector.allocate_cases`).

Without a valid heap less is known, but a collection is still no more than upkeep
(`Collector.upkept_collect`), and an allocation takes the same course
(`Collector.allocate_cases_of_mapped`).
-/

namespace MarkSweep

namespace BlockHeap

/-- `h'` is `h` after a collection that has marked the objects `ps`. They are kept, and so are those
that had a mark before. -/
structure Collected (ps : List Addr) (h h' : BlockHeap) : Prop where
  valid : h'.Valid
  layout_eq : h'.layout = h.layout
  blocks_eq : h'.map.blocks =
    h.map.blocks.filter fun b => b.start ∈ ps ∨ (h.headerAt b.start).mark
  headerAt_eq : ∀ p, h'.owns p → h'.headerAt p = (h.headerAt p).clearMark
  agreeOn : h.memory.AgreeOn h.layout.tableᶜ h'.memory

variable {h h' : BlockHeap} {ps : List Addr} {p : Addr}

/-- What has a mark when the marking is over. -/
theorem mark_markAll_iff (hm : h.Mapped) (hps : ∀ q ∈ ps, h.owns q) (hp : h.owns p) :
    ((h.markAll ps).headerAt p).mark ↔ p ∈ ps ∨ (h.headerAt p).mark := by
  have hiff := mark_markAll_eq_false_iff hm hps hp
  rw [← Bool.not_eq_true, Unmarked, ← Bool.not_eq_true] at hiff
  tauto

/-- Sweeping a heap whose reachable objects have been marked is all there is to a collection. -/
theorem collected_of_swept (hv : h.Valid) (hps : ∀ q ∈ ps, h.owns q)
    (hs : Swept h.map.blocks (h.markAll ps) h') : Collected ps h h' := by
  have hblocks : h'.map.blocks =
      h.map.blocks.filter fun b => b.start ∈ ps ∨ (h.headerAt b.start).mark := by
    rw [hs.blocks_eq, markAll_map]
    refine List.filter_congr fun b hb => ?_
    have hiff := mark_markAll_iff hv.mapped hps (owns_iff.mpr ⟨b, hb, rfl⟩)
    simp [hb, hiff]
  refine ⟨hs.valid, ?_, hblocks, fun p hp => ?_, ?_⟩
  · rw [hs.layout_eq, markAll_layout]
  · obtain ⟨b, hb', rfl⟩ := owns_iff.mp hp
    -- What is left had a mark when the sweep began, so the sweep has only cleared it.
    rw [hblocks, List.mem_filter] at hb'
    obtain ⟨hb, hkept⟩ := hb'
    have howns : h.owns b.start := owns_iff.mpr ⟨b, hb, rfl⟩
    have hmark := (mark_markAll_iff hv.mapped hps howns).mpr (of_decide_eq_true hkept)
    rw [hs.headerAt_of_mem b hb, sweptHeader, if_pos hmark,
      headerAt_markAll hv.mapped hps (hv.boundary howns)]
    split <;> rfl
  · have hagree := hs.agreeOn
    rw [markAll_layout] at hagree
    exact (agreeOn_markAll hv.mapped hps).trans hagree

namespace Collected

variable (hc : Collected ps h h')

include hc

/-- Kept are the blocks that have been marked, now or before. -/
theorem mem_blocks_iff {b : Extent} :
    b ∈ h'.map.blocks ↔ b ∈ h.map.blocks ∧ (b.start ∈ ps ∨ (h.headerAt b.start).mark) := by
  rw [hc.blocks_eq, List.mem_filter, decide_eq_true_eq]

/-- Still owned is what has been marked, now or before. -/
theorem owns_iff : h'.owns p ↔ h.owns p ∧ (p ∈ ps ∨ (h.headerAt p).mark) := by
  rw [BlockHeap.owns_iff, BlockHeap.owns_iff]
  constructor
  · rintro ⟨b, hb, rfl⟩
    obtain ⟨hmem, hkept⟩ := hc.mem_blocks_iff.mp hb
    exact ⟨⟨b, hmem, rfl⟩, hkept⟩
  · rintro ⟨⟨b, hb, rfl⟩, hkept⟩
    exact ⟨b, hc.mem_blocks_iff.mpr ⟨hb, hkept⟩, rfl⟩

/-- A collection leaves no marks. -/
theorem mark_eq_false (hp : h'.owns p) : (h'.headerAt p).mark = false := by
  rw [hc.headerAt_eq p hp]
  rfl

/-- What is kept keeps its bytes. -/
theorem payloadAt_eq (hv : h.Valid) (hp : h'.owns p) : h'.payloadAt p = h.payloadAt p := by
  refine payloadAt_congr ?_ (hc.agreeOn.mono ?_)
  · rw [hc.headerAt_eq p hp]
    rfl
  · have hown := (hc.owns_iff.mp hp).1
    exact (hv.object_subset_region hown).trans hv.layout.region_subset_compl_table

/-- A tracer finds in an object that is kept what it has found before. -/
theorem visitAt_eq (hv : h.Valid) (tracers : TracerMap) (hp : h'.owns p) :
    h'.visitAt tracers p = h.visitAt tracers p := by
  rw [visitAt, hc.payloadAt_eq hv hp, hc.headerAt_eq p hp]
  rfl

/-- Exactly the blocks that are owned afterwards are kept. -/
theorem blocks_eq_filter_owns :
    h'.map.blocks = h.map.blocks.filter fun b => h'.owns b.start := by
  rw [hc.blocks_eq]
  refine List.filter_congr fun b hb => ?_
  have howns : h.owns b.start := BlockHeap.owns_iff.mpr ⟨b, hb, rfl⟩
  rw [Bool.eq_iff_iff, hc.owns_iff, decide_eq_true_eq]
  exact ⟨fun hkeep => ⟨howns, hkeep⟩, fun hkeep => hkeep.2⟩

/-- The numbers that the sweep reports are those of the blocks kept and of the blocks gone. -/
theorem tally_eq (hv : h.Valid) (hps : ∀ q ∈ ps, h.owns q) :
    (h.markAll ps).tally h.map.blocks = {
      freedBlocks := (h.map.blocks.filter fun b => !h'.owns b.start).length
      freedBytes := Extent.totalSize (h.map.blocks.filter fun b => !h'.owns b.start)
      liveBlocks := h'.map.blocks.length } := by
  -- A block is kept exactly if it has a mark when the sweep begins.
  have hmark : ∀ b ∈ h.map.blocks,
      ((h.markAll ps).headerAt b.start).mark = h'.owns b.start := by
    intro b hb
    have howns : h.owns b.start := BlockHeap.owns_iff.mpr ⟨b, hb, rfl⟩
    rw [Bool.eq_iff_iff, mark_markAll_iff hv.mapped hps howns, hc.owns_iff]
    simp [howns]
  have hgone : (h.map.blocks.filter fun b => !((h.markAll ps).headerAt b.start).mark) =
      h.map.blocks.filter fun b => !h'.owns b.start :=
    List.filter_congr fun b hb => by rw [hmark b hb]
  have hkept : (h.map.blocks.filter fun b => ((h.markAll ps).headerAt b.start).mark) =
      h'.map.blocks := by
    rw [hc.blocks_eq_filter_owns]
    exact List.filter_congr hmark
  rw [tally, hgone, hkept]

end Collected

/-- What a collection does to a heap is upkeep. -/
theorem tracks_upkept : Heap.Tracks fun h h' : BlockHeap => h.Mapped → Upkept h h' where
  refl _ _ := .refl
  trans _ _ _ hab hbc hm := (hab hm).trans (hbc ((hab hm).mapped hm))
  owns _ _ _ := .refl
  setMark _ _ _ hheader hm := upkept_setMark hm hheader
  sweep _ hm := upkept_sweep hm

end BlockHeap

namespace Collector

open BlockHeap Marking

variable {c : Collector BlockHeap}

/-- An operation on the heap leaves the rest of the collector as it is. -/
theorem onHeap_apply {H α : Type} (x : Action H α) (c : Collector H) :
    onHeap x c = match x c.heap with
      | .ok a heap => .ok a { c with heap := heap }
      | .error e heap => .error e { c with heap := heap } := by
  obtain ⟨heap, roots, tracers, trigger, totals⟩ := c
  cases hx : x heap <;> simp only [onHeap, Action.within, hx]

/-- A marking from the roots is completed or refused, and changes nothing but marks. -/
theorem mark_cases (hv : c.heap.Valid) :
    (∃ ps, Complete c.tracers c.roots.roots c.heap ps ∧
      mark c = .ok ps.length { c with heap := c.heap.markAll ps }) ∨
    ∃ e ps, Halted c.tracers c.roots.roots c.heap ps e ∧
      mark c = .error e { c with heap := c.heap.markAll ps } := by
  obtain ⟨heap, roots, tracers, trigger, totals⟩ := c
  rcases run_cases hv tracers roots.roots with ⟨ps, hrun, hcomplete⟩ | ⟨e, m, hrun, hheap, hhalted⟩
  · exact .inl ⟨ps, hcomplete, by simp only [mark, hrun]⟩
  · exact .inr ⟨e, m.marked, hhalted, by simp only [mark, hrun, hheap]⟩

/-- A collection from a valid heap is completed, or its marking is refused. -/
theorem collect_cases (hv : c.heap.Valid) :
    (∃ ps h', Complete c.tracers c.roots.roots c.heap ps ∧ Collected ps c.heap h' ∧
      let r : Collection := ⟨ps.length, (c.heap.markAll ps).tally c.heap.map.blocks⟩
      collect c = .ok r { c with heap := h', totals := c.totals.countCollection r }) ∨
    ∃ e ps, Halted c.tracers c.roots.roots c.heap ps e ∧
      collect c = .error e { c with heap := c.heap.markAll ps } := by
  rcases mark_cases hv with ⟨ps, hcomplete, hmark⟩ | ⟨e, ps, hhalted, hmark⟩
  · have hps := hcomplete.owns
    -- The marked heap is valid, so the sweep is not refused.
    obtain ⟨h', hsweep, hswept⟩ := sweep_eq (valid_markAll hv hps)
    rw [markAll_map] at hsweep hswept
    have hsweep' : (Heap.sweep : Action BlockHeap Sweep) (c.heap.markAll ps) =
        .ok ((c.heap.markAll ps).tally c.heap.map.blocks) h' := hsweep
    refine .inl ⟨ps, h', hcomplete, collected_of_swept hv hps hswept, ?_⟩
    simp only [collect, Action.bind_apply, hmark, onHeap_apply, hsweep', Action.modify_apply,
      Action.pure_apply]
  · refine .inr ⟨e, ps, hhalted, ?_⟩
    simp only [collect, Action.bind_apply, hmark]

/-- The collector with a new object at `p`, which its heap holds already. -/
def placed (p : Addr) (heap : BlockHeap) (c : Collector BlockHeap) : Collector BlockHeap :=
  { c with heap := heap, roots := c.roots.hold p, totals := c.totals.countAllocation }

theorem onHeap_allocate (tag : Tag) (size : Nat) (c : Collector BlockHeap) :
    onHeap (Heap.allocate tag size) c = match BlockHeap.allocate tag size c.heap with
      | .ok a heap => .ok a { c with heap := heap }
      | .error e heap => .error e { c with heap := heap } := by
  rw [onHeap_apply, show (Heap.allocate tag size : Action BlockHeap (Option Addr)) =
    BlockHeap.allocate tag size from rfl]
  cases BlockHeap.allocate tag size c.heap <;> rfl

/-- A collection is upkeep, refused or not. -/
theorem upkept_collect (hm : c.heap.Mapped) : Upkept c.heap (collect.after c).heap :=
  moves_collect tracks_upkept c hm

/-- The heap has room at `p` for an object of the given size. -/
def HasRoom (size : Nat) (c : Collector BlockHeap) (p : Addr) : Prop :=
  size ≤ Header.maxPayload ∧
    c.heap.map.firstFit? c.heap.layout.stop (c.heap.layout.footprint size) = some p

section Attempts

variable {tag : Tag} {size : Nat} {p : Addr}

/-- An attempt takes the room that there is. -/
theorem onHeap_allocate_of_hasRoom (hm : c.heap.Mapped) (tag : Tag) (hp : c.HasRoom size p) :
    onHeap (Heap.allocate tag size) c =
      .ok (some p) { c with heap := c.heap.withObject tag p size } := by
  rw [onHeap_allocate, allocate_eq hm hp.2 tag hp.1]

/-- An object for which there is room is placed at once. -/
theorem allocate_of_hasRoom (hm : c.heap.Mapped) (tag : Tag) (hp : c.HasRoom size p) :
    allocate tag size c = .ok p (c.placed p (c.heap.withObject tag p size)) := by
  simp only [allocate, findRoom, Action.bind_apply, onHeap_allocate_of_hasRoom hm tag hp,
    Action.pure_apply, Action.modify_apply, placed]

/-- With a manual trigger one attempt is made. -/
theorem allocate_of_manual (hfirst : onHeap (Heap.allocate tag size) c = .ok none c)
    (htrigger : c.trigger = .manual) : allocate tag size c = .error (.outOfMemory size) c := by
  simp only [allocate, findRoom, Action.bind_apply, hfirst, Action.get_apply, htrigger,
    Action.pure_apply, Action.throw_apply]

section OnExhaustion

variable {r : Collection} {c' : Collector BlockHeap}
  (hfirst : onHeap (Heap.allocate tag size) c = .ok none c) (htrigger : c.trigger = .onExhaustion)

include hfirst htrigger

/-- With the other trigger a second attempt is made in what a collection has left. -/
theorem findRoom_of_onExhaustion : findRoom tag size c = match collect c with
    | .ok _ c' => onHeap (Heap.allocate tag size) c'
    | .error e c' => .error e c' := by
  simp only [findRoom, Action.bind_apply, hfirst, Action.get_apply, htrigger,
    Action.discard_apply]
  cases collect c <;> rfl

/-- If the collection is refused, so is the allocation. -/
theorem allocate_of_collect_eq_error {e : Refusal} (hcollect : collect c = .error e c') :
    allocate tag size c = .error e c' := by
  have hfind := findRoom_of_onExhaustion hfirst htrigger
  rw [hcollect] at hfind
  simp only [allocate, Action.bind_apply, hfind]

/-- The second attempt takes the room that the collection has made. -/
theorem allocate_of_collect_eq_ok (hcollect : collect c = .ok r c') (hm : c'.heap.Mapped)
    (hp : c'.HasRoom size p) :
    allocate tag size c = .ok p (c'.placed p (c'.heap.withObject tag p size)) := by
  have hfind := findRoom_of_onExhaustion hfirst htrigger
  rw [hcollect] at hfind
  simp only [allocate, Action.bind_apply, hfind, onHeap_allocate_of_hasRoom hm tag hp,
    Action.modify_apply, Action.pure_apply, placed]

/-- There is no third attempt. -/
theorem allocate_of_second_eq_none (hcollect : collect c = .ok r c')
    (hsecond : onHeap (Heap.allocate tag size) c' = .ok none c') :
    allocate tag size c = .error (.outOfMemory size) c' := by
  have hfind := findRoom_of_onExhaustion hfirst htrigger
  rw [hcollect] at hfind
  simp only [allocate, Action.bind_apply, hfind, hsecond, Action.throw_apply]

end OnExhaustion

end Attempts

/-- The courses of an allocation. A first attempt is refused for the size, or it finds room, or it
changes nothing. In the last case the trigger decides whether a collection is run, and the second
attempt is made in what the collection has left. -/
theorem allocate_courses (hm : c.heap.Mapped) (tag : Tag) (size : Nat) :
    (onHeap (Heap.allocate tag size) c = .error (.payloadTooLarge size) c ∧
      allocate tag size c = .error (.payloadTooLarge size) c) ∨
    (∃ p, c.HasRoom size p ∧
      onHeap (Heap.allocate tag size) c =
        .ok (some p) { c with heap := c.heap.withObject tag p size } ∧
      allocate tag size c = .ok p (c.placed p (c.heap.withObject tag p size))) ∨
    onHeap (Heap.allocate tag size) c = .ok none c ∧
      (c.trigger = .manual ∧ allocate tag size c = .error (.outOfMemory size) c ∨
        c.trigger = .onExhaustion ∧
          ((∃ e c', collect c = .error e c' ∧ allocate tag size c = .error e c') ∨
            ∃ r c', collect c = .ok r c' ∧
              (allocate tag size c = .error (.outOfMemory size) c' ∨
                ∃ p, c'.HasRoom size p ∧
                  allocate tag size c = .ok p (c'.placed p (c'.heap.withObject tag p size))))) := by
  rcases BlockHeap.allocate_cases_of_mapped hm tag size with
    ⟨-, htoo⟩ | ⟨hle, -, hnone⟩ | ⟨hle, p, hfit, -⟩
  · have hfirst : onHeap (Heap.allocate tag size) c = .error (.payloadTooLarge size) c := by
      rw [onHeap_allocate, htoo]
    refine .inl ⟨hfirst, ?_⟩
    simp only [allocate, findRoom, Action.bind_apply, hfirst]
  · have hfirst : onHeap (Heap.allocate tag size) c = .ok none c := by
      rw [onHeap_allocate, hnone]
    refine .inr (.inr ⟨hfirst, ?_⟩)
    cases htrigger : c.trigger with
    | manual => exact .inl ⟨rfl, allocate_of_manual hfirst htrigger⟩
    | onExhaustion =>
      refine .inr ⟨rfl, ?_⟩
      have hupkept := upkept_collect hm
      cases hcollect : collect c with
      | error e c' =>
        exact .inl ⟨e, c', rfl, allocate_of_collect_eq_error hfirst htrigger hcollect⟩
      | ok r c' =>
        rw [Action.after_of_eq_ok hcollect] at hupkept
        have hm' := hupkept.mapped hm
        refine .inr ⟨r, c', rfl, ?_⟩
        rcases BlockHeap.allocate_cases_of_mapped hm' tag size with
          ⟨hlt, -⟩ | ⟨-, -, hnone'⟩ | ⟨-, p, hfit, -⟩
        · -- The first attempt has passed the size already.
          exact absurd hlt (Nat.not_lt.mpr hle)
        · refine .inl (allocate_of_second_eq_none hfirst htrigger hcollect ?_)
          rw [onHeap_allocate, hnone']
        · exact .inr ⟨p, ⟨hle, hfit⟩,
            allocate_of_collect_eq_ok hfirst htrigger hcollect hm' ⟨hle, hfit⟩⟩
  · exact .inr (.inl ⟨p, ⟨hle, hfit⟩, onHeap_allocate_of_hasRoom hm tag ⟨hle, hfit⟩,
      allocate_of_hasRoom hm tag ⟨hle, hfit⟩⟩)

/-- A size that no header can hold is refused at once. Otherwise the object is put into the heap as
it is or as a collection leaves it, unless there is no room or the collection is refused. -/
theorem allocate_cases_of_mapped (hm : c.heap.Mapped) (tag : Tag) (size : Nat) :
    allocate tag size c = .error (.payloadTooLarge size) c ∨
    (∃ e c', collect c = .error e c' ∧ allocate tag size c = .error e c') ∨
    ∃ c', (c' = c ∨ ∃ r, collect c = .ok r c') ∧
      (allocate tag size c = .error (.outOfMemory size) c' ∨
        size ≤ Header.maxPayload ∧ ∃ p,
          c'.heap.map.firstFit? c'.heap.layout.stop (c'.heap.layout.footprint size) = some p ∧
            allocate tag size c = .ok p (c'.placed p (c'.heap.withObject tag p size))) := by
  rcases allocate_courses hm tag size with
    ⟨-, htoo⟩ | ⟨p, ⟨hle, hfit⟩, -, hok⟩ | ⟨-, ⟨-, hnone⟩ | ⟨-, herror | ⟨r, c', hr, hretry⟩⟩⟩
  · exact .inl htoo
  · exact .inr (.inr ⟨c, .inl rfl, .inr ⟨hle, p, hfit, hok⟩⟩)
  · exact .inr (.inr ⟨c, .inl rfl, .inl hnone⟩)
  · exact .inr (.inl herror)
  · refine .inr (.inr ⟨c', .inr ⟨r, hr⟩, ?_⟩)
    rcases hretry with hnone | ⟨p, ⟨hle, hfit⟩, hok⟩
    · exact .inl hnone
    · exact .inr ⟨hle, p, hfit, hok⟩

/-- On a valid heap the object that is placed is what was asked for. -/
theorem allocate_cases (hv : c.heap.Valid) (tag : Tag) (size : Nat) :
    allocate tag size c = .error (.payloadTooLarge size) c ∨
    (∃ e c', collect c = .error e c' ∧ allocate tag size c = .error e c') ∨
    ∃ c', (c' = c ∨ ∃ r, collect c = .ok r c') ∧
      (allocate tag size c = .error (.outOfMemory size) c' ∨
        ∃ p heap, Allocated tag size p c'.heap heap ∧
          allocate tag size c = .ok p (c'.placed p heap)) := by
  -- A collection that is completed leaves a valid heap.
  have hvalid : ∀ c', (c' = c ∨ ∃ r, collect c = .ok r c') → c'.heap.Valid := by
    rintro c' (rfl | ⟨r, hr⟩)
    · exact hv
    · rcases collect_cases hv with ⟨ps, h', -, hcollected, hok⟩ | ⟨e, ps, -, herror⟩
      · obtain ⟨-, rfl⟩ := EStateM.Result.ok.inj (hr.symm.trans hok)
        exact hcollected.valid
      · rw [hr] at herror
        contradiction
  rcases allocate_cases_of_mapped hv.mapped tag size with
    htoo | herror | ⟨c', hc', hnone | ⟨hle, p, hfit, hok⟩⟩
  · exact .inl htoo
  · exact .inr (.inl herror)
  · exact .inr (.inr ⟨c', hc', .inl hnone⟩)
  · exact .inr (.inr ⟨c', hc', .inr ⟨p, _, allocated_withObject hfit (hvalid c' hc') tag hle, hok⟩⟩)

/-- An allocation that answers has placed the object. -/
theorem placed_of_allocate_eq_ok (hv : c.heap.Valid) {tag : Tag} {size : Nat} {p : Addr}
    {c₁ : Collector BlockHeap} (hok : allocate tag size c = .ok p c₁) :
    ∃ c' heap, (c' = c ∨ ∃ r, collect c = .ok r c') ∧ Allocated tag size p c'.heap heap ∧
      c₁ = c'.placed p heap := by
  rcases allocate_cases hv tag size with
    htoo | ⟨e, c', -, herror⟩ | ⟨c', hc', hnone | ⟨q, heap, hplaced, hok'⟩⟩
  · rw [hok] at htoo
    contradiction
  · rw [hok] at herror
    contradiction
  · rw [hok] at hnone
    contradiction
  · rw [hok] at hok'
    obtain ⟨rfl, rfl⟩ := EStateM.Result.ok.inj hok'
    exact ⟨c', heap, hc', hplaced, rfl⟩

end Collector

end MarkSweep
