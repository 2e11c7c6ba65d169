import MarkSweep.Proofs.BlockHeap.History

/-!
# The header table of a block heap

The table has a header for every granule, but only some granules start a block. As long as a program
does not write the table itself, table and map tell of the same blocks (`BlockHeap.Consistent`): the
granules with an allocated header are those at which a block in use starts, and no other header has
a mark, whatever blocks the granule has been part of since its header was written last. A granule at
which no block has ever started has the header that it had at the beginning (`History.Recorded`).

`BlockHeap.Reachable.tabled` puts this together and says what the questions about headers answer.
-/

namespace MarkSweep.BlockHeap

/-- The program leaves the header table to the heap: of the bytes that it chooses to have written
itself none is one of the table. -/
def Request.SparesTable (h : BlockHeap) (request : Request) : Prop :=
  request.written h ⊆ h.layout.tableᶜ

/-- The program does not write the header table, and clears no more than a block. -/
def Request.Contained (h : BlockHeap) : Request → Prop
  | clearPayload p len => ∀ b ∈ h.map.blocks, b.start = p → len ≤ b.size
  | write a bytes => Set.Ico a (a + bytes.length) ⊆ h.layout.tableᶜ
  | _ => True

/-- Table and map tell of the same blocks. Where no block starts, the header has neither bit set. -/
structure Consistent (h : BlockHeap) : Prop where
  mapped : h.Mapped
  alloc : ∀ p, h.owns p → (h.headerAt p).alloc
  clear : ∀ p, h.layout.isBoundary p → ¬ h.owns p →
    (h.headerAt p).alloc = false ∧ (h.headerAt p).mark = false

/-- All blocks in use have been handed out, and where none has been handed out the header is
blank. -/
structure History.Recorded (s : History) : Prop where
  handed : ∀ b ∈ s.heap.map.blocks, ⟨b.start, b.size⟩ ∈ s.handed
  blank : ∀ p, s.heap.layout.isBoundary p → (∀ b ∈ s.handed, b.addr ≠ p) →
    s.heap.headerAt p = .blank

/-- What the header table and the questions about it tell of the blocks. -/
structure Tabled (s : History) : Prop where
  /-- Every granule has a header. It is allocated exactly where a block in use starts, has no mark
  elsewhere, and is all zero where no block has ever started. -/
  readHeader : ∀ p, s.heap.layout.isBoundary p → ∃ hd, s.heap.readHeader p = .ok hd ∧
    (hd.alloc ↔ ∃ e ∈ s.heap.map.extents, e.used ∧ e.start = p) ∧
    (hd.alloc = false → hd.mark = false) ∧
    ((∀ b ∈ s.handed, b.addr ≠ p) → hd.toWord = 0)
  /-- Every block in use has been handed out. -/
  handed : ∀ e ∈ s.heap.map.extents, e.used → ⟨e.start, e.size⟩ ∈ s.handed
  /-- The header can be asked for at every granule that does not lie inside a block in use. -/
  header : ∀ p, (∃ hd, s.heap.header p = .ok hd) ↔ s.heap.layout.isBoundary p ∧
    ∀ e ∈ s.heap.map.extents, e.used → ¬ (e.start < p ∧ p < e.stop)
  /-- Owned is exactly what has an allocated header. -/
  owns : ∀ p, s.heap.owns p ↔ ∃ hd, s.heap.header p = .ok hd ∧ hd.alloc

variable {W : Set Addr} {h : BlockHeap} {s t : History} {p q : Addr}

/-- The header of a granule is allocated exactly if a block in use starts there. -/
theorem Consistent.alloc_iff (hc : h.Consistent) (hp : h.layout.isBoundary p) :
    (h.headerAt p).alloc ↔ h.owns p := by
  refine ⟨fun halloc => ?_, hc.alloc p⟩
  by_contra hown
  rw [(hc.clear p hp hown).1] at halloc
  contradiction

/-- The header of a granule can be asked for unless it lies inside a block. -/
theorem header_eq_ok_iff {hd : Header} (hm : h.Mapped) : h.header p = .ok hd ↔
    h.layout.isBoundary p ∧ h.map.isInsideBlock p = false ∧ hd = h.headerAt p := by
  rw [header]
  by_cases hp : h.layout.isBoundary p
  · rw [readHeader_eq hm.layout hp, hp]
    cases h.map.isInsideBlock p <;> simp [eq_comm]
  · simp [hp]

/-! ### New heaps -/

/-- A new heap owns nothing. -/
theorem not_owns_of_create {memory : Memory} {layout : Layout}
    (hc : create memory layout = .ok h) : ¬ h.owns p := by
  rw [owns_iff, (create_eq_ok hc).2.2.2]
  simp [BlockMap.blocks, BlockMap.empty]

/-- Table and map of a new heap tell of no blocks. -/
theorem consistent_of_create {memory : Memory} {layout : Layout}
    (hc : create memory layout = .ok h) : h.Consistent where
  mapped := mapped_of_create hc
  alloc _ hp := absurd hp (not_owns_of_create hc)
  clear p hp _ := by
    rw [headerAt_of_create hc hp]
    exact ⟨rfl, rfl⟩

/-- At the beginning nothing has been handed out, and all headers are blank. -/
theorem recorded_of_create {memory : Memory} {layout : Layout}
    (hc : create memory layout = .ok h) : History.Recorded ⟨h, []⟩ where
  handed b hb := absurd (owns_iff.mpr ⟨b, hb, rfl⟩) (not_owns_of_create hc)
  blank _ hp _ := headerAt_of_create hc hp

/-! ### Changes -/

/-- Writing elsewhere in the memory leaves all headers. -/
theorem headerAt_overwritten {a : Addr} {bytes : List UInt8} (hm : h.Mapped)
    (houtside : Set.Ico a (a + bytes.length) ⊆ h.layout.tableᶜ) (hp : h.layout.isBoundary p) :
    (h.overwritten a bytes).headerAt p = h.headerAt p := by
  refine headerAt_congr _ hm.layout rfl ?_ hp
  exact (h.memory.agreeOn_overwrite a bytes).mono (Set.subset_compl_comm.mp houtside)

/-- Each change keeps table and map in step: the only headers that change are those of the granule
where a block is taken or given back, and of blocks that stay. -/
theorem Change.consistent (hchange : Change W s t) (hW : W ⊆ s.heap.layout.tableᶜ)
    (hc : s.heap.Consistent) : t.heap.Consistent := by
  have hm := hc.mapped
  have hboundary : ∀ q, t.heap.layout.isBoundary q → s.heap.layout.isBoundary q := fun q hq =>
    hchange.layout_eq ▸ hq
  refine ⟨hchange.mapped hm, ?_, ?_⟩
  · -- What is owned now has been owned before, or is the block just taken.
    intro q hown
    have hq := hboundary q ((hchange.mapped hm).boundary hown)
    cases hchange with
    | @take p size hfit =>
      by_cases hqp : q = p
      · rw [hqp, headerAt_withBlock_self hm hfit]
        rfl
      · rw [headerAt_withBlock_of_ne hm hfit hq hqp]
        exact hc.alloc q (((owns_withBlock_iff hm hfit).mp hown).resolve_left hqp)
    | @putHeader p hd hp halloc =>
      by_cases hqp : q = p
      · rw [hqp, headerAt_putHeader_self hm.layout (hm.boundary hp)]
        exact halloc
      · rw [headerAt_putHeader_of_ne _ (hm.boundary hp) hq hqp]
        rw [owns, putHeader_map] at hown
        exact hc.alloc q hown
    | @free p hp =>
      obtain ⟨hown', hqp⟩ := (owns_freed_iff hm hp).mp hown
      rw [headerAt_freed_of_ne hm hp hq hqp]
      exact hc.alloc q hown'
    | overwrite hinside =>
      rw [headerAt_overwritten hm (hinside.trans hW) hq]
      exact hc.alloc q hown
  · -- Where no block starts now, none has started before, or one has just been given back.
    intro q hq hown
    have hqs := hboundary q hq
    cases hchange with
    | @take p size hfit =>
      rw [owns_withBlock_iff hm hfit, not_or] at hown
      rw [headerAt_withBlock_of_ne hm hfit hqs hown.1]
      exact hc.clear q hqs hown.2
    | @putHeader p hd hp halloc =>
      rw [owns, putHeader_map] at hown
      have hqp : q ≠ p := by
        rintro rfl
        exact hown hp
      rw [headerAt_putHeader_of_ne _ (hm.boundary hp) hqs hqp]
      exact hc.clear q hqs hown
    | @free p hp =>
      by_cases hqp : q = p
      · rw [hqp, headerAt_freed_self hm hp]
        exact ⟨rfl, rfl⟩
      · rw [owns_freed_iff hm hp] at hown
        rw [headerAt_freed_of_ne hm hp hqs hqp]
        exact hc.clear q hqs fun hown' => hown ⟨hown', hqp⟩
    | overwrite hinside =>
      rw [headerAt_overwritten hm (hinside.trans hW) hqs]
      exact hc.clear q hqs hown

/-- Where no block has been handed out, no change has written a header. -/
theorem Change.recorded (hchange : Change W s t) (hW : W ⊆ s.heap.layout.tableᶜ)
    (hm : s.heap.Mapped) (hs : s.Recorded) : t.Recorded := by
  have hboundary : ∀ q, t.heap.layout.isBoundary q → s.heap.layout.isBoundary q := fun q hq =>
    hchange.layout_eq ▸ hq
  -- The only headers that change are those of blocks that have been handed out.
  have hne : ∀ p q, s.heap.owns p → (∀ b ∈ s.handed, b.addr ≠ q) → q ≠ p := by
    rintro p q hp hq rfl
    obtain ⟨b, hb, rfl⟩ := owns_iff.mp hp
    exact hq _ (hs.handed b hb) rfl
  constructor
  · intro b hb
    cases hchange with
    | @take p size hfit =>
      rcases List.mem_cons.mp ((blocks_withBlock hm hfit).mem_iff.mp hb) with rfl | hb
      · exact List.mem_cons_self
      · exact List.mem_cons_of_mem _ (hs.handed b hb)
    | putHeader _ _ =>
      rw [putHeader_map] at hb
      exact hs.handed b hb
    | free hp =>
      rw [freed_map, hm.map.blocks_release hp] at hb
      exact hs.handed b (List.mem_of_mem_filter hb)
    | overwrite _ => exact hs.handed b hb
  · intro q hq hall
    have hqs := hboundary q hq
    cases hchange with
    | @take p size hfit =>
      rw [List.forall_mem_cons] at hall
      rw [headerAt_withBlock_of_ne hm hfit hqs hall.1.symm]
      exact hs.blank q hqs hall.2
    | @putHeader p hd hp halloc =>
      rw [headerAt_putHeader_of_ne _ (hm.boundary hp) hqs (hne p q hp hall)]
      exact hs.blank q hqs hall
    | @free p hp =>
      rw [headerAt_freed_of_ne hm hp hqs (hne p q hp hall)]
      exact hs.blank q hqs hall
    | overwrite hinside =>
      rw [headerAt_overwritten hm (hinside.trans hW) hqs]
      exact hs.blank q hqs hall

/-! ### Histories -/

/-- What is cleared of a block in use lies in the region, and so outside the table. -/
theorem Request.Contained.sparesTable {request : Request} (hr : request.Contained h)
    (hm : h.Mapped) : request.SparesTable h := by
  cases request with
  | clearPayload p len =>
    rintro i ⟨hp, hi⟩
    obtain ⟨b, hb, rfl⟩ := owns_iff.mp hp
    obtain ⟨hstart, hstop, -, -⟩ := hm.map.block_bounds hb
    have hlen := hr b hb rfl
    have hstart' := (Layout.isBoundary_iff.mp hstart).1
    refine hm.layout.region_subset_compl_table ?_
    simp only [Layout.region, Set.mem_Ico, Extent.stop] at hi hstop ⊢
    lia
  | write a bytes => exact hr
  | _ => exact Set.empty_subset _

/-- A contained request keeps table and map in step. -/
theorem Request.Contained.consistent {request : Request} (hr : request.Contained h)
    (hc : h.Consistent) : (request.run.after h).Consistent := by
  refine request.invariant (s := ⟨h, []⟩) (P := fun s => s.heap.Consistent) (fun l => l.tableᶜ)
    hc.mapped hc.mapped.layout.region_subset_compl_table (hr.sparesTable hc.mapped) ?_ hc
  intro s t hc hchange
  exact hchange.consistent subset_rfl hc

/-- It is enough that nothing is written into the table, however much of the memory is cleared. -/
theorem Reachable.consistent (hs : Reachable (fun h request => request.SparesTable h) s) :
    s.heap.Consistent := by
  refine hs.invariant (P := fun s => s.heap.Consistent) (fun l => l.tableᶜ)
    (fun _ hc => hc.mapped) (fun _ hc => hc.mapped.layout.region_subset_compl_table)
    (fun _ _ _ hr => hr) ?_ ?_
  · intro memory layout heap _ hcreated
    exact consistent_of_create hcreated
  · intro s t hc hchange
    exact hchange.consistent subset_rfl hc

/-- By induction over its history, table and map of a heap tell of the same blocks, all of them
handed out. -/
theorem Reachable.consistent_and_recorded (hs : Reachable (fun h r => r.Contained h) s) :
    s.heap.Consistent ∧ s.Recorded := by
  refine hs.invariant (P := fun s => s.heap.Consistent ∧ s.Recorded) (fun l => l.tableᶜ)
    (fun _ h => h.1.mapped) (fun _ h => h.1.mapped.layout.region_subset_compl_table)
    (fun _ _ h hr => hr.sparesTable h.1.mapped) ?_ ?_
  · intro memory layout heap _ hcreated
    exact ⟨consistent_of_create hcreated, recorded_of_create hcreated⟩
  · rintro s t ⟨hc, hr⟩ hchange
    exact ⟨hchange.consistent subset_rfl hc, hchange.recorded subset_rfl hc.mapped hr⟩

/-- What the table tells, if it tells of the same blocks as the map. -/
theorem tabled_of_consistent (hc : s.heap.Consistent) (hr : s.Recorded) : Tabled s := by
  have hm := hc.mapped
  have howns : ∀ p, s.heap.owns p ↔ ∃ e ∈ s.heap.map.extents, e.used ∧ e.start = p := by
    intro p
    simp only [owns_iff, BlockMap.mem_blocks, and_assoc]
  refine ⟨?_, ?_, ?_, ?_⟩
  · intro p hp
    refine ⟨_, readHeader_eq hm.layout hp, (hc.alloc_iff hp).trans (howns p), ?_, ?_⟩
    · intro halloc
      refine (hc.clear p hp fun hown => ?_).2
      rw [hc.alloc p hown] at halloc
      contradiction
    · intro hall
      rw [hr.blank p hp hall]
      rfl
  · intro e he hused
    exact hr.handed e (BlockMap.mem_blocks.mpr ⟨he, hused⟩)
  · intro p
    simp only [header_eq_ok_iff hm, ← BlockMap.isInsideBlock_eq_false_iff]
    exact ⟨fun ⟨_, hp, hinside, _⟩ => ⟨hp, hinside⟩, fun ⟨hp, hinside⟩ => ⟨_, hp, hinside, rfl⟩⟩
  · intro p
    simp only [header_eq_ok_iff hm]
    constructor
    · intro hown
      exact ⟨_, ⟨hm.boundary hown, hm.map.not_isInsideBlock hown, rfl⟩, hc.alloc p hown⟩
    · rintro ⟨_, ⟨hp, -, rfl⟩, halloc⟩
      exact (hc.alloc_iff hp).mp halloc

/-- As long as the program does not write the header table itself, table and map tell of the same
blocks, at every moment of every history. -/
theorem Reachable.tabled (hs : Reachable (fun h request => request.Contained h) s) : Tabled s :=
  tabled_of_consistent hs.consistent_and_recorded.1 hs.consistent_and_recorded.2

/-- The header of the object at 16 stays in the table, without its bits, when the object is given
back and swallowed by a larger one. -/
theorem tabled_small :
    let s := History.small.serve [.allocate .cell 4, .allocate .blob 3, .free 16, .free 8,
      .allocate .list 12, .setHeader 8 (.setMark (.fresh .list 12))]
    s.heap.map.extents = [⟨8, 16, true⟩] ∧
      s.heap.readHeader 16 = .ok (.released (.fresh .blob 3)) ∧ Tabled s := by
  intro s
  exact ⟨by decide +kernel, by decide +kernel,
    ((reachable_small _).serve (by simp [Request.Contained])).tabled⟩

end MarkSweep.BlockHeap
