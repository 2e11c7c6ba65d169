import Mathlib.Logic.Relation
import MarkSweep.Proofs.Collector.Run

/-!
# Objects in temporary scopes

An object that is allocated while a temporary scope is open stays until that scope is closed, with
its tag, its size and its block (`Collector.allocate_kept`). Neither requests that are refused nor
marks that a refused collection has left change that.

The invariant is `Collector.Holding`: the object is a temporary of a scope that is still open, so it
is a root whenever a collection starts.
-/

namespace MarkSweep.Collector

open BlockHeap Marking

/-- `c'` follows from `c` by requests, and after each of them at least `n` temporary scopes are
open. -/
def FollowsInScope (n : Nat) : Collector BlockHeap → Collector BlockHeap → Prop :=
  Relation.ReflTransGen fun c c' => Step c c' ∧ n ≤ c'.roots.scopeDepth

/-- The object in the block `b` is held by one of the outermost `n` temporary scopes. -/
structure Holding (n : Nat) (tag : Tag) (size : Nat) (b : Extent) (c : Collector BlockHeap) :
    Prop where
  valid : c.heap.Valid
  depth : n ≤ c.roots.scopeDepth
  keeps : c.roots.Keeps n b.start
  mem_blocks : b ∈ c.heap.map.blocks
  tag_eq : (c.heap.headerAt b.start).tag = tag
  size_eq : (c.heap.headerAt b.start).size = size

namespace Holding

variable {c c' : Collector BlockHeap} {n size : Nat} {tag : Tag} {b : Extent} {p : Addr}
  {heap : BlockHeap}

/-- What is held is in use. -/
theorem owns (hh : Holding n tag size b c) : c.heap.owns b.start :=
  BlockHeap.owns_iff.mpr ⟨b, hh.mem_blocks, rfl⟩

/-- A collection that is completed keeps the object, since it is a root or has a mark already. One
that is refused can only have marked it. -/
theorem collect (hh : Holding n tag size b c) :
    Holding n tag size b (Action.after Collector.collect c) := by
  refine after_collect (P := Holding n tag size b) hh.valid ?_ ?_
  · intro ps h' r hcomplete hcollected
    -- A mark from before keeps the object; without one, the marking reaches it as a root.
    have hkept : b.start ∈ ps ∨ (c.heap.headerAt b.start).mark := by
      cases hmark : (c.heap.headerAt b.start).mark with
      | true => exact .inr rfl
      | false =>
        exact .inl (hcomplete.mem_iff.mpr (.root hh.keeps.mem_roots ⟨hh.owns, hmark⟩))
    have hblock : b ∈ h'.map.blocks := hcollected.mem_blocks_iff.mpr ⟨hh.mem_blocks, hkept⟩
    have hheader := hcollected.headerAt_eq b.start (BlockHeap.owns_iff.mpr ⟨b, hblock, rfl⟩)
    refine ⟨hcollected.valid, hh.depth, hh.keeps, hblock, ?_, ?_⟩
    · exact (congrArg Header.tag hheader).trans hh.tag_eq
    · exact (congrArg Header.size hheader).trans hh.size_eq
  · intro ps e hhalted
    have hps := hhalted.owns
    have hheader := headerAt_markAll hh.valid.mapped hps (hh.valid.boundary hh.owns)
    refine ⟨valid_markAll hh.valid hps, hh.depth, hh.keeps, ?_, ?_, ?_⟩
    · rw [markAll_map]
      exact hh.mem_blocks
    · rw [hheader]
      split <;> exact hh.tag_eq
    · rw [hheader]
      split <;> exact hh.size_eq

/-- Another object takes nothing from the object. -/
theorem placed (hh : Holding n tag size b c) {tag' : Tag} {size' : Nat}
    (hplaced : Allocated tag' size' p c.heap heap) : Holding n tag size b (c.placed p heap) := by
  have hheader := hplaced.headerAt_eq hh.valid hh.owns
  have hblock := hplaced.mem_blocks_iff.mpr (.inr hh.mem_blocks)
  refine ⟨hplaced.valid, ?_, hh.keeps.hold p, hblock, ?_, ?_⟩
  · rw [Collector.placed, RootSet.scopeDepth_hold]
    exact hh.depth
  · exact (congrArg Header.tag hheader).trans hh.tag_eq
  · exact (congrArg Header.size hheader).trans hh.size_eq

/-- A step that leaves the scope open keeps the object, whatever else it does. -/
theorem step (hh : Holding n tag size b c) (hs : Step c c') (hn : n ≤ c'.roots.scopeDepth) :
    Holding n tag size b c' := by
  obtain ⟨request, hadmissible, rfl⟩ := hs
  cases request with
  | allocate tag' size' =>
    rw [Request.run, Action.after_discard]
    refine after_allocate (P := Holding n tag size b) tag' size' hh.valid hh hh.collect ?_
    intro c' p heap _ hh' hplaced
    exact hh'.placed hplaced
  | collect =>
    rw [Request.run, Action.after_discard]
    exact hh.collect
  | roots op =>
    rw [after_roots] at hn ⊢
    exact ⟨hh.valid, hn, hh.keeps.after op hh.depth hn, hh.mem_blocks, hh.tag_eq, hh.size_eq⟩
  | write a bytes =>
    -- What the program writes lies outside the table, so the header of the object stays.
    have htable := (agreeOn_written a bytes c).mono (Set.subset_compl_comm.mp hadmissible)
    have hheader := headerAt_congr (c.written a bytes).heap hh.valid.layout rfl htable
      (hh.valid.boundary hh.owns)
    rw [after_write]
    refine ⟨hh.valid.of_agreeOn htable, hh.depth, hh.keeps, hh.mem_blocks, ?_, ?_⟩
    · exact (congrArg Header.tag hheader).trans hh.tag_eq
    · exact (congrArg Header.size hheader).trans hh.size_eq

/-- By induction on the steps, the object is kept for as long as its scope is open. -/
theorem followsInScope (hh : Holding n tag size b c) (hrun : FollowsInScope n c c') :
    Holding n tag size b c' := by
  induction hrun with
  | refl => exact hh
  | tail _ hstep ih => exact ih.step hstep.1 hstep.2

/-- No allocation answers an address inside the block. -/
theorem not_mem_block (hh : Holding n tag size b c) {tag' : Tag} {size' : Nat} {q : Addr}
    (hok : allocate tag' size' c = .ok q c') : q ∉ Set.Ico b.start b.stop := by
  obtain ⟨c'', heap, hc'', hplaced, -⟩ := placed_of_allocate_eq_ok hh.valid hok
  -- If the allocation had to collect, the block is still there when it places the new object.
  have hh'' : Holding n tag size b c'' := by
    rcases hc'' with rfl | ⟨r, hr⟩
    · exact hh
    · rw [← Action.after_of_eq_ok hr]
      exact hh.collect
  have hpos := hh''.valid.layout.footprint_pos size'
  rintro ⟨hle, hlt⟩
  rcases hplaced.block_apart b hh''.mem_blocks with hapart | hapart
  · lia
  · lia

/-- An object allocated in a temporary scope is held by it. -/
theorem of_allocate (hv : c.heap.Valid) (hscope : 0 < c.roots.scopeDepth)
    (hok : allocate tag size c = .ok p c') : Holding c.roots.scopeDepth tag size
      ⟨p, c.heap.layout.footprint size, true⟩ c' := by
  obtain ⟨c'', heap, hc'', hplaced, rfl⟩ := placed_of_allocate_eq_ok hv hok
  -- A collection on the way has changed neither the scopes nor the size of granules.
  have hsame : c''.roots = c.roots ∧ c''.heap.layout = c.heap.layout := by
    rcases hc'' with rfl | ⟨r, hr⟩
    · exact ⟨rfl, rfl⟩
    · rw [← Action.after_of_eq_ok hr]
      exact ⟨roots_collect hv, layout_collect hv⟩
  have hin : c.roots.inScope := by
    rw [RootSet.inScope, Bool.not_eq_true', List.isEmpty_eq_false_iff]
    exact List.ne_nil_of_length_pos hscope
  refine ⟨hplaced.valid, ?_, ?_, ?_, ?_, ?_⟩
  · rw [Collector.placed, RootSet.scopeDepth_hold, hsame.1]
  · rw [Collector.placed, hsame.1]
    exact RootSet.keeps_hold hin
  · rw [← hsame.2]
    exact hplaced.mem_blocks_iff.mpr (.inl rfl)
  · exact congrArg Header.tag hplaced.headerAt_self
  · exact hplaced.headerAt_size

end Holding

variable {c c₁ c₂ : Collector BlockHeap} {tag : Tag} {size : Nat} {p : Addr}

/-- An object allocated while temporary scopes are open stays until one of them is closed, with its
tag, its size and its block, and no other object is allocated inside the block. -/
theorem allocate_kept (hc : Reachable c) (hscope : 0 < c.roots.scopeDepth)
    (hok : allocate tag size c = .ok p c₁) (hrun : FollowsInScope c.roots.scopeDepth c₁ c₂) :
    c₂.heap.owns p ∧
      (∃ hd, c₂.heap.header p = .ok hd ∧ hd.alloc ∧ hd.tag = tag ∧ hd.size = size) ∧
      ⟨p, c.heap.layout.footprint size, true⟩ ∈ c₁.heap.map.blocks ∧
      ⟨p, c.heap.layout.footprint size, true⟩ ∈ c₂.heap.map.blocks ∧
      ∀ tag' size' q c₃, allocate tag' size' c₂ = .ok q c₃ →
        q ∉ Set.Ico p (p + c.heap.layout.footprint size) := by
  have hfirst := Holding.of_allocate hc.valid hscope hok
  have hh := hfirst.followsInScope hrun
  refine ⟨hh.owns, ⟨_, hh.valid.header_eq hh.owns, hh.valid.headerAt_alloc hh.owns, hh.tag_eq,
    hh.size_eq⟩, hfirst.mem_blocks, hh.mem_blocks, ?_⟩
  intro tag' size' q c₃ hok'
  exact hh.not_mem_block hok'

/-- A cell outlives an inner scope and a collection. -/
theorem allocate_kept_small :
    let c := small.serve [.roots .openScope]
    let c₁ := Action.after (allocate .cell 4) c
    let c₂ := c₁.serve [.roots .openScope, .allocate .blob 3, .roots .closeScope, .collect]
    allocate .cell 4 c = .ok 8 c₁ ∧ FollowsInScope 1 c₁ c₂ ∧ c₂.heap.owns 8 ∧
      (⟨8, 8, true⟩ : Extent) ∈ c₂.heap.map.blocks := by
  intro c c₁ c₂
  have hreachable : Reachable c := reachable_small.serve (by simp [Request.Admissible])
  have hok : allocate .cell 4 c = .ok 8 c₁ := Action.eq_ok_of_answer? (by decide +kernel)
  have hrun : FollowsInScope 1 c₁ c₂ :=
    .tail (.tail (.tail (.tail .refl ⟨⟨.roots .openScope, trivial, rfl⟩, by decide +kernel⟩)
      ⟨⟨.allocate .blob 3, trivial, rfl⟩, by decide +kernel⟩)
      ⟨⟨.roots .closeScope, trivial, rfl⟩, by decide +kernel⟩)
      ⟨⟨.collect, trivial, rfl⟩, by decide +kernel⟩
  have hfootprint : c.heap.layout.footprint 4 = 8 := by decide +kernel
  obtain ⟨hown, -, -, hblock, -⟩ := allocate_kept hreachable (by decide) hok hrun
  rw [hfootprint] at hblock
  exact ⟨hok, hrun, hown, hblock⟩

end MarkSweep.Collector
