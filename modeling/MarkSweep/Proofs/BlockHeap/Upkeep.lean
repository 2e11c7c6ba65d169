import Mathlib.Logic.Relation
import MarkSweep.Proofs.BlockHeap.Sweep

/-!
# Upkeep of a block heap

Marking and sweeping do two things only: they replace the header of a block by an allocated one of
the same size, and they give a block back (`BlockHeap.Upkeep`). That is so whatever stands in the
header table, for a sweep that ends early, too (`upkept_sweep`, `upkept_setMark`).

Upkeep takes no space into use, and the only bytes that it writes are those of the header words of
the blocks that are in use when it begins (`Upkept.agreeOn`).
-/

namespace MarkSweep.BlockHeap

/-- One step of the upkeep of a heap. -/
inductive Upkeep (h : BlockHeap) : BlockHeap → Prop where
  | putHeader {p : Addr} {hd : Header} (owns : h.owns p) (alloc : hd.alloc)
      (size_eq : hd.size = (h.headerAt p).size) : Upkeep h (h.putHeader p hd)
  | free {p : Addr} (owns : h.owns p) : Upkeep h (h.freed p)

/-- Some steps of upkeep, one after the other. -/
def Upkept : BlockHeap → BlockHeap → Prop := Relation.ReflTransGen Upkeep

/-- The addresses of the headers of the blocks in use. -/
def headerWords (h : BlockHeap) : Set Addr :=
  {i | ∃ b ∈ h.map.blocks, i ∈ h.layout.headerWord b.start}

variable {h h' : BlockHeap} {p : Addr} {hd : Header} {bs : List Extent}

/-! ### One step -/

/-- The header words in use are those of the blocks in use. -/
theorem headerWord_subset_headerWords (hp : h.owns p) : h.layout.headerWord p ⊆ h.headerWords := by
  obtain ⟨b, hb, rfl⟩ := owns_iff.mp hp
  exact fun i hi => ⟨b, hb, hi⟩

/-- The header words in use lie in the table. -/
theorem headerWords_subset_table (hm : h.Mapped) : h.headerWords ⊆ h.layout.table := by
  rintro i ⟨b, hb, hi⟩
  exact hm.layout.headerAddr_subset_table (hm.map.block_bounds hb).1 hi

namespace Upkeep

variable (hu : Upkeep h h')

include hu

theorem layout_eq : h'.layout = h.layout := by
  cases hu with
  | putHeader _ _ _ => exact putHeader_layout ..
  | free _ => exact freed_layout ..

/-- Upkeep does not move the frontier. -/
theorem frontier_eq : h'.map.frontier = h.map.frontier := by
  cases hu with
  | putHeader _ _ _ => rw [putHeader_map]
  | free _ => rw [freed_map, BlockMap.frontier_release]

/-- A step of upkeep writes a header of a block in use and nothing else. -/
theorem agreeOn : h.memory.AgreeOn h.headerWordsᶜ h'.memory := by
  cases hu with
  | putHeader howns _ _ =>
    refine (agreeOn_compl_headerWord_putHeader h _ _).mono ?_
    exact Set.compl_subset_compl.mpr (headerWord_subset_headerWords howns)
  | free howns =>
    refine (agreeOn_freed h _).mono ?_
    exact Set.compl_subset_compl.mpr (headerWord_subset_headerWords howns)

variable (hm : h.Mapped)

include hm

theorem mapped : h'.Mapped := by
  cases hu with
  | putHeader _ _ _ => exact hm.putHeader _ _
  | free howns => exact mapped_freed hm howns

/-- Upkeep takes no block into use. -/
theorem blocks_subset : h'.map.blocks ⊆ h.map.blocks := by
  cases hu with
  | putHeader _ _ _ =>
    rw [putHeader_map]
    exact List.Subset.refl _
  | free howns =>
    rw [blocks_freed hm howns]
    exact List.filter_subset_self _

omit hm in
theorem valid (hv : h.Valid) : h'.Valid := by
  cases hu with
  | putHeader howns halloc hsize => exact hv.putHeader_of_size_eq howns halloc hsize
  | free howns => exact valid_freed hv howns

/-- After a step there are no more headers to write than before. -/
theorem headerWords_subset : h'.headerWords ⊆ h.headerWords := by
  rintro i ⟨b, hb, hi⟩
  rw [hu.layout_eq] at hi
  exact ⟨b, hu.blocks_subset hm hb, hi⟩

end Upkeep

/-! ### Many steps -/

namespace Upkept

variable (hu : Upkept h h')

include hu

theorem layout_eq : h'.layout = h.layout := by
  induction hu with
  | refl => rfl
  | tail _ hstep ih => exact hstep.layout_eq.trans ih

/-- Upkeep takes no space into use. -/
theorem frontier_eq : h'.map.frontier = h.map.frontier := by
  induction hu with
  | refl => rfl
  | tail _ hstep ih => exact hstep.frontier_eq.trans ih

theorem valid (hv : h.Valid) : h'.Valid := by
  induction hu with
  | refl => exact hv
  | tail _ hstep ih => exact hstep.valid ih

variable (hm : h.Mapped)

include hm

theorem mapped : h'.Mapped := by
  induction hu with
  | refl => exact hm
  | tail _ hstep ih => exact hstep.mapped ih

/-- However long the upkeep, no block is taken into use. -/
theorem blocks_subset : h'.map.blocks ⊆ h.map.blocks := by
  induction hu with
  | refl => exact List.Subset.refl _
  | tail hsteps hstep ih =>
    exact List.Subset.trans (hstep.blocks_subset (Upkept.mapped hsteps hm)) ih

/-- Upkeep writes the header words of the blocks that were in use before, at most. -/
theorem agreeOn : h.memory.AgreeOn h.headerWordsᶜ h'.memory := by
  induction hu using Relation.ReflTransGen.head_induction_on with
  | refl => exact .refl _ _
  | head hstep _ ih =>
    have hrest := (ih (hstep.mapped hm)).mono
      (Set.compl_subset_compl.mpr (hstep.headerWords_subset hm))
    exact hstep.agreeOn.trans hrest

/-- So no byte outside the table changes. -/
theorem agreeOn_compl_table : h.memory.AgreeOn h.layout.tableᶜ h'.memory :=
  (hu.agreeOn hm).mono (Set.compl_subset_compl.mpr (headerWords_subset_table hm))

/-- Upkeep after which blocks and headers are what they were has changed nothing at all. -/
theorem eq_of_blocks_eq (hblocks : h'.map.blocks = h.map.blocks)
    (hheaders : ∀ b ∈ h.map.blocks, h'.headerAt b.start = h.headerAt b.start) : h' = h := by
  have hagree := hu.agreeOn hm
  -- Only these bytes could be others, but the headers that they spell are the same.
  have hwords : h.memory.AgreeOn h.headerWords h'.memory := by
    refine ⟨hagree.size_eq, fun i hi => ?_⟩
    obtain ⟨b, hb, hi⟩ := hi
    have hword := agreeOn_headerWord hm.layout hu.layout_eq hagree.size_eq
      (hm.map.block_bounds hb).1 (hheaders b hb)
    exact hword.getElem?_eq i hi
  ext1
  · exact hu.layout_eq
  · exact Memory.eq_of_agreeOn_compl hwords hagree
  · exact hm.map_eq_of_blocks_eq (hu.mapped hm) hu.layout_eq hblocks hu.frontier_eq

end Upkept

/-! ### Sweeping and marking -/

/-- A sweep is upkeep, as far as it comes. -/
theorem upkept_sweepBlocks (hm : h.Mapped) (hsub : bs ⊆ h.map.blocks)
    (hne : bs.Pairwise fun b c => b.start ≠ c.start) : Upkept h ((sweepBlocks bs).after h) := by
  induction bs generalizing h with
  | nil => exact .refl
  | cons b rest ih =>
    obtain ⟨hb, hrest⟩ := List.cons_subset.mp hsub
    obtain ⟨hbne, hrestne⟩ := List.pairwise_cons.mp hne
    have howns : h.owns b.start := owns_iff.mpr ⟨b, hb, rfl⟩
    rw [sweepBlocks, Action.after_bind_of_eq_ok (ask_readHeader_eq hm howns)]
    cases halloc : (h.headerAt b.start).alloc with
    | false =>
      -- The sweep ends at a header that calls its block free.
      rw [Action.after_bind_of_eq_error (Action.require_false _ _)]
      exact .refl
    | true =>
      rw [Action.after_bind_of_eq_ok (Action.require_true _ _)]
      cases (h.headerAt b.start).mark with
      | true =>
        have hwrite : writeHeader b.start (h.headerAt b.start).clearMark h =
            .ok () (h.kept b.start) := writeHeader_eq hm.layout _ (hm.boundary howns)
        have hkept : Upkeep h (h.kept b.start) := .putHeader howns halloc rfl
        have hrest' : rest ⊆ (h.kept b.start).map.blocks := by
          rw [kept, putHeader_map]
          exact hrest
        rw [if_pos rfl, Action.after_bind_of_eq_ok hwrite, Action.after_bind_pure]
        exact .head hkept (ih (hkept.mapped hm) hrest' hrestne)
      | false =>
        have hfreed : Upkeep h (h.freed b.start) := .free howns
        have hrest' : rest ⊆ (h.freed b.start).map.blocks := by
          rw [blocks_freed hm howns]
          exact fun c hc => List.mem_filter.mpr ⟨hrest hc, by simpa using (hbne c hc).symm⟩
        rw [if_neg Bool.false_ne_true, Action.after_bind_of_eq_ok (free_eq hm howns),
          Action.after_bind_pure]
        exact .head hfreed (ih (hfreed.mapped hm) hrest' hrestne)

/-- A sweep is upkeep, also one that is refused half-way. -/
theorem upkept_sweep (hm : h.Mapped) : Upkept h (sweep.after h) :=
  upkept_sweepBlocks hm (List.Subset.refl _) hm.map.pairwise_blocks_start_ne

/-- To set the mark in a header that has just been read is upkeep. -/
theorem upkept_setMark (hm : h.Mapped) (hheader : h.header p = .ok hd) :
    Upkept h ((setHeader p hd.setMark).after h) := by
  rcases setHeader_cases hm p hd.setMark with ⟨e, herror⟩ | ⟨hp, halloc, hok⟩
  · rw [Action.after_of_eq_error herror]
    exact .refl
  · obtain rfl := Except.ok.inj (hheader.symm.trans (hm.header_eq hp))
    rw [Action.after_of_eq_ok hok]
    exact .single (.putHeader hp halloc rfl)

end MarkSweep.BlockHeap
