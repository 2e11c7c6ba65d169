import Mathlib.Order.Bounds.Basic
import MarkSweep.Proofs.BlockHeap.FreeOrder

/-!
# What comes of a sweep

A sweep takes its list of blocks once and goes through it, while the map changes with every block
that it gives back. Nothing is asked of the headers it will find, so it may end early, at the first
block whose header calls it free. Either way the heap it leaves is said in full
(`BlockHeap.sweep_exact`): what has become of each block and of each header word, what has been
counted, and that the map is the one that remains if the blocks without a mark are given back one by
one, in an order of one's own choice.
-/

namespace MarkSweep.BlockHeap

/-- The addresses of the listed blocks without a mark. -/
def unmarkedStarts (h : BlockHeap) (bs : List Extent) : List Addr :=
  (bs.filter fun b => !(h.headerAt b.start).mark).map (·.start)

/-- `h'` is `h` with the listed blocks swept, and the order in which blocks have been given back
cannot be seen from its map. -/
structure SweptInAnyOrder (bs : List Extent) (h h' : BlockHeap) : Prop
    extends Treated bs h h' where
  map_eq : ∀ ps : List Addr, ps.Perm (h.unmarkedStarts bs) →
    ∃ h'', freeAll ps h = .ok () h'' ∧ h''.map = h'.map

variable {h h' : BlockHeap} {b : Extent} {bs : List Extent} {ps : List Addr}

/-- The starts of the unmarked blocks tell these from all others. -/
theorem mem_unmarkedStarts_iff (hm : h.Mapped) (hsub : bs ⊆ h.map.blocks)
    (hb : b ∈ h.map.blocks) :
    b.start ∈ h.unmarkedStarts bs ↔ b ∈ bs ∧ (h.headerAt b.start).mark = false := by
  simp only [unmarkedStarts, List.mem_map, List.mem_filter, Bool.not_eq_true']
  constructor
  · rintro ⟨c, ⟨hc, hmark⟩, hstart⟩
    obtain rfl := hm.map.eq_of_start_eq (BlockMap.mem_blocks.mp (hsub hc)).1
      (BlockMap.mem_blocks.mp hb).1 hstart
    exact ⟨hc, hmark⟩
  · intro hmark
    exact ⟨b, hmark, rfl⟩

/-- Upkeep that treats some blocks leaves the map that giving back those without a mark leaves. -/
theorem Treated.inAnyOrder (ht : Treated bs h h') (hm : h.Mapped) (hsub : bs.Sublist h.map.blocks)
    (hu : Upkept h h') : SweptInAnyOrder bs h h' := by
  refine ⟨ht, fun ps hps => ?_⟩
  have hdistinct : Distinct ps h := by
    refine Distinct.perm ⟨?_, ?_⟩ hps.symm
    · intro p hp
      obtain ⟨b, hb, rfl⟩ := List.mem_map.mp hp
      exact owns_iff.mpr ⟨b, hsub.subset (List.mem_of_mem_filter hb), rfl⟩
    · exact hm.map.nodup_starts.sublist ((List.filter_sublist.trans hsub).map _)
  have hfreed := upkept_allFreed hm hdistinct
  refine ⟨h.allFreed ps, freeAll_eq hm hdistinct, ?_⟩
  -- Blocks and frontier leave no choice about the rest of the map.
  refine ht.mapped.map_eq_of_blocks_eq (hfreed.mapped hm) ?_ ?_ ?_
  · rw [hfreed.layout_eq, ht.layout_eq]
  · rw [blocks_allFreed hm hdistinct, ht.blocks_eq]
    refine List.filter_congr fun b hb => ?_
    rw [decide_eq_decide, hps.mem_iff, mem_unmarkedStarts_iff hm hsub.subset hb]
    by_cases hbs : b ∈ bs <;> simp [hbs]
  · rw [hfreed.frontier_eq, hu.frontier_eq]

/-- If all headers call their blocks allocated, a sweep succeeds, and what it reports is how many
blocks, of how many bytes, have gone and how many have stayed. Otherwise the lowest block whose
header does not is reported, the blocks below it have been swept, and it and the blocks above it are
as they were. -/
theorem sweep_exact (hm : h.Mapped) :
    ((∀ b ∈ h.map.blocks, (h.headerAt b.start).alloc) →
      ∃ h', sweep h = .ok (h.tally h.map.blocks) h' ∧ SweptInAnyOrder h.map.blocks h h') ∧
    ((∃ b ∈ h.map.blocks, (h.headerAt b.start).alloc = false) →
      ∃ p h', IsLeast {p | h.owns p ∧ (h.headerAt p).alloc = false} p ∧
        sweep h = .error (.corruptHeader p .freeInUse) h' ∧
        SweptInAnyOrder (h.map.blocks.filter fun b => b.start < p) h h' ∧
        ∀ b ∈ h.map.blocks, p ≤ b.start →
          b ∈ h'.map.blocks ∧ h'.headerAt b.start = h.headerAt b.start) := by
  have hupkept := upkept_sweep hm
  rcases sweep_cases hm with ⟨halloc, h', hsweep, htreated⟩ |
    ⟨c, hc, hfree, hbelow, h', hsweep, htreated⟩
  · -- All headers are allocated, and the sweep goes through.
    rw [Action.after_of_eq_ok hsweep] at hupkept
    refine ⟨fun _ => ⟨h', hsweep, ?_⟩, ?_⟩
    · exact htreated.inAnyOrder hm (List.Sublist.refl _) hupkept
    · rintro ⟨b, hb, hnot⟩
      exact absurd (halloc b hb) (by simp [hnot])
  · -- The sweep stops at the lowest block whose header is free.
    rw [Action.after_of_eq_error hsweep] at hupkept
    refine ⟨fun halloc => absurd (halloc c hc) (by simp [hfree]), fun _ => ?_⟩
    refine ⟨c.start, h', ⟨⟨owns_iff.mpr ⟨c, hc, rfl⟩, hfree⟩, ?_⟩, hsweep, ?_, ?_⟩
    · rintro p ⟨hp, hnot⟩
      obtain ⟨b, hb, rfl⟩ := owns_iff.mp hp
      refine Nat.le_of_not_lt fun hlt => ?_
      exact absurd (hbelow b hb hlt) (by simp [hnot])
    · exact htreated.inAnyOrder hm List.filter_sublist hupkept
    · -- From there on no block has been treated.
      intro b hb hle
      constructor
      · rw [htreated.blocks_eq, List.mem_filter, decide_eq_true_eq]
        refine ⟨hb, .inl fun hmem => ?_⟩
        exact hle.not_gt (of_decide_eq_true (List.mem_filter.mp hmem).2)
      · refine htreated.headerAt_of_ne hm (List.filter_subset_self _)
          (hm.map.block_bounds hb).1 fun d hd => ?_
        exact ((of_decide_eq_true (List.mem_filter.mp hd).2).trans_le hle).ne

/-- Three blocks, the second one with a mark. If the header of the third is overwritten, the sweep
ends there, when the first two have been treated. -/
theorem sweep_exact_small :
    let h := (History.small.serve [.alloc 8, .alloc 16, .alloc 5, .write 44 [3]]).heap
    let damaged := h.overwritten 52 [2]
    (h.Mapped ∧ ∃ h', sweep h = .ok ⟨2, 16, 1⟩ h' ∧ SweptInAnyOrder h.map.blocks h h') ∧
      damaged.Mapped ∧ ∃ h', sweep damaged = .error (.corruptHeader 32 .freeInUse) h' ∧
        SweptInAnyOrder [⟨8, 8, true⟩, ⟨16, 16, true⟩] damaged h' := by
  intro h damaged
  have hm : h.Mapped := ((reachable_small fun _ _ => True).serve (by simp)).mapped
  have hm' : damaged.Mapped := mapped_overwritten hm
  refine ⟨⟨hm, ?_⟩, hm', ?_⟩
  · obtain ⟨h', hsweep, hswept⟩ := (sweep_exact hm).1 (by decide +kernel)
    have htally : h.tally h.map.blocks = ⟨2, 16, 1⟩ := by decide +kernel
    exact ⟨h', htally ▸ hsweep, hswept⟩
  · obtain ⟨p, h', -, hsweep, hswept, -⟩ := (sweep_exact hm').2 (by decide +kernel)
    have hrefusal : sweep.refusal? damaged = some (.corruptHeader 32 .freeInUse) := by
      decide +kernel
    rw [Action.refusal?, hsweep] at hrefusal
    obtain rfl : p = 32 := by simpa using hrefusal
    have hbelow : (damaged.map.blocks.filter fun b => b.start < 32) =
        [⟨8, 8, true⟩, ⟨16, 16, true⟩] := by
      decide +kernel
    exact ⟨h', hsweep, hbelow ▸ hswept⟩

end MarkSweep.BlockHeap
