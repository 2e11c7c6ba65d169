import MarkSweep.Proofs.Collector.Exactness
import MarkSweep.Proofs.Collector.RootOrder

/-!
# Collecting again

A collection is a state of rest. What it leaves are the objects that can be reached from the roots,
with the references that they had, and no marks; so the next collection reaches the same objects
(`Marking.Complete.collected`), keeps all of them and takes back every mark that it has set. It
leaves the heap byte for byte as it was (`Collector.collect_again`).
-/

namespace MarkSweep

/-- A header without a mark has none to lose. -/
theorem Header.clearMark_of_not_mark {hd : Header} (hmark : hd.mark = false) :
    hd.clearMark = hd := by
  obtain ⟨alloc, mark, tag, size, hsize⟩ := hd
  obtain rfl : mark = false := hmark
  rfl

namespace Marking

open BlockHeap

variable {tracers : TracerMap} {roots ps : List Addr} {h h' : BlockHeap} {p : Addr}

/-- If there were no marks before, exactly the marked objects are in use after a collection. -/
theorem owns_collected_iff (hclear : ∀ q, h.owns q → (h.headerAt q).mark = false)
    (hcomplete : Complete tracers roots h ps) (hcollected : Collected ps h h') :
    h'.owns p ↔ p ∈ ps := by
  rw [hcollected.owns_iff]
  constructor
  · rintro ⟨hown, hp | hmark⟩
    · exact hp
    · rw [hclear p hown] at hmark
      contradiction
  · intro hp
    exact ⟨hcomplete.owns p hp, .inl hp⟩

/-- What could be reached before a collection, and nothing else, can be reached afterwards, and
there is nothing wrong with it. -/
theorem Complete.collected (hv : h.Valid) (hclear : ∀ q, h.owns q → (h.headerAt q).mark = false)
    (hcomplete : Complete tracers roots h ps) (hcollected : Collected ps h h') :
    Complete tracers roots h' ps := by
  have howns : ∀ q, h'.owns q ↔ q ∈ ps := fun q => owns_collected_iff hclear hcomplete hcollected
  have hunmarked : ∀ q, h.owns q → h.Unmarked q := fun q hown => ⟨hown, hclear q hown⟩
  have hunmarked' : ∀ q ∈ ps, h'.Unmarked q := fun q hq =>
    ⟨(howns q).mpr hq, hcollected.mark_eq_false ((howns q).mpr hq)⟩
  have hvisit : ∀ q ∈ ps, h'.visitAt tracers q = h.visitAt tracers q := fun q hq =>
    hcollected.visitAt_eq hv tracers ((howns q).mpr hq)
  have hroots : ∀ q ∈ roots, h.owns q → q ∈ ps := fun q hq hown =>
    hcomplete.mem_iff.mpr (.root hq (hunmarked q hown))
  have hchildren : ∀ q ∈ ps, ∀ r ∈ (h.visitAt tracers q).children, h.owns r → r ∈ ps :=
    fun q hq r hr hown =>
      hcomplete.mem_iff.mpr (.child (hcomplete.mem_iff.mp hq) hr (hunmarked r hown))
  refine ⟨hcomplete.nodup, ?_, ?_, ?_⟩
  · intro p
    constructor
    · intro hp
      -- The path to `p` runs through objects that have been kept.
      have hreached : p ∈ {q | q ∈ ps ∧ h'.Reaches tracers roots q} := by
        refine (hcomplete.mem_iff.mp hp).mem_of_closed ?_ ?_
        · intro q hq hadmits
          have hmem := hroots q hq hadmits.1
          exact ⟨hmem, .root hq (hunmarked' q hmem)⟩
        · rintro q ⟨hq, hreach⟩ r hr hadmits
          have hmem := hchildren q hq r hr hadmits.1
          exact ⟨hmem, .child hreach ((hvisit q hq).symm ▸ hr) (hunmarked' r hmem)⟩
      exact hreached.2
    · intro hreach
      exact (howns p).mp hreach.admitted.1
  · intro q hq
    exact (hcomplete.roots_sound q hq).imp_right fun hown => (howns q).mpr (hroots q hq hown)
  · intro q hq
    obtain ⟨hfailure, hsound⟩ := defectAt_eq_none_iff.mp (hcomplete.sound q hq)
    refine defectAt_eq_none_iff.mpr ?_
    rw [hvisit q hq]
    refine ⟨hfailure, fun r hr => ?_⟩
    exact (hsound r hr).imp_right fun hown => (howns r).mpr (hchildren q hq r hr hown)

end Marking

namespace BlockHeap

variable {h h' : BlockHeap} {ps : List Addr}

/-- A collection that marks all objects there are keeps all blocks and reports as many as it has
marked. -/
theorem Collected.tally_eq_of_forall_mem (hv : h.Valid) (hnodup : ps.Nodup)
    (hps : ∀ p, h.owns p ↔ p ∈ ps) (hcollected : Collected ps h h') :
    h'.map.blocks = h.map.blocks ∧
      (h.markAll ps).tally h.map.blocks = ⟨0, 0, ps.length⟩ := by
  have howns : ∀ b ∈ h.map.blocks, h'.owns b.start := fun b hb => by
    have hown : h.owns b.start := BlockHeap.owns_iff.mpr ⟨b, hb, rfl⟩
    exact hcollected.owns_iff.mpr ⟨hown, .inl ((hps b.start).mp hown)⟩
  have hblocks : h'.map.blocks = h.map.blocks := by
    rw [hcollected.blocks_eq_filter_owns, List.filter_eq_self]
    exact howns
  have hnone : (h.map.blocks.filter fun b => !h'.owns b.start) = [] := by
    rw [List.filter_eq_nil_iff]
    intro b hb
    simp [howns b hb]
  -- Every block is a marked object, and every marked object a block.
  have hlength : h.map.blocks.length = ps.length := by
    have hperm : (h.map.blocks.map (·.start)).Perm ps := by
      refine (List.perm_ext_iff_of_nodup hv.map.nodup_starts hnodup).mpr fun p => ?_
      rw [← hps, BlockHeap.owns_iff, List.mem_map]
    rw [← hperm.length_eq, List.length_map]
  refine ⟨hblocks, ?_⟩
  rw [hcollected.tally_eq hv fun q hq => (hps q).mpr hq, hnone, hblocks, hlength]
  rfl

end BlockHeap

namespace Collector

open BlockHeap Marking

variable {c c' : Collector BlockHeap} {r : Collection}

/-- A collection that follows upon another one marks what the first has marked, frees nothing and
leaves everything as it is, but that one more collection has been counted. -/
theorem collect_again (hc : Reachable c) (hclear : ∀ p, ¬ c.Premarked p)
    (hcollect : collect c = .ok r c') :
    let r' : Collection := ⟨r.marked, { freedBlocks := 0, freedBytes := 0, liveBlocks := r.marked }⟩
    collect c' = .ok r' { c' with totals := c'.totals.countCollection r' } := by
  have hv := hc.valid
  have hclear : ∀ q, c.heap.owns q → (c.heap.headerAt q).mark = false := fun q hown => by
    simpa [Premarked, hown] using hclear q
  rcases collect_cases hv with ⟨ps, h', hcomplete, hcollected, hok⟩ | ⟨e, ps, -, herror⟩
  · obtain ⟨rfl, rfl⟩ := EStateM.Result.ok.inj (hcollect.symm.trans hok)
    set c' : Collector BlockHeap := { c with heap := h', totals := _ }
    have hv' : c'.heap.Valid := hcollected.valid
    have howns : ∀ p, c'.heap.owns p ↔ p ∈ ps := fun p =>
      owns_collected_iff hclear hcomplete hcollected
    -- The second marking has the same to do as the first one, so it does that.
    have hagain : Complete c'.tracers c'.roots.roots c'.heap ps :=
      hcomplete.collected hv hclear hcollected
    rcases collect_cases hv' with ⟨qs, h'', hqs, hcollected', hok'⟩ | ⟨e, qs, hhalted, -⟩
    · have hperm := hqs.perm hv' (fun _ _ => Iff.rfl) hagain
      obtain ⟨hblocks, htally⟩ := hcollected'.tally_eq_of_forall_mem hv' hqs.nodup fun p =>
        (howns p).trans hperm.mem_iff.symm
      have hupkept := upkept_collect hv'.mapped
      rw [Action.after_of_eq_ok hok'] at hupkept
      have hheap : h'' = c'.heap := by
        refine hupkept.eq_of_blocks_eq hv'.mapped hblocks fun b hb => ?_
        have hown : h''.owns b.start := BlockHeap.owns_iff.mpr ⟨b, hblocks ▸ hb, rfl⟩
        have hmark : (c'.heap.headerAt b.start).mark = false :=
          hcollected.mark_eq_false (BlockHeap.owns_iff.mpr ⟨b, hb, rfl⟩)
        rw [hcollected'.headerAt_eq b.start hown, Header.clearMark_of_not_mark hmark]
      rw [hok', htally, hheap, hperm.length_eq]
    · exact absurd hhalted (hagain.not_halted hv' fun _ _ => Iff.rfl)
  · rw [hcollect] at herror
    contradiction

/-- The objects at 16 and 24 are held, and the first one refers to the second. The one at 8 goes with
the first collection. -/
theorem collect_again_small :
    let c := (small.serve [.allocate .blob 3, .roots .openScope, .allocate .cell 4,
      .allocate .cell 4]).written 16 [24, 0, 0, 0]
    let r : Collection := ⟨2, ⟨0, 0, 2⟩⟩
    Reachable c ∧ (∀ p, ¬ c.Premarked p) ∧ ∃ c', collect c = .ok ⟨2, ⟨1, 8, 2⟩⟩ c' ∧
      collect c' = .ok r { c' with totals := c'.totals.countCollection r } := by
  intro c r
  have hobjects : Reachable (small.serve [.allocate .blob 3, .roots .openScope,
      .allocate .cell 4, .allocate .cell 4]) :=
    reachable_small.serve (by simp [Request.Admissible])
  have hreachable : Reachable c := by
    refine hobjects.step ⟨.write 16 [24, 0, 0, 0], ?_, (after_write ..).symm⟩
    refine Set.Subset.trans ?_ hobjects.valid.layout.region_subset_compl_table
    exact Set.Ico_subset_Ico (by decide +kernel) (by decide +kernel)
  have hclear : ∀ p, ¬ c.Premarked p := by
    rintro p ⟨hown, hmark⟩
    obtain ⟨b, hb, rfl⟩ := BlockHeap.owns_iff.mp hown
    have hall : ∀ b ∈ c.heap.map.blocks, (c.heap.headerAt b.start).mark = false := by
      decide +kernel
    exact absurd hmark (by simp [hall b hb])
  have hcollect : collect c = .ok ⟨2, ⟨1, 8, 2⟩⟩ (collect.after c) :=
    Action.eq_ok_of_answer? (by decide +kernel)
  exact ⟨hreachable, hclear, collect.after c, hcollect,
    collect_again hreachable hclear hcollect⟩

end Collector

end MarkSweep
