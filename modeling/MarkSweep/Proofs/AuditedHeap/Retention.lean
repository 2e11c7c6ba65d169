import MarkSweep.Proofs.AuditedHeap.Exposed

/-!
# What a sweep that fails leaves on record

An audited sweep empties the record while it revises it. If the revision comes to a block that has
gone and was not released, it ends there, and the record stays empty: with the entry that is to
blame those of all other blocks are lost (`AuditedHeap.sweep_forgets`).

Which blocks will not be found released can be told before the sweep (`exists_unreleased_iff`). So
can whether a sweep that fails leaves all blocks on record that stay (`AuditedHeap.retains_iff`).
-/

namespace MarkSweep

open MarkSweep.Action

/-- The block on record is not in use any more, and a sweep will not find it released: no block
could start at its address, one that stays lies over it, or the header there has its alloc bit or
its mark. -/
structure Entry.Displaced (e : Entry) (h : BlockHeap) : Prop where
  gone : ¬ h.owns e.addr
  unclean : ¬ (h.layout.isBoundary e.addr ∧
    (∀ c ∈ h.map.blocks, (h.headerAt c.start).mark → ¬ c.isInside e.addr) ∧
      (h.headerAt e.addr).alloc = false ∧ (h.headerAt e.addr).mark = false)

namespace AuditedHeap

open BlockHeap (owns_iff)

/-- A sweep will end with the record empty, although a block on it stays. -/
structure Derails (a : AuditedHeap BlockHeap) : Prop where
  settled : a.mismatch? = none
  /-- The sweep of the heap itself goes through. -/
  alloc : ∀ c ∈ a.inner.map.blocks, (a.inner.headerAt c.start).alloc
  displaced : ∃ e ∈ a.entries, e.Displaced a.inner
  stays : ∃ p, a.isTracked p ∧ a.inner.owns p ∧ (a.inner.headerAt p).mark

variable {a b : AuditedHeap BlockHeap} {h h' : BlockHeap} {es : List Entry} {e : Entry} {p : Addr}
  {r : Refusal}

/-! ### What a sweep finds released -/

/-- After a treatment of all blocks, only those that had a mark can lie over an address. -/
theorem isInsideBlock_treated (ht : BlockHeap.Treated h.map.blocks h h') :
    h'.map.isInsideBlock p = false ↔
      ∀ c ∈ h.map.blocks, (h.headerAt c.start).mark → ¬ c.isInside p := by
  have hinside : h'.map.isInsideBlock p = h'.map.blocks.any (·.isInside p) := List.any_filter.symm
  rw [hinside, ht.blocks_eq, List.any_filter, List.any_eq_false]
  refine forall₂_congr fun c hc => ?_
  simp [hc]

/-- A block that the sweep itself gives back is released. -/
theorem released_of_owns (hm : h.Mapped) (ht : BlockHeap.Treated h.map.blocks h h')
    (howns : h.owns e.addr) (hgone : ¬ h'.owns e.addr) : e.Released h' := by
  rw [ht.owns_eq, howns, Bool.true_and, Bool.not_eq_true] at hgone
  obtain ⟨b, hb, hstart⟩ := owns_iff.mp howns
  have hheader : h'.headerAt e.addr = (h.headerAt e.addr).released := by
    rw [← hstart, ht.headerAt_of_mem b hb, BlockHeap.sweptHeader, hstart, hgone,
      if_neg Bool.false_ne_true]
  have hinside : h'.map.isInsideBlock e.addr = false := by
    refine (isInsideBlock_treated ht).mpr fun c hc _ hinside => ?_
    have hbefore := hm.map.not_isInsideBlock howns
    rw [BlockMap.isInsideBlock, List.any_eq_false] at hbefore
    exact hbefore c (BlockMap.mem_blocks.mp hc).1 (by simp [(BlockMap.mem_blocks.mp hc).2, hinside])
  rw [Entry.released_iff ht.mapped, ht.layout_eq, hheader]
  exact ⟨hm.boundary howns, hinside, rfl, rfl⟩

/-- Where no block was, a sweep changes no header, so what it finds has been there before. -/
theorem released_iff_of_not_owns (hm : h.Mapped) (ht : BlockHeap.Treated h.map.blocks h h')
    (hgone : ¬ h.owns e.addr) : e.Released h' ↔ ¬ e.Displaced h := by
  have hheader : h.layout.isBoundary e.addr → h'.headerAt e.addr = h.headerAt e.addr := fun hp =>
    ht.headerAt_of_ne hm (List.Subset.refl _) hp fun b hb hstart =>
      hgone (owns_iff.mpr ⟨b, hb, hstart⟩)
  have hdisplaced : e.Displaced h ↔ ¬ (h.layout.isBoundary e.addr ∧
      (∀ c ∈ h.map.blocks, (h.headerAt c.start).mark → ¬ c.isInside e.addr) ∧
        (h.headerAt e.addr).alloc = false ∧ (h.headerAt e.addr).mark = false) :=
    ⟨Entry.Displaced.unclean, Entry.Displaced.mk hgone⟩
  rw [Entry.released_iff ht.mapped, ht.layout_eq, hdisplaced, not_not, isInsideBlock_treated ht]
  exact and_congr_right fun hp => by rw [hheader hp]

/-- The sweep comes to a block that has gone and is not released exactly if one on record is
displaced. -/
theorem exists_unreleased_iff (hm : h.Mapped) (ht : BlockHeap.Treated h.map.blocks h h') :
    (∃ e ∈ es, ¬ h'.owns e.addr ∧ ¬ e.Released h') ↔ ∃ e ∈ es, e.Displaced h := by
  refine exists_congr fun e => and_congr_right fun _ => ?_
  by_cases howns : h.owns e.addr
  · -- Its block was there until the sweep.
    refine iff_of_false (fun ⟨hgone, hnot⟩ => hnot ?_) fun hdisplaced => hdisplaced.gone howns
    exact released_of_owns hm ht howns hgone
  · rw [released_iff_of_not_owns hm ht howns, not_not, and_iff_right_iff_imp]
    intro _ howns'
    rw [ht.owns_eq, Bool.and_eq_true] at howns'
    exact howns howns'.1

/-! ### What is left on record -/

/-- The order of the entries does not matter to what is tracked. -/
theorem isTracked_perm (hperm : es.Perm a.entries) :
    { a with inner := h, entries := es }.isTracked p ↔ a.isTracked p := by
  rw [isTracked_iff, isTracked_iff]
  exact (hperm.map _).mem_iff

/-- Whatever the order in which a sweep goes through the record, if it fails then all blocks on
record that the heap still owns stay on record, unless the record derails it. -/
theorem retains_iff (ha : Exposed a) (hperm : es.Perm a.entries)
    (herror : sweep { a with entries := es } = .error r b) :
    (∀ p, a.isTracked p → b.inner.owns p → b.isTracked p) ↔ ¬ Derails a := by
  have hm : { a with entries := es }.inner.Mapped := ha.orderly.mapped
  have hcourse := sweep_course hm
  rw [herror] at hcourse
  cases hcourse with
  | stopped hremembered =>
    refine iff_of_true (fun p htracked _ => (isTracked_perm hperm).mpr htracked) fun hd => ?_
    exact hremembered hd.settled
  | cutShort _ hswept =>
    refine iff_of_true (fun p htracked _ => (isTracked_perm hperm).mpr htracked) fun hd => ?_
    -- A header in use calls its block free.
    obtain ⟨h', hok, -⟩ := BlockHeap.sweepBlocks_eq hm (List.Subset.refl _)
      hm.map.pairwise_blocks_start_ne hd.alloc
    rw [BlockHeap.sweep, bind_of_eq_ok (get_apply _), hok] at hswept
    contradiction
  | abandoned hsettled hswept hunreleased =>
    obtain ⟨halloc, -, htreated⟩ := BlockHeap.treated_of_eq_ok hm hswept
    have hdisplaced := (exists_unreleased_iff hm htreated).mp hunreleased
    constructor
    · intro hretained hd
      obtain ⟨p, htracked, howns, hmark⟩ := hd.stays
      have hkept := isTracked_iff.mp <|
        hretained p htracked ((htreated.owns_eq p).trans (by simp [howns, hmark]))
      exact absurd hkept List.not_mem_nil
    · intro hnot p htracked howns
      rw [htreated.owns_eq, Bool.and_eq_true] at howns
      refine absurd ⟨hsettled, halloc, ?_, p, htracked, howns⟩ hnot
      simpa only [hperm.mem_iff] using hdisplaced
  | disputed _ hswept hreleased =>
    obtain ⟨-, -, htreated⟩ := BlockHeap.treated_of_eq_ok hm hswept
    constructor
    · rintro - hd
      obtain ⟨e, he, hdisplaced⟩ := hd.displaced
      obtain ⟨e', he', hgone, hnot⟩ :=
        (exists_unreleased_iff hm htreated).mpr ⟨e, hperm.mem_iff.mpr he, hdisplaced⟩
      exact hnot (hreleased e' he' hgone)
    · rintro - p htracked howns
      obtain ⟨e, he, rfl⟩ := List.mem_map.mp (isTracked_iff.mp htracked)
      refine isTracked_iff.mpr (List.mem_map.mpr ⟨e, ?_, rfl⟩)
      exact List.mem_filter.mpr ⟨hperm.mem_iff.mpr he, howns⟩

/-- A header is changed behind the record. The sweep goes through the record to its end, fails in
the audit after it, and the block is on record still. -/
theorem retains_small :
    let a := (onInner (BlockHeap.Request.setHeader 8 (.setMark (.fresh .cell 8))).run).after <|
      (Heap.Request.allocate .cell 4).run.after (start BlockHeap.History.small.heap)
    Exposed a ∧ sweep a = .error (.corruptHeader 8 .changedSinceAllocation) (sweep.after a) ∧
      a.isTracked 8 ∧ (sweep.after a).inner.owns 8 ∧ (sweep.after a).isTracked 8 := by
  intro a
  have ha : Exposed a :=
    ((@Exposed.start (.filled 56 0xFF) { start := 8, stop := 40 } _ (by decide) rfl).request
      (.allocate .cell 4)).bypass (.setHeader 8 _)
  have herror : sweep a = .error (.corruptHeader 8 .changedSinceAllocation) (sweep.after a) :=
    eq_error_of_refusal? (by decide +kernel)
  have htracked : a.isTracked 8 := by decide +kernel
  have howns : (sweep.after a).inner.owns 8 := by decide +kernel
  -- The only block on record is in use, so it is not displaced.
  have hall : ∀ e ∈ a.entries, a.inner.owns e.addr := by decide +kernel
  have hderails : ¬ Derails a := fun hd =>
    have ⟨e, he, hdisplaced⟩ := hd.displaced
    hdisplaced.gone (hall e he)
  clear_value a
  exact ⟨ha, herror, htracked, howns,
    (retains_iff ha (.refl _) herror).mpr hderails 8 htracked howns⟩

/-- A sweep that fails may forget a block that the heap still owns. -/
theorem sweep_forgets : ¬ ∀ (a b : AuditedHeap BlockHeap) (es : List Entry) (r : Refusal),
    Exposed a → es.Perm a.entries → sweep { a with entries := es } = .error r b →
      ∀ p, a.isTracked p → b.inner.owns p → b.isTracked p := by
  intro hclaim
  -- Two neighbours are given back behind the record, and their room is handed out as one block.
  let a := (onInner (BlockHeap.Request.setHeader 8 (.setMark (.fresh .cell 4))).run).after <|
    (onInner (BlockHeap.Request.alloc 16).run).after <|
      (onInner (BlockHeap.Request.free 8).run).after <|
        (onInner (BlockHeap.Request.free 16).run).after <|
          (Heap.Request.allocate .cell 4).run.after <|
            (Heap.Request.allocate .cell 4).run.after (start BlockHeap.History.small.heap)
  have ha : Exposed a :=
    ((((((@Exposed.start (.filled 56 0xFF) { start := 8, stop := 40 } _ (by decide) rfl).request
      (.allocate .cell 4)).request (.allocate .cell 4)).bypass (.free 16)).bypass (.free 8)).bypass
      (.alloc 16)).bypass (.setHeader 8 _)
  have herror : sweep a = .error (.notABlock 16) (sweep.after a) :=
    eq_error_of_refusal? (by decide +kernel)
  have htracked : a.isTracked 8 := by decide +kernel
  have howns : (sweep.after a).inner.owns 8 := by decide +kernel
  have hforgotten : (sweep.after a).isTracked 8 = false := by decide +kernel
  clear_value a
  have hkept := hclaim a _ a.entries _ ha (.refl _) herror 8 htracked howns
  exact ne_true_of_eq_false hforgotten hkept

end AuditedHeap

end MarkSweep
