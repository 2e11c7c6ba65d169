import MarkSweep.Proofs.Action
import MarkSweep.Proofs.BlockHeap.Valid

/-!
# Sweeping

A sweep gives back the blocks without a mark and takes the mark from the others, one after the other.
`Treated` says what has become of the blocks that it has got to, and of their headers. The treatment
of one block (`treated_kept`, `treated_freed`) and the composition of treatments (`Treated.append`)
are stated apart, and the sweep of a list is an induction over both (`sweepBlocks_eq`). None of this
asks for more of the headers than that they are allocated.

On a valid heap they are, so no sweep is refused there (`sweep_eq`), and the heap that it leaves is
valid (`Swept`).
-/

namespace MarkSweep.BlockHeap

/-- The heap with the block at `p` given back. -/
def freed (p : Addr) (h : BlockHeap) : BlockHeap :=
  { h.putHeader p (h.headerAt p).released with map := h.map.release p }

/-- The heap with the mark taken from the block at `p`. -/
def kept (p : Addr) (h : BlockHeap) : BlockHeap := h.putHeader p (h.headerAt p).clearMark

/-- What a sweep of the listed blocks reports. -/
def tally (h : BlockHeap) (bs : List Extent) : Sweep where
  freedBlocks := (bs.filter fun b => !(h.headerAt b.start).mark).length
  freedBytes := Extent.totalSize (bs.filter fun b => !(h.headerAt b.start).mark)
  liveBlocks := (bs.filter fun b => (h.headerAt b.start).mark).length

/-- The header that a sweep leaves behind. -/
def sweptHeader (hd : Header) : Header := if hd.mark then hd.clearMark else hd.released

/-- The addresses of the headers of the listed blocks. -/
def headerWordsOf (h : BlockHeap) (bs : List Extent) : Set Addr :=
  {i | ∃ b ∈ bs, i ∈ h.layout.headerWord b.start}

/-- `h'` is `h` with the listed blocks swept, whatever their headers say. -/
structure Treated (bs : List Extent) (h h' : BlockHeap) : Prop where
  mapped : h'.Mapped
  layout_eq : h'.layout = h.layout
  /-- The blocks that have gone are those of the list without a mark. All others are as large as
  they were. -/
  blocks_eq : h'.map.blocks = h.map.blocks.filter fun b => b ∉ bs ∨ (h.headerAt b.start).mark
  /-- The headers of the list keep tag and size. Where there was a mark only the mark has been
  cleared, and where there was none the alloc bit. -/
  headerAt_of_mem : ∀ b ∈ bs, h'.headerAt b.start = sweptHeader (h.headerAt b.start)
  /-- No other byte of the memory has changed. -/
  agreeOn : h.memory.AgreeOn (h.headerWordsOf bs)ᶜ h'.memory

/-- `h'` is `h` with the listed blocks swept: those with a mark have lost it, those without are no
longer there. Other headers, and the memory outside the table, have not changed. -/
structure Swept (bs : List Extent) (h h' : BlockHeap) : Prop where
  subset : bs ⊆ h.map.blocks
  valid : h'.Valid
  layout_eq : h'.layout = h.layout
  blocks_eq : h'.map.blocks =
    h.map.blocks.filter fun b => b ∉ bs ∨ (h.headerAt b.start).mark
  headerAt_of_mem : ∀ b ∈ bs, h'.headerAt b.start = sweptHeader (h.headerAt b.start)
  headerAt_of_ne : ∀ q, h.layout.isBoundary q → (∀ b ∈ bs, b.start ≠ q) →
    h'.headerAt q = h.headerAt q
  agreeOn : h.memory.AgreeOn h.layout.tableᶜ h'.memory

variable {h h' : BlockHeap} {p q : Addr} {b : Extent} {bs cs : List Extent}

/-- What a sweep reports depends on the headers of the listed blocks only. -/
theorem tally_congr (heq : ∀ b ∈ bs, h'.headerAt b.start = h.headerAt b.start) :
    h'.tally bs = h.tally bs := by
  have hmarked : (bs.filter fun b => (h'.headerAt b.start).mark) =
      bs.filter fun b => (h.headerAt b.start).mark :=
    List.filter_congr fun b hb => by rw [heq b hb]
  have hunmarked : (bs.filter fun b => !(h'.headerAt b.start).mark) =
      bs.filter fun b => !(h.headerAt b.start).mark :=
    List.filter_congr fun b hb => by rw [heq b hb]
  rw [tally, hmarked, hunmarked, tally]

theorem tally_cons_of_mark (hb : (h.headerAt b.start).mark) :
    h.tally (b :: bs) = (h.tally bs).keep := by
  simp [tally, Sweep.keep, hb]

theorem tally_cons_of_not_mark (hb : (h.headerAt b.start).mark = false) :
    h.tally (b :: bs) = (h.tally bs).free b.size := by
  simp [tally, Sweep.free, hb, Extent.totalSize, Nat.add_comm]

/-! ### One block -/

theorem ask_readHeader_eq (hm : h.Mapped) (hp : h.owns p) :
    Action.ask (fun h : BlockHeap => h.readHeader p) h = .ok (h.headerAt p) h :=
  Action.ask_of_eq_ok (readHeader_eq hm.layout (hm.boundary hp))

/-- A block in use can be given back. -/
theorem free_eq (hm : h.Mapped) (hp : h.owns p) : free p h = .ok () (h.freed p) := by
  have hread := ask_readHeader_eq hm hp
  have hwrite := writeHeader_eq hm.layout (h.headerAt p).released (hm.boundary hp)
  simp only [free, Action.bind_apply, requireOwned_eq hp, hread, hwrite,
    Action.modify_apply, freed, putHeader_map]

/-- What is not in use cannot be given back, and the attempt changes nothing. -/
theorem free_of_not_owns (hp : ¬ h.owns p) : free p h = .error (.notAllocated p) h := by
  simp only [free, Action.bind_apply, requireOwned_of_not_owns hp]

/-- To give a block back is refused without a change unless a block starts there. -/
theorem free_cases (hm : h.Mapped) (p : Addr) :
    (∃ e, free p h = .error e h) ∨ h.owns p ∧ free p h = .ok () (h.freed p) := by
  by_cases hp : h.owns p
  · exact .inr ⟨hp, free_eq hm hp⟩
  · exact .inl ⟨_, free_of_not_owns hp⟩

/-- The header of the block keeps tag and size, and loses both bits. -/
theorem headerAt_freed_self (hm : h.Mapped) (hp : h.owns p) :
    (h.freed p).headerAt p = (h.headerAt p).released :=
  -- The map has no part in the headers.
  headerAt_putHeader_self hm.layout (hm.boundary hp)

/-- The headers of the other granules stay as they are. -/
theorem headerAt_freed_of_ne (hm : h.Mapped) (hp : h.owns p) (hq : h.layout.isBoundary q)
    (hqp : q ≠ p) : (h.freed p).headerAt q = h.headerAt q :=
  headerAt_putHeader_of_ne (h.headerAt p).released (hm.boundary hp) hq hqp

theorem freed_layout (h : BlockHeap) (p : Addr) : (h.freed p).layout = h.layout := by
  rw [freed, putHeader_layout]

theorem freed_map (h : BlockHeap) (p : Addr) : (h.freed p).map = h.map.release p := rfl

/-- The other blocks stay in use. -/
theorem blocks_freed (hm : h.Mapped) (hp : h.owns p) :
    (h.freed p).map.blocks = h.map.blocks.filter (·.start ≠ p) := hm.map.blocks_release hp

/-- To give a block back changes its header word and nothing else in the memory. -/
theorem agreeOn_freed (h : BlockHeap) (p : Addr) :
    h.memory.AgreeOn (h.layout.headerWord p)ᶜ (h.freed p).memory :=
  h.agreeOn_compl_headerWord_putHeader p (h.headerAt p).released

/-- Besides the block that has been given back, the same are in use as before. -/
theorem owns_freed_iff (hm : h.Mapped) (hp : h.owns p) :
    (h.freed p).owns q ↔ h.owns q ∧ q ≠ p := by
  rw [owns_iff, freed_map, hm.map.blocks_release hp, owns_iff]
  simp only [List.mem_filter, decide_eq_true_eq]
  constructor
  · rintro ⟨b, ⟨hb, hne⟩, rfl⟩
    exact ⟨⟨b, hb, rfl⟩, hne⟩
  · rintro ⟨⟨b, hb, rfl⟩, hne⟩
    exact ⟨b, ⟨hb, hne⟩, rfl⟩

theorem mapped_freed (hm : h.Mapped) (hp : h.owns p) : (h.freed p).Mapped := by
  constructor
  · rw [freed, putHeader_memory_size, putHeader_layout]
    exact hm.layout
  · rw [freed_map, freed_layout]
    exact hm.map.release hp

/-- What holds of the blocks and their headers, holds of those that stay. -/
theorem each_freed {Q : Extent → Header → Prop} (hm : h.Mapped) (hp : h.owns p)
    (hall : h.Each Q) : (h.freed p).Each Q := by
  intro b hb
  rw [blocks_freed hm hp] at hb
  obtain ⟨hb, hne⟩ := List.mem_filter.mp hb
  rw [headerAt_freed_of_ne hm hp (hm.map.block_bounds hb).1 (of_decide_eq_true hne)]
  exact hall b hb

/-- Giving a block back keeps a heap valid. -/
theorem valid_freed (hv : h.Valid) (hp : h.owns p) : (h.freed p).Valid := by
  obtain ⟨hlayout, hmap⟩ := mapped_freed hv.mapped hp
  refine ⟨?_, hlayout, hmap, ?_, ?_⟩
  · rw [freed, putHeader_memory_size]
    exact hv.memory_le
  · exact each_freed (Q := fun _ hd => hd.alloc) hv.mapped hp hv.alloc
  · exact each_freed (Q := fun b hd => hd.size ≤ b.size) hv.mapped hp hv.size_le

/-- A block is told from the others by where it starts. -/
theorem blocks_filter_singleton (hm : h.Mapped) (hb : b ∈ h.map.blocks) :
    (h.map.blocks.filter fun c => c.start ≠ b.start) = h.map.blocks.filter fun c => c ∉ [b] := by
  refine List.filter_congr fun c hc => ?_
  have hiff : c = b ↔ c.start = b.start := by
    refine ⟨congrArg _, fun heq => ?_⟩
    exact hm.map.eq_of_start_eq (BlockMap.mem_blocks.mp hc).1 (BlockMap.mem_blocks.mp hb).1 heq
  simp [hiff]

theorem headerWordsOf_singleton (h : BlockHeap) (b : Extent) :
    h.headerWordsOf [b] = h.layout.headerWord b.start := by
  ext i
  simp [headerWordsOf]

/-- Taking the mark from a block treats it. -/
theorem treated_kept (hm : h.Mapped) (hb : b ∈ h.map.blocks) (hmark : (h.headerAt b.start).mark) :
    Treated [b] h (h.kept b.start) := by
  have hboundary := hm.boundary (owns_iff.mpr ⟨b, hb, rfl⟩)
  refine ⟨hm.putHeader _ _, putHeader_layout .., ?_, ?_, ?_⟩
  · -- No block goes: the only one in the list has a mark.
    rw [kept, putHeader_map]
    refine (List.filter_eq_self.mpr fun c hc => ?_).symm
    by_cases hcb : c = b
    · simp [hcb, hmark]
    · simp [hcb]
  · intro c hc
    obtain rfl := List.mem_singleton.mp hc
    rw [kept, headerAt_putHeader_self hm.layout hboundary, sweptHeader, if_pos hmark]
  · rw [headerWordsOf_singleton]
    exact agreeOn_compl_headerWord_putHeader ..

/-- Giving a block without a mark back treats it. -/
theorem treated_freed (hm : h.Mapped) (hb : b ∈ h.map.blocks)
    (hmark : (h.headerAt b.start).mark = false) : Treated [b] h (h.freed b.start) := by
  have howns : h.owns b.start := owns_iff.mpr ⟨b, hb, rfl⟩
  refine ⟨mapped_freed hm howns, freed_layout .., ?_, ?_, ?_⟩
  · -- The only block in the list has no mark, so it is the one that goes.
    rw [blocks_freed hm howns, blocks_filter_singleton hm hb]
    refine List.filter_congr fun c _ => ?_
    by_cases hcb : c = b
    · simp [hcb, hmark]
    · simp [hcb]
  · intro c hc
    obtain rfl := List.mem_singleton.mp hc
    rw [headerAt_freed_self hm howns, sweptHeader, if_neg (by simp [hmark])]
  · rw [headerWordsOf_singleton]
    exact agreeOn_freed ..

/-! ### Lists of blocks -/

theorem treated_nil (hm : h.Mapped) : Treated [] h h where
  mapped := hm
  layout_eq := rfl
  blocks_eq := (List.filter_eq_self.mpr fun _ _ => by simp).symm
  headerAt_of_mem _ hb := absurd hb List.not_mem_nil
  agreeOn := .refl _ _

namespace Treated

variable (ht : Treated bs h h') (hm : h.Mapped) (hsub : bs ⊆ h.map.blocks)

include ht hm hsub

/-- A treatment does not touch the headers of other granules. -/
theorem headerAt_of_ne (hq : h.layout.isBoundary q) (hne : ∀ b ∈ bs, b.start ≠ q) :
    h'.headerAt q = h.headerAt q := by
  refine headerAt_congr_word ht.layout_eq (ht.agreeOn.mono ?_)
  rintro i hi ⟨b, hb, hi'⟩
  -- Header words of different granules lie apart.
  have hapart := Layout.headerAddr_apart (hm.map.block_bounds (hsub hb)).1 hq (hne b hb)
  simp only [Layout.headerWord, Set.mem_Ico] at hi hi'
  lia

/-- A block that is still there has the header that it had, but for the mark. -/
theorem headerAt_of_survives (hb : b ∈ h'.map.blocks) :
    h'.headerAt b.start = h.headerAt b.start ∨
      h'.headerAt b.start = (h.headerAt b.start).clearMark := by
  rw [ht.blocks_eq, List.mem_filter, decide_eq_true_eq] at hb
  obtain ⟨hb, hkept⟩ := hb
  by_cases hbs : b ∈ bs
  · apply Or.inr
    rw [ht.headerAt_of_mem b hbs, sweptHeader, if_pos (hkept.resolve_left (not_not.mpr hbs))]
  · refine .inl (ht.headerAt_of_ne hm hsub (hm.map.block_bounds hb).1 fun c hc hstart => hbs ?_)
    obtain rfl := hm.map.eq_of_start_eq (BlockMap.mem_blocks.mp (hsub hc)).1
      (BlockMap.mem_blocks.mp hb).1 hstart
    exact hc

/-- A treatment of some blocks followed by one of others treats both. -/
theorem append {h'' : BlockHeap} (ht' : Treated cs h' h'') (hcs : cs ⊆ h.map.blocks)
    (hne : ∀ b ∈ bs, ∀ c ∈ cs, c.start ≠ b.start) : Treated (bs ++ cs) h h'' := by
  have hcs' : cs ⊆ h'.map.blocks := by
    intro c hc
    rw [ht.blocks_eq, List.mem_filter, decide_eq_true_eq]
    exact ⟨hcs hc, .inl fun hbs => hne c hbs c hc rfl⟩
  -- Neither treatment has touched the headers of the other's blocks.
  have hsame : ∀ c ∈ cs, h'.headerAt c.start = h.headerAt c.start := fun c hc =>
    ht.headerAt_of_ne hm hsub (hm.map.block_bounds (hcs hc)).1 fun b hb => (hne b hb c hc).symm
  have hsame' : ∀ b ∈ bs, h''.headerAt b.start = h'.headerAt b.start := fun b hb =>
    ht'.headerAt_of_ne ht.mapped hcs' (ht.layout_eq ▸ (hm.map.block_bounds (hsub hb)).1)
      fun c hc => hne b hb c hc
  refine ⟨ht'.mapped, ht'.layout_eq.trans ht.layout_eq, ?_, ?_, ?_⟩
  · rw [ht'.blocks_eq, ht.blocks_eq, List.filter_filter]
    refine List.filter_congr fun b _ => ?_
    by_cases hb : b ∈ cs
    · -- The second treatment decides by a mark that the first one has left alone.
      have hnb : b ∉ bs := fun hb' => hne b hb' b hb rfl
      simp [hb, hnb, hsame b hb]
    · simp [hb]
  · intro b hb
    rcases List.mem_append.mp hb with hb | hb
    · rw [hsame' b hb, ht.headerAt_of_mem b hb]
    · rw [ht'.headerAt_of_mem b hb, hsame b hb]
  · refine (ht.agreeOn.mono ?_).trans (ht'.agreeOn.mono ?_)
    · rintro i hi ⟨b, hb, hi'⟩
      exact hi ⟨b, List.mem_append_left _ hb, hi'⟩
    · rintro i hi ⟨c, hc, hi'⟩
      exact hi ⟨c, List.mem_append_right _ hc, ht.layout_eq ▸ hi'⟩

omit hm in
/-- What is left of a valid heap is valid. -/
theorem valid (hv : h.Valid) : h'.Valid := by
  have hheader : ∀ b ∈ h'.map.blocks, b ∈ h.map.blocks ∧
      (h'.headerAt b.start).alloc = (h.headerAt b.start).alloc ∧
        (h'.headerAt b.start).size = (h.headerAt b.start).size := by
    intro b hb
    refine ⟨List.mem_of_mem_filter (ht.blocks_eq ▸ hb), ?_⟩
    rcases ht.headerAt_of_survives hv.mapped hsub hb with heq | heq
    · rw [heq]
      exact ⟨rfl, rfl⟩
    · rw [heq]
      exact ⟨rfl, rfl⟩
  refine ⟨ht.agreeOn.size_eq ▸ hv.memory_le, ht.mapped.layout, ht.mapped.map, ?_, ?_⟩
  · intro b hb
    obtain ⟨hb, halloc, -⟩ := hheader b hb
    rw [halloc]
    exact hv.alloc b hb
  · intro b hb
    obtain ⟨hb, -, hsize⟩ := hheader b hb
    rw [hsize]
    exact hv.size_le b hb

omit hm in
/-- On a valid heap the treated blocks have been swept. -/
theorem swept (hv : h.Valid) : Swept bs h h' where
  subset := hsub
  valid := ht.valid hsub hv
  layout_eq := ht.layout_eq
  blocks_eq := ht.blocks_eq
  headerAt_of_mem := ht.headerAt_of_mem
  headerAt_of_ne _ hq hne := ht.headerAt_of_ne hv.mapped hsub hq hne
  agreeOn := by
    refine ht.agreeOn.mono (Set.compl_subset_compl.mpr ?_)
    rintro i ⟨b, hb, hi⟩
    exact hv.layout.headerAddr_subset_table (hv.map.block_bounds (hsub hb)).1 hi

end Treated

/-- When all blocks have been treated, those are in use that had a mark. -/
theorem Treated.owns_eq (ht : Treated h.map.blocks h h') (p : Addr) :
    h'.owns p = (h.owns p && (h.headerAt p).mark) := by
  rw [Bool.eq_iff_iff, Bool.and_eq_true, owns_iff, owns_iff, ht.blocks_eq]
  constructor
  · rintro ⟨b, hb, rfl⟩
    obtain ⟨hb, hkept⟩ := List.mem_filter.mp hb
    exact ⟨⟨b, hb, rfl⟩, by simpa [hb] using hkept⟩
  · rintro ⟨⟨b, hb, rfl⟩, hmark⟩
    exact ⟨b, List.mem_filter.mpr ⟨hb, by simp [hmark]⟩, rfl⟩

/-- A sweep of blocks with allocated headers is not refused. -/
theorem sweepBlocks_eq (hm : h.Mapped) (hsub : bs ⊆ h.map.blocks)
    (hne : bs.Pairwise fun b c => b.start ≠ c.start)
    (halloc : ∀ b ∈ bs, (h.headerAt b.start).alloc) :
    ∃ h', sweepBlocks bs h = .ok (h.tally bs) h' ∧ Treated bs h h' := by
  induction bs generalizing h with
  | nil => exact ⟨h, rfl, treated_nil hm⟩
  | cons b rest ih =>
    obtain ⟨hb, hrest⟩ := List.cons_subset.mp hsub
    obtain ⟨hbne, hrestne⟩ := List.pairwise_cons.mp hne
    obtain ⟨hballoc, hrestalloc⟩ := List.forall_mem_cons.mp halloc
    have howns : h.owns b.start := owns_iff.mpr ⟨b, hb, rfl⟩
    have hbsub : [b] ⊆ h.map.blocks := List.cons_subset.mpr ⟨hb, List.nil_subset _⟩
    have hread := ask_readHeader_eq hm howns
    -- Whatever becomes of the first block, the others are swept from a heap that has their headers.
    have hnext : ∀ h₁, Treated [b] h h₁ → ∃ h', sweepBlocks rest h₁ = .ok (h.tally rest) h' ∧
        Treated (b :: rest) h h' := by
      intro h₁ h₁b
      have hsame : ∀ c ∈ rest, h₁.headerAt c.start = h.headerAt c.start := fun c hc =>
        h₁b.headerAt_of_ne hm hbsub (hm.map.block_bounds (hrest hc)).1 fun d hd =>
          List.mem_singleton.mp hd ▸ hbne c hc
      have hrest₁ : rest ⊆ h₁.map.blocks := by
        intro c hc
        have hcb : c ≠ b := fun heq => hbne c hc (congrArg Extent.start heq.symm)
        rw [h₁b.blocks_eq]
        exact List.mem_filter.mpr ⟨hrest hc, by simp [hcb]⟩
      have halloc₁ : ∀ c ∈ rest, (h₁.headerAt c.start).alloc := fun c hc => by
        rw [hsame c hc]
        exact hrestalloc c hc
      obtain ⟨h', hsweep, hrestt⟩ := ih h₁b.mapped hrest₁ hrestne halloc₁
      rw [tally_congr hsame] at hsweep
      refine ⟨h', hsweep, h₁b.append hm hbsub hrestt hrest fun d hd c hc => ?_⟩
      exact List.mem_singleton.mp hd ▸ (hbne c hc).symm
    cases hmark : (h.headerAt b.start).mark with
    | true =>
      obtain ⟨h', hsweep, htreated⟩ := hnext _ (treated_kept hm hb hmark)
      have hwrite : writeHeader b.start (h.headerAt b.start).clearMark h =
          .ok () (h.kept b.start) := writeHeader_eq hm.layout _ (hm.boundary howns)
      refine ⟨h', ?_, htreated⟩
      simp only [sweepBlocks, Action.bind_apply, hread, hballoc, Action.require_true, hmark,
        if_true, hwrite, hsweep, Action.pure_apply, tally_cons_of_mark hmark]
    | false =>
      obtain ⟨h', hsweep, htreated⟩ := hnext _ (treated_freed hm hb hmark)
      refine ⟨h', ?_, htreated⟩
      simp only [sweepBlocks, Action.bind_apply, hread, hballoc, Action.require_true, hmark,
        Bool.false_eq_true, if_false, free_eq hm howns, hsweep, Action.pure_apply,
        tally_cons_of_not_mark hmark]

/-- If a sweep comes to the end of the first part of a list and not to the end of the second, it
has swept the first. -/
theorem sweepBlocks_append_of_eq_error {h'' : BlockHeap} {report : Sweep} {e : Refusal}
    (hfirst : sweepBlocks bs h = .ok report h') (hsecond : sweepBlocks cs h' = .error e h'') :
    sweepBlocks (bs ++ cs) h = .error e h'' := by
  induction bs generalizing h report with
  | nil =>
    obtain ⟨-, rfl⟩ := EStateM.Result.ok.inj hfirst
    exact hsecond
  | cons b rest ih =>
    simp only [sweepBlocks, Action.bind_eq_ok_iff] at hfirst
    obtain ⟨hd, _, hread, _, _, hrequire, hrest⟩ := hfirst
    rw [List.cons_append, sweepBlocks, Action.bind_of_eq_ok hread, Action.bind_of_eq_ok hrequire]
    -- What is done to the first block has succeeded, so the others decide.
    split_ifs at hrest ⊢ with hmark
    · obtain ⟨_, _, hwrite, _, _, hothers, hend⟩ := by simpa only [Action.bind_eq_ok_iff] using hrest
      obtain ⟨-, rfl⟩ := EStateM.Result.ok.inj hend
      rw [Action.bind_of_eq_ok hwrite, Action.bind_of_eq_error (ih hothers)]
    · obtain ⟨_, _, hfree, _, _, hothers, hend⟩ := by simpa only [Action.bind_eq_ok_iff] using hrest
      obtain ⟨-, rfl⟩ := EStateM.Result.ok.inj hend
      rw [Action.bind_of_eq_ok hfree, Action.bind_of_eq_error (ih hothers)]

/-- The lowest block whose header calls it free ends a sweep, which has treated the blocks below it
then. Without such a block all are treated. -/
theorem sweep_cases (hm : h.Mapped) :
    (∀ b ∈ h.map.blocks, (h.headerAt b.start).alloc) ∧
        (∃ h', sweep h = .ok (h.tally h.map.blocks) h' ∧ Treated h.map.blocks h h') ∨
      ∃ c ∈ h.map.blocks, (h.headerAt c.start).alloc = false ∧
        (∀ b ∈ h.map.blocks, b.start < c.start → (h.headerAt b.start).alloc) ∧
        ∃ h', sweep h = .error (.corruptHeader c.start .freeInUse) h' ∧
          Treated (h.map.blocks.filter fun b => b.start < c.start) h h' := by
  have hne := hm.map.pairwise_blocks_start_ne
  cases hfind : h.map.blocks.find? fun b => !(h.headerAt b.start).alloc with
  | none =>
    have halloc : ∀ b ∈ h.map.blocks, (h.headerAt b.start).alloc := by
      simpa using List.find?_eq_none.mp hfind
    exact .inl ⟨halloc, sweepBlocks_eq hm (List.Subset.refl _) hne halloc⟩
  | some c =>
    obtain ⟨hc, pre, post, hsplit, hpre⟩ := List.find?_eq_some_iff_append.mp hfind
    have hc : (h.headerAt c.start).alloc = false := by simpa using hc
    have hpre : ∀ b ∈ pre, (h.headerAt b.start).alloc := by simpa using hpre
    have hcmem : c ∈ h.map.blocks := List.mem_of_find?_eq_some hfind
    obtain rfl := hm.map.filter_start_lt_blocks hsplit
    have hsub : (h.map.blocks.filter fun b => b.start < c.start) ⊆ h.map.blocks :=
      List.filter_subset_self _
    have hbelow : ∀ b ∈ h.map.blocks.filter fun b => b.start < c.start, b.start < c.start :=
      fun b hb => of_decide_eq_true (List.mem_filter.mp hb).2
    obtain ⟨h', hsweep, htreated⟩ := sweepBlocks_eq hm hsub (hne.filter _) hpre
    -- The block is still there when its turn comes, with the header that it had.
    have hheader : h'.headerAt c.start = h.headerAt c.start :=
      htreated.headerAt_of_ne hm hsub (hm.map.block_bounds hcmem).1 fun b hb => (hbelow b hb).ne
    have howns : h'.owns c.start := by
      refine owns_iff.mpr ⟨c, ?_, rfl⟩
      rw [htreated.blocks_eq, List.mem_filter, decide_eq_true_eq]
      exact ⟨hcmem, .inl fun hmem => (hbelow c hmem).false⟩
    have hend : sweepBlocks (c :: post) h' = .error (.corruptHeader c.start .freeInUse) h' := by
      simp only [sweepBlocks, Action.bind_apply, ask_readHeader_eq htreated.mapped howns, hheader,
        hc, Action.require_false]
    refine .inr ⟨c, hcmem, hc, fun b hb hlt => ?_, h', ?_, htreated⟩
    · exact hpre b (List.mem_filter.mpr ⟨hb, decide_eq_true hlt⟩)
    · show sweepBlocks h.map.blocks h = _
      rw [hsplit]
      exact sweepBlocks_append_of_eq_error hsweep hend

/-- A sweep that is not refused has treated all blocks, and found an allocated header at each. -/
theorem treated_of_eq_ok {report : Sweep} (hm : h.Mapped) (hok : sweep h = .ok report h') :
    (∀ b ∈ h.map.blocks, (h.headerAt b.start).alloc) ∧ report = h.tally h.map.blocks ∧
      Treated h.map.blocks h h' := by
  rcases sweep_cases hm with ⟨halloc, h'', hok', htreated⟩ | ⟨c, -, -, -, h'', herror, -⟩
  · obtain ⟨rfl, rfl⟩ := EStateM.Result.ok.inj (hok.symm.trans hok')
    exact ⟨halloc, rfl, htreated⟩
  · rw [hok] at herror
    contradiction

/-- A sweep of a valid heap is not refused: it sweeps all blocks. -/
theorem sweep_eq (hv : h.Valid) :
    ∃ h', sweep h = .ok (h.tally h.map.blocks) h' ∧ Swept h.map.blocks h h' := by
  have hsub := List.Subset.refl h.map.blocks
  obtain ⟨h', hsweep, htreated⟩ :=
    sweepBlocks_eq hv.mapped hsub hv.map.pairwise_blocks_start_ne hv.alloc
  exact ⟨h', hsweep, htreated.swept hsub hv⟩

end MarkSweep.BlockHeap
