import Mathlib.Order.CompletePartialOrder
import Mathlib.Order.Interval.Set.Disjoint
import MarkSweep.Proofs.BlockHeap.History

/-!
# What requests leave alone

`BlockHeap.Request.touched` are the addresses that a request may write: header words of the blocks
that it is about, and the bytes of payloads that it clears. All other bytes stay
(`Request.agreeOn_touched`).

Bytes that lie outside the table and where nothing is allocated (`BlockHeap.Unavailable`) are
therefore only changed by a program that clears them or writes them itself. Two kinds of bytes are
such, in every state: those of a block in use, and those outside region and table. What a whole run
leaves alone follows from that (`BlockHeap.Undisturbed`). None of it depends on the headers, so a
program may put there what it likes.
-/

namespace MarkSweep.BlockHeap

namespace Request

/-- The addresses that the request may write. -/
def touched (h : BlockHeap) : Request → Set Addr
  | alloc size => {i | ∃ b ∈ (alloc size).handsOut h, i ∈ h.layout.headerWord b.addr}
  | allocate tag size => {i | ∃ b ∈ (allocate tag size).handsOut h,
      i ∈ h.layout.headerWord b.addr ∪ Set.Ico b.addr (b.addr + size)}
  | free p => {i | h.owns p ∧ i ∈ h.layout.headerWord p}
  | setHeader p _ => {i | h.owns p ∧ i ∈ h.layout.headerWord p}
  | clearPayload p len => {i | h.owns p ∧ i ∈ Set.Ico p (p + len)}
  | sweep => h.headerWords
  | write a bytes => Set.Ico a (a + bytes.length)

/-- The program clears no more than a block has, and does not write bytes of `S`. -/
def Spares (S : Set Addr) (h : BlockHeap) : Request → Prop
  | clearPayload p len => ∀ b ∈ h.map.blocks, b.start = p → len ≤ b.size
  | write a bytes => Disjoint (Set.Ico a (a + bytes.length)) S
  | _ => True

/-- The request spares `S` and leaves the block in use. It does not clear bytes of `S` by way of the
block either. -/
def Preserves (b : Extent) (S : Set Addr) (h : BlockHeap) (request : Request) : Prop :=
  b ∈ (request.run.after h).map.blocks ∧ request.Spares S h ∧
    ∀ len, request = .clearPayload b.start len → Disjoint (Set.Ico b.start (b.start + len)) S

end Request

/-- What becomes of a heap by requests that are admitted when they are made. -/
def Continues (admits : BlockHeap → Request → Prop) : BlockHeap → BlockHeap → Prop :=
  Relation.ReflTransGen fun h h' => ∃ request, admits h request ∧ h' = request.run.after h

/-- What requests leave alone, one of them and many. -/
structure Undisturbed (h : BlockHeap) : Prop where
  /-- A request changes no byte but those that it may write. -/
  step : ∀ request : Request,
    h.memory.AgreeOn (request.touched h)ᶜ (request.run.after h).memory
  /-- The bytes of a block stay the same as long as it is in use and the program does not clear or
  write them itself. -/
  block : ∀ b ∈ h.map.blocks, ∀ S ⊆ Set.Ico b.start b.stop, ∀ h',
    Continues (Request.Preserves b S) h h' → h.memory.AgreeOn S h'.memory
  /-- The bytes outside region and table stay the same if the program does not write them. -/
  outside : ∀ S ⊆ (h.layout.region ∪ h.layout.table)ᶜ, ∀ h',
    Continues (Request.Spares S) h h' → h.memory.AgreeOn S h'.memory

/-- No header stands at an address of `S`, and no block can be taken into use there. -/
structure Unavailable (S : Set Addr) (h : BlockHeap) : Prop where
  table : Disjoint h.layout.table S
  fit : ∀ p size, h.map.firstFit? h.layout.stop (h.layout.footprint size) = some p →
    Disjoint (Set.Ico p (p + h.layout.footprint size)) S

variable {S : Set Addr} {h h' : BlockHeap} {p : Addr} {size : Nat} {b : Extent}

/-! ### One request -/

/-- After any request map and layout fit each other as before. -/
theorem Request.mapped (request : Request) (hm : h.Mapped) : (request.run.after h).Mapped := by
  refine request.invariant (s := ⟨h, []⟩) (P := fun s => s.heap.Mapped) (fun _ => Set.univ) hm
    (Set.subset_univ _) (Set.subset_univ _) (fun s t hs hc => hc.mapped hs) hm

/-- No request changes the layout. -/
theorem Request.layout_eq (request : Request) (hm : h.Mapped) :
    (request.run.after h).layout = h.layout := by
  refine request.invariant (s := ⟨h, []⟩) (P := fun s => s.heap.layout = h.layout)
    (fun _ => Set.univ) hm (Set.subset_univ _) (Set.subset_univ _) (fun s t hs hc => ?_) rfl
  exact hc.layout_eq.trans hs

/-- What is handed out is the first fit. -/
theorem Request.firstFit_of_alloc {c : Block} (hm : h.Mapped)
    (hc : c ∈ (Request.alloc size).handsOut h) :
    h.map.firstFit? h.layout.stop (h.layout.footprint size) = some c.addr := by
  have hout := (Request.alloc size).outcome hm
  rw [hc] at hout
  generalize (Request.alloc size).run.after h = h' at hout
  cases hout with
  | alloc hfit => exact hfit

/-- A tagged object is handed out at the first fit, too. -/
theorem Request.firstFit_of_allocate {tag : Tag} {c : Block} (hm : h.Mapped)
    (hc : c ∈ (Request.allocate tag size).handsOut h) :
    h.map.firstFit? h.layout.stop (h.layout.footprint size) = some c.addr := by
  have hout := (Request.allocate tag size).outcome hm
  rw [hc] at hout
  generalize (Request.allocate tag size).run.after h = h' at hout
  cases hout with
  | allocate hfit => exact hfit

/-- A request writes what it may write and nothing else. -/
theorem Request.agreeOn_touched (request : Request) (hm : h.Mapped) :
    h.memory.AgreeOn (request.touched h)ᶜ (request.run.after h).memory := by
  have hout := request.outcome hm
  generalize hanswer : request.handsOut h = answer, request.run.after h = h' at hout ⊢
  cases hout with
  | unchanged => exact .refl _ _
  | alloc _ =>
    refine (agreeOn_withBlock ..).mono (Set.compl_subset_compl.mpr fun i hi => ?_)
    exact ⟨_, hanswer, hi⟩
  | allocate _ =>
    refine (agreeOn_withObject ..).mono (Set.compl_subset_compl.mpr fun i hi => ?_)
    exact ⟨_, hanswer, hi⟩
  | free hp => exact (agreeOn_freed ..).mono (Set.compl_subset_compl.mpr fun i hi => ⟨hp, hi⟩)
  | setHeader hp _ =>
    refine (agreeOn_compl_headerWord_putHeader ..).mono ?_
    exact Set.compl_subset_compl.mpr fun i hi => ⟨hp, hi⟩
  | clearPayload hp =>
    exact (agreeOn_zeroed ..).mono (Set.compl_subset_compl.mpr fun i hi => ⟨hp, hi⟩)
  | sweep hupkept => exact hupkept.agreeOn hm
  | write => exact h.memory.agreeOn_overwrite _ _

/-! ### Bytes that are unavailable -/

theorem range_subset_region (hm : h.Mapped) (hb : b ∈ h.map.blocks) :
    Set.Ico b.start b.stop ⊆ h.layout.region := by
  obtain ⟨hstart, hstop, -, -⟩ := hm.map.block_bounds hb
  exact Set.Ico_subset_Ico (Layout.isBoundary_iff.mp hstart).1 hstop

theorem disjoint_table_region (hm : h.Mapped) : Disjoint h.layout.table h.layout.region :=
  Set.disjoint_right.mpr fun _ hi => hm.layout.region_subset_compl_table hi

/-- The bytes of a block in use are unavailable. -/
theorem unavailable_of_mem_blocks (hm : h.Mapped) (hb : b ∈ h.map.blocks)
    (hS : S ⊆ Set.Ico b.start b.stop) : Unavailable S h where
  table := Set.disjoint_of_subset_right (hS.trans (range_subset_region hm hb))
    (disjoint_table_region hm)
  fit p size hfit := by
    refine Set.disjoint_of_subset_right hS ?_
    have hapart := hm.map.firstFit?_apart (hm.layout.footprint_pos size)
      (Layout.Valid.dvd_footprint size) hfit hb
    rw [Set.Ico_disjoint_Ico]
    lia

/-- So are the bytes outside region and table. -/
theorem unavailable_of_outside (hm : h.Mapped)
    (hS : S ⊆ (h.layout.region ∪ h.layout.table)ᶜ) : Unavailable S h where
  table := Set.disjoint_right.mpr fun _ hi htable => hS hi (.inr htable)
  fit p size hfit := by
    refine Set.disjoint_right.mpr fun i hi hnew => hS hi (.inl ?_)
    obtain ⟨hstart, hstop⟩ := firstFit_bounds hm hfit
    have hle := (Layout.isBoundary_iff.mp hstart).1
    exact ⟨hle.trans hnew.1, hnew.2.trans_le hstop⟩

namespace Unavailable

variable (hS : Unavailable S h) (hm : h.Mapped)

include hS hm

/-- No header word has an unavailable byte. -/
theorem disjoint_headerWord (hp : h.layout.isBoundary p) : Disjoint (h.layout.headerWord p) S :=
  Set.disjoint_of_subset_left (hm.layout.headerAddr_subset_table hp) hS.table

/-- Neither the header nor the payload of a new object has an unavailable byte. -/
theorem disjoint_object
    (hfit : h.map.firstFit? h.layout.stop (h.layout.footprint size) = some p) :
    Disjoint (h.layout.headerWord p ∪ Set.Ico p (p + size)) S := by
  refine Set.disjoint_union_left.mpr ⟨?_, ?_⟩
  · exact hS.disjoint_headerWord hm (firstFit_bounds hm hfit).1
  · have hle := hm.layout.size_le_footprint size
    refine Set.disjoint_of_subset_left (Set.Ico_subset_Ico_right ?_) (hS.fit p size hfit)
    exact Nat.add_le_add_left hle p

/-- The headers of the blocks in use have no unavailable byte. -/
theorem disjoint_headerWords : Disjoint h.headerWords S :=
  Set.disjoint_of_subset_left (headerWords_subset_table hm) hS.table

/-- Upkeep leaves unavailable bytes alone. -/
theorem agreeOn_upkept (hu : Upkept h h') : h.memory.AgreeOn S h'.memory :=
  (hu.agreeOn_compl_table hm).mono (Set.subset_compl_iff_disjoint_left.mpr hS.table)

/-- So does a new object. -/
theorem agreeOn_withObject {tag : Tag}
    (hfit : h.map.firstFit? h.layout.stop (h.layout.footprint size) = some p) :
    h.memory.AgreeOn S (h.withObject tag p size).memory := by
  refine (BlockHeap.agreeOn_withObject h tag p size).mono ?_
  exact Set.subset_compl_iff_disjoint_left.mpr (hS.disjoint_object hm hfit)

/-- Of unavailable bytes a request may write only those that the program clears or writes. -/
theorem disjoint_touched {request : Request} (hspares : request.Spares S h)
    (hclear : ∀ p len, request = .clearPayload p len → h.owns p →
      Disjoint (Set.Ico p (p + len)) S) : Disjoint (request.touched h) S := by
  cases request with
  | alloc size =>
    rw [Set.disjoint_left]
    rintro i ⟨c, hc, hi⟩
    have hp := (firstFit_bounds hm (Request.firstFit_of_alloc hm hc)).1
    exact Set.disjoint_left.mp (hS.disjoint_headerWord hm hp) hi
  | allocate tag size =>
    rw [Set.disjoint_left]
    rintro i ⟨c, hc, hi⟩
    exact Set.disjoint_left.mp (hS.disjoint_object hm (Request.firstFit_of_allocate hm hc)) hi
  | free p =>
    rw [Set.disjoint_left]
    rintro i ⟨hp, hi⟩
    exact Set.disjoint_left.mp (hS.disjoint_headerWord hm (hm.boundary hp)) hi
  | setHeader p hd =>
    rw [Set.disjoint_left]
    rintro i ⟨hp, hi⟩
    exact Set.disjoint_left.mp (hS.disjoint_headerWord hm (hm.boundary hp)) hi
  | clearPayload p len =>
    rw [Set.disjoint_left]
    rintro i ⟨hp, hi⟩
    exact Set.disjoint_left.mp (hclear p len rfl hp) hi
  | sweep => exact hS.disjoint_headerWords hm
  | write a bytes => exact hspares

end Unavailable

/-- A request that preserves the block leaves the bytes in it alone. -/
theorem Request.Preserves.agreeOn {request : Request} (hr : request.Preserves b S h)
    (hm : h.Mapped) (hb : b ∈ h.map.blocks) (hS : S ⊆ Set.Ico b.start b.stop) :
    h.memory.AgreeOn S (request.run.after h).memory := by
  obtain ⟨-, hspares, hself⟩ := hr
  refine (request.agreeOn_touched hm).mono (Set.subset_compl_iff_disjoint_left.mpr ?_)
  refine (unavailable_of_mem_blocks hm hb hS).disjoint_touched hm hspares fun p len heq hp => ?_
  subst heq
  obtain ⟨c, hc, rfl⟩ := owns_iff.mp hp
  by_cases hstart : c.start = b.start
  · rw [hstart]
    exact hself len (by rw [hstart])
  · -- Another block is cleared, and no more than this block has.
    have hlen : len ≤ c.size := hspares c hc rfl
    refine Set.disjoint_of_subset_right hS ?_
    rw [Set.Ico_disjoint_Ico]
    rcases hm.map.eq_or_apart (BlockMap.mem_blocks.mp hb).1 (BlockMap.mem_blocks.mp hc).1 with
      rfl | hapart | hapart
    · exact absurd rfl hstart
    · simp only [Extent.stop] at hapart ⊢
      lia
    · simp only [Extent.stop] at hapart ⊢
      lia

/-- A request that spares bytes outside region and table leaves them alone. -/
theorem Request.Spares.agreeOn {request : Request} (hr : request.Spares S h) (hm : h.Mapped)
    (hS : S ⊆ (h.layout.region ∪ h.layout.table)ᶜ) :
    h.memory.AgreeOn S (request.run.after h).memory := by
  refine (request.agreeOn_touched hm).mono (Set.subset_compl_iff_disjoint_left.mpr ?_)
  refine (unavailable_of_outside hm hS).disjoint_touched hm hr fun p len heq hp => ?_
  subst heq
  obtain ⟨c, hc, rfl⟩ := owns_iff.mp hp
  have hlen : len ≤ c.size := hr c hc rfl
  have hsub : Set.Ico c.start (c.start + len) ⊆ h.layout.region :=
    (Set.Ico_subset_Ico_right (Nat.add_le_add_left hlen _)).trans (range_subset_region hm hc)
  exact Set.disjoint_right.mpr fun i hi hclear => hS hi (.inl (hsub hclear))

/-! ### Many requests -/

/-- What each step of a run leaves alone, the run leaves alone. -/
theorem agreeOn_of_run {σ : Type} {step : σ → σ → Prop} (heap : σ → BlockHeap) (P : σ → Prop)
    (hstep : ∀ s t, P s → step s t → P t ∧ (heap s).memory.AgreeOn S (heap t).memory) {s t : σ}
    (hs : P s) (hrun : Relation.ReflTransGen step s t) :
    (heap s).memory.AgreeOn S (heap t).memory := by
  suffices hkept : P t ∧ (heap s).memory.AgreeOn S (heap t).memory from hkept.2
  induction hrun with
  | refl => exact ⟨hs, .refl _ _⟩
  | tail _ hlast ih =>
    obtain ⟨ht, hagree⟩ := hstep _ _ ih.1 hlast
    exact ⟨ht, ih.2.trans hagree⟩

/-- Single requests and whole runs respect their frames, whatever stands in the memory. -/
theorem undisturbed_of_mapped (hm : h.Mapped) : Undisturbed h where
  step request := request.agreeOn_touched hm
  block b hb S hS h' hrun := by
    refine agreeOn_of_run id (fun h => h.Mapped ∧ b ∈ h.map.blocks) ?_ ⟨hm, hb⟩ hrun
    rintro t _ ⟨hmapped, hmem⟩ ⟨request, hr, rfl⟩
    exact ⟨⟨request.mapped hmapped, hr.1⟩, hr.agreeOn hmapped hmem hS⟩
  outside S hS h' hrun := by
    refine agreeOn_of_run id (fun t => t.Mapped ∧ t.layout = h.layout) ?_ ⟨hm, rfl⟩ hrun
    rintro t _ ⟨hmapped, hlayout⟩ ⟨request, hr, rfl⟩
    refine ⟨⟨request.mapped hmapped, (request.layout_eq hmapped).trans hlayout⟩, ?_⟩
    rw [← hlayout] at hS
    exact hr.agreeOn hmapped hS

/-- By induction over its history, map and layout of a heap fit each other. -/
theorem Reachable.mapped {admits : BlockHeap → Request → Prop} {s : History}
    (hs : Reachable admits s) : s.heap.Mapped := by
  induction hs with
  | start _ hcreated => exact mapped_of_create hcreated
  | next _ _ ih => exact Request.mapped _ ih

/-- The memory of a heap keeps its size. -/
theorem Reachable.memory_le {admits : BlockHeap → Request → Prop} {s : History}
    (hs : Reachable admits s) : s.heap.memory.size ≤ UInt32.size := by
  induction hs with
  | start hmemory hcreated =>
    obtain ⟨-, -, hsize, -⟩ := create_eq_ok hcreated
    exact hsize ▸ hmemory
  | @next s request hs _ ih =>
    have hsize : (s.next request).heap.memory.size = s.heap.memory.size :=
      (request.agreeOn_touched hs.mapped).size_eq
    rwa [hsize]

end MarkSweep.BlockHeap
