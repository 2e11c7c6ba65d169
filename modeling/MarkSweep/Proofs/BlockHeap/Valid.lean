import MarkSweep.Proofs.BlockHeap.Headers
import MarkSweep.Proofs.BlockMap.Canonical

/-!
# Invariant of the block heap

`BlockHeap.Mapped` says that the layout fits the memory and that the block map is valid. This is
enough to allocate blocks and to give them back, whatever stands in the header table.

`BlockHeap.Valid` says besides that the header of each block is allocated and names a payload that
fits into the block. A new heap is valid (`valid_of_create`), and so is one whose memory has been
written outside the header table (`Valid.of_agreeOn`).

On a valid heap no access to an owned object is refused: `Valid.header_eq`, `Valid.payload_eq` and
`Valid.setHeader_eq` say what the accesses do.
-/

namespace MarkSweep.BlockHeap

/-- The layout fits the memory, and the map is one of its region. -/
structure Mapped (h : BlockHeap) : Prop where
  layout : h.layout.Valid h.memory.size
  map : h.map.Valid h.layout

/-- The invariant of a block heap. -/
structure Valid (h : BlockHeap) : Prop where
  memory_le : h.memory.size ≤ UInt32.size
  layout : h.layout.Valid h.memory.size
  map : h.map.Valid h.layout
  alloc : ∀ b ∈ h.map.blocks, (h.headerAt b.start).alloc
  size_le : ∀ b ∈ h.map.blocks, (h.headerAt b.start).size ≤ b.size

/-- Of each block in use and its header something holds. -/
def Each (h : BlockHeap) (Q : Extent → Header → Prop) : Prop :=
  ∀ b ∈ h.map.blocks, Q b (h.headerAt b.start)

/-- Owned are the addresses at which blocks in use start. -/
theorem owns_iff {h : BlockHeap} {p : Addr} : h.owns p ↔ ∃ b ∈ h.map.blocks, b.start = p :=
  BlockMap.owns_iff

/-- What begins at a granule and lies in the region lies in the memory. -/
theorem le_memory_of_subset_region {l : Layout} {memory : Nat} (hl : l.Valid memory) {p : Addr}
    {len : Nat} (hp : l.isBoundary p) (hsub : Set.Ico p (p + len) ⊆ l.region) :
    p + len ≤ memory := by
  have hstop := hl.stop_le
  have hp' := (Layout.isBoundary_iff.mp hp).2.1
  -- A range without bytes is in no region, but its start is.
  rcases Nat.eq_zero_or_pos len with rfl | hpos
  · lia
  · have hlast : p + len - 1 ∈ l.region := hsub ⟨by lia, by lia⟩
    have hlt : p + len - 1 < l.stop := hlast.2
    lia

/-- A new heap has the layout and the size that were asked for, and no blocks. -/
theorem create_eq_ok {memory : Memory} {layout : Layout} {h : BlockHeap}
    (hc : create memory layout = .ok h) :
    layout.Valid memory.size ∧ h.layout = layout ∧ h.memory.size = memory.size ∧
      h.map = .empty layout.start := by
  unfold create at hc
  split at hc
  next => exact absurd hc (by simp)
  next hcheck =>
    have hvalid := (Layout.check_eq_ok_iff layout memory.size).mp hcheck
    rw [Memory.zero, if_pos hvalid.table_le] at hc
    obtain rfl := Except.ok.inj hc
    exact ⟨hvalid, rfl, Memory.size_overwrite .., rfl⟩

/-- In a new heap no granule has a header. -/
theorem headerAt_of_create {memory : Memory} {layout : Layout} {h : BlockHeap} {p : Addr}
    (hc : create memory layout = .ok h) (hp : h.layout.isBoundary p) : h.headerAt p = .blank := by
  obtain ⟨hvalid, -, -, -⟩ := create_eq_ok hc
  unfold create at hc
  rw [(Layout.check_eq_ok_iff layout memory.size).mpr hvalid, Memory.zero,
    if_pos hvalid.table_le] at hc
  obtain rfl := Except.ok.inj hc
  have hload := Memory.load_overwrite_replicate (hvalid.headerAddr_subset_table hp) hvalid.table_le
  rw [headerAt, readHeader, hload]
  rfl

/-- The empty map of a new heap fits its layout, which has been checked. -/
theorem mapped_of_create {memory : Memory} {layout : Layout} {h : BlockHeap}
    (hc : create memory layout = .ok h) : h.Mapped := by
  obtain ⟨hvalid, hlayout, hsize, hmap⟩ := create_eq_ok hc
  refine ⟨hlayout ▸ hsize ▸ hvalid, ?_⟩
  rw [hmap, hlayout]
  exact BlockMap.valid_empty hvalid.start_lt_stop.le

/-- A new heap in a memory of 32-bit addresses is valid. -/
theorem valid_of_create {memory : Memory} {layout : Layout} {h : BlockHeap}
    (hmemory : memory.size ≤ UInt32.size) (hc : create memory layout = .ok h) : h.Valid := by
  obtain ⟨-, -, hsize, hmap⟩ := create_eq_ok hc
  obtain ⟨hlayout, hvalid⟩ := mapped_of_create hc
  have hblocks : h.map.blocks = [] := by
    rw [hmap]
    rfl
  refine ⟨hsize ▸ hmemory, hlayout, hvalid, ?_, ?_⟩
  · simp [hblocks]
  · simp [hblocks]

theorem requireOwned_eq {h : BlockHeap} {p : Addr} (hp : h.owns p) :
    requireOwned p h = .ok () h := by
  simp only [requireOwned, Action.bind_apply, Action.get_apply, hp, Action.require_true]

theorem requireOwned_of_not_owns {h : BlockHeap} {p : Addr} (hp : ¬ h.owns p) :
    requireOwned p h = .error (.notAllocated p) h := by
  simp only [requireOwned, Action.bind_apply, Action.get_apply, Bool.not_eq_true _ ▸ hp,
    Action.require_false]

namespace Mapped

variable {h : BlockHeap} {p : Addr} {hd : Header} (hm : h.Mapped)

include hm

/-- A block starts at a granule of the region. -/
theorem boundary (hp : h.owns p) : h.layout.isBoundary p := by
  obtain ⟨b, hb, rfl⟩ := owns_iff.mp hp
  exact (hm.map.block_bounds hb).1

/-- No block starts at null. -/
theorem ne_zero (hp : h.owns p) : p ≠ 0 := by
  have hstart := (Layout.isBoundary_iff.mp (hm.boundary hp)).1
  have hpos := hm.layout.start_ne_zero
  lia

/-- The map of a heap is determined by its blocks and its frontier. -/
theorem map_eq_of_blocks_eq {h' : BlockHeap} (hm' : h'.Mapped) (hlayout : h'.layout = h.layout)
    (hblocks : h'.map.blocks = h.map.blocks) (hfrontier : h'.map.frontier = h.map.frontier) :
    h'.map = h.map :=
  hm.map.eq_of_blocks_eq (hlayout ▸ hm'.map) hblocks hfrontier

/-- The header of a block in use is the one in the table. -/
theorem header_eq (hp : h.owns p) : h.header p = .ok (h.headerAt p) := by
  have hboundary := hm.boundary hp
  rw [header, hboundary, hm.map.not_isInsideBlock hp]
  exact readHeader_eq hm.layout hboundary

/-- A payload can be read if it does not end behind the memory. -/
theorem payload_eq (hp : h.owns p) (hfits : p + (h.headerAt p).size ≤ h.memory.size) :
    h.payload p = .ok (h.payloadAt p) := by
  rw [payload, if_pos hp, readHeader_eq hm.layout (hm.boundary hp)]
  exact if_pos hfits

/-- The header of a block in use is replaced by any allocated one. -/
theorem setHeader_eq (hp : h.owns p) (halloc : hd.alloc) :
    setHeader p hd h = .ok () (h.putHeader p hd) := by
  simp only [setHeader, Action.bind_apply, requireOwned_eq hp, halloc, Action.require_true,
    writeHeader_eq hm.layout _ (hm.boundary hp)]

theorem putHeader (p : Addr) (hd : Header) : (h.putHeader p hd).Mapped := by
  constructor
  · rw [putHeader_memory_size, putHeader_layout]
    exact hm.layout
  · rw [putHeader_map, putHeader_layout]
    exact hm.map

/-- What holds of the blocks and of a new header, holds when the header has been replaced. -/
theorem each_putHeader {Q : Extent → Header → Prop} (hp : h.owns p) (hall : h.Each Q)
    (hnew : ∀ b ∈ h.map.blocks, b.start = p → Q b hd) : (h.putHeader p hd).Each Q := by
  have hboundary := hm.boundary hp
  intro b hb
  rw [putHeader_map] at hb
  by_cases hbp : b.start = p
  · rw [hbp, headerAt_putHeader_self hm.layout hboundary]
    exact hnew b hb hbp
  · -- The headers of the other blocks have not changed.
    rw [headerAt_putHeader_of_ne _ hboundary (hm.map.block_bounds hb).1 hbp]
    exact hall b hb

end Mapped

/-- A header is not replaced where no block in use starts. -/
theorem setHeader_of_not_owns {h : BlockHeap} {p : Addr} (hp : ¬ h.owns p) (hd : Header) :
    setHeader p hd h = .error (.notAllocated p) h := by
  simp only [setHeader, Action.bind_apply, requireOwned_of_not_owns hp]

/-- A header is not replaced by one that would say that the block is free. -/
theorem setHeader_of_not_alloc {h : BlockHeap} {p : Addr} {hd : Header} (hp : h.owns p)
    (halloc : hd.alloc = false) : setHeader p hd h = .error (.corruptHeader p .clearsAlloc) h := by
  simp only [setHeader, Action.bind_apply, requireOwned_eq hp, halloc, Action.require_false]

/-- To replace a header is refused without a change, or it writes the header of a block. -/
theorem setHeader_cases {h : BlockHeap} (hm : h.Mapped) (p : Addr) (hd : Header) :
    (∃ e, setHeader p hd h = .error e h) ∨
      h.owns p ∧ hd.alloc ∧ setHeader p hd h = .ok () (h.putHeader p hd) := by
  by_cases hp : h.owns p
  · cases halloc : hd.alloc with
    | true => exact .inr ⟨hp, rfl, hm.setHeader_eq hp halloc⟩
    | false => exact .inl ⟨_, setHeader_of_not_alloc hp halloc⟩
  · exact .inl ⟨_, setHeader_of_not_owns hp hd⟩

namespace Valid

variable {h : BlockHeap} {p q : Addr} {hd : Header} (hv : h.Valid)

include hv

/-! ### Owned addresses -/

theorem mapped : h.Mapped := ⟨hv.layout, hv.map⟩

theorem boundary (hp : h.owns p) : h.layout.isBoundary p := hv.mapped.boundary hp

theorem ne_zero (hp : h.owns p) : p ≠ 0 := hv.mapped.ne_zero hp

/-- The header of a block in use is allocated. -/
theorem headerAt_alloc (hp : h.owns p) : (h.headerAt p).alloc := by
  obtain ⟨b, hb, rfl⟩ := owns_iff.mp hp
  exact hv.alloc b hb

/-- An object lies within its block, and so within the region. -/
theorem object_subset_region (hp : h.owns p) :
    Set.Ico p (p + (h.headerAt p).size) ⊆ h.layout.region := by
  obtain ⟨b, hb, rfl⟩ := owns_iff.mp hp
  obtain ⟨hstart, hstop, -, -⟩ := hv.map.block_bounds hb
  have hsize := hv.size_le b hb
  apply Set.Ico_subset_Ico
  · exact (Layout.isBoundary_iff.mp hstart).1
  · simp only [Extent.stop] at hstop
    lia

/-- Two objects share no bytes. -/
theorem object_subset_compl_object (hp : h.owns p) (hq : h.owns q) (hqp : q ≠ p) :
    Set.Ico q (q + (h.headerAt q).size) ⊆ (Set.Ico p (p + (h.headerAt p).size))ᶜ := by
  obtain ⟨b, hb, rfl⟩ := owns_iff.mp hp
  obtain ⟨c, hc, rfl⟩ := owns_iff.mp hq
  have hbsize := hv.size_le b hb
  have hcsize := hv.size_le c hc
  -- Objects lie within their blocks, and blocks do not overlap.
  rintro i ⟨hi, hi'⟩ ⟨hj, hj'⟩
  rcases hv.map.eq_or_apart (BlockMap.mem_blocks.mp hb).1 (BlockMap.mem_blocks.mp hc).1 with
    rfl | hapart | hapart
  · exact hqp rfl
  · simp only [Extent.stop] at hapart
    lia
  · simp only [Extent.stop] at hapart
    lia

/-! ### Access to owned objects -/

theorem header_eq (hp : h.owns p) : h.header p = .ok (h.headerAt p) := hv.mapped.header_eq hp

/-- The payload of a block in use can be read, for it ends before the block does. -/
theorem payload_eq (hp : h.owns p) : h.payload p = .ok (h.payloadAt p) :=
  hv.mapped.payload_eq hp
    (le_memory_of_subset_region hv.layout (hv.boundary hp) (hv.object_subset_region hp))

theorem setHeader_eq (hp : h.owns p) (halloc : hd.alloc) :
    setHeader p hd h = .ok () (h.putHeader p hd) := hv.mapped.setHeader_eq hp halloc

/-! ### Steps that keep the invariant -/

/-- Memories that agree on the table can be exchanged. -/
theorem of_agreeOn {m : Memory} (hagree : h.memory.AgreeOn h.layout.table m) :
    BlockHeap.Valid { h with memory := m } := by
  have hheader : ∀ b ∈ h.map.blocks,
      BlockHeap.headerAt { h with memory := m } b.start = h.headerAt b.start := fun b hb =>
    headerAt_congr _ hv.layout rfl hagree (hv.map.block_bounds hb).1
  refine ⟨?_, ?_, hv.map, ?_, ?_⟩
  · exact hagree.size_eq ▸ hv.memory_le
  · exact hagree.size_eq.symm ▸ hv.layout
  · intro b hb
    rw [hheader b hb]
    exact hv.alloc b hb
  · intro b hb
    rw [hheader b hb]
    exact hv.size_le b hb

/-- A header may be replaced by one that is allocated and whose size fits. -/
theorem putHeader (hp : h.owns p) (halloc : hd.alloc)
    (hsize : ∀ b ∈ h.map.blocks, b.start = p → hd.size ≤ b.size) : (h.putHeader p hd).Valid := by
  obtain ⟨hlayout, hmap⟩ := hv.mapped.putHeader p hd
  refine ⟨?_, hlayout, hmap, ?_, ?_⟩
  · rw [putHeader_memory_size]
    exact hv.memory_le
  · exact hv.mapped.each_putHeader (Q := fun _ hd => hd.alloc) hp hv.alloc fun _ _ _ => halloc
  · exact hv.mapped.each_putHeader (Q := fun b hd => hd.size ≤ b.size) hp hv.size_le hsize

/-- A header may be replaced by another of the same size. -/
theorem putHeader_of_size_eq (hp : h.owns p) (halloc : hd.alloc)
    (hsize : hd.size = (h.headerAt p).size) : (h.putHeader p hd).Valid := by
  refine hv.putHeader hp halloc fun b hb hbp => ?_
  rw [hsize, ← hbp]
  exact hv.size_le b hb

end Valid

end MarkSweep.BlockHeap
