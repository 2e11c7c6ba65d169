import MarkSweep.Proofs.BlockHeap.Valid

/-!
# Allocation

What `BlockHeap.allocate` does to a valid heap. It is refused for a size that no header can hold and
answers nothing when there is no room, both without any change (`allocate_cases`). Otherwise it
answers the first fit, and the heap it leaves is the old one with a new object: `Allocated` lists
what is new and what stays.
-/

namespace MarkSweep.BlockHeap

/-- The heap with space for `size` bytes at `p` taken into use. -/
def occupied (p : Addr) (size : Nat) (h : BlockHeap) : BlockHeap :=
  { h with map := h.map.occupy p (h.layout.footprint size) }

/-- The heap with a new block at `p`, its header without a tag. -/
def withBlock (p : Addr) (size : Nat) (h : BlockHeap) : BlockHeap :=
  (h.occupied p size).putHeader p (.fresh .untagged size)

/-- The heap with `len` bytes from `p` on set to zero. -/
def zeroed (p : Addr) (len : Nat) (h : BlockHeap) : BlockHeap :=
  { h with memory := h.memory.overwrite p (List.replicate len 0) }

/-- The heap with a new block at `p`, its header with a tag. -/
def withTagged (tag : Tag) (p : Addr) (size : Nat) (h : BlockHeap) : BlockHeap :=
  (h.withBlock p size).putHeader p (.fresh tag size)

/-- The heap with a new object at `p`. -/
def withObject (tag : Tag) (p : Addr) (size : Nat) (h : BlockHeap) : BlockHeap :=
  (h.withTagged tag p size).zeroed p size

/-- `h'` is `h` with a new object at `p`: its block is added to the map, its header is fresh and its
payload zero. Nothing else in the region or the table has changed. -/
structure Allocated (tag : Tag) (size : Nat) (p : Addr) (h h' : BlockHeap) : Prop where
  size_le : size ≤ Header.maxPayload
  valid : h'.Valid
  layout_eq : h'.layout = h.layout
  blocks_perm : h'.map.blocks.Perm (⟨p, h.layout.footprint size, true⟩ :: h.map.blocks)
  block_apart : ∀ b ∈ h.map.blocks, p + h.layout.footprint size ≤ b.start ∨ b.stop ≤ p
  headerAt_self : h'.headerAt p = .fresh tag size
  headerAt_of_ne : ∀ q, h.layout.isBoundary q → q ≠ p → h'.headerAt q = h.headerAt q
  payloadAt_self : h'.payloadAt p = Array.replicate size 0
  agreeOn : h.memory.AgreeOn (h.layout.table ∪ Set.Ico p (p + size))ᶜ h'.memory

/-- A size that is not too large for a header is stated as it is. -/
theorem size_fresh {size : Nat} (tag : Tag) (hsize : size ≤ Header.maxPayload) :
    (Header.fresh tag size).size = size :=
  Nat.mod_eq_of_lt (Nat.lt_succ_of_le hsize)

/-- A fresh header never states more than the size that was asked for, so the payload fits. -/
theorem size_fresh_le_footprint {h : BlockHeap} (hm : h.Mapped) (tag : Tag) (size : Nat) :
    (Header.fresh tag size).size ≤ h.layout.footprint size :=
  (Nat.mod_le _ _).trans (hm.layout.size_le_footprint size)

theorem withBlock_layout (h : BlockHeap) (p : Addr) (size : Nat) :
    (h.withBlock p size).layout = h.layout := by
  rw [withBlock, putHeader_layout, occupied]

theorem withTagged_layout (h : BlockHeap) (tag : Tag) (p : Addr) (size : Nat) :
    (h.withTagged tag p size).layout = h.layout := by
  rw [withTagged, putHeader_layout, withBlock_layout]

theorem withObject_layout (h : BlockHeap) (tag : Tag) (p : Addr) (size : Nat) :
    (h.withObject tag p size).layout = h.layout := withTagged_layout h tag p size

/-- Setting bytes of the region to zero changes none elsewhere. -/
theorem agreeOn_zeroed (h : BlockHeap) (p : Addr) (len : Nat) :
    h.memory.AgreeOn (Set.Ico p (p + len))ᶜ (h.zeroed p len).memory := by
  have hagree := h.memory.agreeOn_overwrite p (List.replicate len 0)
  rwa [List.length_replicate] at hagree

/-- A block in use is cleared as far as asked, if the memory has so many bytes. -/
theorem clearPayload_eq {h : BlockHeap} {p : Addr} {len : Nat} (hp : h.owns p)
    (hfits : p + len ≤ h.memory.size) : clearPayload p len h = .ok () (h.zeroed p len) := by
  simp only [clearPayload, Action.bind_apply, requireOwned_eq hp, onMemory_apply, Memory.zero,
    if_pos hfits, zeroed]

/-- What is not in use is not cleared. -/
theorem clearPayload_of_not_owns {h : BlockHeap} {p : Addr} (hp : ¬ h.owns p) (len : Nat) :
    clearPayload p len h = .error (.notAllocated p) h := by
  simp only [clearPayload, Action.bind_apply, requireOwned_of_not_owns hp]

/-- Nothing is cleared if it would reach behind the memory. -/
theorem clearPayload_of_not_le {h : BlockHeap} {p : Addr} {len : Nat} (hp : h.owns p)
    (hfits : ¬ p + len ≤ h.memory.size) :
    clearPayload p len h = .error (.outOfBounds p len) h := by
  simp only [clearPayload, Action.bind_apply, requireOwned_eq hp, onMemory_apply, Memory.zero,
    if_neg hfits]

/-- To clear a payload is refused without a change, or it sets the bytes to zero. -/
theorem clearPayload_cases (h : BlockHeap) (p : Addr) (len : Nat) :
    (∃ e, clearPayload p len h = .error e h) ∨
      h.owns p ∧ clearPayload p len h = .ok () (h.zeroed p len) := by
  by_cases hp : h.owns p
  · by_cases hfits : p + len ≤ h.memory.size
    · exact .inr ⟨hp, clearPayload_eq hp hfits⟩
    · exact .inl ⟨_, clearPayload_of_not_le hp hfits⟩
  · exact .inl ⟨_, clearPayload_of_not_owns hp len⟩

/-- Taking a block into use changes its header word and nothing else in the memory. -/
theorem agreeOn_withBlock (h : BlockHeap) (p : Addr) (size : Nat) :
    h.memory.AgreeOn (h.layout.headerWord p)ᶜ (h.withBlock p size).memory :=
  agreeOn_compl_headerWord_putHeader (h.occupied p size) p (.fresh .untagged size)

/-- A new object is written into its header word, twice, and its payload. -/
theorem agreeOn_withObject (h : BlockHeap) (tag : Tag) (p : Addr) (size : Nat) :
    h.memory.AgreeOn (h.layout.headerWord p ∪ Set.Ico p (p + size))ᶜ
      (h.withObject tag p size).memory := by
  have htag := agreeOn_compl_headerWord_putHeader (h.withBlock p size) p (.fresh tag size)
  rw [withBlock_layout] at htag
  have hheader := (agreeOn_withBlock h p size).trans htag
  refine (hheader.mono ?_).trans (((h.withTagged tag p size).agreeOn_zeroed p size).mono ?_)
  · exact Set.compl_subset_compl.mpr Set.subset_union_left
  · exact Set.compl_subset_compl.mpr Set.subset_union_right

section Zeroed

variable {h : BlockHeap} {p q : Addr} {len : Nat} (hsub : Set.Ico p (p + len) ⊆ h.layout.region)

include hsub

/-- Clearing bytes of the region leaves the header table. -/
theorem agreeOn_table_zeroed (hl : h.layout.Valid h.memory.size) :
    h.memory.AgreeOn h.layout.table (h.zeroed p len).memory := by
  refine (h.agreeOn_zeroed p len).mono fun i hi hi' => ?_
  exact hl.region_subset_compl_table (hsub hi') hi

/-- Clearing bytes of the region leaves all headers. -/
theorem headerAt_zeroed (hl : h.layout.Valid h.memory.size) (hq : h.layout.isBoundary q) :
    (h.zeroed p len).headerAt q = h.headerAt q :=
  headerAt_congr _ hl rfl (agreeOn_table_zeroed hsub hl) hq

/-- Clearing bytes of the region keeps a heap valid. -/
theorem valid_zeroed (hv : h.Valid) : (h.zeroed p len).Valid :=
  hv.of_agreeOn (agreeOn_table_zeroed hsub hv.layout)

end Zeroed

section WithBlock

variable {h : BlockHeap} {p q : Addr} {size : Nat} (hm : h.Mapped)
  (hfit : h.map.firstFit? h.layout.stop (h.layout.footprint size) = some p)

include hm hfit

theorem map_occupied : (h.occupied p size).map.Valid h.layout :=
  hm.map.occupy (hm.layout.footprint_pos size) (Layout.Valid.dvd_footprint size) hfit

/-- Taking the first fit into use adds one block and takes none away. -/
theorem blocks_occupied :
    (h.occupied p size).map.blocks.Perm (⟨p, h.layout.footprint size, true⟩ :: h.map.blocks) :=
  hm.map.blocks_occupy (hm.layout.footprint_pos size) (Layout.Valid.dvd_footprint size) hfit

/-- Where the new block lies. -/
theorem firstFit_bounds : h.layout.isBoundary p ∧ p + h.layout.footprint size ≤ h.layout.stop := by
  have hmem := (blocks_occupied hm hfit).mem_iff.mpr List.mem_cons_self
  obtain ⟨hboundary, hstop, -, -⟩ := (map_occupied hm hfit).block_bounds hmem
  exact ⟨hboundary, hstop⟩

theorem blocks_withBlock :
    (h.withBlock p size).map.blocks.Perm (⟨p, h.layout.footprint size, true⟩ :: h.map.blocks) := by
  rw [withBlock, putHeader_map]
  exact blocks_occupied hm hfit

theorem mapped_withBlock : (h.withBlock p size).Mapped := by
  constructor
  · rw [withBlock, putHeader_memory_size, putHeader_layout]
    exact hm.layout
  · rw [withBlock, putHeader_map, putHeader_layout]
    exact map_occupied hm hfit

/-- The headers of the other granules stay as they are. -/
theorem headerAt_withBlock_of_ne (hq : h.layout.isBoundary q) (hqp : q ≠ p) :
    (h.withBlock p size).headerAt q = h.headerAt q := by
  have hp := (firstFit_bounds hm hfit).1
  exact headerAt_putHeader_of_ne (h := h.occupied p size) _ hp hq hqp

/-- The new block has a fresh header without a tag. -/
theorem headerAt_withBlock_self : (h.withBlock p size).headerAt p = .fresh .untagged size := by
  have hp := (firstFit_bounds hm hfit).1
  exact headerAt_putHeader_self (h := h.occupied p size) hm.layout hp

/-- The new block is in use. -/
theorem owns_withBlock : (h.withBlock p size).owns p :=
  owns_iff.mpr ⟨_, (blocks_withBlock hm hfit).mem_iff.mpr List.mem_cons_self, rfl⟩

/-- Besides the new block, the same are in use as before. -/
theorem owns_withBlock_iff : (h.withBlock p size).owns q ↔ q = p ∨ h.owns q := by
  rw [owns_iff, owns_iff]
  simp only [(blocks_withBlock hm hfit).mem_iff, List.mem_cons, or_and_right, exists_or,
    exists_eq_left, eq_comm]

/-- An allocation for which there is room takes the first fit into use. -/
theorem alloc_eq (hsize : size ≤ Header.maxPayload) :
    alloc size h = .ok (some ⟨p, h.layout.footprint size⟩) (h.withBlock p size) := by
  have hp := (firstFit_bounds hm hfit).1
  have hwrite : writeHeader p (.fresh .untagged size) (h.occupied p size) =
      .ok () (h.withBlock p size) := writeHeader_eq (h := h.occupied p size) hm.layout _ hp
  rw [occupied] at hwrite
  simp only [alloc, if_neg (Nat.not_lt.mpr hsize), Action.bind_apply, Action.get_apply, hfit,
    Action.set_apply, hwrite, Action.pure_apply]

theorem isBoundary_withBlock : (h.withBlock p size).layout.isBoundary p := by
  rw [withBlock_layout]
  exact (firstFit_bounds hm hfit).1

/-- The second header that is written replaces the first. -/
theorem headerAt_withTagged_self (tag : Tag) :
    (h.withTagged tag p size).headerAt p = .fresh tag size :=
  headerAt_putHeader_self (mapped_withBlock hm hfit).layout (isBoundary_withBlock hm hfit)

theorem headerAt_withTagged_of_ne (tag : Tag) (hq : h.layout.isBoundary q) (hqp : q ≠ p) :
    (h.withTagged tag p size).headerAt q = h.headerAt q := by
  rw [withTagged, headerAt_putHeader_of_ne _ (isBoundary_withBlock hm hfit) _ hqp,
    headerAt_withBlock_of_ne hm hfit hq hqp]
  rw [withBlock_layout]
  exact hq

/-- The bytes of the new object lie in the region. -/
theorem object_subset_region_of_firstFit : Set.Ico p (p + size) ⊆ h.layout.region := by
  have hle := hm.layout.size_le_footprint size
  obtain ⟨hboundary, hstop⟩ := firstFit_bounds hm hfit
  apply Set.Ico_subset_Ico
  · exact (Layout.isBoundary_iff.mp hboundary).1
  · lia

/-- A new object adds one block to those in use. -/
theorem blocks_withObject (tag : Tag) : (h.withObject tag p size).map.blocks.Perm
    (⟨p, h.layout.footprint size, true⟩ :: h.map.blocks) := by
  rw [withObject, zeroed, withTagged, putHeader_map]
  exact blocks_withBlock hm hfit

theorem mapped_withObject (tag : Tag) : (h.withObject tag p size).Mapped := by
  obtain ⟨hlayout, hmap⟩ := (mapped_withBlock hm hfit).putHeader p (.fresh tag size)
  refine ⟨?_, hmap⟩
  rw [withObject, zeroed, Memory.size_overwrite]
  exact hlayout

/-- The payload has no part in the headers. -/
theorem headerAt_withObject (tag : Tag) (hq : h.layout.isBoundary q) :
    (h.withObject tag p size).headerAt q = (h.withTagged tag p size).headerAt q := by
  have hlayout := withTagged_layout h tag p size
  have hm' : (h.withTagged tag p size).Mapped := (mapped_withBlock hm hfit).putHeader _ _
  refine headerAt_zeroed ?_ hm'.layout (hlayout.symm ▸ hq)
  rw [hlayout]
  exact object_subset_region_of_firstFit hm hfit

/-- The header of a new object states what was asked for. -/
theorem headerAt_withObject_self (tag : Tag) :
    (h.withObject tag p size).headerAt p = .fresh tag size := by
  rw [headerAt_withObject hm hfit tag (firstFit_bounds hm hfit).1,
    headerAt_withTagged_self hm hfit]

/-- The payload of a new object ends before the memory does. -/
theorem object_le_memory (tag : Tag) : p + size ≤ (h.withTagged tag p size).memory.size := by
  have hsub := object_subset_region_of_firstFit hm hfit
  have hp := (firstFit_bounds hm hfit).1
  rw [withTagged, putHeader_memory_size, withBlock, putHeader_memory_size]
  exact le_memory_of_subset_region hm.layout hp hsub

/-- The payload of a new object is zero. -/
theorem payloadAt_withObject_self (tag : Tag) (hsize : size ≤ Header.maxPayload) :
    (h.withObject tag p size).payloadAt p = Array.replicate size 0 := by
  rw [payloadAt, headerAt_withObject_self hm hfit, size_fresh tag hsize]
  exact Memory.extract_overwrite_replicate (object_le_memory hm hfit tag)

/-- An allocation of a tagged object for which there is room. -/
theorem allocate_eq (tag : Tag) (hsize : size ≤ Header.maxPayload) :
    allocate tag size h = .ok (some p) (h.withObject tag p size) := by
  have howns := owns_withBlock hm hfit
  have hset : setHeader p (.fresh tag size) (h.withBlock p size) =
      .ok () (h.withTagged tag p size) := (mapped_withBlock hm hfit).setHeader_eq howns rfl
  -- The tagged header has not changed the map.
  have howns' : (h.withTagged tag p size).owns p := by
    rw [owns, withTagged, putHeader_map]
    exact howns
  have hclear := clearPayload_eq howns' (object_le_memory hm hfit tag)
  simp only [allocate, if_neg (Nat.not_lt.mpr hsize), Action.bind_apply, alloc_eq hm hfit hsize,
    hset, hclear, Action.pure_apply, withObject]

/-- What holds of the blocks and of a new one, holds when it has been taken into use. -/
theorem each_withBlock {Q : Extent → Header → Prop} (hall : h.Each Q)
    (hnew : Q ⟨p, h.layout.footprint size, true⟩ (.fresh .untagged size)) :
    (h.withBlock p size).Each Q := by
  intro b hb
  rcases List.mem_cons.mp ((blocks_withBlock hm hfit).mem_iff.mp hb) with rfl | hb
  · rw [headerAt_withBlock_self hm hfit]
    exact hnew
  · -- Blocks in use before keep their headers, for they start elsewhere.
    have hne := hm.map.firstFit?_ne_start (hm.layout.footprint_pos size)
      (Layout.Valid.dvd_footprint size) hfit hb
    rw [headerAt_withBlock_of_ne hm hfit (hm.map.block_bounds hb).1 hne]
    exact hall b hb

omit hm in
/-- The block that is taken into use has a header that fits. -/
theorem valid_withBlock (hv : h.Valid) : (h.withBlock p size).Valid := by
  have hm := hv.mapped
  obtain ⟨hlayout, hmap⟩ := mapped_withBlock hm hfit
  refine ⟨?_, hlayout, hmap, ?_, ?_⟩
  · rw [withBlock, putHeader_memory_size]
    exact hv.memory_le
  · exact each_withBlock (Q := fun _ hd => hd.alloc) hm hfit hv.alloc rfl
  · exact each_withBlock (Q := fun b hd => hd.size ≤ b.size) hm hfit hv.size_le
      (size_fresh_le_footprint hm .untagged size)

omit hm in
theorem valid_withTagged (hv : h.Valid) (tag : Tag) : (h.withTagged tag p size).Valid := by
  refine (valid_withBlock hfit hv).putHeader_of_size_eq (owns_withBlock hv.mapped hfit) rfl ?_
  rw [headerAt_withBlock_self hv.mapped hfit]
  rfl

omit hm in
/-- The heap with a new object is what its name says. -/
theorem allocated_withObject (hv : h.Valid) (tag : Tag) (hsize : size ≤ Header.maxPayload) :
    Allocated tag size p h (h.withObject tag p size) := by
  have hm := hv.mapped
  have hvalid := valid_withTagged hfit hv tag
  have hlayout := withTagged_layout h tag p size
  have hsub := object_subset_region_of_firstFit hm hfit
  rw [← hlayout] at hsub
  refine ⟨hsize, valid_zeroed hsub hvalid, hlayout, blocks_withObject hm hfit tag, ?_,
    headerAt_withObject_self hm hfit tag, ?_, payloadAt_withObject_self hm hfit tag hsize, ?_⟩
  · intro b hb
    exact hv.map.firstFit?_apart (hv.layout.footprint_pos size)
      (Layout.Valid.dvd_footprint size) hfit hb
  · intro q hq hqp
    rw [headerAt_withObject hm hfit tag hq, headerAt_withTagged_of_ne hm hfit tag hq hqp]
  · have hword := hm.layout.headerAddr_subset_table (firstFit_bounds hm hfit).1
    refine (agreeOn_withObject h tag p size).mono (Set.compl_subset_compl.mpr ?_)
    exact Set.union_subset_union_left _ hword

end WithBlock

/-- A size that no header can hold is refused. -/
theorem allocate_of_maxPayload_lt {size : Nat} (hsize : Header.maxPayload < size) (tag : Tag)
    (h : BlockHeap) : allocate tag size h = .error (.payloadTooLarge size) h := by
  simp only [allocate, if_pos hsize, Action.throw_apply]

/-- A block is taken into use at the first fit, or nothing is changed and no block is answered. -/
theorem alloc_cases {h : BlockHeap} (hm : h.Mapped) (size : Nat) :
    alloc size h = .ok none h ∨
    ∃ p, h.map.firstFit? h.layout.stop (h.layout.footprint size) = some p ∧
      alloc size h = .ok (some ⟨p, h.layout.footprint size⟩) (h.withBlock p size) := by
  rcases Nat.lt_or_ge Header.maxPayload size with hlt | hle
  · refine Or.inl ?_
    simp only [alloc, if_pos hlt, Action.pure_apply]
  · cases hfit : h.map.firstFit? h.layout.stop (h.layout.footprint size) with
    | none =>
      refine Or.inl ?_
      simp only [alloc, if_neg (Nat.not_lt.mpr hle), Action.bind_apply, Action.get_apply, hfit,
        Action.pure_apply]
    | some p => exact Or.inr ⟨p, rfl, alloc_eq hm hfit hle⟩

/-- What an allocation can come to, whatever stands in the header table. -/
theorem allocate_cases_of_mapped {h : BlockHeap} (hm : h.Mapped) (tag : Tag) (size : Nat) :
    (Header.maxPayload < size ∧ allocate tag size h = .error (.payloadTooLarge size) h) ∨
    (size ≤ Header.maxPayload ∧
      h.map.firstFit? h.layout.stop (h.layout.footprint size) = none ∧
      allocate tag size h = .ok none h) ∨
    (size ≤ Header.maxPayload ∧ ∃ p,
      h.map.firstFit? h.layout.stop (h.layout.footprint size) = some p ∧
      allocate tag size h = .ok (some p) (h.withObject tag p size)) := by
  rcases Nat.lt_or_ge Header.maxPayload size with hlt | hle
  · exact Or.inl ⟨hlt, allocate_of_maxPayload_lt hlt tag h⟩
  · cases hfit : h.map.firstFit? h.layout.stop (h.layout.footprint size) with
    | none =>
      refine Or.inr (Or.inl ⟨hle, rfl, ?_⟩)
      simp only [allocate, alloc, if_neg (Nat.not_lt.mpr hle), Action.bind_apply,
        Action.get_apply, hfit, Action.pure_apply]
    | some p => exact Or.inr (Or.inr ⟨hle, p, rfl, allocate_eq hm hfit tag hle⟩)

/-- What an allocation from a valid heap can come to. -/
theorem allocate_cases {h : BlockHeap} (hv : h.Valid) (tag : Tag) (size : Nat) :
    (Header.maxPayload < size ∧ allocate tag size h = .error (.payloadTooLarge size) h) ∨
    (size ≤ Header.maxPayload ∧
      h.map.firstFit? h.layout.stop (h.layout.footprint size) = none ∧
      allocate tag size h = .ok none h) ∨
    (size ≤ Header.maxPayload ∧ ∃ p h',
      h.map.firstFit? h.layout.stop (h.layout.footprint size) = some p ∧
      allocate tag size h = .ok (some p) h' ∧ Allocated tag size p h h') := by
  rcases allocate_cases_of_mapped hv.mapped tag size with
    htoo | hnone | ⟨hle, p, hfit, hsome⟩
  · exact Or.inl htoo
  · exact Or.inr (Or.inl hnone)
  · exact Or.inr (Or.inr ⟨hle, p, _, hfit, hsome, allocated_withObject hfit hv tag hle⟩)

namespace Allocated

variable {h h' : BlockHeap} {tag : Tag} {size : Nat} {p q : Addr} {b : Extent}
  (ha : Allocated tag size p h h') (hv : h.Valid)

include ha

/-- After an allocation, the blocks in use are those from before and the new one. -/
theorem mem_blocks_iff :
    b ∈ h'.map.blocks ↔ b = ⟨p, h.layout.footprint size, true⟩ ∨ b ∈ h.map.blocks :=
  ha.blocks_perm.mem_iff.trans List.mem_cons

/-- The header states the size that was asked for. -/
theorem headerAt_size : (h'.headerAt p).size = size := by
  rw [ha.headerAt_self]
  exact size_fresh tag ha.size_le

/-- After an allocation, what is owned is what was owned before and the new object. -/
theorem owns_iff : h'.owns q ↔ q = p ∨ h.owns q := by
  rw [BlockHeap.owns_iff, BlockHeap.owns_iff]
  simp only [ha.mem_blocks_iff, or_and_right, exists_or, exists_eq_left, eq_comm]

include hv

/-- The new object was not owned before. -/
theorem not_owns : ¬ h.owns p := by
  intro hp
  obtain ⟨b, hb, rfl⟩ := BlockHeap.owns_iff.mp hp
  have hpos := (hv.map.block_bounds hb).2.2.1
  have hfpos := hv.layout.footprint_pos size
  have hapart := ha.block_apart b hb
  simp only [Extent.stop] at hapart
  lia

/-- An allocation leaves the headers of the objects that were there. -/
theorem headerAt_eq (hq : h.owns q) : h'.headerAt q = h.headerAt q := by
  refine ha.headerAt_of_ne q (hv.boundary hq) ?_
  rintro rfl
  exact ha.not_owns hv hq

/-- The objects that were there keep their bytes. -/
theorem payloadAt_eq (hq : h.owns q) : h'.payloadAt q = h.payloadAt q := by
  have hsize := congrArg Header.size (ha.headerAt_eq hv hq)
  refine payloadAt_congr hsize (ha.agreeOn.mono ?_)
  intro i hi
  have hregion := hv.object_subset_region hq hi
  obtain ⟨b, hb, rfl⟩ := BlockHeap.owns_iff.mp hq
  have hfit := hv.size_le b hb
  have hfit' := hv.layout.size_le_footprint size
  have hapart := ha.block_apart b hb
  -- The other objects lie neither in the table nor in the new block.
  rintro (htable | hnew)
  · exact hv.layout.region_subset_compl_table hregion htable
  · simp only [Set.mem_Ico, Extent.stop] at hi hnew hapart
    lia

end Allocated

end MarkSweep.BlockHeap
