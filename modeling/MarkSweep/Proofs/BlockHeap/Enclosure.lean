import MarkSweep.Proofs.BlockHeap.Table

/-!
# Access within a block

The size of a payload is read from a header, and how much of a block is cleared is for the program
to say; how large the block is, only the map knows. A heap takes whatever size it is given. A header
that states more than the block has makes the payload reach beyond the block, and so does clearing
more than the block has (`not_enclosed`).

As long as the headers that the program puts into the table fit their blocks, all headers do
(`BlockHeap.Sized`), no matter what is cleared: where clearing reaches into the table it can only
make the sizes there smaller. Then every payload lies in its block, and what is cleared within a
block changes nothing outside (`Reachable.enclosed`).
-/

namespace MarkSweep.BlockHeap

/-- The payload of the block can be read, and all its bytes are bytes of the block. -/
def ReadsInside (h : BlockHeap) (b : Extent) : Prop :=
  ∃ len ≤ b.size, ∃ payload, h.payload b.start = .ok payload ∧ payload.size = len ∧
    payload = h.memory.bytes.extract b.start (b.start + len)

/-- To clear `len` bytes of the block is refused, or it changes no byte outside the block. -/
def ClearsInside (h : BlockHeap) (b : Extent) (len : Nat) : Prop :=
  (clearPayload b.start len).refusal? h ≠ none ∨
    h.memory.AgreeOn (Set.Ico b.start b.stop)ᶜ ((clearPayload b.start len).after h).memory

/-- The program puts no header into the table whose size is too large for its block. The table it
does not write itself. -/
def Request.Fitting (h : BlockHeap) : Request → Prop
  | setHeader p hd => ∀ b ∈ h.map.blocks, b.start = p → hd.size ≤ b.size
  | write a bytes => Set.Ico a (a + bytes.length) ⊆ h.layout.tableᶜ
  | _ => True

/-- No header states a larger size than that of its block. -/
structure Sized (h : BlockHeap) : Prop where
  mapped : h.Mapped
  size_le : h.Each fun b hd => hd.size ≤ b.size

variable {h h' : BlockHeap} {s : History} {p q : Addr} {b : Extent} {len : Nat}

/-- Clearing makes no header larger, wherever it reaches. -/
theorem size_headerAt_zeroed_le (hm : h.Mapped) (p : Addr) (len : Nat)
    (hq : h.layout.isBoundary q) :
    ((h.zeroed p len).headerAt q).size ≤ (h.headerAt q).size := by
  obtain ⟨w, hw⟩ := Memory.exists_load (hm.layout.headerAddr_add_le hq)
  obtain ⟨w', hw', hle⟩ := Memory.load_overwrite_replicate_le p len hw
  have hold : h.headerAt q = .ofWord w := by
    rw [headerAt, readHeader, hw]
    rfl
  have hnew : (h.zeroed p len).headerAt q = .ofWord w' := by
    rw [headerAt, readHeader, zeroed, hw']
    rfl
  rw [hold, hnew]
  exact Nat.div_le_div_right hle

namespace Sized

variable (hs : h.Sized)

include hs

/-- A header that fits its block may be put into the table. -/
theorem putHeader {hd : Header} (hp : h.owns p)
    (hsize : ∀ b ∈ h.map.blocks, b.start = p → hd.size ≤ b.size) : (h.putHeader p hd).Sized :=
  ⟨hs.mapped.putHeader p hd, hs.mapped.each_putHeader hp hs.size_le hsize⟩

theorem freed (hp : h.owns p) : (h.freed p).Sized :=
  ⟨mapped_freed hs.mapped hp, each_freed hs.mapped hp hs.size_le⟩

/-- The header of a new block fits, for its size is part of the footprint. -/
theorem withBlock {size : Nat}
    (hfit : h.map.firstFit? h.layout.stop (h.layout.footprint size) = some p) :
    (h.withBlock p size).Sized :=
  ⟨mapped_withBlock hs.mapped hfit, each_withBlock hs.mapped hfit hs.size_le
    (size_fresh_le_footprint hs.mapped .untagged size)⟩

/-- Clearing leaves no header too large, also where it reaches into the table. -/
theorem zeroed (p : Addr) (len : Nat) : (h.zeroed p len).Sized := by
  refine ⟨mapped_overwritten hs.mapped, fun b hb => ?_⟩
  have hle := size_headerAt_zeroed_le hs.mapped p len (hs.mapped.map.block_bounds hb).1
  exact hle.trans (hs.size_le b hb)

/-- What is written outside the table leaves all sizes. -/
theorem overwritten {a : Addr} {bytes : List UInt8}
    (houtside : Set.Ico a (a + bytes.length) ⊆ h.layout.tableᶜ) :
    (h.overwritten a bytes).Sized := by
  refine ⟨mapped_overwritten hs.mapped, fun b hb => ?_⟩
  rw [headerAt_overwritten hs.mapped houtside (hs.mapped.map.block_bounds hb).1]
  exact hs.size_le b hb

/-- Upkeep puts only headers of the same size into the table. -/
theorem upkeep (hu : Upkeep h h') : h'.Sized := by
  cases hu with
  | putHeader howns _ hsize =>
    refine hs.putHeader howns fun b hb hstart => ?_
    rw [hsize, ← hstart]
    exact hs.size_le b hb
  | free howns => exact hs.freed howns

theorem upkept (hu : Upkept h h') : h'.Sized := by
  induction hu with
  | refl => exact hs
  | tail _ hstep ih => exact ih.upkeep hstep

/-- The object that is allocated gets a tag, a header of the same size and a clear payload. -/
theorem withObject {tag : Tag} {size : Nat}
    (hfit : h.map.firstFit? h.layout.stop (h.layout.footprint size) = some p) :
    (h.withObject tag p size).Sized := by
  have howns := owns_withBlock hs.mapped hfit
  refine Sized.zeroed ?_ p size
  refine (hs.withBlock hfit).putHeader howns fun b hb hstart => ?_
  have hself := (hs.withBlock hfit).size_le b hb
  rwa [hstart, headerAt_withBlock_self hs.mapped hfit] at hself

/-- A fitting request leaves no header too large, however much it clears. -/
theorem after {request : Request} (hr : request.Fitting h) : (request.run.after h).Sized := by
  have hout := request.outcome hs.mapped
  generalize request.handsOut h = answer, request.run.after h = h' at hout ⊢
  cases hout with
  | unchanged => exact hs
  | alloc hfit => exact hs.withBlock hfit
  | allocate hfit => exact hs.withObject hfit
  | free hp => exact hs.freed hp
  | setHeader hp _ => exact hs.putHeader hp hr
  | clearPayload _ => exact hs.zeroed _ _
  | sweep hupkept => exact hs.upkept hupkept
  | write => exact hs.overwritten hr

/-- The payload of a block ends before the block does. -/
theorem readsInside (hb : b ∈ h.map.blocks) : ReadsInside h b := by
  have howns : h.owns b.start := owns_iff.mpr ⟨b, hb, rfl⟩
  obtain ⟨hboundary, hstop, -, -⟩ := hs.mapped.map.block_bounds hb
  have hsize : (h.headerAt b.start).size ≤ b.size := hs.size_le b hb
  have hle : b.start + (h.headerAt b.start).size ≤ h.memory.bytes.size := by
    have hmem := hs.mapped.layout.stop_le
    simp only [Extent.stop, Memory.size] at hstop hmem
    lia
  refine ⟨_, hsize, h.payloadAt b.start, ?_, ?_, rfl⟩
  · rw [payload, if_pos howns, readHeader_eq hs.mapped.layout hboundary]
    exact if_pos hle
  · rw [payloadAt, Array.size_extract, Nat.min_eq_left hle, Nat.add_sub_cancel_left]

end Sized

/-- To clear no more than a block is not refused and changes nothing but the block. -/
theorem clearPayload_inside (hm : h.Mapped) (hb : b ∈ h.map.blocks) (hlen : len ≤ b.size) :
    (clearPayload b.start len).refusal? h = none ∧ ClearsInside h b len := by
  have howns : h.owns b.start := owns_iff.mpr ⟨b, hb, rfl⟩
  obtain ⟨-, hstop, -, -⟩ := hm.map.block_bounds hb
  have hfits : b.start + len ≤ h.memory.size := by
    have hmem := hm.layout.stop_le
    simp only [Extent.stop] at hstop
    lia
  have hok := clearPayload_eq howns hfits
  refine ⟨by rw [Action.refusal?, hok], .inr ?_⟩
  rw [Action.after_of_eq_ok hok]
  refine (h.agreeOn_zeroed b.start len).mono ?_
  exact Set.compl_subset_compl.mpr (Set.Ico_subset_Ico_right (Nat.add_le_add_left hlen _))

/-- A new heap has no blocks, and so no header that is too large for one. -/
theorem sized_of_create {memory : Memory} {layout : Layout} (hc : create memory layout = .ok h) :
    h.Sized :=
  ⟨mapped_of_create hc, fun b hb => absurd (owns_iff.mpr ⟨b, hb, rfl⟩) (not_owns_of_create hc)⟩

/-- By induction over its history, no header of a heap is too large if only fitting ones have been
put in. -/
theorem Reachable.sized (hs : Reachable (fun h request => request.Fitting h) s) : s.heap.Sized := by
  induction hs with
  | start _ hcreated => exact sized_of_create hcreated
  | next _ hr ih => exact ih.after hr

/-- If no header has been put into the table that is too large for its block, then payloads lie in
their blocks, and clearing within a block changes nothing outside. -/
theorem Reachable.enclosed (hs : Reachable (fun h request => request.Fitting h) s)
    (hb : b ∈ s.heap.map.blocks) : ReadsInside s.heap b ∧ ∀ len ≤ b.size,
      (clearPayload b.start len).refusal? s.heap = none ∧ ClearsInside s.heap b len :=
  ⟨hs.sized.readsInside hb, fun _ hlen => clearPayload_inside hs.sized.mapped hb hlen⟩

/-- The headers of both blocks are cleared here, by way of the first one. -/
theorem enclosed_small : let s := History.small.serve [.alloc 4, .allocate .list 12,
      .setHeader 8 (.setMark (.fresh .cell 8)), .clearPayload 8 40]
    ⟨16, 16, true⟩ ∈ s.heap.map.blocks ∧ ReadsInside s.heap ⟨16, 16, true⟩ ∧ ∀ len ≤ 16,
      (clearPayload 16 len).refusal? s.heap = none ∧ ClearsInside s.heap ⟨16, 16, true⟩ len := by
  intro s
  let admits : BlockHeap → Request → Prop := fun h request => request.Fitting h
  have hblocks : Reachable admits (History.small.serve [.alloc 4, .allocate .list 12]) :=
    (reachable_small admits).serve (by simp [admits, Request.Fitting])
  have hfits : ∀ b ∈ (History.small.serve [.alloc 4, .allocate .list 12]).heap.map.blocks,
      b.start = 8 → (Header.setMark (.fresh .cell 8)).size ≤ b.size := by decide +kernel
  have hheader : Reachable admits (History.small.serve [.alloc 4, .allocate .list 12,
      .setHeader 8 (.setMark (.fresh .cell 8))]) := hblocks.next hfits
  have hs : Reachable admits s := hheader.next trivial
  have hb : ⟨16, 16, true⟩ ∈ s.heap.map.blocks := by decide +kernel
  exact ⟨hb, hs.enclosed hb⟩

/-- Of a block in use more can be read, and more be cleared, than the block has bytes. -/
theorem not_enclosed :
    (¬ ∀ s, Reachable (fun _ request => ∀ a bytes, request ≠ .write a bytes) s →
      ∀ b ∈ s.heap.map.blocks, ReadsInside s.heap b) ∧
    ¬ ∀ s, Reachable (fun _ request => ∀ a bytes, request ≠ .write a bytes) s →
      ∀ b ∈ s.heap.map.blocks, ∀ len, ClearsInside s.heap b len := by
  -- The block at 8 has eight bytes, and its header says twelve.
  let s := History.small.serve [.alloc 4, .setHeader 8 (.fresh .untagged 12)]
  have hs : Reachable (fun _ request => ∀ a bytes, request ≠ .write a bytes) s :=
    (reachable_small _).serve (by simp)
  have hb : ⟨8, 8, true⟩ ∈ s.heap.map.blocks := by decide +kernel
  constructor
  · intro hclaim
    obtain ⟨len, hlen, payload, hok, hsize, -⟩ := hclaim s hs _ hb
    have hread : (s.heap.payload 8).toOption.map Array.size = some 12 := by decide +kernel
    rw [hok] at hread
    have htwelve : len = 12 := hsize.symm.trans (Option.some.inj hread)
    have height : len ≤ 8 := hlen
    omega
  · intro hclaim
    have hok : (clearPayload 8 16).refusal? s.heap = none := by decide +kernel
    rcases hclaim s hs _ hb 16 with hrefused | hagree
    · exact hrefused hok
    · -- The byte behind the block was 255 before, and is 0 now.
      have hbyte := hagree.getElem?_eq 16 (by simp [Extent.stop])
      exact absurd hbyte (by decide +kernel)

end MarkSweep.BlockHeap
