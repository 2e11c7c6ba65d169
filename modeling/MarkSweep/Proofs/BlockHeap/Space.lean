import Mathlib.Order.Bounds.Lattice
import MarkSweep.Proofs.BlockHeap.History

/-!
# The space of a block heap

At every moment of every history the extents of the map divide the space between the start of the
region and the frontier, without gaps, overlaps or free neighbours; the counters are those of the
extents; and the frontier is the greatest address at which a block has ever ended
(`BlockHeap.Reachable.divided`). None of this depends on the contents of the memory: it holds even
if a program has overwritten the header table.
-/

namespace MarkSweep.BlockHeap

/-- The addresses at which the blocks ever handed out have ended. -/
def History.ends (s : History) : Set Addr := {a | ∃ b ∈ s.handed, a = b.addr + b.footprint}

/-- The frontier is the greatest address at which a block has ever ended. Before the first block it
is the start of the region. -/
def History.FrontierReached (s : History) : Prop :=
  (s.handed = [] ∧ s.heap.map.frontier = s.heap.layout.start) ∨
    IsGreatest s.ends s.heap.map.frontier

/-- How the extents of the map divide the space of the region. -/
structure Divided (s : History) : Prop where
  /-- The extents cover the space up to the frontier one after the other. -/
  tiles : Extent.Tiles s.heap.layout.granule s.heap.layout.start s.heap.map.extents
    s.heap.map.frontier
  /-- Each takes some number of whole granules. -/
  size : ∀ e ∈ s.heap.map.extents, e.size ≠ 0 ∧ s.heap.layout.granule ∣ e.size
  /-- The frontier lies in the region, or right behind it. -/
  frontier_mem : s.heap.map.frontier ∈ Set.Icc s.heap.layout.start s.heap.layout.stop
  /-- Of two neighbours at least one is in use. -/
  apart : s.heap.map.extents.IsChain fun e f => e.used ∨ f.used
  usedBytes_eq : s.heap.map.usedBytes = Extent.totalSize (s.heap.map.extents.filter (·.used))
  usedBlocks_eq : s.heap.map.usedBlocks = (s.heap.map.extents.filter (·.used)).length
  /-- Used, released and untouched bytes are all bytes there are. -/
  usage_eq : s.heap.usage.usedBytes + s.heap.usage.freeBytes + s.heap.usage.untouchedBytes =
    s.heap.usage.totalBytes
  frontier : s.FrontierReached

variable {W : Set Addr} {s t : History}

/-- With a block that is handed out its end is added. -/
theorem ends_take (h : BlockHeap) (b : Block) (s : History) :
    History.ends ⟨h, b :: s.handed⟩ = insert (b.addr + b.footprint) s.ends := by
  ext a
  simp [History.ends]

/-- A block that is taken into use ends at the new frontier, or before the old one. -/
theorem frontierReached_take {p : Addr} {size : Nat} (hm : s.heap.Mapped)
    (hfit : s.heap.map.firstFit? s.heap.layout.stop (s.heap.layout.footprint size) = some p)
    (hs : s.FrontierReached) : History.FrontierReached
      ⟨s.heap.withBlock p size, ⟨p, s.heap.layout.footprint size⟩ :: s.handed⟩ := by
  have hfrontier : (s.heap.withBlock p size).map.frontier =
      max (p + s.heap.layout.footprint size) s.heap.map.frontier := by
    rw [withBlock, putHeader_map]
    exact max_comm _ _
  refine .inr ?_
  rw [ends_take, hfrontier]
  rcases hs with ⟨hnone, hstart⟩ | hgreatest
  · -- The first block ends behind the start of the region.
    have hp := (Layout.isBoundary_iff.mp (firstFit_bounds hm hfit).1).1
    have hends : s.ends = ∅ := by simp [History.ends, hnone]
    rw [hends, hstart, max_eq_left (hp.trans (Nat.le_add_right _ _)), insert_empty_eq]
    exact isGreatest_singleton
  · exact hgreatest.insert _

/-- Behind a block that is taken into use the frontier has left the start of the region. -/
theorem start_lt_frontier_withBlock {h : BlockHeap} {p : Addr} {size : Nat} (hm : h.Mapped)
    (hfit : h.map.firstFit? h.layout.stop (h.layout.footprint size) = some p) :
    h.layout.start < (h.withBlock p size).map.frontier := by
  have hp := (Layout.isBoundary_iff.mp (firstFit_bounds hm hfit).1).1
  have hpos := hm.layout.footprint_pos size
  rw [withBlock, putHeader_map]
  show _ < max h.map.frontier (p + h.layout.footprint size)
  lia

/-- Each change keeps in step whether a block has been handed out and whether the frontier has
moved. -/
theorem Change.handed_eq_nil_iff (hc : Change W s t) (hm : s.heap.Mapped)
    (hs : s.handed = [] ↔ s.heap.map.frontier = s.heap.layout.start) :
    t.handed = [] ↔ t.heap.map.frontier = t.heap.layout.start := by
  cases hc with
  | take hfit =>
    refine iff_of_false (List.cons_ne_nil _ _) ?_
    rw [withBlock_layout]
    exact (start_lt_frontier_withBlock hm hfit).ne'
  | putHeader _ _ => rwa [putHeader_map, putHeader_layout]
  | free _ => rwa [freed_map, BlockMap.frontier_release, freed_layout]
  | overwrite _ => exact hs

/-- Each change leaves the frontier where the highest block has ended. -/
theorem Change.frontierReached (hc : Change W s t) (hm : s.heap.Mapped)
    (hs : s.FrontierReached) : t.FrontierReached := by
  cases hc with
  | take hfit => exact frontierReached_take hm hfit hs
  | @putHeader p hd _ _ =>
    simpa only [History.FrontierReached, History.ends, putHeader_map, putHeader_layout] using hs
  | @free p _ =>
    simpa only [History.FrontierReached, History.ends, freed_map, freed_layout,
      BlockMap.frontier_release] using hs
  | overwrite _ => exact hs

/-- The extents and the space behind the frontier add up to the region. -/
theorem usage_eq_of_mapped {h : BlockHeap} (hm : h.Mapped) :
    h.usage.usedBytes + h.usage.freeBytes + h.usage.untouchedBytes = h.usage.totalBytes := by
  have hsum := Extent.totalSize_used_add_free h.map.extents
  have htiles := hm.map.tiles.add_totalSize
  have hbytes := hm.map.usedBytes_eq
  have hle := hm.map.frontier_le
  rw [BlockMap.blocks] at hbytes
  simp only [usage, hbytes]
  lia

/-- What is known of the map and its frontier is how it divides the region. -/
theorem divided_of_mapped (hm : s.heap.Mapped) (hfrontier : s.FrontierReached) : Divided s where
  tiles := hm.map.tiles
  size e he := by
    obtain ⟨-, -, hpos, hdvd, -⟩ := hm.map.tiles.bounds he
    exact ⟨hpos.ne', hdvd⟩
  frontier_mem := ⟨(Nat.le_add_left _ _).trans hm.map.tiles.length_add_le, hm.map.frontier_le⟩
  apart := hm.map.apart
  usedBytes_eq := hm.map.usedBytes_eq
  usedBlocks_eq := hm.map.usedBlocks_eq
  usage_eq := usage_eq_of_mapped hm
  frontier := hfrontier

/-- Whatever is asked of a heap, and whatever is written into its memory, the extents of its map
divide the space that it has handed out. -/
theorem Reachable.divided (hs : Reachable (fun _ _ => True) s) : Divided s := by
  have hinvariant : s.heap.Mapped ∧ s.FrontierReached := by
    refine hs.invariant (P := fun s => s.heap.Mapped ∧ s.FrontierReached) (fun _ => Set.univ)
      (fun _ h => h.1) (fun _ _ => Set.subset_univ _) (fun _ _ _ _ => Set.subset_univ _) ?_ ?_
    · intro memory layout heap _ hcreated
      obtain ⟨-, hlayout, -, hmap⟩ := create_eq_ok hcreated
      refine ⟨mapped_of_create hcreated, .inl ⟨rfl, ?_⟩⟩
      rw [hmap, hlayout]
      rfl
    · rintro s t ⟨hm, hfrontier⟩ hc
      exact ⟨hc.mapped hm, hc.frontierReached hm hfrontier⟩
  exact divided_of_mapped hinvariant.1 hinvariant.2

/-- Nothing has been handed out as long as the frontier stands at the start of the region. -/
theorem Reachable.handed_eq_nil_iff (hs : Reachable (fun _ _ => True) s) :
    s.handed = [] ↔ s.heap.map.frontier = s.heap.layout.start := by
  have hinvariant : s.heap.Mapped ∧
      (s.handed = [] ↔ s.heap.map.frontier = s.heap.layout.start) := by
    refine hs.invariant (P := fun s => s.heap.Mapped ∧
      (s.handed = [] ↔ s.heap.map.frontier = s.heap.layout.start)) (fun _ => Set.univ)
      (fun _ h => h.1) (fun _ _ => Set.subset_univ _) (fun _ _ _ _ => Set.subset_univ _) ?_ ?_
    · intro memory layout heap _ hcreated
      obtain ⟨-, hlayout, -, hmap⟩ := create_eq_ok hcreated
      refine ⟨mapped_of_create hcreated, iff_of_true rfl ?_⟩
      rw [hmap, hlayout]
      rfl
    · rintro s t ⟨hm, hfrontier⟩ hc
      exact ⟨hc.mapped hm, hc.handed_eq_nil_iff hm hfrontier⟩
  exact hinvariant.2

/-- Three blocks are allocated, the table is overwritten, the sweep stops at the second block, and
the space of the first one is handed out again, in part. -/
theorem divided_small :
    let s := History.small.serve [.alloc 16, .allocate .blob 3, .allocate .cell 4,
      .write 48 [0, 0, 0, 0], .sweep, .alloc 5]
    s.heap.map.extents = [⟨8, 8, true⟩, ⟨16, 8, false⟩, ⟨24, 8, true⟩, ⟨32, 8, true⟩] ∧
      Divided s := by
  intro s
  exact ⟨by decide +kernel, ((reachable_small _).serve (by simp)).divided⟩

end MarkSweep.BlockHeap
