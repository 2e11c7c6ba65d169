import MarkSweep.Proofs.BlockHeap.Frames
import MarkSweep.Proofs.BlockHeap.Space

/-!
# The order in which blocks are given back

Blocks that are given back one after the other leave the same heap behind, in whatever order that
happens (`Reachable.free_in_any_order`). The ways there are different: a block may find free space
in front of it, behind it, on both sides or on neither, depending on what has gone before. But the
blocks that are left at the end are the same, the frontier has not moved, and these two determine
the map. The header words lie apart, so it does not matter either which of them is written first.

All this is said of two blocks (`freed_comm`), and any order can be turned into any other by
exchanging two at a time (`allFreed_perm`).
-/

namespace MarkSweep.BlockHeap

/-- Gives the blocks at the listed addresses back, one after the other. -/
def freeAll : List Addr → Action BlockHeap Unit
  | [] => return ()
  | p :: ps => do
    free p
    freeAll ps

/-- The heap with the blocks at the listed addresses given back, the first one first. -/
def allFreed (ps : List Addr) (h : BlockHeap) : BlockHeap := ps.foldl (fun h p => h.freed p) h

/-- The listed addresses are those of different blocks. -/
structure Distinct (ps : List Addr) (h : BlockHeap) : Prop where
  owns : ∀ p ∈ ps, h.owns p
  nodup : ps.Nodup

variable {h : BlockHeap} {s : History} {p q : Addr} {ps qs : List Addr}

theorem allFreed_cons (h : BlockHeap) (p : Addr) (ps : List Addr) :
    h.allFreed (p :: ps) = (h.freed p).allFreed ps := rfl

/-- Of the memory, giving a block back changes the header word. -/
theorem freed_memory (h : BlockHeap) (p : Addr) : (h.freed p).memory =
    h.memory.overwrite (h.layout.headerAddr p) (Word.bytes (h.headerAt p).released.toWord) := by
  rw [freed, putHeader]

/-! ### Two blocks -/

/-- Two different blocks may be given back in either order. -/
theorem freed_comm (hm : h.Mapped) (hp : h.owns p) (hq : h.owns q) (hpq : p ≠ q) :
    (h.freed p).freed q = (h.freed q).freed p := by
  have hmp := mapped_freed hm hp
  have hmq := mapped_freed hm hq
  have hp' : (h.freed q).owns p := (owns_freed_iff hm hq).mpr ⟨hp, hpq⟩
  have hq' : (h.freed p).owns q := (owns_freed_iff hm hp).mpr ⟨hq, hpq.symm⟩
  have hlayout : ((h.freed p).freed q).layout = ((h.freed q).freed p).layout := by
    simp only [freed_layout]
  ext1
  · exact hlayout
  · -- Each of the two writes its own header word, with what stands there at the beginning.
    rw [freed_memory, freed_memory, freed_memory, freed_memory, freed_layout, freed_layout,
      headerAt_freed_of_ne hm hp (hm.boundary hq) hpq.symm,
      headerAt_freed_of_ne hm hq (hm.boundary hp) hpq]
    apply Memory.overwrite_comm
    exact Layout.headerAddr_apart (hm.boundary hp) (hm.boundary hq) hpq
  · -- How the two are joined to their neighbours may differ, but not what comes of it.
    refine (mapped_freed hmq hp').map_eq_of_blocks_eq (mapped_freed hmp hq') hlayout ?_ ?_
    · rw [blocks_freed hmp hq', blocks_freed hm hp, blocks_freed hmq hp', blocks_freed hm hq,
        List.filter_comm]
    · simp only [freed_map, BlockMap.frontier_release]

/-! ### Any number of blocks -/

/-- When the first of several blocks has been given back, the others are still there. -/
theorem Distinct.freed (hps : Distinct (p :: ps) h) (hm : h.Mapped) :
    h.owns p ∧ Distinct ps (h.freed p) := by
  obtain ⟨howns, hnodup⟩ := hps
  obtain ⟨hp, howns⟩ := List.forall_mem_cons.mp howns
  obtain ⟨hnew, hnodup⟩ := List.nodup_cons.mp hnodup
  refine ⟨hp, fun q hq => (owns_freed_iff hm hp).mpr ⟨howns q hq, ?_⟩, hnodup⟩
  rintro rfl
  exact hnew hq

/-- The order of a list does not matter to whether its blocks can be given back. -/
theorem Distinct.perm (hps : Distinct ps h) (hperm : ps.Perm qs) : Distinct qs h :=
  ⟨fun q hq => hps.owns q (hperm.mem_iff.mpr hq), hperm.nodup_iff.mp hps.nodup⟩

/-- None of the blocks is refused. -/
theorem freeAll_eq (hm : h.Mapped) (hps : Distinct ps h) : freeAll ps h = .ok () (h.allFreed ps) := by
  induction ps generalizing h with
  | nil => rfl
  | cons p ps ih =>
    obtain ⟨hp, hrest⟩ := hps.freed hm
    rw [freeAll, Action.bind_of_eq_ok (free_eq hm hp), ih (mapped_freed hm hp) hrest, allFreed_cons]

/-- To give back one block after the other is upkeep. -/
theorem upkept_allFreed (hm : h.Mapped) (hps : Distinct ps h) : Upkept h (h.allFreed ps) := by
  induction ps generalizing h with
  | nil => exact .refl
  | cons p ps ih =>
    obtain ⟨hp, hrest⟩ := hps.freed hm
    exact .head (.free hp) (ih (mapped_freed hm hp) hrest)

/-- What is left are the blocks that have not been listed. -/
theorem blocks_allFreed (hm : h.Mapped) (hps : Distinct ps h) :
    (h.allFreed ps).map.blocks = h.map.blocks.filter (·.start ∉ ps) := by
  induction ps generalizing h with
  | nil => exact (List.filter_eq_self.mpr fun _ _ => by simp).symm
  | cons p ps ih =>
    obtain ⟨hp, hrest⟩ := hps.freed hm
    rw [allFreed_cons, ih (mapped_freed hm hp) hrest, blocks_freed hm hp, List.filter_filter]
    refine List.filter_congr fun b _ => ?_
    simp [Bool.and_comm]

/-- Two orders of the same blocks lead to the same heap. -/
theorem allFreed_perm (hm : h.Mapped) (hps : Distinct ps h) (hperm : ps.Perm qs) :
    h.allFreed ps = h.allFreed qs := by
  induction hperm generalizing h with
  | nil => rfl
  | cons p _ ih =>
    obtain ⟨hp, hrest⟩ := hps.freed hm
    exact ih (mapped_freed hm hp) hrest
  | swap p q ps =>
    have hp : h.owns p := hps.owns p (List.mem_cons_of_mem _ List.mem_cons_self)
    have hq : h.owns q := hps.owns q List.mem_cons_self
    have hqp : q ≠ p := fun heq => (List.nodup_cons.mp hps.nodup).1 (heq ▸ List.mem_cons_self)
    show ((h.freed q).freed p).allFreed ps = ((h.freed p).freed q).allFreed ps
    rw [freed_comm hm hq hp hqp]
  | trans hperm _ ih ih' => exact (ih hm hps).trans (ih' hm (hps.perm hperm))

/-- When all blocks have been given back, all space up to the frontier is one free extent. -/
theorem map_allFreed (hm : h.Mapped) (hps : Distinct ps h) (hall : ∀ p, h.owns p → p ∈ ps) :
    (h.allFreed ps).map = ⟨Extent.gap h.layout.start h.map.frontier, h.map.frontier, 0, 0⟩ := by
  have hupkept := upkept_allFreed hm hps
  have hblocks : (h.allFreed ps).map.blocks = [] := by
    rw [blocks_allFreed hm hps, List.filter_eq_nil_iff]
    intro b hb
    simpa using hall b.start (owns_iff.mpr ⟨b, hb, rfl⟩)
  -- Without blocks, a map has nothing left to tell but how far the frontier has come.
  have hmap := (hupkept.mapped hm).map.eq_of_blocks_eq_nil hblocks
  rwa [hupkept.layout_eq, hupkept.frontier_eq] at hmap

/-- Different blocks can be given back in any order, and the heap is the same afterwards, its map
and every byte of its memory. If they are all blocks there are, then what is left of the map is one
free extent up to the frontier, or nothing if no block has ever been handed out. -/
theorem Reachable.free_in_any_order (hs : Reachable (fun _ _ => True) s)
    (hps : ∀ p ∈ ps, s.heap.owns p) (hnodup : ps.Nodup) (hperm : ps.Perm qs) :
    ∃ h', freeAll ps s.heap = .ok () h' ∧ freeAll qs s.heap = .ok () h' ∧
      ((∀ p, s.heap.owns p → p ∈ ps) → h'.map = {
        extents :=
          if s.handed = [] then []
          else [⟨s.heap.layout.start, s.heap.map.frontier - s.heap.layout.start, false⟩]
        frontier := s.heap.map.frontier
        usedBytes := 0
        usedBlocks := 0 }) := by
  have hm := hs.mapped
  have hdistinct : Distinct ps s.heap := ⟨hps, hnodup⟩
  refine ⟨s.heap.allFreed ps, freeAll_eq hm hdistinct, ?_, fun hall => ?_⟩
  · rw [allFreed_perm hm hdistinct hperm]
    exact freeAll_eq hm (hdistinct.perm hperm)
  · have hle : s.heap.layout.start ≤ s.heap.map.frontier :=
      (Nat.le_add_left _ _).trans hm.map.tiles.length_add_le
    rw [map_allFreed hm hdistinct hall, Extent.gap]
    by_cases hnone : s.handed = []
    · rw [if_pos hnone, if_neg (hs.handed_eq_nil_iff.mp hnone).not_gt]
    · have hne := mt hs.handed_eq_nil_iff.mpr hnone
      rw [if_neg hnone, if_pos (lt_of_le_of_ne hle (Ne.symm hne))]

/-- From the left to the right, every block finds free space in front of it. In the other order, the
last one finds free space on both sides. -/
theorem free_in_any_order_small :
    let s := History.small.serve [.alloc 8, .allocate .blob 3, .alloc 5]
    ∃ h', freeAll [8, 16, 24] s.heap = .ok () h' ∧ freeAll [24, 8, 16] s.heap = .ok () h' ∧
      h'.map = ⟨[⟨8, 24, false⟩], 32, 0, 0⟩ := by
  intro s
  have hs : Reachable (fun _ _ => True) s := (reachable_small _).serve (by simp)
  have hblocks : s.heap.map.blocks = [⟨8, 8, true⟩, ⟨16, 8, true⟩, ⟨24, 8, true⟩] := by
    decide +kernel
  have howns : ∀ p, s.heap.owns p ↔ p ∈ [8, 16, 24] := by
    intro p
    rw [owns_iff, hblocks]
    simp [eq_comm]
  have hperm : [8, 16, 24].Perm [24, 8, 16] := by decide
  obtain ⟨h', hleft, hboth, hmap⟩ :=
    hs.free_in_any_order (fun p => (howns p).mpr) (by decide) hperm
  refine ⟨h', hleft, hboth, (hmap fun p => (howns p).mp).trans ?_⟩
  decide +kernel

end MarkSweep.BlockHeap
