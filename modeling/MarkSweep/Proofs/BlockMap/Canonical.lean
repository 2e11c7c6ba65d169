import MarkSweep.Proofs.BlockMap

/-!
# Block maps are canonical

A valid block map has no choice in how it records what is free. Two blocks that touch have nothing
between them, two that do not have one free extent between them, and the same goes for the space
before the first block and behind the last (`Extent.fill`, `Extent.Tiles.eq_fill`).

So the blocks and the frontier determine the map (`BlockMap.Valid.eq_of_blocks_eq`), whatever has
been split and joined on the way to it. In particular the map of a region without blocks is one free
extent, if anything at all (`BlockMap.Valid.eq_of_blocks_eq_nil`).
-/

namespace MarkSweep

namespace Extent

/-- The space `[a, b)` as a free extent. There is none if the space is empty. -/
def gap (a b : Addr) : List Extent := if a < b then [⟨a, b - a, false⟩] else []

/-- The extents of `[a, b)` when the given ones are the blocks: whatever they leave is a gap. -/
def fill (a b : Addr) : List Extent → List Extent
  | [] => gap a b
  | e :: es => gap a e.start ++ e :: fill e.stop b es

variable {g : Nat} {a b : Addr} {e : Extent} {es : List Extent}

@[simp]
theorem gap_self (a : Addr) : gap a a = [] := if_neg (lt_irrefl a)

/-- A free extent is the gap between its ends. -/
theorem gap_eq_singleton (hfree : e.used = false) (hpos : 0 < e.size) :
    gap e.start e.stop = [e] := by
  obtain ⟨start, size, used⟩ := e
  obtain rfl : used = false := hfree
  have hlt : start < start + size := Nat.lt_add_of_pos_right hpos
  show gap start (start + size) = _
  rw [gap, if_pos hlt, Nat.add_sub_cancel_left]

/-- A tiling without free neighbours is what its blocks leave no choice about. -/
theorem Tiles.eq_fill (h : Tiles g a es b) (hes : es.IsChain Apart) :
    es = fill a b (es.filter (·.used)) := by
  induction es generalizing a with
  | nil =>
    obtain rfl : a = b := h
    exact (gap_self a).symm
  | cons e es ih =>
    obtain ⟨rfl, hpos, -, hrest⟩ := h
    have hfill := ih hrest hes.tail
    cases hused : e.used with
    | true => rw [List.filter_cons_of_pos hused, fill, gap_self, List.nil_append, ← hfill]
    | false =>
      rw [List.filter_cons_of_neg (by simp [hused])]
      -- The gap that `e` is ends where the next extent starts, for that one is in use.
      cases es with
      | nil =>
        obtain rfl : e.stop = b := hrest
        exact (gap_eq_singleton hused hpos).symm
      | cons f fs =>
        have hf : f.used := (List.isChain_cons_cons.mp hes).1.resolve_left (by simp [hused])
        have hstart : f.start = e.stop := hrest.1
        rw [List.filter_cons_of_pos hf, fill, hstart] at hfill ⊢
        rw [gap_self, List.nil_append] at hfill
        rw [gap_eq_singleton hused hpos, ← hfill]
        rfl

end Extent

attribute [ext] BlockMap

namespace BlockMap.Valid

variable {l : Layout} {m m' : BlockMap} (h : m.Valid l)

include h

/-- Of the extents of a map only the blocks and the frontier are free to choose. -/
theorem extents_eq_fill : m.extents = Extent.fill l.start m.frontier m.blocks :=
  h.tiles.eq_fill h.apart

/-- Two maps of a region are the same if their blocks and their frontiers are. -/
theorem eq_of_blocks_eq (h' : m'.Valid l) (hblocks : m'.blocks = m.blocks)
    (hfrontier : m'.frontier = m.frontier) : m' = m := by
  ext1
  · rw [h'.extents_eq_fill, h.extents_eq_fill, hblocks, hfrontier]
  · exact hfrontier
  · rw [h'.usedBytes_eq, h.usedBytes_eq, hblocks]
  · rw [h'.usedBlocks_eq, h.usedBlocks_eq, hblocks]

/-- A region without blocks is free up to the frontier. -/
theorem eq_of_blocks_eq_nil (hblocks : m.blocks = []) :
    m = ⟨Extent.gap l.start m.frontier, m.frontier, 0, 0⟩ := by
  ext1
  · rw [h.extents_eq_fill, hblocks, Extent.fill]
  · rfl
  · rw [h.usedBytes_eq, hblocks, Extent.totalSize]
  · rw [h.usedBlocks_eq, hblocks, List.length_nil]

end BlockMap.Valid

end MarkSweep
