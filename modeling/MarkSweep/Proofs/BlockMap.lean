import Mathlib.Data.List.Chain
import MarkSweep.BlockMap
import MarkSweep.Proofs.Layout

/-!
# Invariant of the block map

The extents of a block map tile the address space between the start of the region and the frontier,
no two free ones side by side, and the counters are right (`BlockMap.Valid`). The invariant holds of
the empty map (`valid_empty`) and is kept by both operations:

* `Valid.occupy` and `Valid.blocks_occupy`: taking the first fit into use adds one block;
* `Valid.release` and `Valid.blocks_release`: giving a block back removes it.

That blocks do not overlap is read off the tiling (`Valid.eq_or_apart`).
-/

namespace MarkSweep

namespace Extent

/-- The extents cover `[a, b)` from left to right, each with a positive number of whole granules. -/
def Tiles (granule : Nat) (a : Addr) : List Extent → Addr → Prop
  | [], b => a = b
  | e :: es, b => e.start = a ∧ 0 < e.size ∧ granule ∣ e.size ∧ Tiles granule e.stop es b

/-- Two neighbours that are not both free. -/
def Apart (e f : Extent) : Prop := e.used ∨ f.used

variable {g : Nat} {a b : Addr} {e : Extent} {es fs : List Extent}

/-- A tiling may be cut between any two of its extents. -/
theorem tiles_append : Tiles g a (es ++ fs) b ↔ ∃ c, Tiles g a es c ∧ Tiles g c fs b := by
  induction es generalizing a with
  | nil => simp [Tiles]
  | cons e es ih => simp only [List.cons_append, Tiles, ih]; grind

namespace Tiles

/-- Each extent takes at least one byte. -/
theorem length_add_le (h : Tiles g a es b) : es.length + a ≤ b := by
  induction es generalizing a with
  | nil => exact (Nat.zero_add a).trans_le (Nat.le_of_eq h)
  | cons e es ih =>
    obtain ⟨hstart, hpos, -, hrest⟩ := h
    have hle := ih hrest
    simp only [List.length_cons, stop] at hle ⊢
    lia

/-- Nothing but the empty list tiles an empty range. -/
theorem eq_nil (h : Tiles g a es a) : es = [] := by
  have hle := h.length_add_le
  exact List.length_eq_zero_iff.mp (by lia)

/-- The extents of a tiling are as large as what they cover. -/
theorem add_totalSize (h : Tiles g a es b) : a + totalSize es = b := by
  induction es generalizing a with
  | nil => exact h
  | cons e es ih =>
    obtain ⟨rfl, -, -, hrest⟩ := h
    rw [totalSize, ← Nat.add_assoc]
    exact ih hrest

/-- Where the extents of a tiling lie. -/
theorem bounds (h : Tiles g a es b) (he : e ∈ es) :
    a ≤ e.start ∧ e.stop ≤ b ∧ 0 < e.size ∧ g ∣ e.size ∧ g ∣ e.start - a := by
  induction es generalizing a with
  | nil => exact absurd he List.not_mem_nil
  | cons f es ih =>
    obtain ⟨hstart, hpos, hdvd, hrest⟩ := h
    have hle := hrest.length_add_le
    rcases List.mem_cons.mp he with rfl | he
    · refine ⟨hstart.ge, by lia, hpos, hdvd, ?_⟩
      rw [hstart, Nat.sub_self]
      exact Nat.dvd_zero g
    · obtain ⟨h₁, h₂, h₃, h₄, h₅⟩ := ih hrest he
      simp only [stop] at h₁ h₅ ⊢
      refine ⟨by lia, h₂, h₃, h₄, ?_⟩
      -- From `a` it is as far as from the stop of `f`, and the size of `f` more.
      have hsum : e.start - a = (e.start - (f.start + f.size)) + f.size := by lia
      rw [hsum]
      exact Nat.dvd_add h₅ hdvd

/-- In a tiling, every extent ends before the next ones start. -/
theorem pairwise (h : Tiles g a es b) : es.Pairwise fun e f => e.stop ≤ f.start := by
  induction es generalizing a with
  | nil => exact List.Pairwise.nil
  | cons e es ih =>
    obtain ⟨-, -, -, hrest⟩ := h
    exact List.pairwise_cons.mpr ⟨fun f hf => (hrest.bounds hf).1, ih hrest⟩

/-- The extents of a tiling start at different addresses. -/
theorem pairwise_start_ne (h : Tiles g a es b) : es.Pairwise fun e f => e.start ≠ f.start := by
  refine h.pairwise.imp_of_mem fun {e f} he _ hef => ?_
  have hpos := (h.bounds he).2.2.1
  simp only [stop] at hef
  lia

end Tiles

/-! ### Taking space into use -/

/-- Space is taken from the extent that starts at the address. -/
theorem place_append {p : Addr} {need : Nat} (hpre : ∀ f ∈ es, f.start ≠ p) (he : e.start = p) :
    place p need (es ++ e :: fs) = es ++ (e.carve need ++ fs) := by
  induction es with
  | nil => rw [List.nil_append, place, if_pos he, List.nil_append]
  | cons f es ih =>
    rw [List.cons_append, place, if_neg (hpre f List.mem_cons_self),
      ih fun x hx => hpre x (List.mem_cons_of_mem _ hx), List.cons_append]

/-- Space behind all extents is taken by a new one. -/
theorem place_of_forall_ne {p : Addr} {need : Nat} (hes : ∀ f ∈ es, f.start ≠ p) :
    place p need es = es ++ [⟨p, need, true⟩] := by
  induction es with
  | nil => rfl
  | cons f es ih =>
    rw [place, if_neg (hes f List.mem_cons_self), ih fun x hx => hes x (List.mem_cons_of_mem _ hx),
      List.cons_append]

/-! ### Joining free extents -/

/-- Joining an extent with the one behind it leaves what they cover. -/
theorem tiles_joinFree (hpos : 0 < e.size) (hdvd : g ∣ e.size) (hes : Tiles g e.stop es b) :
    Tiles g e.start (joinFree e es) b := by
  unfold joinFree
  split
  next => exact ⟨rfl, hpos, hdvd, hes⟩
  next t rest =>
    split
    · exact ⟨rfl, hpos, hdvd, hes⟩
    · obtain ⟨hstart, htpos, htdvd, hrest⟩ := hes
      refine ⟨rfl, Nat.add_pos_left hpos _, Nat.dvd_add hdvd htdvd, ?_⟩
      have hstop : t.stop = e.start + (e.size + t.size) := by
        rw [stop, hstart, stop, Nat.add_assoc]
      rwa [hstop] at hrest

/-- Joining free extents leaves the blocks. -/
theorem filter_used_joinFree :
    (joinFree e es).filter (·.used) = (e :: es).filter (·.used) := by
  unfold joinFree
  split <;> grind

/-- Joining a free extent to the first of the others leaves no two free ones side by side. -/
theorem isChain_joinFree (hes : es.IsChain Apart) : (joinFree e es).IsChain Apart := by
  unfold joinFree
  split
  next => exact List.isChain_singleton e
  next t rest =>
    split
    next h => exact List.isChain_cons_cons.mpr ⟨by simpa [Apart] using h, hes⟩
    next h =>
      cases rest with
      | nil => exact List.isChain_singleton _
      | cons r rest =>
        -- The joined extent stands where `t` stood, and `t` was free: what follows is in use.
        obtain ⟨htr, hrest⟩ := List.isChain_cons_cons.mp hes
        refine List.isChain_cons_cons.mpr ⟨Or.inr ?_, hrest⟩
        exact htr.resolve_left (by simp_all)

/-- Joining keeps the tiling. -/
theorem tiles_joinAll (h : Tiles g a es b) : Tiles g a (joinAll es) b := by
  induction es generalizing a with
  | nil => exact h
  | cons e es ih =>
    obtain ⟨rfl, hpos, hdvd, hrest⟩ := h
    exact tiles_joinFree hpos hdvd (ih hrest)

/-- Joining concerns free extents only. -/
theorem filter_used_joinAll (es : List Extent) :
    (joinAll es).filter (·.used) = es.filter (·.used) := by
  induction es with
  | nil => rfl
  | cons e es ih =>
    have hcons : joinAll (e :: es) = joinFree e (joinAll es) := rfl
    rw [hcons, filter_used_joinFree, List.filter_cons, List.filter_cons, ih]

/-- When all free neighbours have been joined, no two of them are left. -/
theorem isChain_joinAll (es : List Extent) : (joinAll es).IsChain Apart := by
  induction es with
  | nil => exact List.isChain_nil
  | cons e es ih => exact isChain_joinFree ih

/-- Freeing an extent moves none. -/
theorem tiles_map_free {p : Addr} (h : Tiles g a es b) : Tiles g a (es.map (free p)) b := by
  have hstart : ∀ x : Extent, (free p x).start = x.start := fun x => by unfold free; split <;> rfl
  have hsize : ∀ x : Extent, (free p x).size = x.size := fun x => by unfold free; split <;> rfl
  induction es generalizing a with
  | nil => exact h
  | cons e es ih =>
    obtain ⟨h₁, h₂, h₃, h₄⟩ := h
    refine ⟨by rw [hstart, h₁], by rw [hsize]; exact h₂, by rw [hsize]; exact h₃, ?_⟩
    have hstop : (free p e).stop = e.stop := by rw [stop, hstart, hsize, stop]
    rw [hstop]
    exact ih h₄

/-- Freeing what starts at an address takes it from the blocks in use. -/
theorem filter_used_map_free (p : Addr) (es : List Extent) :
    (es.map (free p)).filter (·.used) = (es.filter (·.used)).filter (·.start ≠ p) := by
  induction es with
  | nil => rfl
  | cons e es ih => rw [List.map_cons, List.filter_cons, ih]; grind [free]

theorem totalSize_perm (h : es.Perm fs) : totalSize es = totalSize fs := by
  induction h with
  | nil => rfl
  | cons e _ ih => rw [totalSize, ih, totalSize]
  | swap e f es => simp only [totalSize, Nat.add_left_comm]
  | trans _ _ ih₁ ih₂ => exact ih₁.trans ih₂

theorem totalSize_append (es fs : List Extent) :
    totalSize (es ++ fs) = totalSize es + totalSize fs := by
  induction es with
  | nil => rw [List.nil_append, totalSize, Nat.zero_add]
  | cons e es ih => rw [List.cons_append, totalSize, totalSize, ih, Nat.add_assoc]

/-- Every extent is in use or free. -/
theorem totalSize_used_add_free (es : List Extent) :
    totalSize (es.filter (·.used)) + totalSize (es.filter fun e => !e.used) = totalSize es := by
  induction es with
  | nil => rfl
  | cons e es ih => cases hused : e.used <;> simp [totalSize, hused] <;> omega

end Extent

namespace BlockMap

/-- The map of a region: the extents tile it up to the frontier, no two free ones side by side, and
the counters are those of the blocks in use. -/
structure Valid (l : Layout) (m : BlockMap) : Prop where
  tiles : Extent.Tiles l.granule l.start m.extents m.frontier
  apart : m.extents.IsChain Extent.Apart
  frontier_le : m.frontier ≤ l.stop
  usedBytes_eq : m.usedBytes = Extent.totalSize m.blocks
  usedBlocks_eq : m.usedBlocks = m.blocks.length

theorem mem_blocks {m : BlockMap} {b : Extent} : b ∈ m.blocks ↔ b ∈ m.extents ∧ b.used :=
  List.mem_filter

theorem owns_iff {m : BlockMap} {p : Addr} : m.owns p ↔ ∃ b ∈ m.blocks, b.start = p := by
  simp [owns, block?, mem_blocks, and_assoc]

/-- An address is inside no block if no extent in use has it behind its start. -/
theorem isInsideBlock_eq_false_iff {m : BlockMap} {p : Addr} : m.isInsideBlock p = false ↔
    ∀ e ∈ m.extents, e.used → ¬ (e.start < p ∧ p < e.stop) := by
  simp [isInsideBlock, Extent.isInside]

/-- Giving a block back does not move the frontier. -/
theorem frontier_release (m : BlockMap) (p : Addr) : (m.release p).frontier = m.frontier := by
  rw [release]
  split <;> rfl

/-- A map without extents is valid when its region is. -/
theorem valid_empty {l : Layout} (h : l.start ≤ l.stop) : (empty l.start).Valid l :=
  ⟨rfl, List.isChain_nil, h, rfl, rfl⟩

namespace Valid

variable {l : Layout} {m : BlockMap} {b c : Extent} {p : Addr} (h : m.Valid l)

include h

/-- Where a block lies: it starts at a granule of the region and ends within the region. -/
theorem block_bounds (hb : b ∈ m.blocks) :
    l.isBoundary b.start ∧ b.stop ≤ l.stop ∧ 0 < b.size ∧ l.granule ∣ b.size := by
  obtain ⟨h₁, h₂, h₃, h₄, h₅⟩ := h.tiles.bounds (mem_blocks.mp hb).1
  have hle := h.frontier_le
  refine ⟨Layout.isBoundary_iff.mpr ⟨h₁, ?_, h₅⟩, h₂.trans hle, h₃, h₄⟩
  simp only [Extent.stop] at h₂
  lia

/-- Blocks stand in address order and do not overlap. -/
theorem pairwise_blocks : m.blocks.Pairwise fun b c => b.stop ≤ c.start :=
  h.tiles.pairwise.filter _

/-- No two blocks start at one address. -/
theorem pairwise_blocks_start_ne : m.blocks.Pairwise fun b c => b.start ≠ c.start :=
  h.tiles.pairwise_start_ne.filter _

/-- The starts of the blocks are all different. -/
theorem nodup_starts : (m.blocks.map (·.start)).Nodup :=
  List.pairwise_map.mpr h.pairwise_blocks_start_ne

/-- The blocks in front of a block are those that start below it. -/
theorem filter_start_lt_blocks {pre post : List Extent} (hsplit : m.blocks = pre ++ b :: post) :
    (m.blocks.filter fun c => c.start < b.start) = pre := by
  have hpairwise := hsplit ▸ h.pairwise_blocks
  obtain ⟨-, hpost, hpre⟩ := List.pairwise_append.mp hpairwise
  have hbpost := (List.pairwise_cons.mp hpost).1
  have hsize : ∀ c ∈ m.blocks, c.start < c.stop := fun c hc => by
    obtain ⟨-, -, hpos, -⟩ := h.block_bounds hc
    exact Nat.lt_add_of_pos_right hpos
  rw [hsplit] at hsize ⊢
  have hkept : (pre.filter fun c => c.start < b.start) = pre := by
    refine List.filter_eq_self.mpr fun c hc => decide_eq_true ?_
    exact (hsize c (List.mem_append_left _ hc)).trans_le (hpre c hc b List.mem_cons_self)
  have hdropped : ((b :: post).filter fun c => c.start < b.start) = [] := by
    refine List.filter_eq_nil_iff.mpr fun c hc => ?_
    rw [decide_eq_true_eq, Nat.not_lt]
    rcases List.mem_cons.mp hc with rfl | hc
    · rfl
    · exact (hsize b (List.mem_append_right _ List.mem_cons_self)).le.trans (hbpost c hc)
  rw [List.filter_append, hkept, hdropped, List.append_nil]

theorem nodup_blocks : m.blocks.Nodup :=
  h.pairwise_blocks_start_ne.imp fun hne heq => hne (congrArg Extent.start heq)

/-- There are no more blocks than bytes in the region. -/
theorem length_blocks_add_le : m.blocks.length + l.start ≤ l.stop := by
  have hle := h.tiles.length_add_le
  have hfilter : m.blocks.length ≤ m.extents.length := List.length_filter_le _ _
  have hstop := h.frontier_le
  lia

/-- Two extents of the map are the same, or one ends before the other starts. -/
theorem eq_or_apart (hb : b ∈ m.extents) (hc : c ∈ m.extents) :
    b = c ∨ b.stop ≤ c.start ∨ c.stop ≤ b.start := by
  have hall : m.extents.Pairwise fun e f => e.stop ≤ f.start ∨ f.stop ≤ e.start :=
    h.tiles.pairwise.imp Or.inl
  by_cases heq : b = c
  · exact Or.inl heq
  · -- As a relation of two extents in any order it is symmetric, which `forall` asks for.
    have hsymm : Std.Symm fun e f : Extent => e.stop ≤ f.start ∨ f.stop ≤ e.start :=
      ⟨fun _ _ => Or.symm⟩
    exact Or.inr (hall.forall hb hc heq)

/-- An extent is told from the others by where it starts. -/
theorem eq_of_start_eq (hb : b ∈ m.extents) (hc : c ∈ m.extents) (hbc : b.start = c.start) :
    b = c := by
  have hbpos := (h.tiles.bounds hb).2.2.1
  have hcpos := (h.tiles.bounds hc).2.2.1
  rcases h.eq_or_apart hb hc with heq | hle | hle
  · exact heq
  · simp only [Extent.stop] at hle
    lia
  · simp only [Extent.stop] at hle
    lia

/-- Looking up an address finds the block that starts there. -/
theorem block?_eq_some_iff : m.block? p = some b ↔ b ∈ m.blocks ∧ b.start = p := by
  constructor
  · intro hb
    have hmem := List.mem_of_find?_eq_some hb
    have hprop := List.find?_some hb
    simp only [Bool.and_eq_true, decide_eq_true_eq] at hprop
    exact ⟨mem_blocks.mpr ⟨hmem, hprop.1⟩, hprop.2⟩
  · rintro ⟨hb, rfl⟩
    obtain ⟨hmem, hused⟩ := mem_blocks.mp hb
    cases hfind : m.block? b.start with
    | none =>
      -- `b` itself would be found.
      have hnone := List.find?_eq_none.mp hfind b hmem
      simp [hused] at hnone
    | some c =>
      have hc := List.mem_of_find?_eq_some hfind
      have hprop := List.find?_some hfind
      simp only [Bool.and_eq_true, decide_eq_true_eq] at hprop
      rw [h.eq_of_start_eq hc hmem hprop.2]

/-- No block starts inside another. -/
theorem not_isInsideBlock (hp : m.owns p) : m.isInsideBlock p = false := by
  obtain ⟨b, hb, rfl⟩ := owns_iff.mp hp
  rw [isInsideBlock_eq_false_iff]
  rintro e he - ⟨hlt, hstop⟩
  have hbpos := (h.block_bounds hb).2.2.1
  rcases h.eq_or_apart he (mem_blocks.mp hb).1 with rfl | hle | hle
  · exact lt_irrefl _ hlt
  · exact absurd hstop (Nat.not_lt.mpr hle)
  · simp only [Extent.stop] at hle
    lia

/-! ### First fit -/

/-- What the first fit stands for: a free extent that is large enough, the last extent, free and
with room to grow behind the frontier, or the frontier itself. -/
theorem firstFit?_cases {need : Nat} (hneed : 0 < need)
    (hfit : m.firstFit? l.stop need = some p) :
    (∃ pre e post, m.extents = pre ++ e :: post ∧ e.start = p ∧ e.used = false ∧
      (need ≤ e.size ∨ (post = [] ∧ e.size < need ∧ p + need ≤ l.stop))) ∨
    (p = m.frontier ∧ p + need ≤ l.stop) := by
  have hle := h.frontier_le
  unfold firstFit? at hfit
  split at hfit
  next e hfind =>
    obtain rfl : e.start = p := Option.some.inj hfit
    have hprop := List.find?_some hfind
    simp only [Bool.and_eq_true, Bool.not_eq_true', decide_eq_true_eq] at hprop
    obtain ⟨pre, post, hsplit⟩ := List.append_of_mem (List.mem_of_find?_eq_some hfind)
    refine Or.inl ⟨pre, e, post, hsplit, rfl, hprop.1, ?_⟩
    by_cases hsize : need ≤ e.size
    · exact Or.inl hsize
    · have hroom := hprop.2
      rw [room] at hroom
      split_ifs at hroom with hstop
      · -- The tiling ends where `e` does, so nothing comes after it.
        obtain ⟨_, -, -, -, -, hpost⟩ := Extent.tiles_append.mp (hsplit ▸ h.tiles)
        rw [hstop] at hpost
        refine Or.inr ⟨hpost.eq_nil, Nat.lt_of_not_le hsize, ?_⟩
        simp only [Extent.stop] at hstop
        lia
      · exact absurd hroom hsize
  next =>
    split_ifs at hfit with hroom
    obtain rfl : m.frontier = p := Option.some.inj hfit
    exact Or.inr ⟨rfl, by lia⟩

/-- How the first fit is taken into use: what comes before it stays, the block is put in place, and
the blocks behind it stay. -/
theorem exists_occupy_eq {need : Nat} (hneed : 0 < need) (hdvd : l.granule ∣ need)
    (hfit : m.firstFit? l.stop need = some p) :
    ∃ pre old new, m.extents = pre ++ old ∧
      (m.occupy p need).extents = pre ++ ⟨p, need, true⟩ :: new ∧
      Extent.Tiles l.granule l.start pre p ∧
      Extent.Tiles l.granule (p + need) new (m.occupy p need).frontier ∧
      pre.IsChain Extent.Apart ∧ new.IsChain Extent.Apart ∧
      new.filter (·.used) = old.filter (·.used) ∧ (m.occupy p need).frontier ≤ l.stop := by
  have hle := h.frontier_le
  simp only [occupy]
  rcases h.firstFit?_cases hneed hfit with
    ⟨pre, e, post, hsplit, rfl, hfree, hroom⟩ | ⟨rfl, hstop⟩
  · -- The space is taken from the free extent `e`.
    have hne : ∀ f ∈ pre, f.start ≠ e.start := fun f hf =>
      (List.pairwise_append.mp (hsplit ▸ h.tiles.pairwise_start_ne)).2.2 f hf e
        List.mem_cons_self
    obtain ⟨_, hpre, rfl, hepos, hedvd, hpost⟩ := Extent.tiles_append.mp (hsplit ▸ h.tiles)
    obtain ⟨hpre', hepost, -⟩ := List.isChain_append.mp (hsplit ▸ h.apart)
    have hlast := hpost.length_add_le
    simp only [Extent.stop] at hpost hlast
    rw [hsplit, Extent.place_append hne rfl, Extent.carve]
    rcases lt_trichotomy need e.size with hlt | heq | hgt
    · -- What is left of `e` stays free. What follows `e` is in use, so nothing has to be joined.
      rw [if_pos hlt, Nat.max_eq_left (by lia)]
      refine ⟨pre, e :: post, ⟨e.start + need, e.size - need, false⟩ :: post, rfl, rfl, hpre, ?_,
        hpre', ?_, ?_, hle⟩
      · refine ⟨rfl, Nat.sub_pos_of_lt hlt, Nat.dvd_sub hedvd hdvd, ?_⟩
        have hstop : e.start + need + (e.size - need) = e.start + e.size := by lia
        simp only [Extent.stop, hstop]
        exact hpost
      · obtain ⟨hhead, htail⟩ := List.isChain_cons.mp hepost
        refine List.isChain_cons.mpr ⟨fun f hf => Or.inr ?_, htail⟩
        exact (hhead f hf).resolve_left (by simp [hfree])
      · rw [List.filter_cons_of_neg (by simp), List.filter_cons_of_neg (by simp [hfree])]
    · -- All of `e` is taken.
      rw [if_neg (by lia), Nat.max_eq_left (by lia)]
      refine ⟨pre, e :: post, post, rfl, rfl, hpre, ?_, hpre', hepost.tail, ?_, hle⟩
      · rwa [heq]
      · rw [List.filter_cons_of_neg (by simp [hfree])]
    · -- `e` is the last extent, and the block grows behind the frontier.
      obtain ⟨rfl, -, hstop⟩ := hroom.resolve_left (by lia)
      have hend : e.start + e.size = m.frontier := hpost
      rw [if_neg (by lia), Nat.max_eq_right (by lia)]
      refine ⟨pre, [e], [], rfl, rfl, hpre, rfl, hpre', List.isChain_nil, ?_, hstop⟩
      rw [List.filter_cons_of_neg (by simp [hfree])]
  · -- The space behind the frontier is taken.
    have hne : ∀ f ∈ m.extents, f.start ≠ m.frontier := by
      intro f hf
      obtain ⟨-, hfstop, hfpos, -, -⟩ := h.tiles.bounds hf
      simp only [Extent.stop] at hfstop
      lia
    rw [Extent.place_of_forall_ne hne, Nat.max_eq_right (Nat.le_add_right _ _)]
    exact ⟨m.extents, [], [], (List.append_nil _).symm, rfl, h.tiles, rfl, h.apart,
      List.isChain_nil, rfl, hstop⟩

/-- Taking the first fit into use adds one block. -/
theorem blocks_occupy {need : Nat} (hneed : 0 < need) (hdvd : l.granule ∣ need)
    (hfit : m.firstFit? l.stop need = some p) :
    (m.occupy p need).blocks.Perm (⟨p, need, true⟩ :: m.blocks) := by
  obtain ⟨pre, old, new, hold, hnew, -, -, -, -, hfilter, -⟩ := h.exists_occupy_eq hneed hdvd hfit
  rw [blocks, blocks, hold, hnew, List.filter_append, List.filter_append,
    List.filter_cons_of_pos rfl, hfilter]
  exact List.perm_middle

/-- Taking the first fit into use keeps the invariant. -/
theorem occupy {need : Nat} (hneed : 0 < need) (hdvd : l.granule ∣ need)
    (hfit : m.firstFit? l.stop need = some p) : (m.occupy p need).Valid l := by
  obtain ⟨pre, old, new, -, hnew, hpre, hpost, hpre', hpost', -, hle⟩ :=
    h.exists_occupy_eq hneed hdvd hfit
  have hperm := h.blocks_occupy hneed hdvd hfit
  refine ⟨?_, ?_, hle, ?_, ?_⟩
  · rw [hnew]
    exact Extent.tiles_append.mpr ⟨_, hpre, rfl, hneed, hdvd, hpost⟩
  · rw [hnew]
    -- The new block is in use, so it may stand beside anything.
    have hnewpost : (⟨p, need, true⟩ :: new).IsChain Extent.Apart :=
      List.isChain_cons.mpr ⟨fun _ _ => Or.inl rfl, hpost'⟩
    refine List.isChain_append.mpr ⟨hpre', hnewpost, ?_⟩
    intro e _ f hf
    obtain rfl : _ = f := Option.some.inj hf
    exact Or.inr rfl
  · rw [Extent.totalSize_perm hperm, Extent.totalSize, ← h.usedBytes_eq]
    exact Nat.add_comm _ _
  · rw [hperm.length_eq, List.length_cons, ← h.usedBlocks_eq]
    rfl

/-- The first fit does not meet a block. -/
theorem firstFit?_apart {need : Nat} (hneed : 0 < need) (hdvd : l.granule ∣ need)
    (hfit : m.firstFit? l.stop need = some p) (hb : b ∈ m.blocks) :
    p + need ≤ b.start ∨ b.stop ≤ p := by
  have hpairwise : (m.occupy p need).blocks.Pairwise fun b c =>
      b.stop ≤ c.start ∨ c.stop ≤ b.start :=
    (h.occupy hneed hdvd hfit).pairwise_blocks.imp Or.inl
  have hcons := ((h.blocks_occupy hneed hdvd hfit).pairwise_iff fun hbc => hbc.symm).mp hpairwise
  exact (List.pairwise_cons.mp hcons).1 b hb

/-- No block starts at the first fit. -/
theorem firstFit?_ne_start {need : Nat} (hneed : 0 < need) (hdvd : l.granule ∣ need)
    (hfit : m.firstFit? l.stop need = some p) (hb : b ∈ m.blocks) : b.start ≠ p := by
  have hpos := (h.block_bounds hb).2.2.1
  have hapart := h.firstFit?_apart hneed hdvd hfit hb
  simp only [Extent.stop] at hapart
  lia

/-! ### Release -/

/-- Giving a block back removes it from the blocks. -/
theorem blocks_release (hp : m.owns p) : (m.release p).blocks = m.blocks.filter (·.start ≠ p) := by
  obtain ⟨b, hb, hstart⟩ := owns_iff.mp hp
  have hfind := h.block?_eq_some_iff.mpr ⟨hb, hstart⟩
  rw [release, hfind]
  exact (Extent.filter_used_joinAll _).trans (Extent.filter_used_map_free _ _)

/-- A block is one more than the blocks that start elsewhere. -/
theorem blocks_perm_cons (hb : b ∈ m.blocks) :
    m.blocks.Perm (b :: m.blocks.filter (·.start ≠ b.start)) := by
  have herase : m.blocks.erase b = m.blocks.filter (·.start ≠ b.start) := by
    rw [h.nodup_blocks.erase_eq_filter]
    refine List.filter_congr fun c hc => ?_
    have hiff : c = b ↔ c.start = b.start :=
      ⟨congrArg _, h.eq_of_start_eq (mem_blocks.mp hc).1 (mem_blocks.mp hb).1⟩
    rw [Bool.eq_iff_iff]
    simp [hiff]
  rw [← herase]
  exact List.perm_cons_erase hb

/-- Giving a block back keeps the invariant. -/
theorem release (hp : m.owns p) : (m.release p).Valid l := by
  obtain ⟨b, hb, rfl⟩ := owns_iff.mp hp
  have hfind := h.block?_eq_some_iff.mpr ⟨hb, rfl⟩
  have hblocks := h.blocks_release hp
  have hperm := h.blocks_perm_cons hb
  have hbytes := h.usedBytes_eq
  have hcount := h.usedBlocks_eq
  -- Both counters lose what they have counted for the block.
  rw [Extent.totalSize_perm hperm, Extent.totalSize] at hbytes
  rw [hperm.length_eq, List.length_cons] at hcount
  refine ⟨?_, ?_, ?_, ?_, ?_⟩
  · rw [BlockMap.release, hfind]
    exact Extent.tiles_joinAll (Extent.tiles_map_free h.tiles)
  · rw [BlockMap.release, hfind]
    exact Extent.isChain_joinAll _
  · rw [BlockMap.release, hfind]
    exact h.frontier_le
  · rw [hblocks, BlockMap.release, hfind]
    exact Nat.sub_eq_of_eq_add' hbytes
  · rw [hblocks, BlockMap.release, hfind]
    exact Nat.sub_eq_of_eq_add hcount

end Valid

end BlockMap

end MarkSweep
