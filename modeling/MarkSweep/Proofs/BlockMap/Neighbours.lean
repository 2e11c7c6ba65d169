import MarkSweep.Proofs.BlockMap

/-!
# Neighbours in a block map

What a block map does and answers is a matter of neighbours. When a block is given back, no free
extents have to be joined but those beside it (`Valid.extents_release`), since there were no free
neighbours before. Whether an address lies inside a block is settled by the last extent that does
not start behind it (`Valid.isInsideBlock_eq`), since the extents tile the region.
-/

namespace MarkSweep

namespace Extent

/-- The extents when `e` is put between others: it is joined with the next one, and then with the
one before it, if they are free. -/
def joinBetween (pre : List Extent) (e : Extent) (post : List Extent) : List Extent :=
  match pre.getLast? with
  | none => e.joinFree post
  | some f => pre.dropLast ++ f.joinFree (e.joinFree post)

variable {e f : Extent} {es fs : List Extent}

/-- Where no two neighbours are free, nothing is joined. -/
theorem joinFree_of_isChain (hes : (e :: es).IsChain Apart) : joinFree e es = e :: es := by
  cases es with
  | nil => rfl
  | cons f es =>
    have hapart : e.used || f.used := by simpa [Apart] using (List.isChain_cons_cons.mp hes).1
    rw [joinFree, if_pos hapart]

/-- Where no two neighbours are free there is nothing to join. -/
theorem joinAll_of_isChain (hes : es.IsChain Apart) : joinAll es = es := by
  induction es with
  | nil => rfl
  | cons e es ih =>
    have hcons : joinAll (e :: es) = joinFree e (joinAll es) := rfl
    rw [hcons, ih hes.tail, joinFree_of_isChain hes]

/-- What an extent becomes by joining is in use if it was. -/
theorem exists_joinFree_eq (e : Extent) (es : List Extent) :
    ∃ f rest, joinFree e es = f :: rest ∧ f.used = e.used := by
  cases es with
  | nil => exact ⟨e, [], rfl, rfl⟩
  | cons t rest =>
    rw [joinFree]
    split_ifs with h
    · exact ⟨e, t :: rest, rfl, rfl⟩
    · exact ⟨_, rest, rfl, by simp_all⟩

/-- Before an extent that has been joined nothing is joined that was not joined before. -/
theorem foldr_joinFree (hes : (es ++ [e]).IsChain Apart) (hused : f.used = e.used) :
    es.foldr joinFree (f :: fs) = es ++ f :: fs := by
  induction es with
  | nil => rfl
  | cons d es ih =>
    rw [List.foldr_cons, ih hes.tail]
    cases es with
    | nil =>
      have hapart : d.used || f.used := by
        simpa [Apart, hused] using (List.isChain_cons_cons.mp hes).1
      exact if_pos hapart
    | cons t es =>
      have hapart : d.used || t.used := by
        simpa [Apart] using (List.isChain_cons_cons.mp hes).1
      exact if_pos hapart

end Extent

namespace BlockMap.Valid

open Extent

variable {l : Layout} {m : BlockMap} {b : Extent} {pre post : List Extent} {p : Addr}
  (h : m.Valid l)

include h

/-- Freeing the extent that starts at an address leaves the others. -/
theorem map_free_eq (hsplit : m.extents = pre ++ b :: post) :
    m.extents.map (free b.start) = pre ++ { b with used := false } :: post := by
  have hne := h.tiles.pairwise_start_ne
  rw [hsplit, List.pairwise_append, List.pairwise_cons] at hne
  obtain ⟨-, ⟨hpost, -⟩, hpre⟩ := hne
  have hleft : pre.map (free b.start) = pre :=
    (List.map_congr_left fun e he => if_neg (hpre e he b List.mem_cons_self)).trans
      (List.map_id pre)
  have hright : post.map (free b.start) = post :=
    (List.map_congr_left fun e he => if_neg (hpost e he).symm).trans (List.map_id post)
  rw [hsplit, List.map_append, List.map_cons, hleft, hright, free, if_pos rfl]

/-- Giving a block back joins it with its free neighbours, and changes no other extent. -/
theorem extents_release (hsplit : m.extents = pre ++ b :: post) (hused : b.used) :
    (m.release b.start).extents = joinBetween pre { b with used := false } post := by
  have hb : b ∈ m.extents := by simp [hsplit]
  have hfind := h.block?_eq_some_iff.mpr ⟨mem_blocks.mpr ⟨hb, hused⟩, rfl⟩
  obtain ⟨hpre, hpost, -⟩ := List.isChain_append.mp (hsplit ▸ h.apart)
  have hfree : joinAll ({ b with used := false } :: post) =
      joinFree { b with used := false } post :=
    congrArg (joinFree _) (joinAll_of_isChain hpost.tail)
  rw [BlockMap.release, hfind]
  simp only [h.map_free_eq hsplit]
  rw [joinAll, List.foldr_append, ← joinAll, hfree, joinBetween]
  rcases List.eq_nil_or_concat pre with rfl | ⟨ds, c, rfl⟩
  · rfl
  · obtain ⟨f, rest, hjoin, hcused⟩ := exists_joinFree_eq c (joinFree { b with used := false } post)
    rw [List.concat_eq_append] at hpre ⊢
    rw [List.foldr_append, List.foldr_cons, List.foldr_nil, hjoin, foldr_joinFree hpre hcused]
    simp [hjoin]

/-- Of all extents, only the last one that does not start behind an address can have it inside. -/
theorem isInsideBlock_eq (p : Addr) : m.isInsideBlock p =
    (m.extents.filter (·.start ≤ p)).getLast?.any fun e => e.used && e.isInside p := by
  rw [Bool.eq_iff_iff, isInsideBlock, List.any_eq_true, Option.any_eq_true]
  constructor
  · rintro ⟨e, he, hinside⟩
    have hlt : e.start < p ∧ p < e.stop := by
      simpa [Extent.isInside] using (Bool.and_eq_true_iff.mp hinside).2
    have hmem : e ∈ m.extents.filter (·.start ≤ p) :=
      List.mem_filter.mpr ⟨he, by simpa using hlt.1.le⟩
    have hpairwise : (m.extents.filter (·.start ≤ p)).Pairwise fun e f => e.stop ≤ f.start :=
      h.tiles.pairwise.filter _
    have hstart : ∀ f ∈ m.extents.filter (·.start ≤ p), f.start ≤ p := by simp
    generalize m.extents.filter (·.start ≤ p) = es at hmem hpairwise hstart
    rcases List.eq_nil_or_concat es with rfl | ⟨ds, f, rfl⟩
    · exact absurd hmem List.not_mem_nil
    rw [List.concat_eq_append] at hmem hpairwise hstart ⊢
    refine ⟨f, List.getLast?_concat, ?_⟩
    rcases List.mem_append.mp hmem with hmem | hmem
    · -- An extent before the last one ends before that starts.
      have hstop := (List.pairwise_append.mp hpairwise).2.2 e hmem f List.mem_cons_self
      have hf := hstart f (by simp)
      lia
    · rwa [← List.mem_singleton.mp hmem]
  · rintro ⟨e, hlast, hinside⟩
    exact ⟨e, List.mem_of_mem_filter (List.mem_of_getLast? hlast), hinside⟩

end BlockMap.Valid

end MarkSweep
