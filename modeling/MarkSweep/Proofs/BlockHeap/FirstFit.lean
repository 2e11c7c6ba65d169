import Mathlib.Order.Bounds.Basic
import MarkSweep.Proofs.BlockHeap.Frames

/-!
# First fit

Space is looked for among the extents of the block map, which tell of the past of the heap as well:
what has been given back, and how far the frontier has come. None of this matters. The address that
is found is the lowest granule at which enough bytes of the region belong to no block
(`BlockMap.Valid.firstFit?_eq_some_iff`), and none is found only if there is no such granule
(`BlockMap.Valid.firstFit?_eq_none_iff`).

That nothing is overlooked rests on the extents being joined. An extent that is free ends at a block
or at the frontier, so what is free at one of its addresses is free from its start on.

`BlockHeap.Reachable.fits_first` says what an allocation comes to in every history, and that two
heaps with the same blocks answer alike.
-/

namespace MarkSweep

/-- The granules of the region from which `need` bytes can be had without those of `taken`. -/
def Layout.vacancies (l : Layout) (taken : Set Addr) (need : Nat) : Set Addr :=
  {p | l.start ≤ p ∧ l.granule ∣ p - l.start ∧ p + need ≤ l.stop ∧
    Disjoint (Set.Ico p (p + need)) taken}

/-- The addresses in blocks in use. -/
def BlockMap.taken (m : BlockMap) : Set Addr := {i | ∃ b ∈ m.blocks, i ∈ Set.Ico b.start b.stop}

/-- In a tiling every address lies in an extent. -/
theorem Extent.Tiles.exists_mem {g : Nat} {a b p : Addr} {es : List Extent} (h : Tiles g a es b)
    (ha : a ≤ p) (hb : p < b) :
    ∃ pre e post, es = pre ++ e :: post ∧ e.start ≤ p ∧ p < e.stop := by
  induction es generalizing a with
  | nil =>
    obtain rfl : a = b := h
    exact absurd ha (Nat.not_le.mpr hb)
  | cons e es ih =>
    obtain ⟨rfl, -, -, hrest⟩ := h
    rcases Nat.lt_or_ge p e.stop with hlt | hge
    · exact ⟨[], e, es, rfl, ha, hlt⟩
    · obtain ⟨pre, f, post, rfl, hf⟩ := ih hrest hge
      exact ⟨e :: pre, f, post, rfl, hf⟩

namespace BlockMap.Valid

open Extent

variable {l : Layout} {m : BlockMap} {e : Extent} {pre post : List Extent} {p : Addr} {need : Nat}
  (h : m.Valid l) (hneed : 0 < need)

include h hneed

/-! ### What is found is vacant -/

/-- The first fit is in the region, aligned, and free as far as needed. -/
theorem firstFit?_mem_vacancies (hdvd : l.granule ∣ need)
    (hfit : m.firstFit? l.stop need = some p) : p ∈ l.vacancies m.taken need := by
  -- The bounds are those of the block that would be placed there.
  have hmem : ⟨p, need, true⟩ ∈ (m.occupy p need).blocks :=
    (h.blocks_occupy hneed hdvd hfit).mem_iff.mpr List.mem_cons_self
  obtain ⟨hboundary, hstop, -, -⟩ := (h.occupy hneed hdvd hfit).block_bounds hmem
  obtain ⟨hstart, -, hgranule⟩ := Layout.isBoundary_iff.mp hboundary
  refine ⟨hstart, hgranule, hstop, Set.disjoint_left.mpr ?_⟩
  rintro i ⟨hi, hi'⟩ ⟨b, hb, hj, hj'⟩
  rcases h.firstFit?_apart hneed hdvd hfit hb with hapart | hapart
  · lia
  · lia

/-! ### What is vacant is found, or something below it -/

omit hneed in
/-- What is free at one address of a free extent is free from its start on. -/
theorem le_room_of_vacant (hsplit : m.extents = pre ++ e :: post) (hfree : e.used = false)
    (he : e.start ≤ p) (he' : p < e.stop) (hp : p ∈ l.vacancies m.taken need) :
    need ≤ m.room l.stop e := by
  obtain ⟨-, -, hstop, hdisjoint⟩ := hp
  obtain ⟨_, -, -, -, -, hpost⟩ := tiles_append.mp (hsplit ▸ h.tiles)
  have hle := h.frontier_le
  cases post with
  | nil =>
    -- The last extent may grow up to the end of the region.
    have hlast : e.stop = m.frontier := hpost
    rw [room, if_pos hlast]
    simp only [Extent.stop] at hlast he'
    lia
  | cons f post =>
    -- Behind any other free extent comes a block, and no vacancy reaches beyond its start.
    obtain ⟨hfstart, hfpos, -, -⟩ := hpost
    have hused : f.used := by
      have hchain := (List.isChain_append.mp (hsplit ▸ h.apart)).2.1
      exact (List.isChain_cons_cons.mp hchain).1.resolve_left (by simp [hfree])
    have htaken : f.start ∈ m.taken :=
      ⟨f, mem_blocks.mpr ⟨by simp [hsplit], hused⟩, le_rfl, by simpa [Extent.stop] using hfpos⟩
    have hout := Set.disjoint_right.mp hdisjoint htaken
    simp only [Set.mem_Ico, not_and, Nat.not_lt] at hout
    have hend := hout (hfstart ▸ he'.le)
    have hsize : need ≤ e.size := by
      simp only [Extent.stop] at hfstart
      lia
    rw [room]
    split_ifs
    · lia
    · exact hsize

omit hneed in
/-- The search stops at a free extent with enough room, if it comes to it. -/
theorem exists_firstFit?_le (he : e ∈ m.extents) (hfree : e.used = false)
    (hroom : need ≤ m.room l.stop e) : ∃ q ≤ e.start, m.firstFit? l.stop need = some q := by
  cases hfind : m.extents.find? fun e => !e.used && need ≤ m.room l.stop e with
  | none =>
    have hnone := List.find?_eq_none.mp hfind e he
    simp [hfree, hroom] at hnone
  | some f =>
    refine ⟨f.start, ?_, by rw [firstFit?, hfind]⟩
    obtain ⟨-, before, after, hsplit, hbefore⟩ := List.find?_eq_some_iff_append.mp hfind
    rw [hsplit, List.mem_append, List.mem_cons] at he
    rcases he with he | rfl | he
    · have hskip := hbefore e he
      simp [hfree, hroom] at hskip
    · exact le_rfl
    · -- The extents stand in address order.
      have hpairwise := (List.pairwise_append.mp (hsplit ▸ h.tiles.pairwise)).2.1
      exact (Nat.le_add_right _ _).trans ((List.pairwise_cons.mp hpairwise).1 e he)

/-- Where there is a vacancy, the search finds one that lies no higher. -/
theorem exists_firstFit?_le_of_vacant (hp : p ∈ l.vacancies m.taken need) :
    ∃ q ≤ p, m.firstFit? l.stop need = some q := by
  obtain ⟨hstart, -, hstop, hdisjoint⟩ := id hp
  rcases Nat.lt_or_ge p m.frontier with hlt | hge
  · obtain ⟨pre, e, post, hsplit, he, he'⟩ := h.tiles.exists_mem hstart hlt
    have hmem : e ∈ m.extents := by simp [hsplit]
    have hfree : e.used = false := by
      -- A block that holds `p` would take the first byte of the vacancy.
      by_contra hused
      have htaken : p ∈ m.taken :=
        ⟨e, mem_blocks.mpr ⟨hmem, by simpa using hused⟩, he, he'⟩
      exact Set.disjoint_left.mp hdisjoint ⟨le_rfl, Nat.lt_add_of_pos_right hneed⟩ htaken
    obtain ⟨q, hq, hfit⟩ := h.exists_firstFit?_le hmem hfree
      (h.le_room_of_vacant hsplit hfree he he' hp)
    exact ⟨q, hq.trans he, hfit⟩
  · -- Behind the frontier everything is free, so at worst the search ends there.
    cases hfind : m.extents.find? fun e => !e.used && need ≤ m.room l.stop e with
    | some e =>
      have hbounds := h.tiles.bounds (List.mem_of_find?_eq_some hfind)
      have hestop := hbounds.2.1
      simp only [Extent.stop] at hestop
      exact ⟨e.start, by lia, by rw [firstFit?, hfind]⟩
    | none =>
      have hroom : need ≤ l.stop - m.frontier := by lia
      exact ⟨m.frontier, hge, by rw [firstFit?, hfind]; exact if_pos hroom⟩

/-! ### The search is exact -/

variable (hdvd : l.granule ∣ need)

include hdvd

/-- The first fit is the lowest vacancy. -/
theorem firstFit?_eq_some_iff :
    m.firstFit? l.stop need = some p ↔ IsLeast (l.vacancies m.taken need) p := by
  -- The search has one answer, so what it finds for the sake of any vacancy is what it finds.
  have hlower : ∀ q, m.firstFit? l.stop need = some q →
      q ∈ lowerBounds (l.vacancies m.taken need) := by
    intro q hfit r hr
    obtain ⟨q', hle, hfit'⟩ := h.exists_firstFit?_le_of_vacant hneed hr
    obtain rfl := Option.some.inj (hfit.symm.trans hfit')
    exact hle
  constructor
  · exact fun hfit => ⟨h.firstFit?_mem_vacancies hneed hdvd hfit, hlower p hfit⟩
  · intro hleast
    obtain ⟨q, -, hfit⟩ := h.exists_firstFit?_le_of_vacant hneed hleast.1
    have hq : IsLeast (l.vacancies m.taken need) q :=
      ⟨h.firstFit?_mem_vacancies hneed hdvd hfit, hlower q hfit⟩
    rw [hfit, hq.unique hleast]

/-- The search finds nothing exactly if there is no vacancy. -/
theorem firstFit?_eq_none_iff :
    m.firstFit? l.stop need = none ↔ l.vacancies m.taken need = ∅ := by
  rw [Set.eq_empty_iff_forall_notMem]
  constructor
  · intro hnone p hp
    obtain ⟨q, -, hfit⟩ := h.exists_firstFit?_le_of_vacant hneed hp
    rw [hnone] at hfit
    contradiction
  · intro hempty
    cases hfit : m.firstFit? l.stop need with
    | none => rfl
    | some p => exact absurd (h.firstFit?_mem_vacancies hneed hdvd hfit) (hempty p)

end BlockMap.Valid

namespace BlockHeap

/-- Where a block for `size` bytes of payload can be placed beside the blocks in use. -/
def vacancies (h : BlockHeap) (size : Nat) : Set Addr :=
  h.layout.vacancies h.map.taken (h.layout.footprint size)

/-- What allocations come to. -/
structure FitsFirst (h : BlockHeap) : Prop where
  /-- For a size that no header can hold nothing is handed out. -/
  too_large : ∀ size, Header.maxPayload < size → alloc size h = .ok none h
  /-- A block takes as many whole granules as its payload needs, and one if it has none. -/
  footprint : ∀ size,
    IsLeast {n | max size 1 ≤ n ∧ h.layout.granule ∣ n} (h.layout.footprint size)
  /-- The block that is handed out lies at the lowest vacancy. -/
  some_iff : ∀ size ≤ Header.maxPayload, ∀ b : Block, (alloc size).answer? h = some (some b) ↔
    IsLeast (h.vacancies size) b.addr ∧ b.footprint = h.layout.footprint size
  /-- Nothing is handed out exactly if there is no vacancy. -/
  none_iff : ∀ size ≤ Header.maxPayload,
    (alloc size).answer? h = some none ↔ h.vacancies size = ∅
  /-- The new block is the only one that was not there before. -/
  mem_blocks_iff : ∀ size b h', alloc size h = .ok (some b) h' → ∀ e,
    e ∈ h'.map.blocks ↔ e = ⟨b.addr, b.footprint, true⟩ ∨ e ∈ h.map.blocks

variable {h h' : BlockHeap} {size : Nat} {p : Addr} {s t : History}

/-- The footprint is the least number of whole granules with room for the size, and for one byte at
least. -/
theorem isLeast_footprint (hm : h.Mapped) (size : Nat) :
    IsLeast {n | max size 1 ≤ n ∧ h.layout.granule ∣ n} (h.layout.footprint size) := by
  refine ⟨⟨hm.layout.le_footprint size, Layout.Valid.dvd_footprint size⟩, ?_⟩
  rintro n ⟨hle, k, rfl⟩
  have hpos := hm.layout.granule_pos
  -- Rounding up stops at the first multiple that is large enough.
  have hdiv : (max size 1 + h.layout.granule - 1) / h.layout.granule < k + 1 := by
    rw [Nat.div_lt_iff_lt_mul hpos, Nat.succ_mul, Nat.mul_comm k]
    lia
  rw [Layout.footprint, Nat.mul_comm]
  exact Nat.mul_le_mul_left _ (Nat.lt_succ_iff.mp hdiv)

/-- The search of a heap finds its lowest vacancy. -/
theorem firstFit?_eq_some_iff (hm : h.Mapped) :
    h.map.firstFit? h.layout.stop (h.layout.footprint size) = some p ↔
      IsLeast (h.vacancies size) p :=
  hm.map.firstFit?_eq_some_iff (hm.layout.footprint_pos size) (Layout.Valid.dvd_footprint size)

/-- The search of a heap finds nothing exactly if the heap has no vacancy. -/
theorem firstFit?_eq_none_iff (hm : h.Mapped) :
    h.map.firstFit? h.layout.stop (h.layout.footprint size) = none ↔ h.vacancies size = ∅ :=
  hm.map.firstFit?_eq_none_iff (hm.layout.footprint_pos size) (Layout.Valid.dvd_footprint size)

/-- What is answered for a size that a header can hold is the first fit. -/
theorem answer?_alloc (hm : h.Mapped) (hsize : size ≤ Header.maxPayload) :
    (alloc size).answer? h =
      some ((h.map.firstFit? h.layout.stop (h.layout.footprint size)).map
        (⟨·, h.layout.footprint size⟩)) := by
  cases hfit : h.map.firstFit? h.layout.stop (h.layout.footprint size) with
  | none =>
    simp only [Action.answer?, alloc, if_neg (Nat.not_lt.mpr hsize), Action.bind_apply,
      Action.get_apply, hfit, Action.pure_apply, Option.map_none]
  | some p => rw [Action.answer?, alloc_eq hm hfit hsize, Option.map_some]

/-- Allocations come to this whatever stands in the memory, as long as map and layout fit each
other. -/
theorem fitsFirst_of_mapped (hm : h.Mapped) : FitsFirst h where
  too_large size hlt := by simp only [alloc, if_pos hlt, Action.pure_apply]
  footprint := isLeast_footprint hm
  some_iff size hsize b := by
    obtain ⟨p, footprint⟩ := b
    rw [answer?_alloc hm hsize, ← firstFit?_eq_some_iff hm]
    simp [eq_comm]
  none_iff size hsize := by
    rw [answer?_alloc hm hsize, ← firstFit?_eq_none_iff hm]
    simp
  mem_blocks_iff size b h' halloc e := by
    -- Only the outcome in which a block has been handed out is left.
    rcases alloc_cases hm size with hnone | ⟨p, hfit, hsome⟩
    · rw [halloc] at hnone
      simp at hnone
    · rw [halloc] at hsome
      obtain ⟨hb, rfl⟩ := EStateM.Result.ok.inj hsome
      obtain rfl := Option.some.inj hb
      exact (blocks_withBlock hm hfit).mem_iff.trans List.mem_cons

/-- Heaps with the same blocks have the same vacancies. -/
theorem vacancies_congr (hlayout : h'.layout = h.layout)
    (hblocks : ∀ e, e ∈ h'.map.blocks ↔ e ∈ h.map.blocks) (size : Nat) :
    h'.vacancies size = h.vacancies size := by
  have htaken : h'.map.taken = h.map.taken := by
    ext i
    simp only [BlockMap.taken, hblocks]
  rw [vacancies, htaken, hlayout, vacancies]

/-- In every history an allocation finds the lowest address with enough room, if there is one. What
it answers depends on the layout and on the blocks in use alone. -/
theorem Reachable.fits_first (hs : Reachable (fun _ _ => True) s) : FitsFirst s.heap ∧
    ∀ t, Reachable (fun _ _ => True) t → t.heap.layout = s.heap.layout →
      (∀ e, e ∈ t.heap.map.blocks ↔ e ∈ s.heap.map.blocks) →
        ∀ size, (alloc size).answer? t.heap = (alloc size).answer? s.heap := by
  have hm := hs.mapped
  refine ⟨fitsFirst_of_mapped hm, fun t ht hlayout hblocks size => ?_⟩
  have hm' := ht.mapped
  rcases Nat.lt_or_ge Header.maxPayload size with hlt | hle
  · rw [Action.answer?, Action.answer?, (fitsFirst_of_mapped hm).too_large size hlt,
      (fitsFirst_of_mapped hm').too_large size hlt]
  · have hfit : t.heap.map.firstFit? t.heap.layout.stop (t.heap.layout.footprint size) =
        s.heap.map.firstFit? s.heap.layout.stop (s.heap.layout.footprint size) := by
      ext p
      rw [firstFit?_eq_some_iff hm', firstFit?_eq_some_iff hm, vacancies_congr hlayout hblocks]
    rw [answer?_alloc hm' hle, answer?_alloc hm hle, hfit, hlayout]

/-- The block at 24 is the only one in both histories. The space behind it is untouched in the first
and has been given back in the second. -/
theorem fits_first_small :
    let s := History.small.serve [.alloc 8, .alloc 8, .alloc 8, .free 16, .free 8]
    let t := History.small.serve [.alloc 16, .alloc 8, .alloc 5, .free 32, .free 8]
    s.heap.map ≠ t.heap.map ∧ (alloc 9).answer? s.heap = some (some ⟨8, 16⟩) ∧
      (alloc 17).answer? s.heap = some none ∧ FitsFirst s.heap ∧
        ∀ size, (alloc size).answer? t.heap = (alloc size).answer? s.heap := by
  intro s t
  have hs : Reachable (fun _ _ => True) s := (reachable_small _).serve (by simp)
  have ht : Reachable (fun _ _ => True) t := (reachable_small _).serve (by simp)
  obtain ⟨hfits, hsame⟩ := hs.fits_first
  refine ⟨by decide +kernel, by decide +kernel, by decide +kernel, hfits, hsame t ht ?_ ?_⟩
  · decide +kernel
  · have hblocks : t.heap.map.blocks = s.heap.map.blocks := by decide +kernel
    simp [hblocks]

end BlockHeap

end MarkSweep
