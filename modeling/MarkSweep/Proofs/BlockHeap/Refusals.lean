import MarkSweep.Proofs.BlockHeap.Table

/-!
# Refusals of a block heap

What speaks against a request can be told before it is made (`BlockHeap.Request.objection?`). As
long as table and map tell of the same blocks, that is all that a request can be refused for
(`Request.granted`), and a refused request has changed nothing (`Request.refused`), nor has one for
which there was no room. Every heap whose table the program does not write is such a heap
(`BlockHeap.Reachable.refuses_exactly`).

That nothing is changed is not because every request asks before it acts. A block may be taken out
of the map before its header is touched, and the header can be read and written all the same
(`BlockHeap.freeMapFirst`, `freeMapFirst_eq`).
-/

namespace MarkSweep.BlockHeap

/-- Gives the block at `p` back, like `free`, in another order of steps: its extent is taken out of
use before the header is read, and joined with its neighbours after it has been written. -/
def freeMapFirst (p : Addr) : Action BlockHeap Unit := do
  let h ← get
  match h.map.block? p with
  | none => throw (.notAllocated p)
  | some b =>
    set { h with map.extents := h.map.extents.map (Extent.free p) }
    let header ← Action.ask fun h : BlockHeap => h.readHeader p
    writeHeader p header.released
    modify fun h => { h with map := { h.map with
      extents := Extent.joinAll h.map.extents
      usedBytes := h.map.usedBytes - b.size
      usedBlocks := h.map.usedBlocks - 1 } }

/-- What speaks against a request, if anything. -/
def Request.objection? (h : BlockHeap) : Request → Option Refusal
  | alloc _ | sweep | write _ _ => none
  | allocate _ size => if Header.maxPayload < size then some (.payloadTooLarge size) else none
  | free p => if h.owns p then none else some (.notAllocated p)
  | setHeader p header =>
    if h.owns p then
      if header.alloc then none else some (.corruptHeader p .clearsAlloc)
    else
      some (.notAllocated p)
  | clearPayload p len =>
    if h.owns p then
      if p + len ≤ h.memory.size then none else some (.outOfBounds p len)
    else
      some (.notAllocated p)

/-- A heap that refuses nothing without reason, and changes nothing when it refuses. -/
structure Exact (h : BlockHeap) : Prop where
  /-- A request against which something speaks is refused for it, and the heap stays as it is. -/
  refused : ∀ (request : Request) e, request.objection? h = some e → request.run h = .error e h
  /-- All other requests are carried out. -/
  granted : ∀ request : Request, request.objection? h = none → ∃ h', request.run h = .ok () h'
  /-- Where there is no room for a block, the heap stays as it is. -/
  alloc_none : ∀ size h', alloc size h = .ok none h' → h' = h
  allocate_none : ∀ tag size h', allocate tag size h = .ok none h' → h' = h
  /-- A header is not found for one reason only. -/
  header_error : ∀ p e, h.header p = .error e → e = .notABlock p
  /-- It makes no difference whether map or header comes first when a block is given back. -/
  freeMapFirst_eq : ∀ p, freeMapFirst p h = free p h

variable {h h' : BlockHeap} {s : History} {p : Addr} {e : Refusal}

/-! ### The order of steps -/

/-- The map has no part in the header table. -/
theorem putHeader_of_map (h : BlockHeap) (m : BlockMap) (p : Addr) (hd : Header) :
    putHeader p hd { h with map := m } = { h.putHeader p hd with map := m } := by
  rw [putHeader, putHeader]

/-- The header of a block can be read and written, whether the block is in use still or not. -/
theorem freeMapFirst_eq (hm : h.Mapped) (p : Addr) : freeMapFirst p h = free p h := by
  cases hb : h.map.block? p with
  | none =>
    have hp : ¬ h.owns p := by simp [owns, BlockMap.owns, hb]
    rw [free_of_not_owns hp]
    simp only [freeMapFirst, Action.bind_apply, Action.get_apply, hb, Action.throw_apply]
  | some b =>
    have hp : h.owns p := by simp [owns, BlockMap.owns, hb]
    -- In between, the extent is neither in use nor joined with others.
    let h₁ : BlockHeap := { h with map.extents := h.map.extents.map (Extent.free p) }
    have hread : Action.ask (fun h : BlockHeap => h.readHeader p) h₁ = .ok (h.headerAt p) h₁ :=
      Action.ask_of_eq_ok (readHeader_eq (h := h₁) hm.layout (hm.boundary hp))
    have hwrite : writeHeader p (h.headerAt p).released h₁ =
        .ok () { h.putHeader p (h.headerAt p).released with map := h₁.map } := by
      rw [writeHeader_eq (h := h₁) hm.layout _ (hm.boundary hp), putHeader_of_map]
    rw [free_eq hm hp, freed, BlockMap.release, hb]
    simp only [freeMapFirst, Action.bind_apply, Action.get_apply, hb, Action.set_apply, hread,
      hwrite, Action.modify_apply, h₁]

/-! ### Requests -/

/-- What is refused is refused for its objection, before anything has been changed. -/
theorem Request.refused (request : Request) (he : request.objection? h = some e) :
    request.run h = .error e h := by
  cases request with
  | alloc size => contradiction
  | allocate tag size =>
    rw [objection?] at he
    split_ifs at he with hsize
    obtain rfl := Option.some.inj he
    rw [run, Action.discard_apply, allocate_of_maxPayload_lt hsize]
  | free p =>
    rw [objection?] at he
    split_ifs at he with hp
    obtain rfl := Option.some.inj he
    exact free_of_not_owns hp
  | setHeader p hd =>
    rw [objection?] at he
    split_ifs at he with hp halloc
    · obtain rfl := Option.some.inj he
      exact setHeader_of_not_alloc hp (Bool.not_eq_true _ ▸ halloc)
    · obtain rfl := Option.some.inj he
      exact setHeader_of_not_owns hp hd
  | clearPayload p len =>
    rw [objection?] at he
    split_ifs at he with hp hfits
    · obtain rfl := Option.some.inj he
      exact clearPayload_of_not_le hp hfits
    · obtain rfl := Option.some.inj he
      exact clearPayload_of_not_owns hp len
  | sweep => contradiction
  | write a bytes => contradiction

/-- Everything else is carried out: where a block is in use there is a header, and it is
allocated. -/
theorem Request.granted (hc : h.Consistent) (request : Request)
    (hnone : request.objection? h = none) : ∃ h', request.run h = .ok () h' := by
  have hm := hc.mapped
  cases request with
  | alloc size =>
    rcases alloc_cases hm size with hfull | ⟨p, -, hsome⟩
    · exact ⟨h, by rw [run, Action.discard_apply, hfull]⟩
    · exact ⟨h.withBlock p size, by rw [run, Action.discard_apply, hsome]⟩
  | allocate tag size =>
    rw [objection?] at hnone
    split_ifs at hnone with hsize
    rcases allocate_cases_of_mapped hm tag size with ⟨htoo, -⟩ | ⟨-, -, hfull⟩ | ⟨-, p, -, hsome⟩
    · exact absurd htoo hsize
    · exact ⟨h, by rw [run, Action.discard_apply, hfull]⟩
    · exact ⟨h.withObject tag p size, by rw [run, Action.discard_apply, hsome]⟩
  | free p =>
    rw [objection?] at hnone
    split_ifs at hnone with hp
    exact ⟨_, free_eq hm hp⟩
  | setHeader p hd =>
    rw [objection?] at hnone
    split_ifs at hnone with hp halloc
    exact ⟨_, hm.setHeader_eq hp halloc⟩
  | clearPayload p len =>
    rw [objection?] at hnone
    split_ifs at hnone with hp hfits
    exact ⟨_, clearPayload_eq hp hfits⟩
  | sweep =>
    -- A sweep is refused only where a block in use has a free header.
    have halloc : ∀ b ∈ h.map.blocks, (h.headerAt b.start).alloc := fun b hb =>
      hc.alloc _ (owns_iff.mpr ⟨b, hb, rfl⟩)
    rcases sweep_cases hm with ⟨-, h', hok, -⟩ | ⟨c, hc', hfree, -⟩
    · exact ⟨h', by rw [run, Action.discard_apply, hok]⟩
    · exact absurd (hfree.symm.trans (halloc c hc')) Bool.false_ne_true
  | write a bytes => exact ⟨_, rfl⟩

/-- Where no block is handed out, nothing has changed. -/
theorem alloc_none (hm : h.Mapped) {size : Nat} (hnone : alloc size h = .ok none h') : h' = h := by
  rcases alloc_cases hm size with hfull | ⟨p, -, hsome⟩
  · exact (EStateM.Result.ok.inj (hnone.symm.trans hfull)).2
  · exact absurd (EStateM.Result.ok.inj (hnone.symm.trans hsome)).1 (Option.some_ne_none _).symm

theorem allocate_none (hm : h.Mapped) {tag : Tag} {size : Nat}
    (hnone : allocate tag size h = .ok none h') : h' = h := by
  rcases allocate_cases_of_mapped hm tag size with ⟨-, htoo⟩ | ⟨-, -, hfull⟩ | ⟨-, p, -, hsome⟩
  · rw [hnone] at htoo
    contradiction
  · exact (EStateM.Result.ok.inj (hnone.symm.trans hfull)).2
  · exact absurd (EStateM.Result.ok.inj (hnone.symm.trans hsome)).1 (Option.some_ne_none _).symm

/-- A header is refused only because no block can start there. -/
theorem header_eq_error (hm : h.Mapped) (he : h.header p = .error e) : e = .notABlock p := by
  rw [header] at he
  split_ifs at he with hp
  · rw [readHeader_eq hm.layout (Bool.and_eq_true_iff.mp hp).1] at he
    contradiction
  · exact (Except.error.inj he).symm

/-- If table and map tell of the same blocks, refusals are exact. -/
theorem Consistent.exact (hc : h.Consistent) : Exact h where
  refused request _ he := request.refused he
  granted request hnone := request.granted hc hnone
  alloc_none _ _ hnone := BlockHeap.alloc_none hc.mapped hnone
  allocate_none _ _ _ hnone := BlockHeap.allocate_none hc.mapped hnone
  header_error _ _ he := header_eq_error hc.mapped he
  freeMapFirst_eq := BlockHeap.freeMapFirst_eq hc.mapped

/-- As long as the program does not write the header table itself, requests are refused for their
objections and for nothing else, at every moment of every history, and no refusal leaves a trace. -/
theorem Reachable.refuses_exactly (hs : Reachable (fun h request => request.Contained h) s) :
    Exact s.heap :=
  hs.consistent_and_recorded.1.exact

/-- The header of the object at 8 cannot be replaced by one that calls it free, and the object at 16
cannot be given back twice. For 25 bytes, which take all four granules, there is no room. -/
theorem refuses_exactly_small :
    let s := History.small.serve [.allocate .cell 4, .allocate .blob 3, .free 16]
    (BlockHeap.setHeader 8 (.released (.fresh .cell 4))) s.heap =
        .error (.corruptHeader 8 .clearsAlloc) s.heap ∧
      BlockHeap.free 16 s.heap = .error (.notAllocated 16) s.heap ∧
      (alloc 25).answer? s.heap = some none ∧ Exact s.heap := by
  intro s
  have hs : Reachable (fun h request => request.Contained h) s :=
    (reachable_small _).serve (by simp [Request.Contained])
  have hexact := hs.refuses_exactly
  refine ⟨hexact.refused (.setHeader 8 _) _ (by decide +kernel),
    hexact.refused (.free 16) _ (by decide +kernel), by decide +kernel, hexact⟩

end MarkSweep.BlockHeap
