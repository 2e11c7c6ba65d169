import MarkSweep.Proofs.BlockHeap.Allocation
import MarkSweep.Proofs.BlockHeap.Upkeep

/-!
# Histories of a block heap

A program uses a block heap by requests. `BlockHeap.History` is a heap together with the blocks that
it has ever handed out, and `BlockHeap.Reachable` are the histories that start with a new heap and
go on by requests, refused ones included.

What a request can come to is said once (`BlockHeap.Outcome`, `Request.outcome`). Whatever is
requested, only four kinds of things happen to a heap: a block is taken into use, the header of a
block is replaced, a block is given back, or bytes are written (`BlockHeap.Change`). Each request is
a sequence of such changes (`Request.changes`), so an invariant of histories has to be proved for
four changes and nothing else (`Reachable.invariant`).
-/

namespace MarkSweep.BlockHeap

/-- What a program can ask of a block heap. -/
inductive Request where
  | alloc (size : Nat)
  | allocate (tag : Tag) (size : Nat)
  | free (p : Addr)
  | setHeader (p : Addr) (header : Header)
  | clearPayload (p : Addr) (len : Nat)
  | sweep
  | write (a : Addr) (bytes : List UInt8)

namespace Request

/-- Carries the request out. The answer is not needed. -/
def run : Request → Action BlockHeap Unit
  | alloc size => discard (BlockHeap.alloc size)
  | allocate tag size => discard (BlockHeap.allocate tag size)
  | free p => BlockHeap.free p
  | setHeader p header => BlockHeap.setHeader p header
  | clearPayload p len => BlockHeap.clearPayload p len
  | sweep => discard BlockHeap.sweep
  | write a bytes => onMemory (modify fun m => m.overwrite a bytes)

/-- The block that the request is answered with, if any. -/
def handsOut (h : BlockHeap) : Request → Option Block
  | alloc size => ((BlockHeap.alloc size).answer? h).join
  | allocate tag size =>
    ((BlockHeap.allocate tag size).answer? h).join.map (⟨·, h.layout.footprint size⟩)
  | _ => none

/-- The addresses that the program itself chooses to have written, if the request is not refused. -/
def written (h : BlockHeap) : Request → Set Addr
  | clearPayload p len => {i | h.owns p ∧ i ∈ Set.Ico p (p + len)}
  | write a bytes => Set.Ico a (a + bytes.length)
  | _ => ∅

end Request

/-- A heap and the blocks that it has ever handed out. -/
structure History where
  /-- The heap. -/
  heap : BlockHeap
  /-- The blocks, the latest first. -/
  handed : List Block

/-- The history goes on with a request. -/
def History.next (s : History) (request : Request) : History where
  heap := request.run.after s.heap
  handed := (request.handsOut s.heap).toList ++ s.handed

/-- The histories of heaps that were new in memories of 32-bit addresses. They go on with requests
that are admitted when they are made. -/
inductive Reachable (admits : BlockHeap → Request → Prop) : History → Prop where
  | start {memory : Memory} {layout : Layout} {heap : BlockHeap}
      (memory_le : memory.size ≤ UInt32.size) (created : create memory layout = .ok heap) :
      Reachable admits ⟨heap, []⟩
  | next {s : History} {request : Request} (reachable : Reachable admits s)
      (admitted : admits s.heap request) : Reachable admits (s.next request)

/-- The heap with other bytes in its memory. -/
def overwritten (a : Addr) (bytes : List UInt8) (h : BlockHeap) : BlockHeap :=
  { h with memory := h.memory.overwrite a bytes }

/-- What a request can come to: the block it is answered with, and what becomes of the heap. It
changes nothing if it is refused, or if there is no room. -/
inductive Outcome (h : BlockHeap) : Request → Option Block → BlockHeap → Prop where
  | unchanged {request : Request} : Outcome h request none h
  | alloc {p : Addr} {size : Nat}
      (fit : h.map.firstFit? h.layout.stop (h.layout.footprint size) = some p) :
      Outcome h (.alloc size) (some ⟨p, h.layout.footprint size⟩) (h.withBlock p size)
  | allocate {tag : Tag} {p : Addr} {size : Nat}
      (fit : h.map.firstFit? h.layout.stop (h.layout.footprint size) = some p) :
      Outcome h (.allocate tag size) (some ⟨p, h.layout.footprint size⟩) (h.withObject tag p size)
  | free {p : Addr} (owns : h.owns p) : Outcome h (.free p) none (h.freed p)
  | setHeader {p : Addr} {hd : Header} (owns : h.owns p) (alloc : hd.alloc) :
      Outcome h (.setHeader p hd) none (h.putHeader p hd)
  | clearPayload {p : Addr} {len : Nat} (owns : h.owns p) :
      Outcome h (.clearPayload p len) none (h.zeroed p len)
  | sweep {h' : BlockHeap} (upkept : Upkept h h') : Outcome h .sweep none h'
  | write {a : Addr} {bytes : List UInt8} : Outcome h (.write a bytes) none (h.overwritten a bytes)

/-- The things that happen to a heap. Bytes are written at addresses of `W` only. -/
inductive Change (W : Set Addr) (s : History) : History → Prop where
  | take {p : Addr} {size : Nat}
      (fit : s.heap.map.firstFit? s.heap.layout.stop (s.heap.layout.footprint size) = some p) :
      Change W s ⟨s.heap.withBlock p size, ⟨p, s.heap.layout.footprint size⟩ :: s.handed⟩
  | putHeader {p : Addr} {hd : Header} (owns : s.heap.owns p) (alloc : hd.alloc) :
      Change W s ⟨s.heap.putHeader p hd, s.handed⟩
  | free {p : Addr} (owns : s.heap.owns p) : Change W s ⟨s.heap.freed p, s.handed⟩
  | overwrite {a : Addr} {bytes : List UInt8} (inside : Set.Ico a (a + bytes.length) ⊆ W) :
      Change W s ⟨s.heap.overwritten a bytes, s.handed⟩

/-- Some of those things, one after the other. -/
def Changes (W : Set Addr) : History → History → Prop := Relation.ReflTransGen (Change W)

variable {W : Set Addr} {h : BlockHeap} {s t : History} {p : Addr} {handed : List Block}

/-- What is written has no part in how map and layout fit each other. -/
theorem mapped_overwritten {a : Addr} {bytes : List UInt8} (hm : h.Mapped) :
    (h.overwritten a bytes).Mapped := by
  refine ⟨?_, hm.map⟩
  rw [overwritten, Memory.size_overwrite]
  exact hm.layout

/-- Layout and map stay fit for each other. -/
theorem Change.mapped (hc : Change W s t) (hm : s.heap.Mapped) : t.heap.Mapped := by
  cases hc with
  | take hfit => exact mapped_withBlock hm hfit
  | putHeader _ _ => exact hm.putHeader _ _
  | free hp => exact mapped_freed hm hp
  | overwrite _ => exact mapped_overwritten hm

/-- No change touches the layout. -/
theorem Change.layout_eq (hc : Change W s t) : t.heap.layout = s.heap.layout := by
  cases hc with
  | take _ => exact withBlock_layout ..
  | putHeader _ _ => exact putHeader_layout ..
  | free _ => exact freed_layout ..
  | overwrite _ => rfl

/-! ### What requests are made of -/

/-- Upkeep replaces headers and gives blocks back. -/
theorem Upkeep.change {h' : BlockHeap} (hu : Upkeep h h') : Change W ⟨h, handed⟩ ⟨h', handed⟩ := by
  cases hu with
  | putHeader howns halloc _ => exact .putHeader howns halloc
  | free howns => exact .free howns

/-- By induction on its steps, upkeep is a sequence of changes that writes no bytes of its own. -/
theorem changes_of_upkept {h' : BlockHeap} (hu : Upkept h h') :
    Changes W ⟨h, handed⟩ ⟨h', handed⟩ :=
  Relation.ReflTransGen.lift (⟨·, handed⟩ : BlockHeap → History) (fun _ _ => Upkeep.change) _ _ hu

/-- What stands in the header table has no part in this. -/
theorem Request.outcome (request : Request) (hm : h.Mapped) :
    Outcome h request (request.handsOut h) (request.run.after h) := by
  -- How each operation can end is known; where it is refused nothing has changed.
  cases request with
  | alloc size =>
    rw [run, handsOut, Action.after_discard, Action.answer?]
    rcases alloc_cases hm size with hnone | ⟨p, hfit, hsome⟩
    · rw [Action.after_of_eq_ok hnone, hnone]
      exact .unchanged
    · rw [Action.after_of_eq_ok hsome, hsome]
      exact .alloc hfit
  | allocate tag size =>
    rw [run, handsOut, Action.after_discard, Action.answer?]
    rcases allocate_cases_of_mapped hm tag size with
      ⟨-, htoo⟩ | ⟨-, -, hnone⟩ | ⟨-, p, hfit, hsome⟩
    · rw [Action.after_of_eq_error htoo, htoo]
      exact .unchanged
    · rw [Action.after_of_eq_ok hnone, hnone]
      exact .unchanged
    · rw [Action.after_of_eq_ok hsome, hsome]
      exact .allocate hfit
  | free p =>
    rw [run]
    rcases free_cases hm p with ⟨e, herror⟩ | ⟨hp, hok⟩
    · rw [Action.after_of_eq_error herror]
      exact .unchanged
    · rw [Action.after_of_eq_ok hok]
      exact .free hp
  | setHeader p hd =>
    rw [run]
    rcases setHeader_cases hm p hd with ⟨e, herror⟩ | ⟨hp, halloc, hok⟩
    · rw [Action.after_of_eq_error herror]
      exact .unchanged
    · rw [Action.after_of_eq_ok hok]
      exact .setHeader hp halloc
  | clearPayload p len =>
    rw [run]
    rcases clearPayload_cases h p len with ⟨e, herror⟩ | ⟨hp, hok⟩
    · rw [Action.after_of_eq_error herror]
      exact .unchanged
    · rw [Action.after_of_eq_ok hok]
      exact .clearPayload hp
  | sweep =>
    rw [run, Action.after_discard]
    exact .sweep (upkept_sweep hm)
  | write a bytes => exact .write

/-- Every request is a sequence of changes. It writes no bytes but those that the program chooses
and those of objects. -/
theorem Request.changes (request : Request) (hm : s.heap.Mapped)
    (hregion : s.heap.layout.region ⊆ W) (hwritten : request.written s.heap ⊆ W) :
    Changes W s (s.next request) := by
  obtain ⟨h, handed⟩ := s
  have hout := request.outcome hm
  rw [History.next]
  generalize request.handsOut h = answer, request.run.after h = h' at hout ⊢
  cases hout with
  | unchanged => exact .refl
  | alloc hfit => exact .single (.take hfit)
  | allocate hfit =>
    -- The block is taken into use, then its header gets the tag, then its payload is cleared.
    refine .tail (.tail (.single (.take hfit)) (.putHeader (owns_withBlock hm hfit) rfl))
      (.overwrite ?_)
    rw [List.length_replicate]
    exact (object_subset_region_of_firstFit hm hfit).trans hregion
  | free hp => exact .single (.free hp)
  | setHeader hp halloc => exact .single (.putHeader hp halloc)
  | clearPayload hp =>
    refine .single (.overwrite ?_)
    rw [List.length_replicate]
    exact fun i hi => hwritten ⟨hp, hi⟩
  | sweep hupkept => exact changes_of_upkept hupkept
  | write => exact .single (.overwrite hwritten)

/-- What holds of a history and is kept by each change, is kept by a sequence of them. -/
theorem Changes.invariant {P : History → Prop} (hchange : ∀ s t, P s → Change W s t → P t)
    (hc : Changes W s t) (hs : P s) : P t := by
  induction hc with
  | refl => exact hs
  | tail _ hc ih => exact hchange _ _ ih hc

/-- What holds of a history and is kept by each change, is kept by a request. -/
theorem Request.invariant {P : History → Prop} (W : Layout → Set Addr) (request : Request)
    (hm : s.heap.Mapped) (hregion : s.heap.layout.region ⊆ W s.heap.layout)
    (hwritten : request.written s.heap ⊆ W s.heap.layout)
    (hchange : ∀ s t, P s → Change (W s.heap.layout) s t → P t) (hs : P s) :
    P (s.next request) := by
  -- The layout never changes, so what may be written stays the same throughout the request.
  refine ((request.changes hm hregion hwritten).invariant
    (P := fun t => P t ∧ t.heap.layout = s.heap.layout) ?_ ⟨hs, rfl⟩).1
  rintro t u ⟨ht, hlayout⟩ hc
  rw [← hlayout] at hc
  exact ⟨hchange t u ht hc, hc.layout_eq.trans hlayout⟩

/-- What holds of new heaps and is kept by each change, holds of all histories. The addresses that
may be written have to include the region. -/
theorem Reachable.invariant {admits : BlockHeap → Request → Prop} {P : History → Prop}
    (W : Layout → Set Addr) (hmapped : ∀ s, P s → s.heap.Mapped)
    (hregion : ∀ s, P s → s.heap.layout.region ⊆ W s.heap.layout)
    (hwritten : ∀ s request, P s → admits s.heap request →
      request.written s.heap ⊆ W s.heap.layout)
    (hstart : ∀ memory layout heap, memory.size ≤ UInt32.size → create memory layout = .ok heap →
      P ⟨heap, []⟩)
    (hchange : ∀ s t, P s → Change (W s.heap.layout) s t → P t) (hs : Reachable admits s) :
    P s := by
  induction hs with
  | start hmemory hcreated => exact hstart _ _ _ hmemory hcreated
  | @next s request _ hadmits ih =>
    exact request.invariant W (hmapped s ih) (hregion s ih) (hwritten s request ih hadmits)
      hchange ih

/-! ### Requests in a row -/

/-- The history goes on with a list of requests. -/
def History.serve (requests : List Request) (s : History) : History :=
  requests.foldl History.next s

/-- A history can go on with any requests that are admitted in every heap. -/
theorem Reachable.serve {admits : BlockHeap → Request → Prop} {requests : List Request}
    (hs : Reachable admits s) (hadmits : ∀ request ∈ requests, ∀ h, admits h request) :
    Reachable admits (s.serve requests) := by
  induction requests generalizing s with
  | nil => exact hs
  | cons request rest ih =>
    rw [List.forall_mem_cons] at hadmits
    exact ih (hs.next (hadmits.1 s.heap)) hadmits.2

/-- A new heap with a region of four granules and the header table right behind the region, in a
memory that is not clean. -/
def History.small : History :=
  ⟨⟨{ start := 8, stop := 40 }, (Memory.filled 56 0xFF).overwrite 40 (List.replicate 16 0),
    .empty 8⟩, []⟩

/-- The heap with four granules is new, so its history is reachable. -/
theorem reachable_small (admits : BlockHeap → Request → Prop) : Reachable admits .small :=
  @Reachable.start admits (.filled 56 0xFF) { start := 8, stop := 40 } _ (by decide) rfl

end MarkSweep.BlockHeap
