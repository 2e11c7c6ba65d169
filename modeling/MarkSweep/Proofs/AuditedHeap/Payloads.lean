import Mathlib.Order.CompletePartialOrder
import Mathlib.Order.Interval.Set.Disjoint
import MarkSweep.Proofs.AuditedHeap.Audit

/-!
# Payloads behind the record

A program that has only an audited heap may ask for whatever it likes, for blocks that it does not
have, too, and for headers that say something else than the block was handed out for. Together with
the heap, `AuditedHeap.Logged` keeps the log of the allocations that have been answered.

Whatever the requests, the objects remain those of the log (`AuditedHeap.Logged.payloads_kept`): the
header of a block on record states the tag and the size of the allocation, the payload has just the
bytes that were asked for, and no other object has any of them.
-/

namespace MarkSweep

open MarkSweep.Action

/-- The addresses of the bytes that were asked for. -/
def Entry.bytes (e : Entry) : Set Addr := Set.Ico e.addr (e.addr + e.size)

namespace AuditedHeap

/-- The heaps that have been used through the record only, and whose header table no one else has
written. The log lists the allocations that the audited heap has answered, the latest first. -/
inductive Logged : AuditedHeap BlockHeap → List Entry → Prop where
  | start {memory : Memory} {layout : Layout} {heap : BlockHeap}
      (memory_le : memory.size ≤ UInt32.size)
      (created : BlockHeap.create memory layout = .ok heap) : Logged (.start heap) []
  | request {a : AuditedHeap BlockHeap} {log : List Entry} {α : Type} (logged : Logged a log)
      (request : Heap.Request α) : Logged (request.run.after a) ((request.newEntry a).toList ++ log)
  | write {a : AuditedHeap BlockHeap} {log : List Entry} (logged : Logged a log) (addr : Addr)
      (bytes : List UInt8) (outside : Set.Ico addr (addr + bytes.length) ⊆ a.inner.layout.tableᶜ) :
      Logged ((onInner (BlockHeap.Request.write addr bytes).run).after a) log

/-- The block is on record, and it has been handed out by this allocation. -/
structure Object (a : AuditedHeap BlockHeap) (log : List Entry) (e : Entry) : Prop where
  tracked : a.isTracked e.addr
  latest : log.find? (·.addr = e.addr) = some e

/-- The objects on record are those that have been allocated. -/
structure Kept (a : AuditedHeap BlockHeap) (log : List Entry) : Prop where
  /-- Every block on record has been handed out by an allocation. -/
  object : ∀ p, a.isTracked p → ∃ e, Object a log e ∧ e.addr = p
  /-- The header is allocated and states the tag and the size that were asked for. -/
  header : ∀ e, Object a log e → ∃ hd, a.inner.header e.addr = .ok hd ∧
    hd.alloc ∧ hd.tag = e.tag ∧ hd.size = e.size
  /-- The payload consists of the bytes that were asked for. -/
  payload : ∀ e, Object a log e → ∃ payload, a.payload e.addr = .ok payload ∧
    payload.size = e.size ∧
      payload = a.inner.memory.bytes.extract e.addr (e.addr + e.size)
  /-- They fit into the block. -/
  fits : ∀ e, Object a log e → ∃ b ∈ a.inner.map.blocks, b.start = e.addr ∧ e.size ≤ b.size
  /-- They lie in the region. -/
  inside : ∀ e, Object a log e → e.bytes ⊆ a.inner.layout.region
  /-- No two objects share a byte. -/
  apart : ∀ e f, Object a log e → Object a log f → e.addr ≠ f.addr → Disjoint e.bytes f.bytes
  /-- When no block on record has a mark, an audit goes through. -/
  audit : (∀ p hd, a.isTracked p → a.inner.header p = .ok hd → hd.mark = false) →
    audit a = .ok () a

variable {a : AuditedHeap BlockHeap} {log : List Entry} {e f : Entry} {α : Type}

namespace Faithful

variable (hf : a.Faithful log)

include hf

/-- The record and the heap behind it answer an allocation alike. -/
theorem newEntry_eq (request : Heap.Request α) : request.newEntry a = request.newEntry a.inner := by
  cases request with
  | allocate tag size =>
    have hanswer : (Heap.allocate tag size).answer? a = (Heap.allocate tag size).answer? a.inner :=
      (hf.alike_allocate tag size).answer_eq
    rw [Heap.Request.newEntry, hanswer, Heap.Request.newEntry]
  | _ => rfl

/-- What has been allocated and is on record is one of the entries. -/
theorem object_iff : Object a log e ↔ e ∈ a.entries := by
  constructor
  · rintro ⟨htracked, hlatest⟩
    obtain ⟨e', he', haddr, -⟩ := hf.entry_of_owns (hf.isTracked_eq e.addr ▸ htracked)
    have hlatest' := hf.logged e' he'
    rw [haddr, hlatest] at hlatest'
    obtain rfl := Option.some.inj hlatest'
    exact he'
  · intro he
    exact ⟨(hf.isTracked_eq e.addr).trans (hf.owns_of_mem he), hf.logged e he⟩

/-- The header of an object states the size that was asked for. -/
theorem size_eq (he : e ∈ a.entries) : (a.inner.headerAt e.addr).size = e.size := by
  have hagrees := hf.agrees e he
  rw [Entry.agrees, Bool.and_eq_true, decide_eq_true_eq, decide_eq_true_eq] at hagrees
  exact hagrees.2

/-- The header of an object states the tag that was asked for. -/
theorem tag_eq (he : e ∈ a.entries) : (a.inner.headerAt e.addr).tag = e.tag := by
  have hagrees := hf.agrees e he
  rw [Entry.agrees, Bool.and_eq_true, decide_eq_true_eq, decide_eq_true_eq] at hagrees
  exact hagrees.1

/-- The bytes that were asked for are those that the header says. -/
theorem bytes_eq (he : e ∈ a.entries) :
    e.bytes = Set.Ico e.addr (e.addr + (a.inner.headerAt e.addr).size) := by
  rw [hf.size_eq he, Entry.bytes]

/-- Objects lie in the region. -/
theorem bytes_subset_region (he : e ∈ a.entries) : e.bytes ⊆ a.inner.layout.region := by
  rw [hf.bytes_eq he]
  exact hf.valid.object_subset_region (hf.owns_of_mem he)

/-- Different objects have no byte in common. -/
theorem disjoint_bytes (he : e ∈ a.entries) (hf' : f ∈ a.entries) (hne : e.addr ≠ f.addr) :
    Disjoint e.bytes f.bytes := by
  rw [hf.bytes_eq he, hf.bytes_eq hf', ← Set.subset_compl_iff_disjoint_right]
  exact hf.valid.object_subset_compl_object (hf.owns_of_mem hf') (hf.owns_of_mem he) hne

/-- The payload is read behind the record, and none of its bytes lies behind the memory. -/
theorem payload_eq_extract (he : e ∈ a.entries) :
    a.payload e.addr = .ok (a.inner.memory.bytes.extract e.addr (e.addr + e.size)) := by
  rw [hf.payload_eq, hf.valid.payload_eq (hf.owns_of_mem he), BlockHeap.payloadAt, hf.size_eq he]

/-- All bytes of an object are there to be read. -/
theorem size_extract (he : e ∈ a.entries) :
    (a.inner.memory.bytes.extract e.addr (e.addr + e.size)).size = e.size := by
  have hsub : Set.Ico e.addr (e.addr + e.size) ⊆ a.inner.layout.region := hf.bytes_subset_region he
  have hboundary := hf.valid.boundary (hf.owns_of_mem he)
  have hle : e.addr + e.size ≤ a.inner.memory.bytes.size :=
    BlockHeap.le_memory_of_subset_region hf.valid.layout hboundary hsub
  rw [Array.size_extract, Nat.min_eq_left hle, Nat.add_sub_cancel_left]

/-- Without marks there is nothing that an audit could find. -/
theorem audit_eq_ok (hmarks : ∀ e ∈ a.entries, (a.inner.headerAt e.addr).mark = false) :
    audit a = .ok () a := by
  rw [audit_eq hf.mismatch_eq]
  rcases auditEntries_cases hf.valid.mapped a.entries with ⟨-, hok⟩ | ⟨⟨e, he, hrests⟩, -⟩
  · exact hok
  · have howns := hf.owns_of_mem he
    exact absurd ⟨howns, hf.valid.headerAt_alloc howns, hmarks e he, hf.agrees e he⟩ hrests

/-- With a faithful record, the objects are as they were asked for. -/
theorem kept : Kept a log where
  object p htracked := by
    obtain ⟨e, he, haddr, -⟩ := hf.entry_of_owns (hf.isTracked_eq p ▸ htracked)
    exact ⟨e, hf.object_iff.mpr he, haddr⟩
  header e hobject := by
    have he := hf.object_iff.mp hobject
    have howns := hf.owns_of_mem he
    exact ⟨_, hf.valid.header_eq howns, hf.valid.headerAt_alloc howns, hf.tag_eq he, hf.size_eq he⟩
  payload e hobject := by
    have he := hf.object_iff.mp hobject
    exact ⟨_, hf.payload_eq_extract he, hf.size_extract he, rfl⟩
  fits e hobject := by
    have he := hf.object_iff.mp hobject
    obtain ⟨b, hb, hstart⟩ := BlockHeap.owns_iff.mp (hf.owns_of_mem he)
    refine ⟨b, hb, hstart, ?_⟩
    rw [← hf.size_eq he, ← hstart]
    exact hf.valid.size_le b hb
  inside e hobject := hf.bytes_subset_region (hf.object_iff.mp hobject)
  apart e f hobject hobject' := hf.disjoint_bytes (hf.object_iff.mp hobject)
    (hf.object_iff.mp hobject')
  audit hmarks := by
    refine hf.audit_eq_ok fun e he => ?_
    have howns := hf.owns_of_mem he
    exact hmarks e.addr _ ((hf.isTracked_eq e.addr).trans howns) (hf.valid.header_eq howns)

end Faithful

/-- The record of an audited heap is faithful to the log, whatever has been requested. -/
theorem Logged.faithful (ha : Logged a log) : a.Faithful log := by
  induction ha with
  | start hmemory hcreated => exact faithful_start hmemory hcreated
  | request _ request ih =>
    rw [ih.newEntry_eq]
    exact ih.after request
  | write _ _ _ houtside ih =>
    rw [after_onInner]
    exact ih.overwritten houtside

/-- Through its record a heap gives access to the objects that have been allocated and not been
swept, and to nothing else, whatever is requested. -/
theorem Logged.payloads_kept (ha : Logged a log) : Kept a log := ha.faithful.kept

/-- Two headers are refused here, one with another size and one that is not allocated. The address
of an object that has been swept is handed out again. -/
theorem payloads_kept_small : ∃ a log, Logged a log ∧
    log = [⟨8, .list, 5⟩, ⟨16, .blob, 9⟩, ⟨8, .cell, 4⟩] ∧
      a.entries = [⟨16, .blob, 9⟩, ⟨8, .list, 5⟩] ∧ Kept a log := by
  have hstart : Logged (start BlockHeap.History.small.heap) [] :=
    @Logged.start (.filled 56 0xFF) { start := 8, stop := 40 } _ (by decide) rfl
  have hrefused := ((hstart.request (.allocate .cell 4)).request
    (.setHeader 8 (.fresh .cell 12))).request (.setHeader 8 (.released (.fresh .cell 4)))
  have hmarked := (hrefused.request (.allocate .blob 9)).request
    (.setHeader 16 (.setMark (.fresh .blob 9)))
  have hlogged := (hmarked.request .sweep).request (.allocate .list 5)
  exact ⟨_, _, hlogged, by decide +kernel, by decide +kernel, hlogged.payloads_kept⟩

end AuditedHeap

end MarkSweep
