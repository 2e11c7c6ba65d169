import MarkSweep.Proofs.AuditedHeap.Audit

/-!
# What an audit detects

A program can also get at the heap behind the record and take blocks into use or give them back
there. The next audit is refused exactly if a block on record is concerned: the heap does not own it
any more, or its header has a mark or does not agree with the record (`audit_refused_iff`).

An audit asks about the blocks on record only. Blocks that are taken into use behind the record, at
other addresses, are overlooked (`audit_overlooks`).
-/

namespace MarkSweep

open MarkSweep.Action

/-- The request takes a block into use or gives one back. -/
def BlockHeap.Request.TakesOrGives : BlockHeap.Request → Prop
  | alloc _ | allocate _ _ | free _ => True
  | _ => False

/-- Requests that take blocks or give them back write nothing of their own. -/
theorem BlockHeap.Request.TakesOrGives.contained {request : BlockHeap.Request}
    (hr : request.TakesOrGives) (h : BlockHeap) : request.Contained h := by
  cases request with
  | alloc _ => trivial
  | allocate _ _ => trivial
  | free _ => trivial
  | _ => exact hr.elim

namespace AuditedHeap

/-- The heaps that have been used through the record only, and whose header table no one else has
written. -/
inductive Reachable : AuditedHeap BlockHeap → Prop where
  | start {memory : Memory} {layout : Layout} {heap : BlockHeap}
      (memory_le : memory.size ≤ UInt32.size)
      (created : BlockHeap.create memory layout = .ok heap) : Reachable (.start heap)
  | request {a : AuditedHeap BlockHeap} {α : Type} (reachable : Reachable a)
      (request : Heap.Request α) : Reachable (request.run.after a)
  | write {a : AuditedHeap BlockHeap} (reachable : Reachable a) (addr : Addr)
      (bytes : List UInt8) (outside : Set.Ico addr (addr + bytes.length) ⊆ a.inner.layout.tableᶜ) :
      Reachable ((onInner (BlockHeap.Request.write addr bytes).run).after a)

/-- Requests made behind the record. -/
def bypass (requests : List BlockHeap.Request) (a : AuditedHeap BlockHeap) :
    AuditedHeap BlockHeap :=
  requests.foldl (fun a request => (onInner request.run).after a) a

variable {a : AuditedHeap BlockHeap} {requests : List BlockHeap.Request}

/-- By induction over its history, a heap that is used through its record only has a faithful one.
-/
theorem Reachable.faithful (ha : Reachable a) : ∃ log, a.Faithful log := by
  induction ha with
  | start hmemory hcreated => exact ⟨[], faithful_start hmemory hcreated⟩
  | request _ request ih =>
    obtain ⟨log, hf⟩ := ih
    exact ⟨_, hf.after request⟩
  | write _ addr bytes houtside ih =>
    obtain ⟨log, hf⟩ := ih
    rw [after_onInner]
    exact ⟨log, hf.overwritten houtside⟩

/-- What is done behind the record leaves the record alone, and the heap in order. -/
theorem bypass_spec (hrequests : ∀ request ∈ requests, request.TakesOrGives)
    (hc : a.inner.Consistent) : ∃ h : BlockHeap, h.Consistent ∧
      a.bypass requests = { a with inner := h } := by
  induction requests generalizing a with
  | nil => exact ⟨a.inner, hc, rfl⟩
  | cons request rest ih =>
    rw [List.forall_mem_cons] at hrequests
    have hnext := (hrequests.1.contained a.inner).consistent hc
    obtain ⟨h, hc', heq⟩ := ih (a := { a with inner := request.run.after a.inner })
      hrequests.2 hnext
    refine ⟨h, hc', ?_⟩
    rw [bypass, List.foldl_cons, after_onInner]
    exact heq

/-- An audit is refused exactly if one of the blocks on record has gone, has a mark or has another
header than on record. Whatever else the heap owns, it goes through. -/
theorem audit_refused_iff (ha : Reachable a)
    (hrequests : ∀ request ∈ requests, request.TakesOrGives) :
    (∃ e, audit.refusal? (a.bypass requests) = some e) ↔
      ∃ e ∈ a.entries, ¬ (a.bypass requests).inner.owns e.addr ∨
        ((a.bypass requests).inner.headerAt e.addr).mark ∨
          ¬ e.agrees ((a.bypass requests).inner.headerAt e.addr) := by
  obtain ⟨log, hf⟩ := ha.faithful
  obtain ⟨h, hc, heq⟩ := bypass_spec hrequests hf.consistent
  have haudit : audit { a with inner := h } = auditEntries a.entries { a with inner := h } :=
    audit_eq hf.mismatch_eq
  rw [heq, refusal?, haudit]
  -- A block that the heap owns has an allocated header, so only the rest can be wrong.
  have hrests : ∀ e : Entry, ¬ e.Rests h ↔ ¬ h.owns e.addr ∨ (h.headerAt e.addr).mark ∨
      ¬ e.agrees (h.headerAt e.addr) := by
    intro e
    by_cases howns : h.owns e.addr
    · simp [Entry.Rests, howns, hc.alloc e.addr howns, Classical.or_iff_not_imp_left]
    · simp [Entry.Rests, howns]
  simp only [← hrests]
  rcases auditEntries_cases (a := { a with inner := h }) hc.mapped a.entries with
    ⟨hall, hok⟩ | ⟨hsome, r, herror⟩
  · rw [hok]
    simpa using hall
  · rw [herror]
    exact ⟨fun _ => hsome, fun _ => ⟨r, rfl⟩⟩

/-- A block on record is given back behind the record, and its address is handed out again there. -/
theorem audit_refused_small :
    let a := (Heap.Request.allocate .cell 4).run.after (start BlockHeap.History.small.heap)
    Reachable a ∧ (∃ e, audit.refusal? (a.bypass [.free 8, .alloc 4]) = some e) ∧
      (a.bypass [.free 8, .alloc 4]).inner.owns 8 := by
  intro a
  have ha : Reachable a :=
    (@Reachable.start (.filled 56 0xFF) { start := 8, stop := 40 } _ (by decide) rfl).request
      (.allocate .cell 4)
  refine ⟨ha, (audit_refused_iff ha ?_).mpr ?_, by decide +kernel⟩
  · simp [BlockHeap.Request.TakesOrGives]
  · exact ⟨⟨8, .cell, 4⟩, by decide +kernel, .inr (.inr (by decide +kernel))⟩

/-- An audit need not be refused when the heap and the record are not of the same blocks. -/
theorem audit_overlooks : ¬ ∀ (a : AuditedHeap BlockHeap) (requests : List BlockHeap.Request),
    Reachable a → (∀ request ∈ requests, request.TakesOrGives) →
      {p | (a.bypass requests).inner.owns p} ≠ {p | (a.bypass requests).isTracked p} →
        ∃ e, audit.refusal? (a.bypass requests) = some e := by
  intro hclaim
  -- A block is allocated behind an empty record.
  let a := start BlockHeap.History.small.heap
  have ha : Reachable a :=
    @Reachable.start (.filled 56 0xFF) { start := 8, stop := 40 } _ (by decide) rfl
  have howned : (a.bypass [.alloc 4]).inner.owns 8 = true := by decide +kernel
  have huntracked : (a.bypass [.alloc 4]).isTracked 8 = false := by decide +kernel
  have hpasses : audit.refusal? (a.bypass [.alloc 4]) = none := by decide +kernel
  have hdiffer : {p | (a.bypass [.alloc 4]).inner.owns p} ≠
      {p | (a.bypass [.alloc 4]).isTracked p} := by
    intro hsame
    have hiff : (a.bypass [.alloc 4]).inner.owns 8 = true ↔
        (a.bypass [.alloc 4]).isTracked 8 = true := Set.ext_iff.mp hsame 8
    rw [howned, huntracked] at hiff
    exact Bool.false_ne_true (hiff.mp rfl)
  obtain ⟨e, he⟩ := hclaim a [.alloc 4] ha (by simp [BlockHeap.Request.TakesOrGives]) hdiffer
  exact Option.some_ne_none e (he.symm.trans hpasses)

end AuditedHeap

end MarkSweep
