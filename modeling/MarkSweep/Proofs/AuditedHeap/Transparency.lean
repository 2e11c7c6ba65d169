import MarkSweep.Proofs.AuditedHeap.Audit

/-!
# Transparency of the record

A program cannot tell whether a record is kept beside its heap, as long as it changes no more of the
headers than their marks. `AuditedHeap.Tandem` are two heaps, one with a record and one without, on
which the same requests have been made, and `Collector.Tandem` two collectors over such heaps.

In both cases all that is asked of the two gets the same answer or is refused for the same reason,
and the heap behind the record remains equal to the other one (`AuditedHeap.transparent`).
-/

namespace MarkSweep

open MarkSweep.Action

/-! ### Heaps -/

namespace AuditedHeap

/-- A heap with a record and a heap without one, new at first, on which the same requests have been
made and the same bytes written outside the header table. The log lists all allocations, the latest
first. -/
inductive Tandem : AuditedHeap BlockHeap → BlockHeap → List Entry → Prop where
  | start {memory : Memory} {layout : Layout} {heap : BlockHeap}
      (memory_le : memory.size ≤ UInt32.size)
      (created : BlockHeap.create memory layout = .ok heap) : Tandem (.start heap) heap []
  | request {a : AuditedHeap BlockHeap} {h : BlockHeap} {log : List Entry} {α : Type}
      (tandem : Tandem a h log) (request : Heap.Request α) (marks : request.OnlyMarks h) :
      Tandem (request.run.after a) (request.run.after h) ((request.newEntry h).toList ++ log)
  | write {a : AuditedHeap BlockHeap} {h : BlockHeap} {log : List Entry}
      (tandem : Tandem a h log) (addr : Addr) (bytes : List UInt8)
      (outside : Set.Ico addr (addr + bytes.length) ⊆ h.layout.tableᶜ) :
      Tandem ((onInner (BlockHeap.Request.write addr bytes).run).after a)
        ((BlockHeap.Request.write addr bytes).run.after h) log

/-- The record makes no difference, and it is right. -/
structure Transparent (a : AuditedHeap BlockHeap) (h : BlockHeap) (log : List Entry) : Prop where
  /-- The heap behind the record is the other one. -/
  inner_eq : a.inner = h
  /-- No disagreement has been seen. -/
  mismatch_eq : a.mismatch? = none
  /-- The blocks on record are those in use, each once. -/
  entries_perm : (a.entries.map (·.addr)).Perm (h.map.blocks.map (·.start))
  /-- Each is on record with the tag and the size that it has been allocated with. -/
  logged : ∀ e ∈ a.entries, log.find? (·.addr = e.addr) = some e
  /-- Every request has the same answer or the same refusal. -/
  alike : ∀ (α : Type) (request : Heap.Request α), request.OnlyMarks h →
    Alike (fun a h => a.inner = h ∧ a.mismatch? = none) request.run request.run a h

variable {a : AuditedHeap BlockHeap} {h : BlockHeap} {log : List Entry}

/-- Writing outside the header table goes alike with and without a record. -/
theorem Beside.alike_write (hb : Beside log a h) {addr : Addr} {bytes : List UInt8}
    (houtside : Set.Ico addr (addr + bytes.length) ⊆ h.layout.tableᶜ) :
    Alike (Beside log) (onInner (BlockHeap.Request.write addr bytes).run)
      (BlockHeap.Request.write addr bytes).run a h := by
  obtain ⟨rfl, hf⟩ := hb
  have hinner : (BlockHeap.Request.write addr bytes).run a.inner =
      .ok () (a.inner.overwritten addr bytes) := rfl
  have hwrite : onInner (BlockHeap.Request.write addr bytes).run a =
      .ok () { a with inner := a.inner.overwritten addr bytes } := by
    rw [onInner_apply, hinner]
  exact alike_of_eq_ok hwrite hinner ⟨rfl, hf.overwritten houtside⟩

/-- By induction over their common history, the audited heap stays faithful to the bare one. -/
theorem Tandem.beside (ht : Tandem a h log) : Beside log a h := by
  induction ht with
  | start hmemory hcreated => exact ⟨rfl, faithful_start hmemory hcreated⟩
  | request _ request hmarks ih =>
    obtain ⟨rfl, hf⟩ := ih
    exact (hf.alike request hmarks).after
  | write _ _ _ houtside ih => exact (ih.alike_write houtside).after

/-- A faithful audited heap answers every request as the bare heap beside it does. -/
theorem transparent_of_beside (hb : Beside log a h) : Transparent a h log := by
  obtain ⟨rfl, hf⟩ := hb
  refine ⟨rfl, hf.mismatch_eq, hf.entries_perm, hf.logged, fun α request hmarks => ?_⟩
  exact (hf.alike request hmarks).mono fun _ _ hb => ⟨hb.1, hb.2.mismatch_eq⟩

/-- A heap with a faithful record beside it is a twin of the heap alone. -/
theorem twins_beside : Heap.Twins fun a h => ∃ log, Beside log a h := by
  rintro a _ ⟨log, rfl, hf⟩ α request hmarks
  exact (hf.alike request hmarks).mono fun _ _ hb => ⟨_, hb⟩

end AuditedHeap

/-! ### Collectors -/

namespace Collector

open AuditedHeap (Beside)

/-- A collector over a heap with a record and a collector over one without, new at first, of which
the same has been asked. Requests can also be made on the heap directly, and bytes be written
outside the header table. -/
inductive Tandem : Collector (AuditedHeap BlockHeap) → Collector BlockHeap → Prop where
  | start {memory : Memory} {layout : Layout} {heap : BlockHeap} (tracers : TracerMap)
      (trigger : Trigger) (memory_le : memory.size ≤ UInt32.size)
      (created : BlockHeap.create memory layout = .ok heap) :
      Tandem (.start (.start heap) tracers trigger) (.start heap tracers trigger)
  | allocate {c : Collector (AuditedHeap BlockHeap)} {d : Collector BlockHeap}
      (tandem : Tandem c d) (tag : Tag) (size : Nat) :
      Tandem ((allocate tag size).after c) ((allocate tag size).after d)
  | collect {c : Collector (AuditedHeap BlockHeap)} {d : Collector BlockHeap}
      (tandem : Tandem c d) : Tandem (collect.after c) (collect.after d)
  | roots {c : Collector (AuditedHeap BlockHeap)} {d : Collector BlockHeap} {α : Type}
      (tandem : Tandem c d) (x : Action RootSet α) :
      Tandem ((onRoots x).after c) ((onRoots x).after d)
  | request {c : Collector (AuditedHeap BlockHeap)} {d : Collector BlockHeap} {α : Type}
      (tandem : Tandem c d) (request : Heap.Request α) (marks : request.OnlyMarks d.heap) :
      Tandem ((onHeap request.run).after c) ((onHeap request.run).after d)
  | write {c : Collector (AuditedHeap BlockHeap)} {d : Collector BlockHeap} (tandem : Tandem c d)
      (addr : Addr) (bytes : List UInt8)
      (outside : Set.Ico addr (addr + bytes.length) ⊆ d.heap.layout.tableᶜ) :
      Tandem ((onHeap (AuditedHeap.onInner (BlockHeap.Request.write addr bytes).run)).after c)
        ((onHeap (BlockHeap.Request.write addr bytes).run).after d)

/-- The collectors agree on everything but the record. -/
def Agree : Collector (AuditedHeap BlockHeap) → Collector BlockHeap → Prop :=
  Related fun a h => a.inner = h ∧ a.mismatch? = none

/-- The record makes no difference to what a program asks of its collector. -/
structure Transparent (c : Collector (AuditedHeap BlockHeap)) (d : Collector BlockHeap) :
    Prop where
  agree : Agree c d
  allocate : ∀ tag size, Alike Agree (allocate tag size) (allocate tag size) c d
  collect : Alike Agree collect collect c d
  roots : ∀ (α : Type) (x : Action RootSet α), Alike Agree (onRoots x) (onRoots x) c d

variable {c : Collector (AuditedHeap BlockHeap)} {d : Collector BlockHeap}

/-- The collectors agree, and the record is faithful. -/
def Paired : Collector (AuditedHeap BlockHeap) → Collector BlockHeap → Prop :=
  Related fun a h => ∃ log, Beside log a h

/-- Collectors whose heaps agree, and which are the same otherwise, agree. -/
theorem agree_of_paired (c : Collector (AuditedHeap BlockHeap)) (d : Collector BlockHeap)
    (hp : Paired c d) : Agree c d := by
  obtain ⟨⟨_, hinner, hf⟩, hroots, htracers, htrigger, htotals⟩ := hp
  exact ⟨⟨hinner, hf.mismatch_eq⟩, hroots, htracers, htrigger, htotals⟩

/-- By induction over their common history, the collectors differ in the record only, and it is
faithful. -/
theorem Tandem.paired (ht : Tandem c d) : Paired c d := by
  induction ht with
  | start tracers trigger hmemory hcreated =>
    exact ⟨⟨[], rfl, AuditedHeap.faithful_start hmemory hcreated⟩, rfl, rfl, rfl, rfl⟩
  | allocate _ tag size ih => exact (alike_allocate AuditedHeap.twins_beside tag size ih).after
  | collect _ ih => exact (alike_collect AuditedHeap.twins_beside ih).after
  | roots _ x ih => exact (alike_onRoots x ih).after
  | @request c d _ _ request hmarks ih =>
    exact (alike_onHeap ih (AuditedHeap.twins_beside c.heap d.heap ih.heap _ request hmarks)).after
  | @write c d _ addr bytes houtside ih =>
    obtain ⟨log, hb⟩ := ih.heap
    exact (alike_onHeap ih ((hb.alike_write houtside).mono fun _ _ hb => ⟨log, hb⟩)).after

/-- The bare heap is valid all the time. -/
theorem Tandem.valid (ht : Tandem c d) : d.heap.Valid := by
  obtain ⟨_, hinner, hf⟩ := ht.paired.heap
  exact hinner ▸ hf.valid

/-- What is asked of paired collectors goes alike on both. -/
theorem transparent_of_paired (hp : Paired c d) : Transparent c d where
  agree := agree_of_paired c d hp
  allocate tag size :=
    (alike_allocate AuditedHeap.twins_beside tag size hp).mono agree_of_paired
  collect := (alike_collect AuditedHeap.twins_beside hp).mono agree_of_paired
  roots _ x := (alike_onRoots x hp).mono agree_of_paired

end Collector

namespace AuditedHeap

/-- The record beside a heap makes no difference, neither to a program that uses the heap nor to a
program that uses a collector over it, after collections that have been refused either. -/
theorem transparent :
    (∀ a h log, Tandem a h log → Transparent a h log) ∧
      ∀ c d, Collector.Tandem c d → Collector.Transparent c d :=
  ⟨fun _ _ _ ht => transparent_of_beside ht.beside,
    fun _ _ ht => Collector.transparent_of_paired ht.paired⟩

/-- An address is handed out again under another entry, and a collection that is refused because of
a dangling reference is made up for when the reference has been cleared. -/
theorem transparent_small :
    (∃ a h log, Transparent a h log ∧ a.entries = [⟨8, .cell, 4⟩, ⟨16, .text, 2⟩] ∧
      log = [⟨16, .text, 2⟩, ⟨16, .blob, 3⟩, ⟨8, .cell, 4⟩]) ∧
    (∃ c d, Collector.Transparent c d ∧
      Collector.collect.refusal? c = some (.danglingReference 8 24)) ∧
    ∃ c d, Collector.Transparent c d ∧ c.heap.entries = [⟨8, .cell, 4⟩] ∧
      c.totals.collections = 1 := by
  have h₀ := @Tandem.start (.filled 56 0xFF) { start := 8, stop := 40 } _ (by decide) rfl
  have h₁ := (h₀.request (.allocate .cell 4) trivial).request (.allocate .blob 3) trivial
  have h₂ := h₁.request (.setHeader 8 (.setMark (.fresh .cell 4))) fun _ => by decide +kernel
  have h₃ := (h₂.request .sweep trivial).request (.allocate .text 2) trivial
  have c₀ := @Collector.Tandem.start (.filled 56 0xFF) { start := 8, stop := 40 } _
    (.standard .empty) .onExhaustion (by decide) rfl
  have c₁ := ((c₀.roots (modify RootSet.enter)).allocate .cell 4).roots (RootSet.bindSlot 0 8)
  -- The payload at 8 lies in the region.
  have houtside : ∀ {c : Collector (AuditedHeap BlockHeap)} {d : Collector BlockHeap},
      Collector.Tandem c d → d.heap.layout = { start := 8, stop := 40 } →
        Set.Ico 8 12 ⊆ d.heap.layout.tableᶜ := by
    intro c d ht hlayout
    refine Set.Subset.trans ?_ ht.valid.layout.region_subset_compl_table
    rw [hlayout]
    exact Set.Ico_subset_Ico (by decide) (by decide)
  have c₂ := c₁.write 8 [24, 0, 0, 0] (houtside c₁ (by decide +kernel))
  have c₃ := c₂.collect.write 8 [0, 0, 0, 0] (houtside c₂.collect (by decide +kernel))
  exact ⟨⟨_, _, _, transparent.1 _ _ _ h₃, by decide +kernel, by decide +kernel⟩,
    ⟨_, _, transparent.2 _ _ c₂, by decide +kernel⟩,
    ⟨_, _, transparent.2 _ _ c₃.collect, by decide +kernel, by decide +kernel⟩⟩

end AuditedHeap

end MarkSweep
