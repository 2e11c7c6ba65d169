import MarkSweep.AuditedHeap
import MarkSweep.Proofs.BlockHeap.Table
import MarkSweep.Proofs.Twins

/-!
# Faithful records

The record beside a block heap is faithful (`AuditedHeap.Faithful`) if it has one entry for each
block in use, made when the block was handed out, and the headers still agree with the entries. As
long as the record is faithful, none of the checks that are made besides the request itself can
fail: a request goes on the audited heap as it goes on the heap alone, and the record stays faithful
(`Faithful.alike`). The one exception are requests that would change more of a header than its mark;
they are refused and change nothing.
-/

namespace MarkSweep

open MarkSweep.Action

/-- What is taken on record when the request is made. -/
def Heap.Request.newEntry {H α : Type} [Heap H] (heap : H) : Heap.Request α → Option Entry
  | allocate tag size => ((Heap.allocate tag size).answer? heap).join.map (⟨·, tag, size⟩)
  | _ => none

/-! ### Entries and headers -/

/-- Whether an entry agrees with a header is a matter of tag and size alone. -/
theorem Entry.agrees_congr {e : Entry} {hd hd' : Header} (htag : hd.tag = hd'.tag)
    (hsize : hd.size = hd'.size) : e.agrees hd = e.agrees hd' := by
  rw [agrees, htag, hsize, agrees]

/-- Headers that differ in the mark at most are those with the same other fields. -/
theorem Header.clearMark_eq_iff {hd hd' : Header} : hd.clearMark = hd'.clearMark ↔
    hd.alloc = hd'.alloc ∧ hd.tag = hd'.tag ∧ hd.size = hd'.size := by
  simp [clearMark]

/-- The check of an audit is passed by the headers of blocks at rest that agree with the entry. -/
theorem Entry.checkLive_eq_ok_iff {e : Entry} {hd : Header} :
    e.checkLive hd = .ok () ↔ hd.alloc ∧ hd.mark = false ∧ e.agrees hd := by
  unfold checkLive
  cases hd.alloc <;> cases hd.mark <;> cases e.agrees hd <;> simp

namespace AuditedHeap

open BlockHeap (owns_iff)

/-- The record is that of the blocks in use, each with the latest entry for its address in the log
of all allocations. The heap is in order, and no disagreement has been seen. -/
structure Faithful (a : AuditedHeap BlockHeap) (log : List Entry) : Prop where
  valid : a.inner.Valid
  consistent : a.inner.Consistent
  mismatch_eq : a.mismatch? = none
  entries_perm : (a.entries.map (·.addr)).Perm (a.inner.map.blocks.map (·.start))
  logged : ∀ e ∈ a.entries, log.find? (·.addr = e.addr) = some e
  agrees : ∀ e ∈ a.entries, e.agrees (a.inner.headerAt e.addr)

/-- The audited heap is the other one with a faithful record beside it. -/
def Beside (log : List Entry) (a : AuditedHeap BlockHeap) (h : BlockHeap) : Prop :=
  a.inner = h ∧ a.Faithful log

variable {a : AuditedHeap BlockHeap} {log es : List Entry} {e : Entry} {p : Addr} {α : Type}

/-- The empty record of a new heap is faithful. -/
theorem faithful_start {memory : Memory} {layout : Layout} {h : BlockHeap}
    (hmemory : memory.size ≤ UInt32.size) (hc : BlockHeap.create memory layout = .ok h) :
    (start h).Faithful [] := by
  have hblocks : h.map.blocks = [] := by
    rw [(BlockHeap.create_eq_ok hc).2.2.2]
    rfl
  refine ⟨BlockHeap.valid_of_create hmemory hc, BlockHeap.consistent_of_create hc, rfl, ?_, ?_, ?_⟩
  · rw [start, hblocks]
    rfl
  · simp [start]
  · simp [start]

/-- An operation on the heap behind the record leaves the record as it is. -/
theorem onInner_apply {H : Type} (x : Action H α) (a : AuditedHeap H) :
    onInner x a = match x a.inner with
      | .ok answer h => .ok answer { a with inner := h }
      | .error e h => .error e { a with inner := h } := by
  obtain ⟨inner, entries, mismatch⟩ := a
  simp only [onInner, within]
  cases x inner <;> rfl

theorem after_onInner {H : Type} (x : Action H α) (a : AuditedHeap H) :
    (onInner x).after a = { a with inner := x.after a.inner } := by
  rw [Action.after, onInner_apply, Action.after]
  cases x a.inner <;> rfl

/-- A header is read and checked without a change. -/
theorem ask_header_apply {hd : Header} (check : Header → Except Refusal Unit)
    (hheader : a.inner.header p = .ok hd) :
    ask (fun a : AuditedHeap BlockHeap => do
      let header ← Heap.header a.inner p
      check header) a = ask (fun _ => check hd) a := by
  have hinner : Heap.header a.inner p = .ok hd := hheader
  rw [ask, hinner]
  rfl

namespace Faithful

variable (hf : a.Faithful log)

include hf

theorem checkMismatch_eq : a.checkMismatch = .ok () := by
  rw [checkMismatch, hf.mismatch_eq]

/-- The check with which all requests begin is passed. -/
theorem ask_checkMismatch_eq : ask checkMismatch a = .ok () a := ask_of_eq_ok hf.checkMismatch_eq

/-- A faithful record lists just the addresses that the heap owns. -/
theorem mem_addrs_iff : p ∈ a.entries.map (·.addr) ↔ a.inner.owns p := by
  rw [hf.entries_perm.mem_iff, List.mem_map, owns_iff]

/-- What is on record is in use. -/
theorem owns_of_mem (he : e ∈ a.entries) : a.inner.owns e.addr :=
  hf.mem_addrs_iff.mp (List.mem_map_of_mem he)

/-- A block in use is found on record. -/
theorem entry_of_owns (hp : a.inner.owns p) :
    ∃ e ∈ a.entries, e.addr = p ∧ a.entry? p = some e := by
  obtain ⟨e, he, rfl⟩ := List.mem_map.mp (hf.mem_addrs_iff.mpr hp)
  have hsome : (a.entry? e.addr).isSome := List.find?_isSome.mpr ⟨e, he, by simp⟩
  obtain ⟨e', he'⟩ := Option.isSome_iff_exists.mp hsome
  exact ⟨e', List.mem_of_find?_eq_some he', by simpa using List.find?_some he', he'⟩

/-- What is not in use is not found on record. -/
theorem entry_of_not_owns (hp : ¬ a.inner.owns p) : a.entry? p = none := by
  refine List.find?_eq_none.mpr fun e he heq => hp ?_
  obtain rfl : e.addr = p := by simpa using heq
  exact hf.owns_of_mem he

/-- What is on record is what the heap owns. -/
theorem isTracked_eq (p : Addr) : a.isTracked p = a.inner.owns p := by
  by_cases hp : a.inner.owns p
  · obtain ⟨e, -, -, he⟩ := hf.entry_of_owns hp
    rw [isTracked, he, hp]
    rfl
  · rw [isTracked, hf.entry_of_not_owns hp, eq_false_of_ne_true hp]
    rfl

/-! ### Questions -/

/-- Headers are read through a faithful record as they are read without. -/
theorem header_eq (p : Addr) : a.header p = a.inner.header p := by
  have hinner : Heap.header a.inner p = a.inner.header p := rfl
  rw [header, hf.checkMismatch_eq, hinner]
  cases hheader : a.inner.header p with
  | error e => rfl
  | ok hd =>
    -- The header is that of a granule, and it is allocated exactly if a block starts there.
    obtain ⟨hp, -, rfl⟩ := (BlockHeap.header_eq_ok_iff hf.valid.mapped).mp hheader
    have halloc : (a.inner.headerAt p).alloc = a.isTracked p := by
      rw [hf.isTracked_eq, Bool.eq_iff_iff]
      exact hf.consistent.alloc_iff hp
    exact if_pos halloc

/-- Payloads are read through a faithful record as they are read without. -/
theorem payload_eq (p : Addr) : a.payload p = a.inner.payload p := by
  rw [payload, hf.checkMismatch_eq, hf.isTracked_eq]
  by_cases hp : a.inner.owns p
  · rw [hp]
    rfl
  · rw [BlockHeap.payload, if_neg hp, eq_false_of_ne_true hp]
    rfl

/-- Asked who owns an address, a faithful record agrees with the heap and remembers nothing. -/
theorem owns_eq (p : Addr) : a.owns p = (a.inner.owns p, a) := by
  have hinner : Heap.owns a.inner p = (a.inner.owns p, a.inner) := rfl
  rw [owns, hinner, hf.isTracked_eq]
  simp only [Bool.and_self, if_true, Option.or_none]

/-! ### Allocation -/

omit hf in
/-- The header of a new object agrees with its entry. -/
theorem agrees_fresh {h h' : BlockHeap} {tag : Tag} {size : Nat}
    (ha : BlockHeap.Allocated tag size p h h') :
    Entry.agrees ⟨p, tag, size⟩ (h'.headerAt p) := by
  rw [Entry.agrees, ha.headerAt_size, ha.headerAt_self]
  simp [Header.fresh]

omit hf in
/-- The header of a new object passes the check that is made before it is taken on record. -/
theorem checkFresh_eq {h h' : BlockHeap} {tag : Tag} {size : Nat}
    (ha : BlockHeap.Allocated tag size p h h') :
    Entry.checkFresh ⟨p, tag, size⟩ (h'.headerAt p) = .ok () := by
  have hagrees := agrees_fresh ha
  have halloc : (h'.headerAt p).alloc = true := by rw [ha.headerAt_self, Header.fresh]
  have hmark : (h'.headerAt p).mark = false := by rw [ha.headerAt_self, Header.fresh]
  simp [Entry.checkFresh, halloc, hmark, hagrees]

/-- The record with a new entry is faithful to the heap with the new object. -/
theorem allocated {h : BlockHeap} {tag : Tag} {size : Nat}
    (ha : BlockHeap.Allocated tag size p a.inner h) (hc : h.Consistent) :
    Faithful { a with inner := h, entries := a.entries ++ [⟨p, tag, size⟩] }
      (⟨p, tag, size⟩ :: log) := by
  have hne : ∀ e ∈ a.entries, p ≠ e.addr := by
    rintro e he rfl
    exact ha.not_owns hf.valid (hf.owns_of_mem he)
  refine ⟨ha.valid, hc, hf.mismatch_eq, ?_, ?_, ?_⟩
  · rw [List.map_append, List.map_singleton]
    refine List.perm_append_comm.trans ?_
    exact (hf.entries_perm.cons p).trans (ha.blocks_perm.map Extent.start).symm
  · -- The log finds the old entries behind the new one, for that has another address.
    intro e he
    rcases List.mem_append.mp he with he | he
    · rw [List.find?_cons_of_neg (by simpa using hne e he)]
      exact hf.logged e he
    · obtain rfl := List.mem_singleton.mp he
      exact List.find?_cons_of_pos (by simp)
  · intro e he
    rcases List.mem_append.mp he with he | he
    · have hheader := ha.headerAt_eq hf.valid (hf.owns_of_mem he)
      exact (congrArg e.agrees hheader).trans (hf.agrees e he)
    · obtain rfl := List.mem_singleton.mp he
      exact agrees_fresh ha

/-- The new block was not on record, and its header is as asked for. -/
theorem allocate_eq {h : BlockHeap} {tag : Tag} {size : Nat}
    (hsome : BlockHeap.allocate tag size a.inner = .ok (some p) h)
    (ha : BlockHeap.Allocated tag size p a.inner h) : allocate tag size a =
      .ok (some p) { a with inner := h, entries := a.entries ++ [⟨p, tag, size⟩] } := by
  have hinner : Heap.allocate tag size a.inner = .ok (some p) h := hsome
  have huntracked : isTracked { a with inner := h } p = false :=
    (hf.isTracked_eq p).trans (eq_false_of_ne_true (ha.not_owns hf.valid))
  have hheader : h.header p = .ok (h.headerAt p) :=
    ha.valid.header_eq (ha.owns_iff.mpr (.inl rfl))
  have hcheck : ask (fun _ => Entry.checkFresh ⟨p, tag, size⟩ (h.headerAt p))
      { a with inner := h } = .ok () { a with inner := h } := ask_of_eq_ok (checkFresh_eq ha)
  simp only [allocate, bind_apply, hf.ask_checkMismatch_eq, onInner_apply, hinner, get_apply,
    huntracked, Bool.not_false, require_true,
    ask_header_apply (a := { a with inner := h }) _ hheader, hcheck, modify_apply, pure_apply]

/-- An allocation goes with the record as it goes without, and its object is new in the log. -/
theorem alike_allocate (tag : Tag) (size : Nat) :
    Alike (Beside (((Heap.Request.allocate tag size).newEntry a.inner).toList ++ log))
      (allocate tag size) (BlockHeap.allocate tag size) a a.inner := by
  have hentry : (Heap.Request.allocate tag size).newEntry a.inner =
      ((BlockHeap.allocate tag size).answer? a.inner).join.map (⟨·, tag, size⟩) := rfl
  have hinner : (Heap.allocate tag size : Action BlockHeap _) = BlockHeap.allocate tag size := rfl
  rw [hentry, answer?]
  rcases BlockHeap.allocate_cases hf.valid tag size with
    ⟨-, htoo⟩ | ⟨-, -, hnone⟩ | ⟨-, p, h, -, hsome, ha⟩
  · -- The size is too large, with the record and without.
    refine alike_of_eq_error ?_ htoo ⟨rfl, ?_⟩
    · simp only [allocate, bind_apply, hf.ask_checkMismatch_eq, onInner_apply, hinner, htoo]
    · rw [htoo]
      exact hf
  · -- There is no room, and nothing is taken on record.
    refine alike_of_eq_ok ?_ hnone ⟨rfl, ?_⟩
    · simp only [allocate, bind_apply, hf.ask_checkMismatch_eq, onInner_apply, hinner, hnone,
        pure_apply]
    · rw [hnone]
      exact hf
  · refine alike_of_eq_ok (hf.allocate_eq hsome ha) hsome ⟨rfl, ?_⟩
    -- Table and map tell of the object, too, so the record with its entry is faithful.
    have hc : ((BlockHeap.Request.allocate tag size).run.after a.inner).Consistent :=
      BlockHeap.Request.Contained.consistent trivial hf.consistent
    rw [BlockHeap.Request.run, after_discard, after_of_eq_ok hsome] at hc
    rw [hsome]
    exact hf.allocated ha hc

/-! ### Headers -/

/-- A header of what is not in use is not replaced. -/
theorem setHeader_of_not_owns {hd : Header} (hp : ¬ a.inner.owns p) :
    setHeader p hd a = .error (.notAllocated p) a := by
  simp only [setHeader, bind_apply, hf.ask_checkMismatch_eq, get_apply, hf.entry_of_not_owns hp,
    throw_apply]

/-- A header of a block in use is replaced if no more than the mark is new. -/
theorem setHeader_of_owns {hd : Header} (hp : a.inner.owns p) :
    setHeader p hd a =
      if hd.clearMark = (a.inner.headerAt p).clearMark then
        .ok () { a with inner := a.inner.putHeader p hd }
      else
        .error (.corruptHeader p .changesMoreThanMark) a := by
  obtain ⟨e, he, rfl, hentry⟩ := hf.entry_of_owns hp
  have halloc := hf.consistent.alloc e.addr hp
  have hagrees := hf.agrees e he
  -- The record knows everything of the header but the mark.
  have hiff : (hd.alloc && e.agrees hd) = decide (hd.clearMark =
      (a.inner.headerAt e.addr).clearMark) := by
    simp only [Entry.agrees, Bool.and_eq_true, decide_eq_true_eq] at hagrees
    rw [Bool.eq_iff_iff, decide_eq_true_eq, Header.clearMark_eq_iff, halloc, hagrees.1, hagrees.2]
    simp [Entry.agrees]
  simp only [setHeader, bind_apply, hf.ask_checkMismatch_eq, get_apply, hentry, hiff]
  by_cases hsame : hd.clearMark = (a.inner.headerAt e.addr).clearMark
  · have hinner : Heap.setHeader e.addr hd a.inner = .ok () (a.inner.putHeader e.addr hd) :=
      hf.valid.setHeader_eq hp ((Header.clearMark_eq_iff.mp hsame).1.trans halloc)
    simp only [hsame, decide_true, require_true, onInner_apply, hinner, if_true]
  · simp only [hsame, decide_false, require_false, if_false]

/-- The record is faithful to the heap with another mark. -/
theorem putHeader {hd : Header} (hp : a.inner.owns p)
    (hsame : hd.clearMark = (a.inner.headerAt p).clearMark) :
    Faithful { a with inner := a.inner.putHeader p hd } log := by
  obtain ⟨halloc, htag, hsize⟩ := Header.clearMark_eq_iff.mp hsame
  have halloc' : hd.alloc = true := halloc.trans (hf.consistent.alloc p hp)
  have hboundary := hf.valid.boundary hp
  have hchange : BlockHeap.Change ∅ ⟨a.inner, []⟩ ⟨a.inner.putHeader p hd, []⟩ :=
    .putHeader hp halloc'
  refine ⟨hf.valid.putHeader_of_size_eq hp halloc' hsize, ?_, hf.mismatch_eq, ?_, hf.logged, ?_⟩
  · exact hchange.consistent (Set.empty_subset _) hf.consistent
  · rw [BlockHeap.putHeader_map]
    exact hf.entries_perm
  · intro e he
    have hagrees := hf.agrees e he
    by_cases hep : e.addr = p
    · rw [hep] at hagrees ⊢
      rwa [BlockHeap.headerAt_putHeader_self hf.valid.layout hboundary,
        Entry.agrees_congr htag hsize]
    · have hother := hf.valid.boundary (hf.owns_of_mem he)
      rwa [BlockHeap.headerAt_putHeader_of_ne hd hboundary hother hep]

/-- A header is marked with the record as it is without. -/
theorem alike_setHeader {hd : Header}
    (hmarks : (Heap.Request.setHeader p hd).OnlyMarks a.inner) :
    Alike (Beside log) (setHeader p hd) (BlockHeap.setHeader p hd) a a.inner := by
  by_cases hp : a.inner.owns p
  · have hsame : hd.clearMark = (a.inner.headerAt p).clearMark := by
      have hheader : Heap.header a.inner p = .ok (a.inner.headerAt p) := hf.valid.header_eq hp
      have hmap := hmarks hp
      rw [hheader] at hmap
      exact (Except.ok.inj hmap).symm
    have halloc := (Header.clearMark_eq_iff.mp hsame).1.trans (hf.consistent.alloc p hp)
    refine alike_of_eq_ok ?_ (hf.valid.setHeader_eq hp halloc) ⟨rfl, hf.putHeader hp hsame⟩
    rw [hf.setHeader_of_owns hp, if_pos hsame]
  · refine alike_of_eq_error (hf.setHeader_of_not_owns hp) ?_ ⟨rfl, hf⟩
    rw [BlockHeap.setHeader, bind_apply, BlockHeap.requireOwned_of_not_owns hp]

/-! ### Payloads -/

/-- The record has no part in the memory outside the header table. -/
theorem overwritten {addr : Addr} {bytes : List UInt8}
    (houtside : Set.Ico addr (addr + bytes.length) ⊆ a.inner.layout.tableᶜ) :
    Faithful { a with inner := a.inner.overwritten addr bytes } log := by
  have hchange : BlockHeap.Change a.inner.layout.tableᶜ ⟨a.inner, []⟩
      ⟨a.inner.overwritten addr bytes, []⟩ := .overwrite houtside
  have hagree := (a.inner.memory.agreeOn_overwrite addr bytes).mono
    (Set.subset_compl_comm.mp houtside)
  refine ⟨hf.valid.of_agreeOn hagree, hchange.consistent subset_rfl hf.consistent, hf.mismatch_eq,
    hf.entries_perm, hf.logged, ?_⟩
  intro e he
  have hboundary := hf.valid.boundary (hf.owns_of_mem he)
  rw [BlockHeap.headerAt_overwritten hf.valid.mapped houtside hboundary]
  exact hf.agrees e he

end Faithful

end AuditedHeap

end MarkSweep
