import MarkSweep.Heap

/-!
# Audited heaps

A heap beside which a record is kept of every block that it has handed out. Each answer of the heap
is compared with the record; where the two disagree the heap can no longer be trusted, so the
disagreement is reported and not mended.

`AuditedHeap.owns` cannot be refused. A disagreement that it sees is remembered instead, the first
one for good, and every later operation is refused because of it.
-/

namespace MarkSweep

/-- The record of a block. -/
structure Entry where
  /-- Where the block starts. -/
  addr : Addr
  /-- Tag of its object. -/
  tag : Tag
  /-- Payload size of its object. -/
  size : Nat
deriving DecidableEq

/-- A disagreement between a heap and its record on whether a block is allocated. -/
structure Mismatch where
  /-- The address in question. -/
  addr : Addr
  /-- What the heap says; the record says the opposite. -/
  heap : Bool
deriving DecidableEq

/-- A heap with a record of its blocks. -/
structure AuditedHeap (H : Type) where
  /-- The heap. -/
  inner : H
  /-- The record: one entry for each block, in the order of allocation. -/
  entries : List Entry
  /-- The first disagreement that a question about ownership has shown. -/
  mismatch? : Option Mismatch

namespace Entry

/-- Whether a header has the tag and the size on record. -/
def agrees (e : Entry) (header : Header) : Bool := header.tag = e.tag && header.size = e.size

/-- Checks the header of a block that should be allocated and at rest. -/
def checkLive (e : Entry) (header : Header) : Except Refusal Unit :=
  if !header.alloc then
    .error (.corruptHeader e.addr .liveNotAllocated)
  else if header.mark then
    .error (.corruptHeader e.addr .markSurvived)
  else if !e.agrees header then
    .error (.corruptHeader e.addr .changedSinceAllocation)
  else
    .ok ()

/-- Checks the header of a block that has just been handed out. -/
def checkFresh (e : Entry) (header : Header) : Except Refusal Unit :=
  if !header.alloc || header.mark then
    .error (.corruptHeader e.addr .freshNotClean)
  else if !e.agrees header then
    .error (.corruptHeader e.addr .freshMismatch)
  else
    .ok ()

/-- Checks the header of a block that the heap has given up. -/
def checkReleased (e : Entry) (header : Header) : Except Refusal Unit :=
  if header.alloc || header.mark then
    .error (.corruptHeader e.addr .releasedNotClean)
  else
    .ok ()

end Entry

namespace AuditedHeap

variable {H : Type}

/-- Begins an audit of a heap without blocks. -/
def start (inner : H) : AuditedHeap H := ⟨inner, [], none⟩

/-- The record of the block at `p`. -/
def entry? (a : AuditedHeap H) (p : Addr) : Option Entry := a.entries.find? (·.addr = p)

/-- Whether there is a record of a block at `p`. -/
def isTracked (a : AuditedHeap H) (p : Addr) : Bool := (a.entry? p).isSome

/-- Runs an operation on the heap alone. -/
def onInner {α : Type} (x : Action H α) : Action (AuditedHeap H) α :=
  .within (fun ⟨inner, entries, mismatch?⟩ => (inner, (⟨·, entries, mismatch?⟩))) x

/-- Fails if a disagreement is on record. -/
def checkMismatch (a : AuditedHeap H) : Except Refusal Unit :=
  match a.mismatch? with
  | some m => .error (.ownershipMismatch m.addr m.heap !m.heap)
  | none => .ok ()

variable [Heap H]

/-- Hands out a block and takes it on record, if the heap had no record of it and its header is as
asked for. -/
def allocate (tag : Tag) (size : Nat) : Action (AuditedHeap H) (Option Addr) := do
  Action.ask checkMismatch
  match ← onInner (Heap.allocate tag size) with
  | none => return none
  | some p =>
    let a ← get
    let entry : Entry := ⟨p, tag, size⟩
    .require (!a.isTracked p) (.ownershipMismatch p true true)
    Action.ask fun a => do
      let header ← Heap.header a.inner p
      entry.checkFresh header
    modify fun a => { a with entries := a.entries ++ [entry] }
    return some p

/-- The header of the block at `p`, which must be allocated exactly if it is on record. -/
def header (a : AuditedHeap H) (p : Addr) : Except Refusal Header := do
  a.checkMismatch
  let header ← Heap.header a.inner p
  if header.alloc = a.isTracked p then
    return header
  else
    throw (.ownershipMismatch p header.alloc (a.isTracked p))

/-- Replaces the header of the block at `p` by one that differs at most in the mark. -/
def setHeader (p : Addr) (header : Header) : Action (AuditedHeap H) Unit := do
  Action.ask checkMismatch
  let a ← get
  match a.entry? p with
  | none => throw (.notAllocated p)
  | some entry =>
    .require (header.alloc && entry.agrees header) (.corruptHeader p .changesMoreThanMark)
    onInner (Heap.setHeader p header)

/-- The payload of the block at `p`, which must be on record. -/
def payload (a : AuditedHeap H) (p : Addr) : Except Refusal Payload := do
  a.checkMismatch
  if a.isTracked p then
    Heap.payload a.inner p
  else
    throw (.notAllocated p)

/-- Whether the heap owns a block at `p` and has it on record. If only one of the two holds, the
disagreement is remembered. -/
def owns (a : AuditedHeap H) (p : Addr) : Bool × AuditedHeap H :=
  let answer := Heap.owns a.inner p
  let tracked := a.isTracked p
  let seen := if answer.1 = tracked then none else some ⟨p, answer.1⟩
  (answer.1 && tracked, { a with inner := answer.2, mismatch? := a.mismatch?.or seen })

/-- Compares the heap with the given entries. -/
def auditEntries : List Entry → Action (AuditedHeap H) Unit
  | [] => return ()
  | e :: rest => do
    let owned ← onInner (Heap.askOwns e.addr)
    .require owned (.ownershipMismatch e.addr false true)
    Action.ask fun a => do
      let header ← Heap.header a.inner e.addr
      e.checkLive header
    auditEntries rest

/-- Compares the heap with the whole record, at a time when no block is marked. -/
def audit : Action (AuditedHeap H) Unit := do
  Action.ask checkMismatch
  let a ← get
  auditEntries a.entries

/-- The given entries whose blocks the heap still owns. The header of every other block must show
that it has been released. -/
def survivors : List Entry → Action (AuditedHeap H) (List Entry)
  | [] => return []
  | e :: rest => do
    if ← onInner (Heap.askOwns e.addr) then
      let others ← survivors rest
      return e :: others
    else
      Action.ask fun a => do
        let header ← Heap.header a.inner e.addr
        e.checkReleased header
      survivors rest

/-- Sweeps the heap, strikes the released blocks off the record and compares what is left. While the
record is being revised it is empty, and it stays so if a block turns out not to be released
properly. -/
def sweep : Action (AuditedHeap H) Sweep := do
  Action.ask checkMismatch
  let report ← onInner Heap.sweep
  let a ← get
  -- From here on a refusal finds the record empty.
  set { a with entries := [] }
  let kept ← survivors a.entries
  modify fun a => { a with entries := kept }
  audit
  return report

instance : Heap (AuditedHeap H) where
  allocate := allocate
  header := header
  setHeader := setHeader
  payload := payload
  sweep := sweep
  owns := owns
  usage a := Heap.usage a.inner

end AuditedHeap

end MarkSweep
