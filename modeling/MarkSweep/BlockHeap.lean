import MarkSweep.BlockMap
import MarkSweep.Heap
import MarkSweep.Memory

/-!
# Block heaps

A heap in a memory: a layout says where it lies, a block map which parts of the region are in use,
and the table of the memory holds the headers. Map and headers tell of the same blocks; the map
decides, and what the headers add is mark, tag and payload size.
-/

namespace MarkSweep

/-- A block as it is handed out. -/
structure Block where
  /-- Where its payload starts. -/
  addr : Addr
  /-- Its size in whole granules. -/
  footprint : Nat
deriving DecidableEq

/-- A heap in a memory. -/
structure BlockHeap where
  /-- Where the heap lies. -/
  layout : Layout
  /-- The whole memory, header table included. -/
  memory : Memory
  /-- Which parts of the region are in use. -/
  map : BlockMap

namespace BlockHeap

/-- Sets up a heap without blocks. The header table is cleared, the rest of the memory stays. -/
def create (memory : Memory) (layout : Layout) : Except Refusal BlockHeap :=
  match layout.check memory.size with
  | .error defect => .error (.invalidLayout defect)
  | .ok () =>
    match Memory.zero layout.tableStart layout.tableSize memory with
    | .error e _ => .error e
    | .ok () cleared => .ok ⟨layout, cleared, .empty layout.start⟩

/-- Runs an operation on the memory. -/
def onMemory {α : Type} (x : Action Memory α) : Action BlockHeap α :=
  .within (fun ⟨layout, memory, map⟩ => (memory, (⟨layout, ·, map⟩))) x

/-- Reads the header word of the granule of `p`. -/
def readHeader (h : BlockHeap) (p : Addr) : Except Refusal Header := do
  let w ← h.memory.load (h.layout.headerAddr p)
  return .ofWord w

/-- Writes the header word of the granule of `p`. -/
def writeHeader (p : Addr) (header : Header) : Action BlockHeap Unit := do
  let h ← get
  onMemory (Memory.store (h.layout.headerAddr p) header.toWord)

/-- Whether an allocated block starts at `p`. -/
def owns (h : BlockHeap) (p : Addr) : Bool := h.map.owns p

/-- Refuses unless an allocated block starts at `p`. -/
def requireOwned (p : Addr) : Action BlockHeap Unit := do
  let h ← get
  .require (h.owns p) (.notAllocated p)

/-- Hands out a block for `size` bytes of payload, at the lowest address with enough room. Its
header has no tag yet. Answers nothing when there is no room, or for a size that no header can
hold. -/
def alloc (size : Nat) : Action BlockHeap (Option Block) := do
  if Header.maxPayload < size then
    return none
  else
    let h ← get
    let need := h.layout.footprint size
    match h.map.firstFit? h.layout.stop need with
    | none => return none
    | some p =>
      -- Any earlier header of the granule is overwritten.
      set { h with map := h.map.occupy p need }
      writeHeader p (.fresh .untagged size)
      return some ⟨p, need⟩

/-- Gives the block at `p` back. Its header keeps tag and size. -/
def free (p : Addr) : Action BlockHeap Unit := do
  requireOwned p
  let header ← Action.ask fun h : BlockHeap => h.readHeader p
  writeHeader p header.released
  modify fun h => { h with map := h.map.release p }

/-- The header of the block at `p`. Any granule boundary will do that is not inside an allocated
block: where no block starts, the header says so. -/
def header (h : BlockHeap) (p : Addr) : Except Refusal Header :=
  if h.layout.isBoundary p && !h.map.isInsideBlock p then
    h.readHeader p
  else
    .error (.notABlock p)

/-- Replaces the header of the allocated block at `p`. Blocks are given back by `free` and `sweep`
alone, so the new header must be allocated, too. -/
def setHeader (p : Addr) (header : Header) : Action BlockHeap Unit := do
  requireOwned p
  .require header.alloc (.corruptHeader p .clearsAlloc)
  writeHeader p header

/-- The payload of the allocated block at `p`, with the size that its header states. -/
def payload (h : BlockHeap) (p : Addr) : Except Refusal Payload :=
  if h.owns p then do
    let header ← h.readHeader p
    h.memory.slice p header.size
  else
    .error (.notAllocated p)

/-- Sets the first `len` bytes of the allocated block at `p` to zero. -/
def clearPayload (p : Addr) (len : Nat) : Action BlockHeap Unit := do
  requireOwned p
  onMemory (Memory.zero p len)

/-- Hands out a block for an object with the given tag and payload size, its payload zero. Answers
nothing when there is no room. -/
def allocate (tag : Tag) (size : Nat) : Action BlockHeap (Option Addr) := do
  if Header.maxPayload < size then
    throw (.payloadTooLarge size)
  else
    match ← alloc size with
    | none => return none
    | some block =>
      setHeader block.addr (.fresh tag size)
      clearPayload block.addr size
      return some block.addr

/-- Sweeps the listed blocks, one after the other. A header that calls its block free ends the
sweep. -/
def sweepBlocks : List Extent → Action BlockHeap Sweep
  | [] => return .zero
  | b :: rest => do
    let header ← Action.ask fun h : BlockHeap => h.readHeader b.start
    .require header.alloc (.corruptHeader b.start .freeInUse)
    if header.mark then
      writeHeader b.start header.clearMark
      let others ← sweepBlocks rest
      return others.keep
    else
      free b.start
      let others ← sweepBlocks rest
      return others.free b.size

/-- Gives the allocated blocks without a mark back and takes the mark from the others, in address
order. -/
def sweep : Action BlockHeap Sweep := do
  let h ← get
  sweepBlocks h.map.blocks

/-- How full the heap is. -/
def usage (h : BlockHeap) : Usage :=
  let free := h.map.extents.filter fun e => !e.used
  { totalBytes := h.layout.stop - h.layout.start
    usedBytes := h.map.usedBytes
    freeBytes := Extent.totalSize free
    untouchedBytes := h.layout.stop - h.map.frontier
    usedBlocks := h.map.usedBlocks
    freeBlocks := free.length }

/-- The region, extent by extent. -/
def describe (h : BlockHeap) : String :=
  let l := h.layout
  let untouched := l.stop - h.map.frontier
  let extent (e : Extent) :=
    let state := if e.used then "USED" else "FREE"
    s!"{state}[{e.start}+{e.size}] "
  s!"BlockAllocator([{l.start}, {l.stop}) x{l.granule}: " ++
    String.join (h.map.extents.map extent) ++
    s!"UNTOUCHED[{h.map.frontier}+{untouched}])"

instance : Heap BlockHeap where
  allocate := allocate
  header := header
  setHeader := setHeader
  payload := payload
  sweep := sweep
  owns h p := (h.owns p, h)
  usage := usage

end BlockHeap

end MarkSweep
