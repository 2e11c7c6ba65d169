import MarkSweep.Action

/-!
# Heaps

What a collector needs from a heap. Any store can serve that hands out tagged blocks, shows their
headers and payloads, and sweeps.
-/

namespace MarkSweep

/-- How full a heap is. -/
structure Usage where
  /-- Bytes of the region. -/
  totalBytes : Nat
  /-- Bytes of blocks in use. -/
  usedBytes : Nat
  /-- Bytes that have been released. -/
  freeBytes : Nat
  /-- Bytes that have never been handed out. -/
  untouchedBytes : Nat
  /-- Number of blocks in use. -/
  usedBlocks : Nat
  /-- Number of free extents. -/
  freeBlocks : Nat
deriving DecidableEq

/-- What a sweep has done. -/
structure Sweep where
  /-- Blocks released. -/
  freedBlocks : Nat
  /-- Bytes released. -/
  freedBytes : Nat
  /-- Blocks kept. -/
  liveBlocks : Nat
deriving DecidableEq

namespace Sweep

/-- No block has been looked at. -/
def zero : Sweep := ⟨0, 0, 0⟩

/-- Counts a block that is kept. -/
def keep (s : Sweep) : Sweep := { s with liveBlocks := s.liveBlocks + 1 }

/-- Counts a block that is released. -/
def free (s : Sweep) (size : Nat) : Sweep :=
  { s with freedBlocks := s.freedBlocks + 1, freedBytes := s.freedBytes + size }

end Sweep

/-- A store of tagged blocks with headers. -/
class Heap (H : Type) where
  /-- Hands out a block for `size` bytes of payload: allocated, unmarked, with the given tag, its
  payload zero. Answers nothing when there is no room. -/
  allocate (tag : Tag) (size : Nat) : Action H (Option Addr)
  /-- The header of the block at `p`. -/
  header (heap : H) (p : Addr) : Except Refusal Header
  /-- Replaces the header of the allocated block at `p`. -/
  setHeader (p : Addr) (header : Header) : Action H Unit
  /-- The payload of the allocated block at `p`. -/
  payload (heap : H) (p : Addr) : Except Refusal Payload
  /-- Releases the allocated blocks without a mark, and takes the mark from the others. -/
  sweep : Action H Sweep
  /-- Whether an allocated block starts at `p`. A heap may take note of the question. -/
  owns (heap : H) (p : Addr) : Bool × H
  /-- How full the heap is. -/
  usage (heap : H) : Usage

namespace Heap

variable {H : Type} [Heap H]

/-- Asks whether an allocated block starts at `p`. -/
def askOwns (p : Addr) : Action H Bool := fun heap =>
  let answer := Heap.owns heap p
  .ok answer.1 answer.2

/-- Marks the block at `p`. -/
def mark (p : Addr) : Action H Unit := do
  let header ← Action.ask fun heap : H => Heap.header heap p
  Heap.setHeader p header.setMark

end Heap

end MarkSweep
