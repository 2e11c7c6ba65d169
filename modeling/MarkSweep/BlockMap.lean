import MarkSweep.Address

/-!
# Block maps

A block map says which parts of a region are in use. It lists the extents of address space that have
been handed out at some time, in address order, each either in use or free; the space from the
frontier on has never been handed out.

Space is handed out first fit: `BlockMap.firstFit?` names the lowest address with enough room and
`BlockMap.occupy` takes it, splitting a free extent that is too large or moving the frontier.
`BlockMap.release` gives an extent back and joins it with the free extents beside it.
-/

namespace MarkSweep

/-- A stretch of address space. -/
structure Extent where
  /-- First address. -/
  start : Addr
  /-- Number of bytes. -/
  size : Nat
  /-- Whether it is a block in use. -/
  used : Bool
deriving DecidableEq

namespace Extent

/-- The address behind the extent. -/
def stop (e : Extent) : Addr := e.start + e.size

/-- Whether an address lies in the extent, but not at its start. -/
def isInside (e : Extent) (p : Addr) : Bool := e.start < p && p < e.stop

/-- The extent after its first `need` bytes have been taken into use; what is left of it is free. -/
def carve (e : Extent) (need : Nat) : List Extent :=
  ⟨e.start, need, true⟩ ::
    if need < e.size then [⟨e.start + need, e.size - need, false⟩] else []

/-- Puts an extent before others, as one with the first of them if both are free. -/
def joinFree (e : Extent) : List Extent → List Extent
  | [] => [e]
  | t :: rest =>
    if e.used || t.used then e :: t :: rest
    else ⟨e.start, e.size + t.size, false⟩ :: rest

/-- Joins all neighbours that are free. -/
def joinAll (extents : List Extent) : List Extent := extents.foldr joinFree []

/-- Takes `need` bytes at `p` into use: from the extent that starts there, or else behind all. -/
def place (p : Addr) (need : Nat) : List Extent → List Extent
  | [] => [⟨p, need, true⟩]
  | e :: rest => if e.start = p then e.carve need ++ rest else e :: place p need rest

/-- Frees the extent that starts at `p`. -/
def free (p : Addr) (e : Extent) : Extent := if e.start = p then { e with used := false } else e

/-- Bytes of all listed extents. -/
def totalSize : List Extent → Nat
  | [] => 0
  | e :: es => e.size + totalSize es

end Extent

/-- Which parts of a region are in use. -/
structure BlockMap where
  /-- The extents between the start of the region and the frontier, in address order. -/
  extents : List Extent
  /-- The first address that has never been handed out. -/
  frontier : Addr
  /-- Bytes of the extents in use. -/
  usedBytes : Nat
  /-- Number of extents in use. -/
  usedBlocks : Nat
deriving DecidableEq

namespace BlockMap

/-- Nothing of the region that begins at `start` has been handed out. -/
def empty (start : Addr) : BlockMap := ⟨[], start, 0, 0⟩

/-- The blocks in use, in address order. -/
def blocks (m : BlockMap) : List Extent := m.extents.filter (·.used)

/-- The block in use that starts at `p`. -/
def block? (m : BlockMap) (p : Addr) : Option Extent :=
  m.extents.find? fun e => e.used && e.start = p

/-- Whether a block in use starts at `p`. -/
def owns (m : BlockMap) (p : Addr) : Bool := (m.block? p).isSome

/-- Whether `p` lies in a block in use, but not at its start. -/
def isInsideBlock (m : BlockMap) (p : Addr) : Bool :=
  m.extents.any fun e => e.used && e.isInside p

/-- Bytes that can be taken at the start of a free extent. One at the frontier may grow into the
space behind it, which ends at `stop`. -/
def room (m : BlockMap) (stop : Addr) (e : Extent) : Nat :=
  if e.stop = m.frontier then e.size + (stop - m.frontier) else e.size

/-- The lowest address at which `need` bytes are free. -/
def firstFit? (m : BlockMap) (stop : Addr) (need : Nat) : Option Addr :=
  match m.extents.find? fun e => !e.used && need ≤ m.room stop e with
  | some e => some e.start
  | none => if need ≤ stop - m.frontier then some m.frontier else none

/-- Takes `need` bytes at `p` into use, which `firstFit?` has found to be free. -/
def occupy (m : BlockMap) (p : Addr) (need : Nat) : BlockMap where
  extents := Extent.place p need m.extents
  frontier := max m.frontier (p + need)
  usedBytes := m.usedBytes + need
  usedBlocks := m.usedBlocks + 1

/-- Gives the block at `p` back. Without such a block nothing happens. -/
def release (m : BlockMap) (p : Addr) : BlockMap :=
  match m.block? p with
  | none => m
  | some b =>
    { m with
      extents := Extent.joinAll (m.extents.map (Extent.free p))
      usedBytes := m.usedBytes - b.size
      usedBlocks := m.usedBlocks - 1 }

end BlockMap

end MarkSweep
