import MarkSweep.Address
import MarkSweep.Header

/-!
# Heap layouts

A heap lives inside a memory. Its blocks come from the region `[start, stop)`, which is cut into
granules of equal size; a table with one header word for each granule lies elsewhere in the memory,
right behind the region unless the layout names another place. `Layout.check` says whether a layout
makes sense in a memory of a given size, and if not, what is wrong first.
-/

namespace MarkSweep

/-- What is wrong with a layout. -/
inductive LayoutDefect where
  /-- The region would hold an object at the null address. -/
  | startsAtNull
  /-- The region `[start, stop)` is empty. -/
  | emptyRegion (start stop : Addr)
  /-- The granule is zero or no whole number of words. -/
  | raggedGranule (granule : Nat)
  /-- The region does not start at a word. -/
  | unalignedStart (start : Addr)
  /-- The region is no whole number of granules. -/
  | raggedRegion (length granule : Nat)
  /-- The region ends behind the memory. -/
  | regionOutside (stop : Addr) (memory : Nat)
  /-- The header table does not start at a word. -/
  | unalignedTable (table : Addr)
  /-- The header table `[table, tableStop)` ends behind the memory. -/
  | tableOutside (table tableStop : Addr) (memory : Nat)
  /-- The header table `[table, tableStop)` and the region `[start, stop)` share bytes. -/
  | tableInRegion (table tableStop start stop : Addr)
deriving DecidableEq

/-- The wording of the defect. -/
def LayoutDefect.message : LayoutDefect → String
  | .startsAtNull => "region must not start at address 0"
  | .emptyRegion start stop => s!"empty region [{start}, {stop})"
  | .raggedGranule granule => s!"block size {granule} is not a non-zero multiple of 4"
  | .unalignedStart start => s!"region start {start} is not word-aligned"
  | .raggedRegion length granule =>
    s!"region length {length} is not a multiple of block size {granule}"
  | .regionOutside stop memory => s!"region end {stop} exceeds memory of {memory} bytes"
  | .unalignedTable table => s!"header table {table} is not word-aligned"
  | .tableOutside table tableStop memory =>
    s!"header table [{table}, {tableStop}) exceeds memory of {memory} bytes"
  | .tableInRegion table tableStop start stop =>
    s!"header table [{table}, {tableStop}) overlaps region [{start}, {stop})"

/-- Where a heap lies in its memory. -/
structure Layout where
  /-- First address of the region. -/
  start : Addr
  /-- The address behind the region. -/
  stop : Addr
  /-- Bytes of a granule, the unit in which space is handed out. -/
  granule : Nat := 8
  /-- Where the header table starts, if not right behind the region. -/
  table? : Option Addr := none
deriving DecidableEq

namespace Layout

/-- A region of 256 KiB from address 1024 on. -/
def standard : Layout where
  start := 1024
  stop := 1024 + 256 * 1024

/-- Number of granules of the region. -/
def granuleCount (l : Layout) : Nat := (l.stop - l.start) / l.granule

/-- First address of the header table. -/
def tableStart (l : Layout) : Addr := l.table?.getD l.stop

/-- Bytes of the header table. -/
def tableSize (l : Layout) : Nat := l.granuleCount * Header.width

/-- Address of the header word that belongs to the granule of `p`. -/
def headerAddr (l : Layout) (p : Addr) : Addr :=
  l.tableStart + (p - l.start) / l.granule * Header.width

/-- Bytes taken by a block for `size` bytes of payload: whole granules, and at least one, so that
no two blocks start at the same address. -/
def footprint (l : Layout) (size : Nat) : Nat :=
  (max size 1 + l.granule - 1) / l.granule * l.granule

/-- Whether `p` is a granule boundary of the region. -/
def isBoundary (l : Layout) (p : Addr) : Bool :=
  l.start ≤ p && p < l.stop && (p - l.start) % l.granule == 0

/-- Checks the layout against a memory of `memory` bytes. Of several defects the first in this
order is reported. -/
def check (l : Layout) (memory : Nat) : Except LayoutDefect Unit :=
  let tableStop := l.tableStart + l.tableSize
  if l.start = 0 then
    .error .startsAtNull
  else if l.stop ≤ l.start then
    .error (.emptyRegion l.start l.stop)
  else if l.granule = 0 ∨ l.granule % Header.width ≠ 0 then
    .error (.raggedGranule l.granule)
  else if l.start % Header.width ≠ 0 then
    .error (.unalignedStart l.start)
  else if (l.stop - l.start) % l.granule ≠ 0 then
    .error (.raggedRegion (l.stop - l.start) l.granule)
  else if memory < l.stop then
    .error (.regionOutside l.stop memory)
  else if l.tableStart % Header.width ≠ 0 then
    .error (.unalignedTable l.tableStart)
  else if memory < tableStop then
    .error (.tableOutside l.tableStart tableStop memory)
  else if l.tableStart < l.stop ∧ l.start < tableStop then
    .error (.tableInRegion l.tableStart tableStop l.start l.stop)
  else
    .ok ()

/-- The layout field by field. -/
def describe (l : Layout) : String :=
  let table := match l.table? with
    | some p => s!"Some({p})"
    | none => "None"
  s!"HeapConfig \x7b start: {l.start}, end: {l.stop}, block_size: {l.granule}, " ++
    s!"header_table: {table} \x7d"

end Layout

end MarkSweep
