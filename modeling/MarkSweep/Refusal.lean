import MarkSweep.Layout
import MarkSweep.Payload

/-!
# Errors

The ways in which a heap, a root set or a collector can refuse an operation, each with the facts
that led to it. `Refusal.message` is the only place where they are put into words.
-/

namespace MarkSweep

/-- How a header contradicts what is known about its block. -/
inductive HeaderDefect where
  /-- A write would make an allocated block look free. -/
  | clearsAlloc
  /-- A block in use has a header that says it is free. -/
  | freeInUse
  /-- A block on record is not marked allocated. -/
  | liveNotAllocated
  /-- A block still has its mark after a sweep. -/
  | markSurvived
  /-- The tag or the size is not the one on record. -/
  | changedSinceAllocation
  /-- A block just handed out is free or marked. -/
  | freshNotClean
  /-- A block just handed out has another tag or size than asked for. -/
  | freshMismatch
  /-- A write would change more than the mark. -/
  | changesMoreThanMark
  /-- A block gone from the heap is still allocated or marked. -/
  | releasedNotClean
  /-- A mark that was set reads as clear, again and again. -/
  | markLost
deriving DecidableEq

/-- The wording of the defect. -/
def HeaderDefect.message : HeaderDefect → String
  | .clearsAlloc => "header write clears the allocated bit"
  | .freeInUse => "allocated block has a free header"
  | .liveNotAllocated => "live block is not marked allocated"
  | .markSurvived => "mark bit survived a sweep"
  | .changedSinceAllocation => "tag or size changed after allocation"
  | .freshNotClean => "fresh allocation is not allocated and unmarked"
  | .freshMismatch => "fresh allocation has the wrong tag or size"
  | .changesMoreThanMark => "header write changes more than the mark bit"
  | .releasedNotClean => "freed block still marked allocated or marked"
  | .markLost => "mark bit does not stay set"

/-- Why an operation was refused. -/
inductive Refusal where
  /-- No room for the payload, not even after a collection if one was allowed. -/
  | outOfMemory (requested : Nat)
  /-- The payload size does not fit into a header. -/
  | payloadTooLarge (size : Nat)
  /-- The address is not the start of an allocated block. -/
  | notAllocated (p : Addr)
  /-- The address is no place where a block could start. -/
  | notABlock (p : Addr)
  /-- A root names an address that is not an allocated block. -/
  | danglingRoot (p : Addr)
  /-- An object refers to an address that is not an allocated block. -/
  | danglingReference (parent child : Addr)
  /-- The heap and the records kept beside it disagree on whether `p` is allocated. -/
  | ownershipMismatch (p : Addr) (heap tracked : Bool)
  /-- The header of a block contradicts what is known about the block. -/
  | corruptHeader (p : Addr) (defect : HeaderDefect)
  /-- The references of an object could not be found. -/
  | malformedObject (p : Addr) (tag : Tag) (cause : PayloadDefect)
  /-- There is no frame to leave. -/
  | emptyFrameStack
  /-- There is no frame whose slots could be written. -/
  | noActiveFrame
  /-- There is no temporary scope to close. -/
  | noOpenScope
  /-- The access `[addr, addr + len)` ends behind the memory. -/
  | outOfBounds (addr : Addr) (len : Nat)
  /-- The layout of a new heap was refused. -/
  | invalidLayout (defect : LayoutDefect)
deriving DecidableEq

/-- The wording of the error. -/
def Refusal.message : Refusal → String
  | .outOfMemory requested => s!"out of memory: cannot allocate {requested} bytes"
  | .payloadTooLarge size => s!"payload of {size} bytes exceeds the maximum object size"
  | .notAllocated p => "pointer " ++ p.text ++ " is not an allocated block"
  | .notABlock p => "pointer " ++ p.text ++ " is not a block start in this heap"
  | .danglingRoot p => "root " ++ p.text ++ " does not refer to an allocated object"
  | .danglingReference parent child =>
    "object " ++ parent.text ++ " refers to unallocated address " ++ child.text
  | .ownershipMismatch p heap tracked =>
    "ownership mismatch at " ++ p.text ++ s!": heap={heap}, tracked={tracked}"
  | .corruptHeader p defect => "corrupt header at " ++ p.text ++ ": " ++ defect.message
  | .malformedObject p tag cause =>
    "malformed " ++ tag.name ++ " object at " ++ p.text ++ ": " ++ cause.message
  | .emptyFrameStack => "pop_frame on an empty frame stack"
  | .noActiveFrame => "no active frame for local-variable access"
  | .noOpenScope => "release_temps without a matching capture_temps"
  | .outOfBounds addr len => s!"memory access out of bounds: {len} bytes at {addr}"
  | .invalidLayout defect => "invalid heap configuration: " ++ defect.message

end MarkSweep
