import MarkSweep.Heap
import MarkSweep.Trace.TracerMap

/-!
# Marking

Marking sets the mark of every object that can be reached from the roots. Objects wait in a queue,
first in, first out, so the heap is traversed breadth first. An object may wait more than once; when
its turn comes again it is already marked and is skipped, so that every object is visited at most
once.

Marking stops at the first reference to something that is not an object, and at the first object
that cannot be traced. Marks set until then stay.
-/

namespace MarkSweep

/-- What the children of an object come to. -/
structure Children where
  /-- The objects among them that have no mark yet, in order. -/
  unmarked : List Addr
  /-- What is wrong with the first child that is not an object; those after it do not count. -/
  defect : Option Refusal

namespace Children

variable {H : Type} [Heap H]

/-- No children. -/
def nothing : Children := ⟨[], none⟩

/-- A child that is not an object, and nothing after it. -/
def stop (defect : Refusal) : Children := ⟨[], some defect⟩

/-- Puts an object without a mark before other children. -/
def cons (child : Addr) (c : Children) : Children := { c with unmarked := child :: c.unmarked }

/-- Looks up the children of an object in the heap. Null children are skipped. -/
def find (parent : Addr) : List Addr → H → Children × H
  | [], heap => (nothing, heap)
  | child :: rest, heap =>
    if child.isNull then
      find parent rest heap
    else
      match Heap.owns heap child with
      | (false, heap) => (stop (.danglingReference parent child), heap)
      | (true, heap) =>
        match Heap.header heap child with
        | .error e => (stop e, heap)
        | .ok header =>
          let (others, heap) := find parent rest heap
          (if header.mark then others else others.cons child, heap)

end Children

/-- A marking in progress. -/
structure Marking (H : Type) where
  /-- The heap being marked. -/
  heap : H
  /-- Objects to visit, the next one first. -/
  queue : List Addr
  /-- Objects that this marking has marked, the latest first. -/
  marked : List Addr

namespace Marking

variable {H : Type}

/-- A marking that has not reached anything. -/
def start (heap : H) : Marking H := ⟨heap, [], []⟩

/-- Runs an operation on the heap. -/
def onHeap {α : Type} (x : Action H α) : Action (Marking H) α :=
  .within (fun ⟨heap, queue, marked⟩ => (heap, (⟨·, queue, marked⟩))) x

/-- Puts objects at the end of the queue. -/
def enqueue (ps : List Addr) (m : Marking H) : Marking H := { m with queue := m.queue ++ ps }

variable [Heap H]

/-- The roots that are not null. All of them must be objects. -/
def liveRoots : List Addr → Action H (List Addr)
  | [] => return []
  | p :: rest =>
    if p.isNull then
      liveRoots rest
    else do
      let owned ← Heap.askOwns p
      .require owned (.danglingRoot p)
      let others ← liveRoots rest
      return p :: others

/-- Marks the object at `p`, which has the given header, and queues its children. An object that
cannot be traced is refused for this reason first, then for its children. -/
def visit (tracers : TracerMap) (p : Addr) (header : Header) : Action (Marking H) Unit := do
  -- The mark comes first, so an object that refers to itself is not visited again.
  onHeap (Heap.setHeader p header.setMark)
  modify fun m => { m with marked := p :: m.marked }
  let payload ← Action.ask fun m : Marking H => Heap.payload m.heap p
  let found := tracers.visit header.tag payload
  let children ← onHeap (fun heap =>
    let (children, heap) := Children.find p found.children heap
    .ok children heap)
  match found.failure, children.defect with
  | some cause, _ => throw (.malformedObject p header.tag cause)
  | none, some defect => throw defect
  | none, none => modify (enqueue children.unmarked)

/-- The first object in a queue that has no mark, its header, and the queue behind it. -/
def nextUnmarked (heap : H) : List Addr → Except Refusal (Option (Addr × Header × List Addr))
  | [] => return none
  | p :: rest => do
    let header ← Heap.header heap p
    if header.mark then
      nextUnmarked heap rest
    else
      return some (p, header, rest)

/-- Visits the queue until it is empty, at most `budget` objects. A heap that keeps its marks has no
more objects to visit than it has blocks, so only one that loses them can exceed the budget. -/
def visitAll (tracers : TracerMap) (budget : Nat) : Action (Marking H) Unit := do
  match ← Action.ask fun m : Marking H => nextUnmarked m.heap m.queue with
  | none => modify fun m => { m with queue := [] }
  | some (p, header, rest) =>
    match budget with
    | 0 => throw (.corruptHeader p .markLost)
    | budget + 1 =>
      modify fun m => { m with queue := rest }
      visit tracers p header
      visitAll tracers budget

/-- There are no more objects than addresses of 32 bits. -/
def budget : Nat := UInt32.size

/-- Marks everything that can be reached from the roots. -/
def run (tracers : TracerMap) (roots : List Addr) : Action (Marking H) Unit := do
  let live ← onHeap (liveRoots roots)
  modify (enqueue live)
  visitAll tracers budget

end Marking

end MarkSweep
