import MarkSweep.Heap

/-!
# Faulty heaps

A heap whose headers are read wrongly. Everything else is passed on unchanged, so what a layer above
makes of a wrong header can be observed.
-/

namespace MarkSweep

/-- A heap with a fault in reading headers. -/
structure FaultyHeap (H : Type) where
  /-- The heap behind the fault. -/
  inner : H
  /-- The bits of a header word that are read inverted. -/
  mask : UInt32

namespace FaultyHeap

variable {H : Type} [Heap H]

/-- Passes an operation on. -/
def onInner {α : Type} (x : Action H α) : Action (FaultyHeap H) α :=
  .within (fun ⟨inner, mask⟩ => (inner, (⟨·, mask⟩))) x

/-- The header of the block at `p`, as it is read through the fault. -/
def header (f : FaultyHeap H) (p : Addr) : Except Refusal Header := do
  let header ← Heap.header f.inner p
  return .ofWord (header.toWord ^^^ f.mask)

instance : Heap (FaultyHeap H) where
  allocate tag size := onInner (Heap.allocate tag size)
  header := header
  setHeader p header := onInner (Heap.setHeader p header)
  payload f p := Heap.payload f.inner p
  sweep := onInner Heap.sweep
  owns f p :=
    let answer := Heap.owns f.inner p
    (answer.1, { f with inner := answer.2 })
  usage f := Heap.usage f.inner

end FaultyHeap

end MarkSweep
