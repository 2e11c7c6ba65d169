import MarkSweep.Marking
import MarkSweep.RootSet

/-!
# Collectors

A collector owns a heap and the root set of the program that uses it. A collection marks what can be
reached from the roots and sweeps the rest. An allocation that finds no room collects once and tries
again, if the trigger allows it.
-/

namespace MarkSweep

/-- When collections happen. -/
inductive Trigger where
  /-- On request, and when an allocation finds no room. -/
  | onExhaustion
  /-- On request only. -/
  | manual
deriving DecidableEq

/-- The trigger as a setting. -/
def Trigger.describe : Trigger → String
  | .onExhaustion => "GcConfig \x7b trigger: RetryOnExhaustion \x7d"
  | .manual => "GcConfig \x7b trigger: Manual \x7d"

/-- What a collection has done. -/
structure Collection where
  /-- Objects that were marked. -/
  marked : Nat
  /-- What the sweep has done. -/
  sweep : Sweep
deriving DecidableEq

/-- What a collector has done so far. -/
structure Totals where
  /-- Collections that were completed. -/
  collections : Nat
  /-- Objects that were allocated. -/
  allocations : Nat
  /-- Objects marked by the last collection. -/
  lastMarked : Nat
  /-- Blocks released by the last collection. -/
  lastFreed : Nat
  /-- Bytes released by the last collection. -/
  lastReclaimed : Nat
deriving DecidableEq

namespace Totals

/-- Nothing has been done. -/
def zero : Totals := ⟨0, 0, 0, 0, 0⟩

/-- Counts an object that was allocated. -/
def countAllocation (t : Totals) : Totals := { t with allocations := t.allocations + 1 }

/-- Counts a completed collection. -/
def countCollection (t : Totals) (c : Collection) : Totals :=
  { t with
    collections := t.collections + 1
    lastMarked := c.marked
    lastFreed := c.sweep.freedBlocks
    lastReclaimed := c.sweep.freedBytes }

end Totals

/-- A heap that is collected. -/
structure Collector (H : Type) where
  /-- The heap. -/
  heap : H
  /-- What the program holds on to. -/
  roots : RootSet
  /-- How references are found. -/
  tracers : TracerMap
  /-- When collections happen. -/
  trigger : Trigger
  /-- What has been done so far. -/
  totals : Totals

namespace Collector

variable {H : Type}

/-- A collector that has done nothing yet. -/
def start (heap : H) (tracers : TracerMap) (trigger : Trigger) : Collector H :=
  ⟨heap, .empty, tracers, trigger, .zero⟩

/-- A collector for objects with the built-in tags and without classes. -/
def standard (heap : H) : Collector H := start heap (.standard .empty) .onExhaustion

/-- Runs an operation on the heap. -/
def onHeap {α : Type} (x : Action H α) : Action (Collector H) α :=
  .within (fun ⟨heap, roots, tracers, trigger, totals⟩ =>
    (heap, (⟨·, roots, tracers, trigger, totals⟩))) x

/-- Runs an operation on the root set. -/
def onRoots {α : Type} (x : Action RootSet α) : Action (Collector H) α :=
  .within (fun ⟨heap, roots, tracers, trigger, totals⟩ =>
    (roots, (⟨heap, ·, tracers, trigger, totals⟩))) x

variable [Heap H]

/-- Marks what can be reached from the roots, and answers the number of objects marked. -/
def mark : Action (Collector H) Nat := fun ⟨heap, roots, tracers, trigger, totals⟩ =>
  match Marking.run tracers roots.roots (.start heap) with
  | .ok () m => .ok m.marked.length ⟨m.heap, roots, tracers, trigger, totals⟩
  | .error e m => .error e ⟨m.heap, roots, tracers, trigger, totals⟩

/-- Marks and sweeps. -/
def collect : Action (Collector H) Collection := do
  let marked ← mark
  let sweep ← onHeap Heap.sweep
  let collection : Collection := ⟨marked, sweep⟩
  modify fun c => { c with totals := c.totals.countCollection collection }
  return collection

/-- Hands out a block from the heap, after a collection if there is no room and the trigger allows
it. -/
def findRoom (tag : Tag) (size : Nat) : Action (Collector H) (Option Addr) := do
  match ← onHeap (Heap.allocate tag size) with
  | some p => return some p
  | none =>
    let c ← get
    match c.trigger with
    | .manual => return none
    | .onExhaustion =>
      discard collect
      onHeap (Heap.allocate tag size)

/-- Allocates an object. It is a temporary of the innermost temporary scope, if one is open. -/
def allocate (tag : Tag) (size : Nat) : Action (Collector H) Addr := do
  match ← findRoom tag size with
  | none => throw (.outOfMemory size)
  | some p =>
    modify fun c => { c with
      roots := c.roots.hold p
      totals := c.totals.countAllocation }
    return p

end Collector

end MarkSweep
