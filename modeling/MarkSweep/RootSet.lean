import MarkSweep.Action

/-!
# Root sets

The addresses that a running program holds on to. They come from two stacks that grow and shrink
independently:

* the stack of frames, one for each function activation, in which slots are bound to addresses;
* the stack of temporary scopes, which keep new objects alive until they are bound somewhere.

The temporaries of all open scopes stand in one list, oldest first; of each scope only the number of
temporaries at its opening is kept, and closing it cuts the list back to that length.
-/

namespace MarkSweep

/-- The slots of one function activation. -/
structure Frame where
  /-- Bound slots and their addresses, each slot once. -/
  bindings : List (Nat × Addr)
deriving DecidableEq

namespace Frame

/-- No slot is bound. -/
def empty : Frame := ⟨[]⟩

/-- The address that a slot is bound to. -/
def slot? (f : Frame) (slot : Nat) : Option Addr := f.bindings.lookup slot

/-- Binds a slot, in place of an earlier binding. -/
def bindSlot (f : Frame) (slot : Nat) (p : Addr) : Frame :=
  ⟨(slot, p) :: f.bindings.filter (·.1 ≠ slot)⟩

/-- The addresses that slots are bound to. -/
def addresses (f : Frame) : List Addr := f.bindings.map (·.2)

/-- Number of bound slots. -/
def size (f : Frame) : Nat := f.bindings.length

end Frame

/-- The roots of a running program. -/
structure RootSet where
  /-- Active frames, the current one first. -/
  frames : List Frame
  /-- Temporaries of all open scopes, oldest first. -/
  temps : List Addr
  /-- For each open scope, the innermost first, the number of temporaries when it was opened. -/
  marks : List Nat
deriving DecidableEq

namespace RootSet

/-- No frame and no scope. -/
def empty : RootSet := ⟨[], [], []⟩

/-- Enters a function activation. -/
def enter (r : RootSet) : RootSet := { r with frames := .empty :: r.frames }

/-- Leaves the current function activation and answers its frame. -/
def leave : Action RootSet Frame := fun r =>
  match r.frames with
  | [] => .error .emptyFrameStack r
  | f :: fs => .ok f { r with frames := fs }

/-- Changes the current frame. -/
def updateFrame (change : Frame → Frame) : Action RootSet Unit := fun r =>
  match r.frames with
  | [] => .error .noActiveFrame r
  | f :: fs => .ok () { r with frames := change f :: fs }

/-- Binds a slot of the current frame. -/
def bindSlot (slot : Nat) (p : Addr) : Action RootSet Unit := updateFrame (·.bindSlot slot p)

/-- Unbinds all slots of the current frame. -/
def unbindAll : Action RootSet Unit := updateFrame fun _ => .empty

/-- The address that a slot of the current frame is bound to. -/
def slot? (r : RootSet) (slot : Nat) : Option Addr := r.frames.head?.bind (·.slot? slot)

/-- Opens a temporary scope. -/
def openScope (r : RootSet) : RootSet := { r with marks := r.temps.length :: r.marks }

/-- Closes the innermost temporary scope and forgets its temporaries. -/
def closeScope : Action RootSet Unit := fun r =>
  match r.marks with
  | [] => .error .noOpenScope r
  | n :: ns => .ok () { r with temps := r.temps.take n, marks := ns }

/-- Whether a temporary scope is open. -/
def inScope (r : RootSet) : Bool := !r.marks.isEmpty

/-- Adds a temporary to the innermost scope. Without an open scope nothing happens. -/
def hold (r : RootSet) (p : Addr) : RootSet :=
  if r.inScope then { r with temps := r.temps ++ [p] } else r

/-- Number of active frames. -/
def depth (r : RootSet) : Nat := r.frames.length

/-- Number of open temporary scopes. -/
def scopeDepth (r : RootSet) : Nat := r.marks.length

/-- Number of temporaries. -/
def tempCount (r : RootSet) : Nat := r.temps.length

/-- All roots: those of the frames, the outermost first, then the temporaries. Null addresses and
repetitions are not removed. -/
def roots (r : RootSet) : List Addr := r.frames.reverse.flatMap Frame.addresses ++ r.temps

end RootSet

end MarkSweep
