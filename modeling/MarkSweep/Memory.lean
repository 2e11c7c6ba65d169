import MarkSweep.Action

/-!
# Memory

Byte-addressable memory of a fixed size. Every access names a range of bytes; one that ends behind
the memory is refused and changes nothing. All writes go through `Memory.overwrite`, which is pinned
down by `Memory.size_overwrite` and `Memory.getElem?_overwrite`: the memory keeps its size, and
exactly the bytes of the range are replaced.
-/

namespace MarkSweep

/-- A memory, byte by byte. -/
structure Memory where
  /-- The contents, from address `0` on. -/
  bytes : Array UInt8

namespace Memory

/-- A memory of `n` bytes that all have the same value. -/
def filled (n : Nat) (b : UInt8) : Memory := ⟨Array.replicate n b⟩

/-- Number of bytes. -/
def size (m : Memory) : Nat := m.bytes.size

/-- Puts the bytes of a list at `a`, `a + 1`, …; those that would fall behind the memory are
dropped. -/
def overwrite : Memory → Addr → List UInt8 → Memory
  | m, _, [] => m
  | m, a, b :: bs => overwrite ⟨m.bytes.setIfInBounds a b⟩ (a + 1) bs

/-- The `len` bytes from `a` on. -/
def slice (m : Memory) (a : Addr) (len : Nat) : Except Refusal (Array UInt8) :=
  if a + len ≤ m.size then
    .ok (m.bytes.extract a (a + len))
  else
    .error (.outOfBounds a len)

/-- The word at `a`. -/
def load (m : Memory) (a : Addr) : Except Refusal UInt32 :=
  match Word.at? m.bytes a with
  | some w => .ok w
  | none => .error (.outOfBounds a 4)

/-- Writes a word at `a`. -/
def store (a : Addr) (w : UInt32) : Action Memory Unit := fun m =>
  if a + 4 ≤ m.size then
    .ok () (m.overwrite a (Word.bytes w))
  else
    .error (.outOfBounds a 4) m

/-- Writes words at `a`, `a + 4`, …, up to the first that does not fit. -/
def storeAll : Addr → List UInt32 → Action Memory Unit
  | _, [] => pure ()
  | a, w :: ws => do
    store a w
    storeAll (a + 4) ws

/-- Sets the `len` bytes from `a` on to zero. -/
def zero (a : Addr) (len : Nat) : Action Memory Unit := fun m =>
  if a + len ≤ m.size then
    .ok () (m.overwrite a (List.replicate len 0))
  else
    .error (.outOfBounds a len) m

/-- Writing does not change the size of a memory, even where it reaches behind the end. -/
@[simp]
theorem size_overwrite (m : Memory) (a : Addr) (bs : List UInt8) :
    (m.overwrite a bs).size = m.size := by
  induction bs generalizing m a with
  | nil => rfl
  | cons b bs ih => rw [overwrite, ih]; simp [size]

/-- Writing replaces the bytes of its range and no others. -/
theorem getElem?_overwrite (m : Memory) (a : Addr) (bs : List UInt8) (i : Nat) :
    (m.overwrite a bs).bytes[i]? =
      if a ≤ i ∧ i < a + bs.length ∧ i < m.size then bs[i - a]? else m.bytes[i]? := by
  induction bs generalizing m a with
  | nil => grind [overwrite]
  | cons b bs ih => grind [overwrite, size]

end Memory

end MarkSweep
