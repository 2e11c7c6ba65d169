/-!
# Addresses

Addresses of the managed memory. A heap never places an object at address `0`, so `0` is free to
stand for "no object"; every other address may or may not be the start of a block.
-/

namespace MarkSweep

/-- A byte address of the managed memory. -/
abbrev Addr := Nat

namespace Addr

/-- Whether the address stands for "no object". -/
def isNull (p : Addr) : Bool := p == 0

/-- The address as `0x` and its lower-case hexadecimal digits. -/
def text (p : Addr) : String := "0x" ++ String.ofList (Nat.toDigits 16 p)

end Addr

end MarkSweep
