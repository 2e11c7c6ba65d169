import Mathlib.Data.Nat.Digits.Defs
import MarkSweep.Proofs.Action
import MarkSweep.Proofs.Memory

/-!
# Accesses to a memory

A memory is known by its size and by the numbers that its bytes are (`Memory.byte`). An access names
a range, and whether it is granted depends on the range and the size alone. `Access.rewrite` says
what becomes of the bytes, `Memory.numberAt` what number four of them are as a word.

`Memory.coherent` puts these together for every memory and every access: which accesses are granted,
what a refusal says, and what is read after a write, whether the ranges are the same, overlap or lie
apart.
-/

namespace MarkSweep

/-- An access to a memory. -/
inductive Access where
  /-- Reads the `len` bytes from `a` on. -/
  | slice (a : Addr) (len : Nat)
  /-- Reads the word at `a`. -/
  | load (a : Addr)
  /-- Writes a word at `a`. -/
  | store (a : Addr) (w : UInt32)
  /-- Sets the `len` bytes from `a` on to zero. -/
  | zero (a : Addr) (len : Nat)

namespace Access

/-- Where the range of the access starts. -/
def start : Access → Addr
  | slice a _ | load a | store a _ | zero a _ => a

/-- Number of bytes of the range. -/
def length : Access → Nat
  | slice _ len | zero _ len => len
  | load _ | store _ _ => 4

/-- Carries the access out. What a reading access finds is not passed on. -/
def run : Access → Action Memory Unit
  | slice a len => discard (Action.ask (Memory.slice · a len))
  | load a => discard (Action.ask (Memory.load · a))
  | store a w => Memory.store a w
  | zero a len => Memory.zero a len

/-- What becomes of the bytes of a memory when the access is granted. -/
def rewrite : Access → (Addr → Nat) → Addr → Nat
  | slice _ _, byte | load _, byte => byte
  | store a w, byte => fun i =>
    if a ≤ i ∧ i < a + 4 then w.toNat / 256 ^ (i - a) % 256 else byte i
  | zero a len, byte => fun i => if a ≤ i ∧ i < a + len then 0 else byte i

end Access

namespace Memory

/-- The number that byte `i` is. Behind the memory there are zeros. -/
def byte (m : Memory) (i : Addr) : Nat := (m.bytes.getD i 0).toNat

/-- The number that the four bytes from `a` on are as a word, the least significant first. -/
def numberAt (byte : Addr → Nat) (a : Addr) : Nat := Nat.ofDigits 256 ((List.range' a 4).map byte)

/-- The check of a range in machine words: start and length have 32 bits, the end is computed in
words of 64 bits, and a range that would end before it starts is refused. -/
def inBounds64 (m : Memory) (a len : UInt32) : Bool :=
  let stop := a.toUInt64 + len.toUInt64
  a.toUInt64 ≤ stop && stop.toNat ≤ m.size

/-- Reads and writes of a memory fit together. -/
structure Coherent (m : Memory) : Prop where
  /-- In machine words the check of a range comes out the same, wherever the range lies: nothing
  wraps around. -/
  inBounds64_iff : ∀ a len : UInt32, m.inBounds64 a len ↔ a.toNat + len.toNat ≤ m.size
  /-- An access is granted exactly if its range ends within the memory. -/
  granted_iff : ∀ x : Access, (∃ m', x.run m = .ok () m') ↔ x.start + x.length ≤ m.size
  /-- A refusal names the range of the access, and changes nothing. -/
  refused : ∀ (x : Access) e m', x.run m = .error e m' →
    e = .outOfBounds x.start x.length ∧ m' = m
  /-- An access changes the bytes of its range as it should, and no others. -/
  rewritten : ∀ (x : Access) m', x.run m = .ok () m' →
    m'.size = m.size ∧ m'.byte = x.rewrite m.byte
  /-- Every word that is read afterwards is the number of the bytes that are there then, whether
  none of them, some or all have been written. -/
  load_after : ∀ (x : Access) m', x.run m = .ok () m' → ∀ b, b + 4 ≤ m.size →
    ∃ w, m'.load b = .ok w ∧ w.toNat = numberAt (x.rewrite m.byte) b
  /-- So are the bytes of a range. -/
  slice_after : ∀ (x : Access) m', x.run m = .ok () m' → ∀ b len, b + len ≤ m.size →
    ∃ bs, m'.slice b len = .ok bs ∧
      bs.toList.map UInt8.toNat = (List.range' b len).map (x.rewrite m.byte)
  /-- A word is read back from where it was written. -/
  load_store : ∀ a w m', store a w m = .ok () m' → m'.load a = .ok w
  /-- Writing a word back to where it was read changes nothing. -/
  store_load : ∀ a w, m.load a = .ok w → store a w m = .ok () m

variable {m m' : Memory} {a i : Addr} {len : Nat} {w : UInt32}

/-! ### Ranges -/

/-- Start and length have 32 bits each, so 64 are enough for the end. -/
theorem toNat_add_toUInt64 (a len : UInt32) :
    (a.toUInt64 + len.toUInt64).toNat = a.toNat + len.toNat := by
  have ha := a.toNat_lt
  have hlen := len.toNat_lt
  rw [UInt64.toNat_add, UInt32.toNat_toUInt64, UInt32.toNat_toUInt64]
  omega

/-- The sum of two words does not wrap in 64 bits, so the check finds all ranges that reach behind
the end. -/
theorem inBounds64_iff (m : Memory) (a len : UInt32) :
    m.inBounds64 a len ↔ a.toNat + len.toNat ≤ m.size := by
  have hstop := toNat_add_toUInt64 a len
  -- A range that would end before it starts does not come up.
  have hstart : a.toUInt64 ≤ a.toUInt64 + len.toUInt64 := by
    rw [UInt64.le_iff_toNat_le, hstop, UInt32.toNat_toUInt64]
    exact Nat.le_add_right _ _
  simp only [inBounds64, hstart, hstop, decide_true, Bool.true_and, decide_eq_true_eq]

/-! ### Bytes -/

theorem byte_eq_getElem (hi : i < m.bytes.size) : m.byte i = m.bytes[i].toNat := by
  rw [byte, Array.getD_eq_getD_getElem?, Array.getElem?_eq_getElem hi, Option.getD_some]

/-- A memory is known by its size and its bytes. -/
theorem eq_of_byte_eq (hsize : m'.size = m.size) (hbyte : m'.byte = m.byte) : m' = m := by
  ext1
  refine Array.ext hsize fun i hi' hi => UInt8.toNat_inj.mp ?_
  rw [← byte_eq_getElem hi', ← byte_eq_getElem hi, hbyte]

/-- Every byte is either one of those written or what it was. -/
theorem byte_overwrite {bs : List UInt8} (h : a + bs.length ≤ m.size) (i : Addr) :
    (m.overwrite a bs).byte i =
      if a ≤ i ∧ i < a + bs.length then (bs.getD (i - a) 0).toNat else m.byte i := by
  rw [byte, Array.getD_eq_getD_getElem?, getElem?_overwrite]
  by_cases hi : a ≤ i ∧ i < a + bs.length
  · rw [if_pos ⟨hi.1, hi.2, by lia⟩, if_pos hi, List.getD_eq_getElem?_getD]
  · rw [if_neg (by lia), if_neg hi, byte, Array.getD_eq_getD_getElem?]

/-- The bytes of a word are its digits. -/
theorem toNat_getD_bytes (w : UInt32) {k : Nat} (hk : k < 4) :
    ((Word.bytes w).getD k 0).toNat = w.toNat / 256 ^ k % 256 := by
  obtain rfl | rfl | rfl | rfl : k = 0 ∨ k = 1 ∨ k = 2 ∨ k = 3 := by lia
  all_goals simp [Word.bytes]

/-- The lowest byte of a word comes first. -/
theorem numberAt_eq (byte : Addr → Nat) (a : Addr) : numberAt byte a =
    byte a + 0x100 * byte (a + 1) + 0x10000 * byte (a + 2) + 0x1000000 * byte (a + 3) := by
  simp only [numberAt, List.range'_succ, List.range'_zero, List.map_cons, List.map_nil,
    Nat.ofDigits_cons, Nat.ofDigits_nil]
  lia

/-- The word that is loaded is the number that its four bytes stand for. -/
theorem toNat_of_load_eq (hw : m.load a = .ok w) : w.toNat = numberAt m.byte a := by
  obtain ⟨b₀, b₁, b₂, b₃, h₀, h₁, h₂, h₃, rfl⟩ := exists_bytes_of_load hw
  simp only [Word.toNat_ofBytes, numberAt_eq, byte, Array.getD_eq_getD_getElem?, h₀, h₁, h₂, h₃,
    Option.getD_some]

/-- A word within the memory can be loaded, and is the number that its bytes stand for. -/
theorem exists_load_eq (h : a + 4 ≤ m.size) :
    ∃ w, m.load a = .ok w ∧ w.toNat = numberAt m.byte a := by
  obtain ⟨w, hw⟩ := exists_load h
  exact ⟨w, hw, toNat_of_load_eq hw⟩

theorem load_of_not_le (h : ¬ a + 4 ≤ m.size) : m.load a = .error (.outOfBounds a 4) := by
  have hnot : ¬ a + 4 ≤ m.bytes.size := h
  rw [load, Word.at?, dif_neg hnot]

/-- A range within the memory can be read, byte by byte. -/
theorem exists_slice_eq (h : a + len ≤ m.size) : ∃ bs, m.slice a len = .ok bs ∧
    bs.toList.map UInt8.toNat = (List.range' a len).map m.byte := by
  have hle : a + len ≤ m.bytes.size := h
  have hsize : (m.bytes.extract a (a + len)).size = len := by
    rw [Array.size_extract]
    lia
  refine ⟨m.bytes.extract a (a + len), if_pos h, List.ext_getElem ?_ fun i hi _ => ?_⟩
  · rw [List.length_map, Array.length_toList, hsize, List.length_map, List.length_range']
  · have hi' : a + i < m.bytes.size := by
      rw [List.length_map, Array.length_toList, hsize] at hi
      lia
    simp [byte_eq_getElem hi']

/-- A word is read back from where it was written. -/
theorem load_of_store_eq (h : store a w m = .ok () m') : m'.load a = .ok w := by
  rw [store] at h
  split_ifs at h with hle
  obtain rfl := (EStateM.Result.ok.inj h).2
  exact load_overwrite_bytes w hle

/-- Writing a word back to where it was read changes nothing. -/
theorem store_of_load_eq (hw : m.load a = .ok w) : store a w m = .ok () m := by
  have hle : a + 4 ≤ m.size := by
    by_contra hnot
    rw [load_of_not_le hnot] at hw
    contradiction
  -- The bytes in the range are the same as they make the same word, the others were not written.
  have hin := agreeOn_of_load_eq (size_overwrite m a _) hw (load_overwrite_bytes w hle)
  have hout : m.AgreeOn (Set.Ico a (a + 4))ᶜ (m.overwrite a (Word.bytes w)) :=
    m.agreeOn_overwrite a (Word.bytes w)
  rw [store, if_pos hle, eq_of_agreeOn_compl hin hout]

end Memory

namespace Access

open Memory

variable {m m' : Memory} {x : Access}

/-- What an access does that is granted. -/
theorem exists_run_eq (x : Access) (h : x.start + x.length ≤ m.size) :
    ∃ m', x.run m = .ok () m' ∧ m'.size = m.size ∧ m'.byte = x.rewrite m.byte := by
  cases x with
  -- The two reads leave the memory alone, the two writes differ in the bytes that they write.
  | slice a len =>
    obtain ⟨bs, hbs, -⟩ := exists_slice_eq h
    exact ⟨m, Action.discard_ask_of_eq_ok hbs, rfl, rfl⟩
  | load a =>
    obtain ⟨w, hw⟩ := exists_load h
    exact ⟨m, Action.discard_ask_of_eq_ok hw, rfl, rfl⟩
  | store a w =>
    refine ⟨m.overwrite a (Word.bytes w), if_pos h, size_overwrite .., funext fun i => ?_⟩
    rw [byte_overwrite h]
    exact if_ctx_congr Iff.rfl (fun hi => toNat_getD_bytes w (by lia)) fun _ => rfl
  | zero a len =>
    refine ⟨m.overwrite a (List.replicate len 0), if_pos h, size_overwrite .., funext fun i => ?_⟩
    rw [byte_overwrite (by rwa [List.length_replicate]), List.length_replicate]
    refine if_ctx_congr Iff.rfl (fun hi => ?_) fun _ => rfl
    rw [List.getD_eq_getElem?_getD, List.getElem?_replicate_of_lt (by lia)]
    rfl

/-- What a refused access says. It is the same for reads and writes. -/
theorem run_of_not_le (x : Access) (h : ¬ x.start + x.length ≤ m.size) :
    x.run m = .error (.outOfBounds x.start x.length) m := by
  cases x with
  | slice a len => exact Action.discard_ask_of_eq_error (if_neg h)
  | load a => exact Action.discard_ask_of_eq_error (load_of_not_le h)
  | store a w => exact if_neg h
  | zero a len => exact if_neg h

/-- The result of a granted access leaves nothing open. -/
theorem run_eq_ok_iff : x.run m = .ok () m' ↔
    x.start + x.length ≤ m.size ∧ m'.size = m.size ∧ m'.byte = x.rewrite m.byte := by
  by_cases h : x.start + x.length ≤ m.size
  · obtain ⟨m₁, hrun, hsize, hbyte⟩ := x.exists_run_eq h
    rw [hrun]
    constructor
    · intro heq
      obtain rfl := (EStateM.Result.ok.inj heq).2
      exact ⟨h, hsize, hbyte⟩
    · -- There is only one memory of this size with these bytes.
      rintro ⟨-, hsize', hbyte'⟩
      rw [eq_of_byte_eq (hsize'.trans hsize.symm) (hbyte'.trans hbyte.symm)]
  · simp [run_of_not_le x h, h]

/-- An access is refused exactly if its range reaches behind the end, and it has no effect then. -/
theorem run_eq_error_iff {e : Refusal} : x.run m = .error e m' ↔
    ¬ x.start + x.length ≤ m.size ∧ e = .outOfBounds x.start x.length ∧ m' = m := by
  by_cases h : x.start + x.length ≤ m.size
  · obtain ⟨m₁, hrun, -, -⟩ := x.exists_run_eq h
    simp [hrun, h]
  · simp [run_of_not_le x h, h, eq_comm]

end Access

namespace Memory

/-- Reads and writes of every memory fit together, whatever their ranges have in common. -/
theorem coherent (m : Memory) : m.Coherent where
  inBounds64_iff := m.inBounds64_iff
  granted_iff x := by
    constructor
    · rintro ⟨m', hrun⟩
      exact (Access.run_eq_ok_iff.mp hrun).1
    · intro h
      obtain ⟨m', hrun, -, -⟩ := x.exists_run_eq h
      exact ⟨m', hrun⟩
  refused x e m' hrun := (Access.run_eq_error_iff.mp hrun).2
  rewritten x m' hrun := (Access.run_eq_ok_iff.mp hrun).2
  -- What is read from the new memory is told from its bytes, and these from the old ones.
  load_after x m' hrun b hb := by
    obtain ⟨-, hsize, hbyte⟩ := Access.run_eq_ok_iff.mp hrun
    rw [← hbyte]
    exact exists_load_eq (hsize ▸ hb)
  slice_after x m' hrun b len hb := by
    obtain ⟨-, hsize, hbyte⟩ := Access.run_eq_ok_iff.mp hrun
    rw [← hbyte]
    exact exists_slice_eq (hsize ▸ hb)
  load_store _ _ _ hstore := load_of_store_eq hstore
  store_load _ _ hload := store_of_load_eq hload

-- Two bytes of the word that is read have been written, the other two are older.
example : ((store 1 0x11223344).after (filled 8 0xFF)).load 3 = .ok 0xFFFF1122 := rfl

end Memory

end MarkSweep
