import Mathlib.Order.Interval.Set.Basic
import MarkSweep.Memory

/-!
# Reading and writing memory

What a read returns depends on the bytes of its range alone. `Memory.AgreeOn S m m'` says that two
memories of one size have the same bytes on a set of addresses, and every frame condition of the
library is stated with it:

* `agreeOn_overwrite`: a write changes no byte outside its range;
* `AgreeOn.load_eq`, `AgreeOn.extract_eq`: memories that agree on the range of a read answer alike;
* `load_overwrite_bytes`: a word is read back from where it was written.
-/

namespace MarkSweep

namespace Word

/-- The four bytes of a word give it back. -/
theorem ofBytes_bytes (w : UInt32) :
    ofBytes (.ofNat w.toNat) (.ofNat (w.toNat / 0x100)) (.ofNat (w.toNat / 0x10000))
      (.ofNat (w.toNat / 0x1000000)) = w := by
  have hlt := w.toNat_lt
  apply UInt32.toNat_inj.mp
  simp only [ofBytes, UInt8.toNat_ofNat', UInt32.toNat_ofNat']
  omega

/-- Four bytes never exceed a word. -/
theorem toNat_ofBytes (b₀ b₁ b₂ b₃ : UInt8) : (ofBytes b₀ b₁ b₂ b₃).toNat =
    b₀.toNat + 0x100 * b₁.toNat + 0x10000 * b₂.toNat + 0x1000000 * b₃.toNat := by
  have h₀ := b₀.toNat_lt
  have h₁ := b₁.toNat_lt
  have h₂ := b₂.toNat_lt
  have h₃ := b₃.toNat_lt
  rw [ofBytes, UInt32.toNat_ofNat']
  omega

/-- Different bytes make different words. -/
theorem ofBytes_inj {b₀ b₁ b₂ b₃ c₀ c₁ c₂ c₃ : UInt8} :
    ofBytes b₀ b₁ b₂ b₃ = ofBytes c₀ c₁ c₂ c₃ ↔ b₀ = c₀ ∧ b₁ = c₁ ∧ b₂ = c₂ ∧ b₃ = c₃ := by
  have h₀ := b₀.toNat_lt
  have h₁ := b₁.toNat_lt
  have h₂ := b₂.toNat_lt
  have h₀' := c₀.toNat_lt
  have h₁' := c₁.toNat_lt
  have h₂' := c₂.toNat_lt
  rw [← UInt32.toNat_inj, toNat_ofBytes, toNat_ofBytes]
  simp only [← UInt8.toNat_inj]
  omega

/-- A word is read byte by byte, and is there when all its bytes are. -/
theorem at?_eq_match (data : Array UInt8) (i : Nat) :
    at? data i = match data[i]?, data[i + 1]?, data[i + 2]?, data[i + 3]? with
      | some b₀, some b₁, some b₂, some b₃ => some (ofBytes b₀ b₁ b₂ b₃)
      | _, _, _, _ => none := by
  unfold at?
  split
  next h =>
    rw [Array.getElem?_eq_getElem (by omega), Array.getElem?_eq_getElem (by omega),
      Array.getElem?_eq_getElem (by omega), Array.getElem?_eq_getElem (by omega)]
  next h => rw [Array.getElem?_eq_none (by omega : data.size ≤ i + 3)]; split <;> simp_all

end Word

namespace Memory

/-- The memories have the same size, and the same bytes at the addresses of `S`. -/
structure AgreeOn (S : Set Addr) (m m' : Memory) : Prop where
  size_eq : m'.size = m.size
  getElem?_eq : ∀ i ∈ S, m'.bytes[i]? = m.bytes[i]?

namespace AgreeOn

variable {S T : Set Addr} {m m' m'' : Memory}

theorem refl (S : Set Addr) (m : Memory) : AgreeOn S m m := ⟨rfl, fun _ _ => rfl⟩

theorem trans (h : AgreeOn S m m') (h' : AgreeOn S m' m'') : AgreeOn S m m'' :=
  ⟨h'.size_eq.trans h.size_eq, fun i hi => (h'.getElem?_eq i hi).trans (h.getElem?_eq i hi)⟩

theorem mono (h : AgreeOn T m m') (hST : S ⊆ T) : AgreeOn S m m' :=
  ⟨h.size_eq, fun i hi => h.getElem?_eq i (hST hi)⟩

/-- A word is read alike from memories that agree on its four bytes. -/
theorem load_eq (h : AgreeOn S m m') {a : Addr} (ha : Set.Ico a (a + 4) ⊆ S) :
    m'.load a = m.load a := by
  have hb : ∀ k < 4, m'.bytes[a + k]? = m.bytes[a + k]? := fun k hk =>
    h.getElem?_eq _ (ha ⟨by lia, by lia⟩)
  -- Written without the `+ 0`, as the first byte of a word is.
  have h₀ : m'.bytes[a]? = m.bytes[a]? := hb 0 (by decide)
  unfold load
  rw [Word.at?_eq_match, Word.at?_eq_match, h₀, hb 1 (by decide), hb 2 (by decide),
    hb 3 (by decide)]

/-- The bytes of a range are the same in memories that agree on it. -/
theorem extract_eq (h : AgreeOn S m m') {a : Addr} {len : Nat}
    (ha : Set.Ico a (a + len) ⊆ S) :
    m'.bytes.extract a (a + len) = m.bytes.extract a (a + len) := by
  apply Array.ext_getElem?
  intro i
  have hs : m'.bytes.size = m.bytes.size := h.size_eq
  rw [Array.getElem?_extract, Array.getElem?_extract, hs]
  split
  · exact h.getElem?_eq _ (ha ⟨by lia, by lia⟩)
  · rfl

end AgreeOn

/-- A write changes no byte outside its range. -/
theorem agreeOn_overwrite (m : Memory) (a : Addr) (bs : List UInt8) :
    AgreeOn (Set.Ico a (a + bs.length))ᶜ m (m.overwrite a bs) := by
  refine ⟨size_overwrite m a bs, fun i hi => ?_⟩
  rw [getElem?_overwrite, if_neg]
  rintro ⟨h₁, h₂, -⟩
  exact hi ⟨h₁, h₂⟩

attribute [ext] Memory

/-- Memories that agree on a set of addresses and outside of it are the same. -/
theorem eq_of_agreeOn_compl {S : Set Addr} {m m' : Memory} (hin : AgreeOn S m m')
    (hout : AgreeOn Sᶜ m m') : m' = m := by
  ext1
  apply Array.ext_getElem?
  intro i
  by_cases hi : i ∈ S
  · exact hin.getElem?_eq i hi
  · exact hout.getElem?_eq i hi

/-- Writes to ranges that lie apart can be exchanged. -/
theorem overwrite_comm (m : Memory) {a b : Addr} {as bs : List UInt8}
    (hapart : a + as.length ≤ b ∨ b + bs.length ≤ a) :
    (m.overwrite a as).overwrite b bs = (m.overwrite b bs).overwrite a as := by
  ext1
  apply Array.ext_getElem?
  intro i
  simp only [getElem?_overwrite, size_overwrite]
  -- No byte lies in both ranges.
  by_cases ha : a ≤ i ∧ i < a + as.length ∧ i < m.size
  · have hb : ¬ (b ≤ i ∧ i < b + bs.length ∧ i < m.size) := by lia
    rw [if_neg hb, if_pos ha, if_pos ha]
  · rw [if_neg ha, if_neg ha]

/-- A word is read back from where it was written. -/
theorem load_overwrite_bytes {m : Memory} {a : Addr} (w : UInt32) (h : a + 4 ≤ m.size) :
    (m.overwrite a (Word.bytes w)).load a = .ok w := by
  have hb : ∀ k < 4, (m.overwrite a (Word.bytes w)).bytes[a + k]? = (Word.bytes w)[k]? := by
    intro k hk
    have hlen : (Word.bytes w).length = 4 := rfl
    rw [getElem?_overwrite, if_pos (by lia), Nat.add_sub_cancel_left]
  have h₀ : (m.overwrite a (Word.bytes w)).bytes[a]? = (Word.bytes w)[0]? := hb 0 (by decide)
  unfold load
  rw [Word.at?_eq_match, h₀, hb 1 (by decide), hb 2 (by decide), hb 3 (by decide)]
  simp only [Word.bytes, List.getElem?_cons_zero, List.getElem?_cons_succ, Word.ofBytes_bytes]

/-- A word is zero where the memory has been set to zero. -/
theorem load_overwrite_replicate {m : Memory} {a b : Addr} {len : Nat}
    (hsub : Set.Ico b (b + 4) ⊆ Set.Ico a (a + len)) (h : a + len ≤ m.size) :
    (m.overwrite a (List.replicate len 0)).load b = .ok 0 := by
  have hb : ∀ k < 4, (m.overwrite a (List.replicate len 0)).bytes[b + k]? = some 0 := by
    intro k hk
    have hmem : b + k ∈ Set.Ico a (a + len) := hsub ⟨by lia, by lia⟩
    obtain ⟨hle, hlt⟩ := hmem
    rw [getElem?_overwrite, List.length_replicate, if_pos ⟨hle, hlt, by lia⟩,
      List.getElem?_replicate, if_pos (by lia)]
  have h₀ : (m.overwrite a (List.replicate len 0)).bytes[b]? = some 0 := hb 0 (by decide)
  unfold load
  rw [Word.at?_eq_match, h₀, hb 1 (by decide), hb 2 (by decide), hb 3 (by decide)]
  rfl

/-- Setting bytes to zero makes no byte larger. -/
theorem getElem?_overwrite_replicate_le {m : Memory} (a : Addr) (len : Nat) {i : Nat} {b : UInt8}
    (hb : m.bytes[i]? = some b) : ∃ b',
      (m.overwrite a (List.replicate len 0)).bytes[i]? = some b' ∧ b'.toNat ≤ b.toNat := by
  rw [getElem?_overwrite, List.length_replicate]
  split
  next hmem =>
    refine ⟨0, ?_, Nat.zero_le _⟩
    rw [List.getElem?_replicate, if_pos (by lia)]
  next => exact ⟨b, hb, le_rfl⟩

/-- A word that can be read consists of four bytes of the memory. -/
theorem exists_bytes_of_load {m : Memory} {a : Addr} {w : UInt32} (hw : m.load a = .ok w) :
    ∃ b₀ b₁ b₂ b₃, m.bytes[a]? = some b₀ ∧ m.bytes[a + 1]? = some b₁ ∧
      m.bytes[a + 2]? = some b₂ ∧ m.bytes[a + 3]? = some b₃ ∧ Word.ofBytes b₀ b₁ b₂ b₃ = w := by
  unfold load Word.at? at hw
  by_cases hin : a + 4 ≤ m.bytes.size
  · rw [dif_pos hin] at hw
    refine ⟨_, _, _, _, Array.getElem?_eq_getElem (by lia), Array.getElem?_eq_getElem (by lia),
      Array.getElem?_eq_getElem (by lia), Array.getElem?_eq_getElem (by lia), ?_⟩
    exact Except.ok.inj hw
  · rw [dif_neg hin] at hw
    contradiction

/-- Where the same word is read, the same bytes stand. -/
theorem agreeOn_of_load_eq {m m' : Memory} {a : Addr} {w : UInt32} (hsize : m'.size = m.size)
    (hw : m.load a = .ok w) (hw' : m'.load a = .ok w) : AgreeOn (Set.Ico a (a + 4)) m m' := by
  obtain ⟨b₀, b₁, b₂, b₃, h₀, h₁, h₂, h₃, hb⟩ := exists_bytes_of_load hw
  obtain ⟨c₀, c₁, c₂, c₃, h₀', h₁', h₂', h₃', hc⟩ := exists_bytes_of_load hw'
  obtain ⟨rfl, rfl, rfl, rfl⟩ := Word.ofBytes_inj.mp (hc.trans hb.symm)
  refine ⟨hsize, ?_⟩
  rintro i ⟨hi, hi'⟩
  -- The first of the four addresses is no sum, so the bytes are not gone through by an offset.
  obtain rfl | rfl | rfl | rfl : i = a ∨ i = a + 1 ∨ i = a + 2 ∨ i = a + 3 := by lia
  · rw [h₀', h₀]
  · rw [h₁', h₁]
  · rw [h₂', h₂]
  · rw [h₃', h₃]

/-- Setting bytes to zero makes no word larger. -/
theorem load_overwrite_replicate_le {m : Memory} (a : Addr) (len : Nat) {b : Addr} {w : UInt32}
    (hw : m.load b = .ok w) : ∃ w',
      (m.overwrite a (List.replicate len 0)).load b = .ok w' ∧ w'.toNat ≤ w.toNat := by
  obtain ⟨b₀, b₁, b₂, b₃, h₀, h₁, h₂, h₃, rfl⟩ := exists_bytes_of_load hw
  obtain ⟨c₀, hc₀, hle₀⟩ := getElem?_overwrite_replicate_le a len h₀
  obtain ⟨c₁, hc₁, hle₁⟩ := getElem?_overwrite_replicate_le a len h₁
  obtain ⟨c₂, hc₂, hle₂⟩ := getElem?_overwrite_replicate_le a len h₂
  obtain ⟨c₃, hc₃, hle₃⟩ := getElem?_overwrite_replicate_le a len h₃
  refine ⟨Word.ofBytes c₀ c₁ c₂ c₃, ?_, ?_⟩
  · simp only [load, Word.at?_eq_match, hc₀, hc₁, hc₂, hc₃]
  · rw [Word.toNat_ofBytes, Word.toNat_ofBytes]
    omega

/-- A word that lies in the memory can be read. -/
theorem exists_load {m : Memory} {a : Addr} (h : a + 4 ≤ m.size) : ∃ w, m.load a = .ok w := by
  obtain ⟨w, hw⟩ := Option.isSome_iff_exists.mp ((Word.at?_isSome_iff m.bytes a).mpr h)
  exact ⟨w, by simp only [load, hw]⟩

/-- The bytes of a range set to zero are zero. -/
theorem extract_overwrite_replicate {m : Memory} {a : Addr} {len : Nat} (h : a + len ≤ m.size) :
    (m.overwrite a (List.replicate len 0)).bytes.extract a (a + len) = Array.replicate len 0 := by
  have hs : (m.overwrite a (List.replicate len 0)).bytes.size = m.size := size_overwrite ..
  apply Array.ext_getElem?
  intro i
  rw [Array.getElem?_extract, Array.getElem?_replicate, hs]
  -- Behind the range neither array has a byte.
  by_cases hi : i < len
  · rw [if_pos (by lia), if_pos hi, getElem?_overwrite, if_pos (by simp; lia),
      Nat.add_sub_cancel_left, List.getElem?_replicate, if_pos hi]
  · rw [if_neg (by lia), if_neg hi]

end Memory

end MarkSweep
