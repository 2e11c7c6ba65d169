import MarkSweep.Proofs.BlockHeap.Frames
import MarkSweep.Proofs.Trace.Layouts

/-!
# Fresh objects

Where a new object is placed, other objects may have been, and what they have left in the memory may
be anything, in the header table, too. Nothing of it can be seen in the new object
(`BlockHeap.Fresh`, `BlockHeap.Reachable.allocate_fresh`): its header is the one that was asked for,
its payload is zero, and what a tracer finds in a payload of zeros are null references only
(`Decodes.zeros`). A collection may begin before the first field has been written.
-/

namespace MarkSweep

/-- The payload is large enough for the words that a tracer looks for in a fresh object. -/
def Tag.SuitsFresh (tag : Tag) (size : Nat) : Prop :=
  tag ∈ [text, bigInt, blob] ∨ tag ∈ [object, list, dict] ∧ (size = 0 ∨ 4 ≤ size) ∨
    tag = cell ∧ 4 ≤ size ∨ tag = dictEntry ∧ 12 ≤ size

/-- All words of a payload of zeros are zero, also behind its end. -/
theorem Payload.value_zeros (size i : Nat) : Payload.value (Array.replicate size 0) i = 0 := by
  have hbyte : ∀ j, (Array.replicate size (0 : UInt8)).getD j 0 = 0 := fun j => by
    simp [Array.getD]
  simp only [value, hbyte]
  rfl

section SuitsFresh

variable {tag : Tag} {count size : Nat}

/-- An instance, a list or a dictionary may be empty, or else needs its first word. -/
theorem Tag.suitsFresh_headed (kind : tag ∈ [object, list, dict]) :
    tag.SuitsFresh size ↔ size = 0 ∨ 4 ≤ size := by
  obtain rfl | rfl | rfl : tag = object ∨ tag = list ∨ tag = dict := by simpa using kind
  · simp [SuitsFresh, object, list, dict, text, bigInt, blob, cell, dictEntry]
  · simp [SuitsFresh, object, list, dict, text, bigInt, blob, cell, dictEntry]
  · simp [SuitsFresh, object, list, dict, text, bigInt, blob, cell, dictEntry]

/-- A cell or a dictionary entry needs all of its words. -/
theorem Tag.suitsFresh_leading (kind : (tag, count) ∈ [(cell, 1), (dictEntry, 3)]) :
    tag.SuitsFresh size ↔ 4 * count ≤ size := by
  obtain ⟨rfl, rfl⟩ | ⟨rfl, rfl⟩ : tag = cell ∧ count = 1 ∨ tag = dictEntry ∧ count = 3 := by
    simpa using kind
  · simp [SuitsFresh, object, list, dict, text, bigInt, blob, cell, dictEntry]
  · simp [SuitsFresh, object, list, dict, text, bigInt, blob, cell, dictEntry]

end SuitsFresh

/-- In a payload of zeros all references are null. The visit comes to an end if the words are there
that the layout has in any case. -/
theorem Decodes.zeros {classes : List Registration} {tag : Tag} {size : Nat} {v : Visit}
    (h : Decodes classes (Array.replicate size 0) tag v) :
    (∀ child ∈ v.children, child = 0) ∧ (v.failure = none ↔ tag.SuitsFresh size) := by
  have hzeros : ∀ is : List Nat,
      ∀ child ∈ is.map (Payload.value (Array.replicate size 0)), child = 0 := by
    simp [Payload.value_zeros]
  cases h with
  | leaf kind => exact ⟨by simp, iff_of_true rfl (.inl kind)⟩
  | empty kind hsize =>
    rw [Array.size_replicate] at hsize
    exact ⟨by simp, iff_of_true rfl ((Tag.suitsFresh_headed kind).mpr (.inl hsize))⟩
  | headless kind hsize hmissing =>
    rw [Payload.HasWord, Array.size_replicate] at hmissing
    rw [Array.size_replicate] at hsize
    refine ⟨by simp, iff_of_false (Option.some_ne_none _) ?_⟩
    rw [Tag.suitsFresh_headed kind]
    omega
  | counted kind hfits =>
    rw [Payload.value_zeros, Array.size_replicate] at hfits
    refine ⟨hzeros _, iff_of_true rfl ((Tag.suitsFresh_headed ?_).mpr (.inr hfits))⟩
    exact List.mem_cons_of_mem _ kind
  | countedCutOff kind hhead hexceeds =>
    -- The count is zero, so the head is all there is to the payload.
    rw [Payload.value_zeros] at hexceeds
    exact absurd hhead (Nat.not_le.mpr hexceeds)
  | leading kind hfits =>
    rw [Array.size_replicate] at hfits
    exact ⟨hzeros _, iff_of_true rfl ((Tag.suitsFresh_leading kind).mpr hfits)⟩
  | leadingCutOff kind hexceeds =>
    rw [Array.size_replicate] at hexceeds
    refine ⟨hzeros _, iff_of_false (Option.some_ne_none _) ?_⟩
    rw [Tag.suitsFresh_leading kind]
    exact Nat.not_le.mpr hexceeds
  | noClass hhead hid =>
    rw [Payload.HasWord, Array.size_replicate] at hhead
    exact ⟨by simp, iff_of_true rfl ((Tag.suitsFresh_headed List.mem_cons_self).mpr (.inr hhead))⟩
  | unknownClass _ hid _ => exact absurd (Payload.value_zeros _ _) hid
  | fields _ hid _ _ => exact absurd (Payload.value_zeros _ _) hid
  | fieldsCutOff _ hid _ _ _ _ => exact absurd (Payload.value_zeros _ _) hid
  | untraced kind =>
    refine ⟨by simp, iff_of_false (Option.some_ne_none _) ?_⟩
    simp only [List.mem_cons, List.not_mem_nil, or_false, not_or] at kind
    simp [Tag.SuitsFresh, kind]

namespace BlockHeap

/-- Between `h` and `h'` an object has come to `p` that shows nothing of what was there before. -/
structure Fresh (tag : Tag) (size : Nat) (p : Addr) (h h' : BlockHeap) : Prop where
  not_owns : ¬ h.owns p
  block : ⟨p, h.layout.footprint size, true⟩ ∈ h'.map.blocks
  /-- It lies apart from all other blocks. -/
  apart : ∀ c ∈ h'.map.blocks, c.start ≠ p →
    p + h.layout.footprint size ≤ c.start ∨ c.stop ≤ p
  header : ∃ hd, h'.header p = .ok hd ∧ hd.alloc ∧ hd.mark = false ∧ hd.tag = tag ∧ hd.size = size
  payload : h'.payload p = .ok (Array.replicate size 0)
  /-- Whatever classes there are, a visit finds null references only. -/
  children : ∀ classes payload, h'.payload p = .ok payload →
    ∀ child ∈ ((TracerMap.standard (.register classes)).visit tag payload).children, child = 0
  failure : ∀ classes payload, h'.payload p = .ok payload →
    (((TracerMap.standard (.register classes)).visit tag payload).failure = none ↔
      tag.SuitsFresh size)

variable {h h' : BlockHeap} {s : History} {tag : Tag} {size : Nat} {p : Addr}

/-- The first fit with a header and a clear payload is a fresh object. -/
theorem fresh_withObject (hm : h.Mapped) (hsize : size ≤ Header.maxPayload)
    (hfit : h.map.firstFit? h.layout.stop (h.layout.footprint size) = some p) :
    Fresh tag size p h (h.withObject tag p size) := by
  have hm' := mapped_withObject hm hfit tag
  have hblocks := blocks_withObject hm hfit tag
  have hblock := hblocks.mem_iff.mpr List.mem_cons_self
  have howns : (h.withObject tag p size).owns p := owns_iff.mpr ⟨_, hblock, rfl⟩
  have hself := headerAt_withObject_self hm hfit tag
  have hpayload : (h.withObject tag p size).payload p = .ok (Array.replicate size 0) := by
    rw [hm'.payload_eq howns, payloadAt_withObject_self hm hfit tag hsize]
    rw [hself, size_fresh tag hsize, withObject, zeroed, Memory.size_overwrite]
    exact object_le_memory hm hfit tag
  -- The payload that is read is the one of zeros, and the layouts say what is found in it.
  have hvisit : ∀ classes payload, (h.withObject tag p size).payload p = .ok payload →
      Decodes classes (Array.replicate size 0) tag
        ((TracerMap.standard (.register classes)).visit tag payload) := by
    intro classes payload hread
    obtain rfl := Except.ok.inj (hpayload.symm.trans hread)
    exact TracerMap.decodes_visit_standard ..
  refine ⟨?_, hblock, ?_, ?_, hpayload, ?_, ?_⟩
  · intro hp
    obtain ⟨b, hb, hstart⟩ := owns_iff.mp hp
    exact hm.map.firstFit?_ne_start (hm.layout.footprint_pos size)
      (Layout.Valid.dvd_footprint size) hfit hb hstart
  · intro c hc hne
    rcases List.mem_cons.mp (hblocks.mem_iff.mp hc) with rfl | hc
    · exact absurd rfl hne
    · exact hm.map.firstFit?_apart (hm.layout.footprint_pos size)
        (Layout.Valid.dvd_footprint size) hfit hc
  · refine ⟨_, hm'.header_eq howns, ?_⟩
    rw [hself]
    exact ⟨rfl, rfl, rfl, size_fresh tag hsize⟩
  · exact fun classes payload hread => (hvisit classes payload hread).zeros.1
  · exact fun classes payload hread => (hvisit classes payload hread).zeros.2

/-- A new object is the same whatever has happened to the heap and its memory before, even if the
program has written into the header table. -/
theorem Reachable.allocate_fresh (hs : Reachable (fun _ _ => True) s)
    (hok : allocate tag size s.heap = .ok (some p) h') : Fresh tag size p s.heap h' := by
  rcases allocate_cases_of_mapped hs.mapped tag size with
    ⟨-, htoo⟩ | ⟨-, -, hfull⟩ | ⟨hsize, q, hfit, hsome⟩
  · rw [hok] at htoo
    contradiction
  · exact absurd (EStateM.Result.ok.inj (hok.symm.trans hfull)).1 (Option.some_ne_none p)
  · obtain ⟨hpq, rfl⟩ := EStateM.Result.ok.inj (hok.symm.trans hsome)
    obtain rfl := Option.some.inj hpq
    exact fresh_withObject hs.mapped hsize hfit

/-- A cell is placed where a list has been, whose elements are in the memory still. -/
theorem allocate_fresh_small :
    let s := History.small.serve
      [.allocate .list 12, .write 8 [2, 0, 0, 0, 8, 0, 0, 0, 24, 0, 0, 0], .free 8]
    s.heap.memory.bytes.extract 8 12 = #[2, 0, 0, 0] ∧
      (BlockHeap.allocate .cell 6).answer? s.heap = some (some 8) ∧
        Fresh .cell 6 8 s.heap ((BlockHeap.allocate .cell 6).after s.heap) := by
  intro s
  have hs : Reachable (fun _ _ => True) s := (reachable_small _).serve (by simp)
  have hanswer : (BlockHeap.allocate .cell 6).answer? s.heap = some (some 8) := by decide +kernel
  exact ⟨by decide +kernel, hanswer, hs.allocate_fresh (Action.eq_ok_of_answer? hanswer)⟩

end BlockHeap

end MarkSweep
