import Mathlib.Data.List.Sort
import MarkSweep.Proofs.Memory
import MarkSweep.Trace.TracerMap

/-!
# Layouts of payloads

What the built-in tracers find in a payload is laid down by `Decodes`, layout by layout, in terms of
the numbers that the words of the payload are (`Payload.value`) and of the classes as they have been
registered (`Registration`). Payloads may be of any size, whole words or not, and counts and class
ids may be any numbers, so every layout has a line for payloads that are cut off: what is complete
is found, and the first word that is not is named.

`TracerMap.visit_standard_iff` says that a visit finds exactly this. The lines leave no payload out
(`TracerMap.exists_decodes`), and no two of them differ on one.
-/

namespace MarkSweep

/-- The payload has all four bytes of word `i`. -/
def Payload.HasWord (payload : Payload) (i : Nat) : Prop := 4 * i + 4 ≤ payload.size

/-- The number that word `i` of a payload is, its least significant byte first. -/
def Payload.value (payload : Payload) (i : Nat) : Nat :=
  let byte j := (payload.getD (4 * i + j) 0).toNat
  byte 0 + 0x100 * byte 1 + 0x10000 * byte 2 + 0x1000000 * byte 3

/-- A class as a program describes it. -/
structure Registration where
  /-- The class id. -/
  id : Nat
  /-- Number of fields. -/
  fieldCount : Nat
  /-- The fields that hold references, in any order. A field may be named twice, or not exist. -/
  fields : List Nat

/-- The fields that hold references, by ascending index. -/
def Registration.references (r : Registration) : List Nat :=
  (List.range r.fieldCount).filter (· ∈ r.fields)

/-- The classes, registered one after the other. -/
def ClassMap.register (classes : List Registration) : ClassMap :=
  classes.foldl (fun t r => t.insert r.id (.ofFields r.fieldCount r.fields)) .empty

/-- The last class that has been registered with the id is `r`. -/
def Latest (classes : List Registration) (id : Nat) (r : Registration) : Prop :=
  ∃ before after, classes = before ++ r :: after ∧ r.id = id ∧ ∀ other ∈ after, other.id ≠ id

/-- What there is to be found in a payload, by the layout that its tag stands for. -/
inductive Decodes (classes : List Registration) (payload : Payload) : Tag → Visit → Prop where
  /-- Text, integers and raw bytes hold no references. -/
  | leaf {tag : Tag} (kind : tag ∈ [Tag.text, .bigInt, .blob]) :
      Decodes classes payload tag ⟨[], none⟩
  /-- Of an object that begins with a count or an id nothing may have been written yet. -/
  | empty {tag : Tag} (kind : tag ∈ [Tag.object, .list, .dict]) (size_eq : payload.size = 0) :
      Decodes classes payload tag ⟨[], none⟩
  | headless {tag : Tag} (kind : tag ∈ [Tag.object, .list, .dict]) (ne_zero : payload.size ≠ 0)
      (missing : ¬ payload.HasWord 0) :
      Decodes classes payload tag ⟨[], some (.truncated 0 payload.size)⟩
  /-- Lists and dictionaries: a count, then as many references. -/
  | counted {tag : Tag} (kind : tag ∈ [Tag.list, .dict])
      (fits : 4 * (payload.value 0 + 1) ≤ payload.size) :
      Decodes classes payload tag ⟨(List.range' 1 (payload.value 0)).map payload.value, none⟩
  | countedCutOff {tag : Tag} (kind : tag ∈ [Tag.list, .dict]) (head : payload.HasWord 0)
      (exceeds : payload.size < 4 * (payload.value 0 + 1)) :
      Decodes classes payload tag ⟨(List.range' 1 (payload.size / 4 - 1)).map payload.value,
        some (.truncated (payload.size / 4) payload.size)⟩
  /-- Cells and dictionary entries: one reference, and three. -/
  | leading {tag : Tag} {count : Nat} (kind : (tag, count) ∈ [(Tag.cell, 1), (.dictEntry, 3)])
      (fits : 4 * count ≤ payload.size) :
      Decodes classes payload tag ⟨(List.range count).map payload.value, none⟩
  | leadingCutOff {tag : Tag} {count : Nat}
      (kind : (tag, count) ∈ [(Tag.cell, 1), (.dictEntry, 3)])
      (exceeds : payload.size < 4 * count) :
      Decodes classes payload tag ⟨(List.range (payload.size / 4)).map payload.value,
        some (.truncated (payload.size / 4) payload.size)⟩
  /-- Instances: a class id, then the fields. As long as the id is zero there is nothing to find. -/
  | noClass (head : payload.HasWord 0) (id_eq : payload.value 0 = 0) :
      Decodes classes payload .object ⟨[], none⟩
  | unknownClass (head : payload.HasWord 0) (ne_zero : payload.value 0 ≠ 0)
      (unknown : ∀ r ∈ classes, r.id ≠ payload.value 0) :
      Decodes classes payload .object ⟨[], some (.unknownClass (payload.value 0))⟩
  | fields {r : Registration} (head : payload.HasWord 0) (ne_zero : payload.value 0 ≠ 0)
      (latest : Latest classes (payload.value 0) r)
      (fits : ∀ f ∈ r.references, payload.HasWord (f + 1)) :
      Decodes classes payload .object ⟨r.references.map fun f => payload.value (f + 1), none⟩
  | fieldsCutOff {r : Registration} {f : Nat} {before after : List Nat}
      (head : payload.HasWord 0) (ne_zero : payload.value 0 ≠ 0)
      (latest : Latest classes (payload.value 0) r)
      (split : r.references = before ++ f :: after)
      (fits : ∀ g ∈ before, payload.HasWord (g + 1)) (missing : ¬ payload.HasWord (f + 1)) :
      Decodes classes payload .object ⟨before.map fun f => payload.value (f + 1),
        some (.truncated (f + 1) payload.size)⟩
  /-- Nothing is known of the payloads of all other tags. -/
  | untraced {tag : Tag} (kind : tag ∉ [Tag.object, .list, .text, .dict, .bigInt, .cell, .dictEntry,
      .blob]) : Decodes classes payload tag ⟨[], some .untraced⟩

variable {classes : List Registration} {payload : Payload} {tag : Tag} {v : Visit} {i count : Nat}

/-! ### Words -/

/-- A word that the payload has can be read. -/
theorem Payload.exists_word (hi : payload.HasWord i) :
    ∃ w, payload.word i = .ok w ∧ w.toNat = payload.value i := by
  have hle : 4 * i + 4 ≤ payload.size := hi
  rw [word, Word.at?, dif_pos hle]
  refine ⟨_, rfl, ?_⟩
  rw [Word.toNat_ofBytes, value]
  simp [Array.getD, show 4 * i < payload.size by omega, show 4 * i + 1 < payload.size by omega,
    show 4 * i + 2 < payload.size by omega, show 4 * i + 3 < payload.size by omega]

/-- A word that stands for a number other than zero is not the zero word. -/
theorem Payload.exists_word_ne_zero (hi : payload.HasWord i) (hvalue : payload.value i ≠ 0) :
    ∃ w, w ≠ 0 ∧ payload.word i = .ok w ∧ w.toNat = payload.value i := by
  obtain ⟨w, hw, heq⟩ := exists_word hi
  refine ⟨w, ?_, hw, heq⟩
  rintro rfl
  exact hvalue heq.symm

/-- A word that is cut off by the end of the payload cannot be read. -/
theorem Payload.word_of_not_hasWord (hi : ¬ payload.HasWord i) :
    payload.word i = .error (.truncated i payload.size) := by
  have hnle : ¬ 4 * i + 4 ≤ payload.size := hi
  rw [word, Word.at?, dif_neg hnle]

namespace Visit

/-- Words that are there are found, and those behind them are looked for. -/
theorem words_append {is : List Nat} (js : List Nat) (his : ∀ i ∈ is, payload.HasWord i) :
    words payload (is ++ js) =
      ⟨is.map payload.value ++ (words payload js).children, (words payload js).failure⟩ := by
  induction is with
  | nil => rfl
  | cons i is ih =>
    rw [List.forall_mem_cons] at his
    obtain ⟨w, hw, hvalue⟩ := Payload.exists_word his.1
    simp only [List.cons_append, words, hw, ih his.2, cons, hvalue, List.map_cons]

/-- Words that are all there are found one after the other. -/
theorem words_eq {is : List Nat} (his : ∀ i ∈ is, payload.HasWord i) :
    words payload is = ⟨is.map payload.value, none⟩ := by
  have h := words_append [] his
  rwa [List.append_nil, words, nothing, List.append_nil] at h

/-- The first word that is not there ends the visit. -/
theorem words_cutOff {is js : List Nat} (his : ∀ i ∈ is, payload.HasWord i)
    (hi : ¬ payload.HasWord i) : words payload (is ++ i :: js) =
      ⟨is.map payload.value, some (.truncated i payload.size)⟩ := by
  rw [words_append _ his]
  simp only [words, Payload.word_of_not_hasWord hi, fail, List.append_nil]

/-- A run of words that ends with the payload or before is found as a whole. -/
theorem run_eq (hfits : 4 * (i + count) ≤ payload.size) :
    run payload i count = ⟨(List.range' i count).map payload.value, none⟩ := by
  rw [run_eq_words]
  refine words_eq fun j hj => ?_
  rw [List.mem_range'_1] at hj
  rw [Payload.HasWord]
  omega

/-- A run that goes beyond the payload finds the words up to its end. -/
theorem run_cutOff (hi : 4 * i ≤ payload.size) (hexceeds : payload.size < 4 * (i + count)) :
    run payload i count = ⟨(List.range' i (payload.size / 4 - i)).map payload.value,
      some (.truncated (payload.size / 4) payload.size)⟩ := by
  -- The run up to the end of the payload, the word that is not complete, and the rest.
  obtain ⟨n, hn⟩ : ∃ n, payload.size / 4 = i + n := ⟨payload.size / 4 - i, by omega⟩
  obtain ⟨k, rfl⟩ : ∃ k, count = n + (k + 1) := ⟨count - n - 1, by omega⟩
  have hsplit : List.range' i (n + (k + 1)) =
      List.range' i n ++ (i + n) :: List.range' (i + n + 1) k := by
    rw [← List.range'_append_1, List.range'_succ]
  rw [run_eq_words, hn, Nat.add_sub_cancel_left, hsplit]
  refine words_cutOff (fun j hj => ?_) ?_
  · rw [List.mem_range'_1] at hj
    rw [Payload.HasWord]
    omega
  · rw [Payload.HasWord]
    omega

end Visit

/-! ### Classes -/

/-- The shape of a class lists its reference fields in order, each once and none out of range. -/
theorem ClassShape.references_ofFields (r : Registration) :
    (ClassShape.ofFields r.fieldCount r.fields).references = r.references := by
  have hmem : ∀ (ns : List Nat) (i : Nat), i ∈ ns.foldr insertAscending [] ↔ i ∈ ns := by
    intro ns i
    induction ns with
    | nil => simp
    | cons n ns ih => rw [List.foldr_cons, mem_insertAscending, ih, List.mem_cons]
  refine (ClassShape.ascending _).eq_of_mem_iff ?_ fun i => ?_
  · exact List.pairwise_lt_range.filter _
  · rw [ofFields, hmem, Registration.references]
    simp [and_comm]

namespace ClassMap

variable {t : ClassMap} {id : Nat}

theorem find?_insert_self (hid : id ≠ 0) (shape : ClassShape) :
    (t.insert id shape).find? id = some shape := by
  rw [insert, if_neg hid, find?, List.lookup_cons_self]

theorem find?_insert_of_ne {other : Nat} (hne : other ≠ id) (shape : ClassShape) :
    (t.insert other shape).find? id = t.find? id := by
  rw [insert]
  split_ifs
  · rfl
  · rw [find?, List.lookup_cons, beq_false_of_ne hne.symm, find?]

/-- Registering other classes does not change what is known under an id. -/
theorem find?_foldl_insert (h : ∀ r ∈ classes, r.id ≠ id) :
    (classes.foldl (fun t r => t.insert r.id (.ofFields r.fieldCount r.fields)) t).find? id =
      t.find? id := by
  induction classes generalizing t with
  | nil => rfl
  | cons r rest ih =>
    rw [List.forall_mem_cons] at h
    rw [List.foldl_cons, ih h.2, find?_insert_of_ne h.1]

/-- Under an id the class is found that has been registered last. -/
theorem find?_register_of_latest {r : Registration} (hid : id ≠ 0) (hr : Latest classes id r) :
    (register classes).find? id = some (.ofFields r.fieldCount r.fields) := by
  obtain ⟨before, after, rfl, rfl, hafter⟩ := hr
  rw [register, List.foldl_append, List.foldl_cons, find?_foldl_insert hafter,
    find?_insert_self hid]

/-- Under an id that has not been registered no class is found. -/
theorem find?_register_of_unknown (h : ∀ r ∈ classes, r.id ≠ id) :
    (register classes).find? id = none :=
  find?_foldl_insert h

/-- An id is unknown, or there is a class that has been registered under it last. -/
theorem exists_latest_or (classes : List Registration) (id : Nat) :
    (∃ r, Latest classes id r) ∨ ∀ r ∈ classes, r.id ≠ id := by
  induction classes with
  | nil => exact .inr (by simp)
  | cons r rest ih =>
    rcases ih with ⟨r', before, after, rfl, hid, hafter⟩ | hnone
    · exact .inl ⟨r', r :: before, after, rfl, hid, hafter⟩
    · by_cases hid : r.id = id
      · exact .inl ⟨r, [], rest, rfl, hid, hnone⟩
      · exact .inr (List.forall_mem_cons.mpr ⟨hid, hnone⟩)

end ClassMap

/-! ### Layouts -/

theorem Payload.HasWord.isEmpty_eq (h : payload.HasWord i) : payload.isEmpty = false := by
  rw [Payload.HasWord] at h
  rw [Array.isEmpty, decide_eq_false_iff_not]
  omega

namespace Tracer

/-- A counted payload with its first word has as many references as this says. -/
theorem counted_of_hasWord (h : payload.HasWord 0) :
    counted payload = .run payload 1 (payload.value 0) := by
  obtain ⟨w, hw, hvalue⟩ := Payload.exists_word h
  simp only [counted, h.isEmpty_eq, Bool.false_eq_true, if_false, hw, hvalue]

/-- An instance whose class has not been written yet has no references. -/
theorem instances_of_value_eq_zero (t : ClassMap) (h : payload.HasWord 0)
    (hid : payload.value 0 = 0) : instances t payload = ⟨[], none⟩ := by
  obtain ⟨w, hw, hvalue⟩ := Payload.exists_word h
  obtain rfl : w = 0 := UInt32.toNat_inj.mp (hvalue.trans hid)
  simp only [instances, h.isEmpty_eq, Bool.false_eq_true, if_false, hw, if_true, Visit.nothing]

/-- An instance of a known class has its references where the class says. -/
theorem instances_of_find?_eq_some {t : ClassMap} {shape : ClassShape} (h : payload.HasWord 0)
    (hid : payload.value 0 ≠ 0) (hshape : t.find? (payload.value 0) = some shape) :
    instances t payload = .words payload (shape.references.map (· + 1)) := by
  obtain ⟨w, hne, hw, hvalue⟩ := Payload.exists_word_ne_zero h hid
  simp only [instances, h.isEmpty_eq, Bool.false_eq_true, if_false, hw, hvalue, if_neg hne, hshape]

/-- An instance of an unknown class cannot be traced. -/
theorem instances_of_find?_eq_none {t : ClassMap} (h : payload.HasWord 0)
    (hid : payload.value 0 ≠ 0) (hnone : t.find? (payload.value 0) = none) :
    instances t payload = ⟨[], some (.unknownClass (payload.value 0))⟩ := by
  obtain ⟨w, hne, hw, hvalue⟩ := Payload.exists_word_ne_zero h hid
  simp only [instances, h.isEmpty_eq, Bool.false_eq_true, if_false, hw, hvalue, if_neg hne, hnone,
    Visit.fail]

end Tracer

namespace TracerMap

variable {t : ClassMap}

/-- Before the first word there is nothing that a count or an id could say. -/
theorem visit_standard_of_size_eq_zero (kind : tag ∈ [Tag.object, .list, .dict])
    (h : payload.size = 0) : (standard t).visit tag payload = ⟨[], none⟩ := by
  have hempty : payload.isEmpty := by simp [Array.isEmpty, h]
  obtain rfl | rfl | rfl : tag = .object ∨ tag = .list ∨ tag = .dict := by simpa using kind
  · exact if_pos hempty
  · exact if_pos hempty
  · exact if_pos hempty

/-- An instance, a list or a dictionary that is not empty but has no first word is cut off. -/
theorem visit_standard_of_not_hasWord (kind : tag ∈ [Tag.object, .list, .dict])
    (hsize : payload.size ≠ 0) (h : ¬ payload.HasWord 0) :
    (standard t).visit tag payload = ⟨[], some (.truncated 0 payload.size)⟩ := by
  have hempty : ¬ payload.isEmpty := by simp [Array.isEmpty, hsize]
  have hword := Payload.word_of_not_hasWord h
  have hcounted : Tracer.counted payload = ⟨[], some (.truncated 0 payload.size)⟩ := by
    simp only [Tracer.counted, if_neg hempty, hword, Visit.fail]
  obtain rfl | rfl | rfl : tag = .object ∨ tag = .list ∨ tag = .dict := by simpa using kind
  · show Tracer.instances t payload = _
    simp only [Tracer.instances, if_neg hempty, hword, Visit.fail]
  · exact hcounted
  · exact hcounted

/-- Lists and dictionaries are traced as counted payloads. -/
theorem visit_standard_counted (kind : tag ∈ [Tag.list, .dict]) :
    (standard t).visit tag payload = Tracer.counted payload := by
  obtain rfl | rfl : tag = .list ∨ tag = .dict := by simpa using kind
  · rfl
  · rfl

/-- Cells and dictionary entries are traced by their first words. -/
theorem visit_standard_leading (kind : (tag, count) ∈ [(Tag.cell, 1), (.dictEntry, 3)]) :
    (standard t).visit tag payload = Tracer.leading count payload := by
  obtain ⟨rfl, rfl⟩ | ⟨rfl, rfl⟩ : tag = .cell ∧ count = 1 ∨ tag = .dictEntry ∧ count = 3 := by
    simpa using kind
  · rfl
  · rfl

/-- What is laid down is what a visit finds. -/
theorem visit_standard_of_decodes (h : Decodes classes payload tag v) :
    (standard (.register classes)).visit tag payload = v := by
  -- One line of the layouts at a time; a count says how far the run of words has to reach.
  cases h with
  | leaf kind =>
    obtain rfl | rfl | rfl : tag = .text ∨ tag = .bigInt ∨ tag = .blob := by simpa using kind
    · rfl
    · rfl
    · rfl
  | empty kind hsize => exact visit_standard_of_size_eq_zero kind hsize
  | headless kind hsize hmissing => exact visit_standard_of_not_hasWord kind hsize hmissing
  | counted kind hfits =>
    have hhead : payload.HasWord 0 := by
      rw [Payload.HasWord]
      omega
    rw [visit_standard_counted kind, Tracer.counted_of_hasWord hhead, Visit.run_eq]
    omega
  | countedCutOff kind hhead hexceeds =>
    have hle : 4 ≤ payload.size := hhead
    rw [visit_standard_counted kind, Tracer.counted_of_hasWord hhead, Visit.run_cutOff]
    · omega
    · omega
  | leading kind hfits =>
    rw [visit_standard_leading kind, Tracer.leading, Visit.run_eq, List.range_eq_range']
    omega
  | leadingCutOff kind hexceeds =>
    rw [visit_standard_leading kind, Tracer.leading, Visit.run_cutOff, List.range_eq_range',
      Nat.sub_zero]
    · omega
    · omega
  | noClass hhead hid => exact Tracer.instances_of_value_eq_zero _ hhead hid
  | unknownClass hhead hid hunknown =>
    exact Tracer.instances_of_find?_eq_none hhead hid (ClassMap.find?_register_of_unknown hunknown)
  | @fields r hhead hid hlatest hfits =>
    have hshape := ClassMap.find?_register_of_latest hid hlatest
    refine (Tracer.instances_of_find?_eq_some hhead hid hshape).trans ?_
    rw [ClassShape.references_ofFields, Visit.words_eq, List.map_map]
    · rfl
    · simpa using hfits
  | @fieldsCutOff r f before after hhead hid hlatest hsplit hfits hmissing =>
    have hshape := ClassMap.find?_register_of_latest hid hlatest
    refine (Tracer.instances_of_find?_eq_some hhead hid hshape).trans ?_
    rw [ClassShape.references_ofFields, hsplit, List.map_append, List.map_cons, Visit.words_cutOff,
      List.map_map]
    · rfl
    · simpa using hfits
    · exact hmissing
  | untraced kind =>
    simp only [List.mem_cons, List.not_mem_nil, or_false, not_or] at kind
    simp only [visit, standard, insert, empty, kind, if_false, Visit.fail]

/-- Without its first word, a payload is decoded as empty or as cut off. -/
theorem exists_decodes_of_not_hasWord (kind : tag ∈ [Tag.object, .list, .dict])
    (hhead : ¬ payload.HasWord 0) : ∃ v, Decodes classes payload tag v := by
  by_cases hsize : payload.size = 0
  · exact ⟨_, .empty kind hsize⟩
  · exact ⟨_, .headless kind hsize hhead⟩

/-- Whatever its count says, a list or a dictionary is decoded. -/
theorem exists_decodes_counted (kind : tag ∈ [Tag.list, .dict]) :
    ∃ v, Decodes classes payload tag v := by
  by_cases hhead : payload.HasWord 0
  · rcases Nat.lt_or_ge payload.size (4 * (payload.value 0 + 1)) with hexceeds | hfits
    · exact ⟨_, .countedCutOff kind hhead hexceeds⟩
    · exact ⟨_, .counted kind hfits⟩
  · exact exists_decodes_of_not_hasWord (List.mem_cons_of_mem _ kind) hhead

/-- Long enough or not, a cell or a dictionary entry is decoded. -/
theorem exists_decodes_leading (kind : (tag, count) ∈ [(Tag.cell, 1), (.dictEntry, 3)]) :
    ∃ v, Decodes classes payload tag v := by
  rcases Nat.lt_or_ge payload.size (4 * count) with hexceeds | hfits
  · exact ⟨_, .leadingCutOff kind hexceeds⟩
  · exact ⟨_, .leading kind hfits⟩

/-- Whatever its class, an instance is decoded. -/
theorem exists_decodes_object : ∃ v, Decodes classes payload .object v := by
  by_cases hhead : payload.HasWord 0
  · by_cases hid : payload.value 0 = 0
    · exact ⟨_, .noClass hhead hid⟩
    rcases ClassMap.exists_latest_or classes (payload.value 0) with ⟨r, hlatest⟩ | hunknown
    · -- All references are there, or there is a first one that is not.
      cases hfind : r.references.find? fun f => payload.size < 4 * (f + 1) + 4 with
      | none =>
        refine ⟨_, .fields hhead hid hlatest fun f hf => ?_⟩
        exact Nat.not_lt.mp (by simpa using List.find?_eq_none.mp hfind f hf)
      | some f =>
        obtain ⟨hmissing, before, after, hsplit, hbefore⟩ :=
          List.find?_eq_some_iff_append.mp hfind
        refine ⟨_, .fieldsCutOff hhead hid hlatest hsplit (fun g hg => ?_) ?_⟩
        · exact Nat.not_lt.mp (by simpa using hbefore g hg)
        · exact Nat.not_le.mpr (of_decide_eq_true hmissing)
    · exact ⟨_, .unknownClass hhead hid hunknown⟩
  · exact exists_decodes_of_not_hasWord List.mem_cons_self hhead

/-- The layouts leave no payload out. -/
theorem exists_decodes (classes : List Registration) (tag : Tag) (payload : Payload) :
    ∃ v, Decodes classes payload tag v := by
  by_cases hobject : tag = .object
  · exact hobject ▸ exists_decodes_object
  by_cases hcounted : tag ∈ [Tag.list, .dict]
  · exact exists_decodes_counted hcounted
  by_cases hleaf : tag ∈ [Tag.text, .bigInt, .blob]
  · exact ⟨_, .leaf hleaf⟩
  by_cases hcell : tag = .cell
  · have hkind : (tag, 1) ∈ [(Tag.cell, 1), (.dictEntry, 3)] := by simp [hcell]
    exact exists_decodes_leading hkind
  by_cases hentry : tag = .dictEntry
  · have hkind : (tag, 3) ∈ [(Tag.cell, 1), (.dictEntry, 3)] := by simp [hentry]
    exact exists_decodes_leading hkind
  · refine ⟨_, .untraced ?_⟩
    simp only [List.mem_cons, List.not_mem_nil, or_false, not_or] at hcounted hleaf ⊢
    exact ⟨hobject, hcounted.1, hleaf.1, hcounted.2, hleaf.2.1, hcell, hentry, hleaf.2.2⟩

/-- What the built-in tracers find is what the layouts say. -/
theorem decodes_visit_standard (classes : List Registration) (tag : Tag) (payload : Payload) :
    Decodes classes payload tag ((standard (.register classes)).visit tag payload) := by
  obtain ⟨v, hv⟩ := exists_decodes classes tag payload
  rwa [visit_standard_of_decodes hv]

/-- The built-in tracers find what is laid down for the tag and the payload, and report what is
missing. -/
theorem visit_standard_iff : (standard (.register classes)).visit tag payload = v ↔
    Decodes classes payload tag v := by
  refine ⟨?_, visit_standard_of_decodes⟩
  rintro rfl
  exact decodes_visit_standard classes tag payload

-- A class is registered anew, with a field named twice and one that it does not have. The payload
-- ends in the middle of the last field.
example : (standard (.register [⟨5, 1, [0]⟩, ⟨5, 3, [2, 0, 7, 2]⟩])).visit .object
    #[5, 0, 0, 0, 8, 0, 0, 0, 1, 0, 0, 0, 16, 0] = ⟨[8], some (.truncated 3 14)⟩ := rfl

end TracerMap

end MarkSweep
