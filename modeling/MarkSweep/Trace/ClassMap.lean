/-!
# Classes

A class instance starts with the id of its class, one word; its fields follow, one word each. A
`ClassShape` says which of the fields hold references, and a `ClassMap` keeps the shapes by class
id.
-/

namespace MarkSweep

/-- Inserts a number into an ascending list that keeps each number once. -/
def insertAscending (n : Nat) : List Nat → List Nat
  | [] => [n]
  | m :: ms =>
    if n < m then n :: m :: ms
    else if n = m then m :: ms
    else m :: insertAscending n ms

/-- Inserting adds the number and loses none. -/
@[simp]
theorem mem_insertAscending {i n : Nat} {ms : List Nat} :
    i ∈ insertAscending n ms ↔ i = n ∨ i ∈ ms := by
  fun_induction insertAscending n ms with
  | case1 => simp
  | case2 => simp
  | case3 => simp
  | case4 m ms _ _ ih => simp only [List.mem_cons, ih, or_left_comm]

/-- Inserting keeps the list ascending. -/
theorem pairwise_insertAscending {n : Nat} {ms : List Nat} (h : ms.Pairwise (· < ·)) :
    (insertAscending n ms).Pairwise (· < ·) := by
  fun_induction insertAscending n ms with
  | case1 => simp
  | case2 m ms hlt =>
    refine List.pairwise_cons.mpr ⟨fun k hk => ?_, h⟩
    rcases List.mem_cons.mp hk with rfl | hk
    · exact hlt
    · exact Nat.lt_trans hlt (List.rel_of_pairwise_cons h hk)
  | case3 => exact h
  | case4 m ms hlt hne ih =>
    refine List.pairwise_cons.mpr ⟨fun k hk => ?_, ih h.of_cons⟩
    rcases mem_insertAscending.mp hk with rfl | hk
    · omega
    · exact List.rel_of_pairwise_cons h hk

/-- Which fields of a class hold references. -/
structure ClassShape where
  /-- Number of fields. -/
  fieldCount : Nat
  /-- The fields that hold references, by index. -/
  references : List Nat
  /-- They are listed in order, each once. -/
  ascending : references.Pairwise (· < ·)
  /-- They are fields of the class. -/
  lt_fieldCount : ∀ i ∈ references, i < fieldCount

namespace ClassShape

/-- The shape of a class with the given number of fields, of which the listed ones hold
references. The list may be in any order, name a field twice, and name fields that do not exist. -/
def ofFields (fieldCount : Nat) (fields : List Nat) : ClassShape where
  fieldCount := fieldCount
  references := (fields.filter (· < fieldCount)).foldr insertAscending []
  ascending := by
    induction fields.filter (· < fieldCount) with
    | nil => exact .nil
    | cons _ _ ih => exact pairwise_insertAscending ih
  lt_fieldCount := by
    have h : ∀ i ∈ fields.filter (· < fieldCount), i < fieldCount := by simp
    revert h
    induction fields.filter (· < fieldCount) with
    | nil => simp
    | cons n ns ih =>
      intro h i hi
      rcases mem_insertAscending.mp hi with rfl | hi
      · exact h _ List.mem_cons_self
      · exact ih (fun j hj => h j (List.mem_cons_of_mem _ hj)) i hi

/-- Bytes of an instance: its class id and its fields. -/
def instanceSize (c : ClassShape) : Nat := (1 + c.fieldCount) * 4

end ClassShape

/-- The known classes. -/
structure ClassMap where
  /-- Ids and shapes, the latest first. -/
  entries : List (Nat × ClassShape)

namespace ClassMap

/-- No classes. -/
def empty : ClassMap := ⟨[]⟩

/-- Adds a class, in place of an earlier one with the id. The id `0` marks an instance whose class
has not been written yet, and never gets a shape. -/
def insert (t : ClassMap) (id : Nat) (shape : ClassShape) : ClassMap :=
  if id = 0 then t else ⟨(id, shape) :: t.entries⟩

/-- The shape of the class with an id. -/
def find? (t : ClassMap) (id : Nat) : Option ClassShape := t.entries.lookup id

end ClassMap

end MarkSweep
