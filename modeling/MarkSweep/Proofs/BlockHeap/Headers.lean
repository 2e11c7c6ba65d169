import MarkSweep.BlockHeap
import MarkSweep.Proofs.Layout
import MarkSweep.Proofs.Memory

/-!
# Headers of a block heap

`BlockHeap.headerAt` is the header in the table, `BlockHeap.payloadAt` the bytes that it says belong
to the object, and `BlockHeap.putHeader` the heap with another header in the table. On a valid
layout these are what the operations of the heap read and write (`readHeader_eq`,
`writeHeader_eq`), and writing one header changes no other (`headerAt_putHeader_of_ne`).
-/

namespace MarkSweep.BlockHeap

attribute [ext] BlockHeap

/-- The header of the granule of `p`, as it stands in the table. -/
def headerAt (h : BlockHeap) (p : Addr) : Header := (h.readHeader p).toOption.getD .blank

/-- The bytes from `p` on, as many as the header of `p` says. -/
def payloadAt (h : BlockHeap) (p : Addr) : Payload :=
  h.memory.bytes.extract p (p + (h.headerAt p).size)

/-- The heap with another header of the granule of `p`. -/
def putHeader (p : Addr) (header : Header) (h : BlockHeap) : BlockHeap :=
  { h with memory := h.memory.overwrite (h.layout.headerAddr p) (Word.bytes header.toWord) }

@[simp]
theorem putHeader_layout (h : BlockHeap) (p : Addr) (hd : Header) :
    (h.putHeader p hd).layout = h.layout := by
  rw [putHeader]

@[simp]
theorem putHeader_map (h : BlockHeap) (p : Addr) (hd : Header) :
    (h.putHeader p hd).map = h.map := by
  rw [putHeader]

@[simp]
theorem putHeader_memory_size (h : BlockHeap) (p : Addr) (hd : Header) :
    (h.putHeader p hd).memory.size = h.memory.size := Memory.size_overwrite ..

/-- The operations that act on the memory alone keep layout and map. -/
theorem onMemory_apply {α : Type} (x : Action Memory α) (h : BlockHeap) :
    onMemory x h = match x h.memory with
      | .ok a m => .ok a { h with memory := m }
      | .error e m => .error e { h with memory := m } := by
  obtain ⟨layout, memory, map⟩ := h
  simp only [onMemory, Action.within]
  cases x memory <;> rfl

/-- A header is read alike from memories that agree on its word. -/
theorem headerAt_congr_word {h h' : BlockHeap} {p : Addr} (hlayout : h'.layout = h.layout)
    (hagree : h.memory.AgreeOn (h.layout.headerWord p) h'.memory) :
    h'.headerAt p = h.headerAt p := by
  rw [headerAt, readHeader, hlayout, hagree.load_eq subset_rfl]
  rfl

/-- Heaps whose memories agree on the table have the same headers. -/
theorem headerAt_congr {h : BlockHeap} (h' : BlockHeap) {p : Addr}
    (hl : h.layout.Valid h.memory.size) (hlayout : h'.layout = h.layout)
    (hagree : h.memory.AgreeOn h.layout.table h'.memory) (hp : h.layout.isBoundary p) :
    h'.headerAt p = h.headerAt p :=
  headerAt_congr_word hlayout (hagree.mono (hl.headerAddr_subset_table hp))

/-- An object of unchanged size has the same bytes when those of its range are the same. -/
theorem payloadAt_congr {h h' : BlockHeap} {p : Addr}
    (hsize : (h'.headerAt p).size = (h.headerAt p).size)
    (hagree : h.memory.AgreeOn (Set.Ico p (p + (h.headerAt p).size)) h'.memory) :
    h'.payloadAt p = h.payloadAt p := by
  rw [payloadAt, hsize, hagree.extract_eq subset_rfl, payloadAt]

section Access

variable {h : BlockHeap} {p q : Addr} {hd : Header} (hl : h.layout.Valid h.memory.size)

include hl

/-- The table holds the word of every header. -/
theorem exists_load_headerAt (hp : h.layout.isBoundary p) :
    ∃ w, h.memory.load (h.layout.headerAddr p) = .ok w ∧ h.headerAt p = .ofWord w := by
  obtain ⟨w, hw⟩ := Memory.exists_load (hl.headerAddr_add_le hp)
  refine ⟨w, hw, ?_⟩
  rw [headerAt, readHeader, hw]
  rfl

/-- The header of a granule can be read, for the table lies in the memory. -/
theorem readHeader_eq (hp : h.layout.isBoundary p) : h.readHeader p = .ok (h.headerAt p) := by
  obtain ⟨w, hw, hheader⟩ := exists_load_headerAt hl hp
  rw [readHeader, hw, hheader]
  rfl

/-- Where the same header stands, the same bytes stand. -/
theorem agreeOn_headerWord {h' : BlockHeap} (hlayout : h'.layout = h.layout)
    (hsize : h'.memory.size = h.memory.size) (hp : h.layout.isBoundary p)
    (hheader : h'.headerAt p = h.headerAt p) :
    h.memory.AgreeOn (h.layout.headerWord p) h'.memory := by
  have hl' : h'.layout.Valid h'.memory.size := by rwa [hlayout, hsize]
  obtain ⟨w, hw, heq⟩ := exists_load_headerAt hl hp
  obtain ⟨w', hw', heq'⟩ := exists_load_headerAt hl' (hlayout ▸ hp)
  -- Headers and words correspond one to one.
  have hword : w' = w := by
    rw [← Header.toWord_ofWord w', ← heq', hheader, heq, Header.toWord_ofWord]
  rw [hlayout, hword] at hw'
  exact Memory.agreeOn_of_load_eq hsize hw hw'

theorem writeHeader_eq (hd : Header) (hp : h.layout.isBoundary p) :
    writeHeader p hd h = .ok () (h.putHeader p hd) := by
  have hfits := hl.headerAddr_add_le hp
  simp only [writeHeader, Action.bind_apply, Action.get_apply, onMemory_apply, Memory.store,
    if_pos hfits, putHeader]

/-- A header that is put into the table is read from it. -/
theorem headerAt_putHeader_self (hp : h.layout.isBoundary p) :
    (h.putHeader p hd).headerAt p = hd := by
  have hload := Memory.load_overwrite_bytes hd.toWord (hl.headerAddr_add_le hp)
  have hread : (h.putHeader p hd).readHeader p = .ok hd := by
    rw [readHeader, putHeader, hload]
    exact congrArg Except.ok (Header.ofWord_toWord hd)
  rw [headerAt, hread]
  rfl

omit hl in
/-- Putting a header into the table leaves those of other granules. -/
theorem headerAt_putHeader_of_ne (hd : Header) (hp : h.layout.isBoundary p)
    (hq : h.layout.isBoundary q) (hqp : q ≠ p) :
    (h.putHeader p hd).headerAt q = h.headerAt q := by
  have hagree := h.memory.agreeOn_overwrite (h.layout.headerAddr p) (Word.bytes hd.toWord)
  have hapart := Layout.headerAddr_apart hp hq hqp.symm
  have hlength : (Word.bytes hd.toWord).length = 4 := rfl
  -- The word that is read lies apart from the word that was written.
  have hread : (h.putHeader p hd).readHeader q = h.readHeader q := by
    rw [readHeader, putHeader, readHeader, hagree.load_eq]
    intro i hi hi'
    simp only [Set.mem_Ico, hlength] at hi hi'
    lia
  rw [headerAt, hread, headerAt]

omit hl in
/-- Putting a header into the table changes no byte but those of its word. -/
theorem agreeOn_compl_headerWord_putHeader (h : BlockHeap) (p : Addr) (hd : Header) :
    h.memory.AgreeOn (h.layout.headerWord p)ᶜ (h.putHeader p hd).memory :=
  h.memory.agreeOn_overwrite (h.layout.headerAddr p) (Word.bytes hd.toWord)

/-- Putting a header into the table changes no byte elsewhere. -/
theorem agreeOn_putHeader (hd : Header) (hp : h.layout.isBoundary p) :
    h.memory.AgreeOn h.layout.tableᶜ (h.putHeader p hd).memory := by
  refine (h.agreeOn_compl_headerWord_putHeader p hd).mono ?_
  exact Set.compl_subset_compl.mpr (hl.headerAddr_subset_table hp)

end Access

-- From here on the lemmas above stand for the definition: unfolding it to compare two heaps makes
-- Lean compute the bytes that were written.
attribute [irreducible] putHeader

end MarkSweep.BlockHeap
