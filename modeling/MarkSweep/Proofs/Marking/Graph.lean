import MarkSweep.Marking
import MarkSweep.Proofs.BlockHeap.Valid

/-!
# The object graph

The objects of a heap and the references in their payloads form a graph. `Reach` is what can be
reached in it from the roots, `BlockHeap.visitAt` the visit to an object, `BlockHeap.markAll` the
heap in which a list of objects has been marked.

Marking objects changes nothing but their marks: the graph stays (`visitAt_markAll`), and so does
the memory outside the header table (`agreeOn_markAll`).
-/

namespace MarkSweep

/-- What can be reached from the roots, through references of what has been reached before. Only
admitted addresses count. -/
inductive Reach (admits : Addr → Prop) (children : Addr → List Addr) (roots : List Addr) :
    Addr → Prop where
  | root {p : Addr} (mem : p ∈ roots) (admitted : admits p) : Reach admits children roots p
  | child {p q : Addr} (parent : Reach admits children roots p) (mem : q ∈ children p)
      (admitted : admits q) : Reach admits children roots q

namespace Reach

variable {admits : Addr → Prop} {children : Addr → List Addr} {roots : List Addr} {p : Addr}

/-- What is reached is admitted, also the last object on the way. -/
theorem admitted (h : Reach admits children roots p) : admits p := by
  cases h with
  | root _ hp => exact hp
  | child _ _ hp => exact hp

/-- A set that contains the admitted roots and with each member its admitted children contains all
that can be reached. -/
theorem mem_of_closed {S : Set Addr} (hroots : ∀ p ∈ roots, admits p → p ∈ S)
    (hchildren : ∀ p ∈ S, ∀ q ∈ children p, admits q → q ∈ S)
    (h : Reach admits children roots p) : p ∈ S := by
  induction h with
  | root hp hadmits => exact hroots _ hp hadmits
  | child _ hq hadmits ih => exact hchildren _ ih _ hq hadmits

/-- What is admitted may be widened where it matters: at the roots, and at the children of what is
known to be reached. -/
theorem mono {admits' : Addr → Prop} (hroots : ∀ p ∈ roots, admits p → admits' p)
    (hchildren : ∀ p, Reach admits' children roots p → ∀ q ∈ children p, admits q → admits' q)
    (h : Reach admits children roots p) : Reach admits' children roots p := by
  induction h with
  | root hp hadmits => exact .root hp (hroots _ hp hadmits)
  | child _ hq hadmits ih => exact .child ih hq (hchildren _ ih _ hq hadmits)

end Reach

namespace BlockHeap

/-- The visit to the object at `p`. -/
def visitAt (h : BlockHeap) (tracers : TracerMap) (p : Addr) : Visit :=
  tracers.visit (h.headerAt p).tag (h.payloadAt p)

/-- The heap with the marks of all listed objects set. -/
def markAll (ps : List Addr) (h : BlockHeap) : BlockHeap :=
  ps.foldr (fun p h => h.putHeader p (h.headerAt p).setMark) h

variable {h : BlockHeap} {ps : List Addr} {p q : Addr}

@[simp]
theorem markAll_nil (h : BlockHeap) : h.markAll [] = h := rfl

/-- The objects of the list are marked from the last to the first. -/
theorem markAll_cons (h : BlockHeap) (p : Addr) (ps : List Addr) :
    h.markAll (p :: ps) = (h.markAll ps).putHeader p ((h.markAll ps).headerAt p).setMark := rfl

@[simp]
theorem markAll_layout (h : BlockHeap) (ps : List Addr) : (h.markAll ps).layout = h.layout := by
  induction ps with
  | nil => rfl
  | cons p ps ih => rw [markAll_cons, putHeader_layout, ih]

@[simp]
theorem markAll_map (h : BlockHeap) (ps : List Addr) : (h.markAll ps).map = h.map := by
  induction ps with
  | nil => rfl
  | cons p ps ih => rw [markAll_cons, putHeader_map, ih]

/-- Marking does not change what is owned. -/
@[simp]
theorem owns_markAll (h : BlockHeap) (ps : List Addr) (q : Addr) :
    (h.markAll ps).owns q = h.owns q := by
  rw [owns, markAll_map, owns]

section Mapped

variable (hm : h.Mapped) (hps : ∀ p ∈ ps, h.owns p)

include hm

theorem mapped_markAll (ps : List Addr) : (h.markAll ps).Mapped := by
  induction ps with
  | nil => exact hm
  | cons p ps ih =>
    rw [markAll_cons]
    exact ih.putHeader _ _

include hps

/-- Marking sets the marks of the listed objects and leaves all other headers, whatever they say. -/
theorem headerAt_markAll (hq : h.layout.isBoundary q) :
    (h.markAll ps).headerAt q = if q ∈ ps then (h.headerAt q).setMark else h.headerAt q := by
  induction ps with
  | nil => simp
  | cons p ps ih =>
    rw [List.forall_mem_cons] at hps
    -- The head of the list is marked last.
    have hmapped := mapped_markAll hm ps
    have hp : (h.markAll ps).layout.isBoundary p := by
      rw [markAll_layout]
      exact hm.boundary hps.1
    have hq' : (h.markAll ps).layout.isBoundary q := by
      rw [markAll_layout]
      exact hq
    rw [markAll_cons]
    by_cases hqp : q = p
    · subst hqp
      rw [headerAt_putHeader_self hmapped.layout hp, ih hps.2, if_pos List.mem_cons_self]
      -- Setting a mark twice is setting it once.
      split <;> rfl
    · rw [headerAt_putHeader_of_ne _ hp hq' hqp, ih hps.2]
      simp [hqp]

/-- Marking writes the header table and nothing else. -/
theorem agreeOn_markAll : h.memory.AgreeOn h.layout.tableᶜ (h.markAll ps).memory := by
  induction ps with
  | nil => exact .refl _ _
  | cons p ps ih =>
    rw [List.forall_mem_cons] at hps
    have hmapped := mapped_markAll hm ps
    have hp : (h.markAll ps).layout.isBoundary p := by
      rw [markAll_layout]
      exact hm.boundary hps.1
    have hput := agreeOn_putHeader hmapped.layout ((h.markAll ps).headerAt p).setMark hp
    rw [markAll_layout] at hput
    exact (ih hps.2).trans hput

end Mapped

section Valid

variable (hv : h.Valid) (hps : ∀ p ∈ ps, h.owns p)

include hv hps

/-- A valid heap stays valid when objects of it are marked. -/
theorem valid_markAll : (h.markAll ps).Valid := by
  induction ps with
  | nil => exact hv
  | cons p ps ih =>
    rw [List.forall_mem_cons] at hps
    have hvalid := ih hps.2
    have hp : (h.markAll ps).owns p := by
      rw [owns_markAll]
      exact hps.1
    rw [markAll_cons]
    exact hvalid.putHeader_of_size_eq hp (hvalid.headerAt_alloc hp) rfl

/-- Marking leaves the payloads of a valid heap, for they lie outside the table. -/
theorem payloadAt_markAll (hq : h.owns q) : (h.markAll ps).payloadAt q = h.payloadAt q := by
  refine payloadAt_congr ?_ ((agreeOn_markAll hv.mapped hps).mono ?_)
  · -- A mark is no part of the size.
    rw [headerAt_markAll hv.mapped hps (hv.boundary hq)]
    split <;> rfl
  · exact (hv.object_subset_region hq).trans hv.layout.region_subset_compl_table

/-- Marking does not change the graph. -/
theorem visitAt_markAll (tracers : TracerMap) (hq : h.owns q) :
    (h.markAll ps).visitAt tracers q = h.visitAt tracers q := by
  rw [visitAt, payloadAt_markAll hv hps hq, headerAt_markAll hv.mapped hps (hv.boundary hq),
    visitAt]
  split <;> rfl

end Valid

end BlockHeap

end MarkSweep
