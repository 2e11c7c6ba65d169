import MarkSweep.Proofs.BlockHeap.Frames
import MarkSweep.Proofs.Collector.Run

/-!
# What a collector leaves alone

A program may use a collector and, besides, the heap that the collector owns (`Collector.Use`).
Whatever stands in the heap, a collection is upkeep, and an allocation is upkeep and then at most
one new object (`Collector.Outcome`, `Use.outcome`). So a collector, too, writes header words of
blocks and payloads of new objects, and nothing else, and what was said of requests to a heap is
true of the uses of a collector (`undisturbed`).
-/

namespace MarkSweep

namespace Collector

open BlockHeap

/-- What a program can do with a collector and its heap. -/
inductive Use where
  | allocate (tag : Tag) (size : Nat)
  | collect
  | roots (op : RootSet.Op)
  | heap (request : BlockHeap.Request)

namespace Use

/-- Carries the use out. The answer is not needed. -/
def run : Use → Action (Collector BlockHeap) Unit
  | allocate tag size => discard (Collector.allocate tag size)
  | collect => discard Collector.collect
  | roots op => onRoots op.run
  | heap request => onHeap request.run

/-- The address that the collector answers an allocation with. -/
def answers (c : Collector BlockHeap) : Use → Option Addr
  | allocate tag size => (Collector.allocate tag size).answer? c
  | _ => none

/-- The addresses in the memory that the use may write. -/
def touched (c : Collector BlockHeap) : Use → Set Addr
  | allocate tag size => c.heap.headerWords ∪ {i | ∃ p ∈ (allocate tag size).answers c,
      i ∈ c.heap.layout.headerWord p ∪ Set.Ico p (p + size)}
  | collect => c.heap.headerWords
  | roots _ => ∅
  | heap request => request.touched c.heap

/-- The program clears no more than a block has, and does not write bytes of `S`. -/
def Spares (S : Set Addr) (c : Collector BlockHeap) : Use → Prop
  | heap request => request.Spares S c.heap
  | _ => True

/-- The use spares `S` and leaves the block in use, that is, does not hand it out anew. It does not
clear bytes of `S` by way of the block either. -/
def Preserves (b : Extent) (S : Set Addr) (c : Collector BlockHeap) (use : Use) : Prop :=
  b ∈ (use.run.after c).heap.map.blocks ∧ b.start ∉ use.answers c ∧ use.Spares S c ∧
    ∀ len, use = .heap (.clearPayload b.start len) →
      Disjoint (Set.Ico b.start (b.start + len)) S

end Use

/-- The states of collectors whose heaps are new, in memories of 32-bit addresses, and what any uses
make of them. -/
inductive Used : Collector BlockHeap → Prop where
  | start {memory : Memory} {layout : Layout} {heap : BlockHeap} (tracers : TracerMap)
      (trigger : Trigger) (memory_le : memory.size ≤ UInt32.size)
      (created : create memory layout = .ok heap) : Used (.start heap tracers trigger)
  | use {c : Collector BlockHeap} (used : Used c) (use : Use) : Used (use.run.after c)

/-- What becomes of a collector by uses that are admitted when they are made. -/
def Continues (admits : Collector BlockHeap → Use → Prop) :
    Collector BlockHeap → Collector BlockHeap → Prop :=
  Relation.ReflTransGen fun c c' => ∃ use, admits c use ∧ c' = use.run.after c

/-- What the uses of a collector leave alone, one of them and many. -/
structure Undisturbed (c : Collector BlockHeap) : Prop where
  /-- A use changes no byte but those that it may write. -/
  step : ∀ use : Use,
    c.heap.memory.AgreeOn (use.touched c)ᶜ (use.run.after c).heap.memory
  /-- The bytes of a block stay the same as long as it is in use and the program does not clear or
  write them itself. -/
  block : ∀ b ∈ c.heap.map.blocks, ∀ S ⊆ Set.Ico b.start b.stop, ∀ c',
    Continues (Use.Preserves b S) c c' → c.heap.memory.AgreeOn S c'.heap.memory
  /-- The bytes outside region and table stay the same if the program does not write them. -/
  outside : ∀ S ⊆ (c.heap.layout.region ∪ c.heap.layout.table)ᶜ, ∀ c',
    Continues (Use.Spares S) c c' → c.heap.memory.AgreeOn S c'.heap.memory

/-- What a use can come to: the address it is answered with, and what becomes of the heap. -/
inductive Outcome (c : Collector BlockHeap) : Use → Option Addr → BlockHeap → Prop where
  | noObject {tag : Tag} {size : Nat} {h : BlockHeap} (upkept : Upkept c.heap h) :
      Outcome c (.allocate tag size) none h
  | object {tag : Tag} {size : Nat} {h : BlockHeap} {p : Addr} (upkept : Upkept c.heap h)
      (fit : h.map.firstFit? h.layout.stop (h.layout.footprint size) = some p) :
      Outcome c (.allocate tag size) (some p) (h.withObject tag p size)
  | collect {h : BlockHeap} (upkept : Upkept c.heap h) : Outcome c .collect none h
  | roots {op : RootSet.Op} : Outcome c (.roots op) none c.heap
  | heap {request : BlockHeap.Request} : Outcome c (.heap request) none (request.run.after c.heap)

variable {c c' : Collector BlockHeap} {S : Set Addr} {b : Extent}

/-! ### One use -/

/-- A change of the roots does not touch the heap. -/
theorem heap_after_roots (op : RootSet.Op) (c : Collector BlockHeap) :
    ((Use.roots op).run.after c).heap = c.heap := by
  have hafter := after_roots op c
  rw [Request.run] at hafter
  rw [Use.run, hafter]

/-- A request to the heap does to it what it would do without the collector. -/
theorem heap_after_heap (request : BlockHeap.Request) (c : Collector BlockHeap) :
    ((Use.heap request).run.after c).heap = request.run.after c.heap := by
  rw [Use.run, Action.after, onHeap_apply, Action.after]
  cases request.run c.heap <;> rfl

namespace Use

/-- An allocation is upkeep, and a new object after it if there is an answer. -/
theorem outcome_allocate (hm : c.heap.Mapped) (tag : Tag) (size : Nat) :
    Outcome c (.allocate tag size) ((allocate tag size).answers c)
      ((allocate tag size).run.after c).heap := by
  have hupkept : ∀ c', (c' = c ∨ ∃ r, Collector.collect c = .ok r c') → Upkept c.heap c'.heap := by
    rintro c' (rfl | ⟨r, hr⟩)
    · exact .refl
    · rw [← Action.after_of_eq_ok hr]
      exact upkept_collect hm
  rw [run, answers, Action.after_discard, Action.answer?]
  rcases allocate_cases_of_mapped hm tag size with
    htoo | ⟨e, c', hhalt, herror⟩ | ⟨c', hc', hnone | ⟨-, p, hfit, hok⟩⟩
  · rw [Action.after_of_eq_error htoo, htoo]
    exact .noObject .refl
  · rw [Action.after_of_eq_error herror, herror, ← Action.after_of_eq_error hhalt]
    exact .noObject (upkept_collect hm)
  · rw [Action.after_of_eq_error hnone, hnone]
    exact .noObject (hupkept c' hc')
  · rw [Action.after_of_eq_ok hok, hok]
    exact .object (hupkept c' hc') hfit

/-- Every use of a collector has an outcome, whatever stands in the memory. -/
theorem outcome (use : Use) (hm : c.heap.Mapped) :
    Outcome c use (use.answers c) (use.run.after c).heap := by
  cases use with
  | allocate tag size => exact outcome_allocate hm tag size
  | collect =>
    rw [run, Action.after_discard]
    exact .collect (upkept_collect hm)
  | roots op =>
    rw [heap_after_roots]
    exact .roots
  | heap request =>
    rw [heap_after_heap]
    exact .heap

theorem mapped (use : Use) (hm : c.heap.Mapped) : (use.run.after c).heap.Mapped := by
  have hout := use.outcome hm
  generalize use.answers c = answer, (use.run.after c).heap = h' at hout ⊢
  cases hout with
  | noObject hupkept => exact hupkept.mapped hm
  | object hupkept hfit => exact mapped_withObject (hupkept.mapped hm) hfit _
  | collect hupkept => exact hupkept.mapped hm
  | roots => exact hm
  | heap => exact BlockHeap.Request.mapped _ hm

theorem layout_eq (use : Use) (hm : c.heap.Mapped) :
    (use.run.after c).heap.layout = c.heap.layout := by
  have hout := use.outcome hm
  generalize use.answers c = answer, (use.run.after c).heap = h' at hout ⊢
  cases hout with
  | noObject hupkept => exact hupkept.layout_eq
  | object hupkept _ =>
    rw [withObject_layout]
    exact hupkept.layout_eq
  | collect hupkept => exact hupkept.layout_eq
  | roots => rfl
  | heap => exact BlockHeap.Request.layout_eq _ hm

/-- A use writes what it may write and nothing else. -/
theorem agreeOn_touched (use : Use) (hm : c.heap.Mapped) :
    c.heap.memory.AgreeOn (use.touched c)ᶜ (use.run.after c).heap.memory := by
  have hout := use.outcome hm
  generalize hanswer : use.answers c = answer, (use.run.after c).heap = h' at hout ⊢
  cases hout with
  | noObject hupkept =>
    exact (hupkept.agreeOn hm).mono (Set.compl_subset_compl.mpr Set.subset_union_left)
  | @object tag size h p hupkept _ =>
    have hobject := BlockHeap.agreeOn_withObject h tag p size
    rw [hupkept.layout_eq] at hobject
    -- First the headers of blocks in use may change, then the object is written.
    refine ((hupkept.agreeOn hm).mono ?_).trans (hobject.mono ?_)
    · exact Set.compl_subset_compl.mpr Set.subset_union_left
    · exact Set.compl_subset_compl.mpr fun i hi => .inr ⟨p, hanswer, hi⟩
  | collect hupkept => exact hupkept.agreeOn hm
  | roots => exact .refl _ _
  | heap => exact BlockHeap.Request.agreeOn_touched _ hm

/-- A use that preserves the block leaves the bytes in it alone. -/
theorem Preserves.agreeOn {use : Use} (hu : use.Preserves b S c) (hm : c.heap.Mapped)
    (hb : b ∈ c.heap.map.blocks) (hS : S ⊆ Set.Ico b.start b.stop) :
    c.heap.memory.AgreeOn S (use.run.after c).heap.memory := by
  obtain ⟨hb', hanew, hspares, hself⟩ := hu
  have hunavailable := unavailable_of_mem_blocks hm hb hS
  have hout := use.outcome hm
  generalize use.answers c = answer, (use.run.after c).heap = h' at hout hanew hb' ⊢
  cases hout with
  | noObject hupkept => exact hunavailable.agreeOn_upkept hm hupkept
  | @object tag size h p hupkept hfit =>
    have hm' := hupkept.mapped hm
    -- The block is not the new one, so it was still in use when room was found.
    have hold : b ∈ h.map.blocks := by
      rcases List.mem_cons.mp ((blocks_withObject hm' hfit tag).mem_iff.mp hb') with rfl | hold
      · exact absurd rfl hanew
      · exact hold
    have hplaced := unavailable_of_mem_blocks hm' hold hS
    exact (hunavailable.agreeOn_upkept hm hupkept).trans (hplaced.agreeOn_withObject hm' hfit)
  | collect hupkept => exact hunavailable.agreeOn_upkept hm hupkept
  | roots => exact .refl _ _
  | @heap request =>
    have hr : request.Preserves b S c.heap := by
      refine ⟨hb', hspares, fun len heq => hself len ?_⟩
      rw [heq]
    exact hr.agreeOn hm hb hS

/-- A use that spares bytes outside region and table leaves them alone. -/
theorem Spares.agreeOn {use : Use} (hu : use.Spares S c) (hm : c.heap.Mapped)
    (hS : S ⊆ (c.heap.layout.region ∪ c.heap.layout.table)ᶜ) :
    c.heap.memory.AgreeOn S (use.run.after c).heap.memory := by
  have hunavailable := unavailable_of_outside hm hS
  have hout := use.outcome hm
  generalize use.answers c = answer, (use.run.after c).heap = h' at hout ⊢
  cases hout with
  | noObject hupkept => exact hunavailable.agreeOn_upkept hm hupkept
  | object hupkept hfit =>
    rw [← hupkept.layout_eq] at hS
    have hm' := hupkept.mapped hm
    have hplaced := unavailable_of_outside hm' hS
    exact (hunavailable.agreeOn_upkept hm hupkept).trans (hplaced.agreeOn_withObject hm' hfit)
  | collect hupkept => exact hunavailable.agreeOn_upkept hm hupkept
  | roots => exact .refl _ _
  | heap => exact BlockHeap.Request.Spares.agreeOn hu hm hS

end Use

/-! ### Many uses -/

/-- Single uses and whole runs respect their frames, whatever stands in the memory. -/
theorem undisturbed_of_mapped (hm : c.heap.Mapped) : Undisturbed c where
  step use := use.agreeOn_touched hm
  block b hb S hS c' hrun := by
    refine agreeOn_of_run heap (fun c => c.heap.Mapped ∧ b ∈ c.heap.map.blocks) ?_ ⟨hm, hb⟩ hrun
    rintro d _ ⟨hmapped, hmem⟩ ⟨use, hu, rfl⟩
    exact ⟨⟨use.mapped hmapped, hu.1⟩, hu.agreeOn hmapped hmem hS⟩
  outside S hS c' hrun := by
    refine agreeOn_of_run heap (fun d => d.heap.Mapped ∧ d.heap.layout = c.heap.layout) ?_
      ⟨hm, rfl⟩ hrun
    rintro d _ ⟨hmapped, hlayout⟩ ⟨use, hu, rfl⟩
    refine ⟨⟨use.mapped hmapped, (use.layout_eq hmapped).trans hlayout⟩, ?_⟩
    rw [← hlayout] at hS
    exact hu.agreeOn hmapped hS

/-- By induction over its history, map and layout of a collector's heap fit each other. -/
theorem Used.mapped (hc : Used c) : c.heap.Mapped := by
  induction hc with
  | start _ _ _ hcreated => exact mapped_of_create hcreated
  | use _ use ih => exact use.mapped ih

/-- Neither a heap nor a collector ever disturbs bytes that are not its own, whatever has been
requested. -/
theorem undisturbed :
    (∀ s, BlockHeap.Reachable (fun _ _ => True) s → BlockHeap.Undisturbed s.heap) ∧
      ∀ c, Used c → Collector.Undisturbed c :=
  ⟨fun _ hs => BlockHeap.undisturbed_of_mapped hs.mapped,
    fun _ hc => Collector.undisturbed_of_mapped hc.mapped⟩

/-- The header of the block at 8 says forty bytes here, more than the region has. The collection
keeps the block, for it has a mark, and gives the one at 16 back, whose space is then cleared. -/
theorem undisturbed_small :
    let s := BlockHeap.History.small.serve [.allocate .cell 4, .setHeader 8 (.fresh .list 40)]
    let c₁ := (Use.allocate .blob 3).run.after small
    let c₂ := (Use.heap (.setHeader 8 (.setMark (.fresh .list 40)))).run.after c₁
    let c₃ := (Use.allocate .cell 4).run.after c₂
    let c₄ := Use.collect.run.after c₃
    let c₅ := (Use.heap (.alloc 12)).run.after c₄
    let c₆ := (Use.heap (.clearPayload 16 16)).run.after c₅
    BlockHeap.Reachable (fun _ _ => True) s ∧ BlockHeap.Undisturbed s.heap ∧ Used c₂ ∧
      ⟨8, 8, true⟩ ∈ c₂.heap.map.blocks ∧
        Continues (Use.Preserves ⟨8, 8, true⟩ (Set.Ico 8 16)) c₂ c₆ ∧
          c₂.heap.memory.AgreeOn (Set.Ico 8 16) c₆.heap.memory := by
  intro s c₁ c₂ c₃ c₄ c₅ c₆
  have hs : BlockHeap.Reachable (fun _ _ => True) s := (BlockHeap.reachable_small _).serve (by simp)
  have hstart : Used small :=
    @Used.start (.filled 56 0) { start := 8, stop := 40 } _ _ _ (by decide) rfl
  have hc : Used c₂ := (hstart.use _).use _
  have hb : ⟨8, 8, true⟩ ∈ c₂.heap.map.blocks := by decide +kernel
  have hrun : Continues (Use.Preserves ⟨8, 8, true⟩ (Set.Ico 8 16)) c₂ c₆ := by
    refine .tail (.tail (.tail (.single ⟨_, ?_, rfl⟩) ⟨_, ?_, rfl⟩) ⟨_, ?_, rfl⟩) ⟨_, ?_, rfl⟩
    · exact ⟨by decide +kernel, by decide +kernel, trivial, by simp⟩
    · exact ⟨by decide +kernel, by decide +kernel, trivial, by simp⟩
    · exact ⟨by decide +kernel, by decide +kernel, trivial, by simp⟩
    · have hfits : ∀ b ∈ c₅.heap.map.blocks, b.start = 16 → 16 ≤ b.size := by decide +kernel
      exact ⟨by decide +kernel, by decide +kernel, hfits, by simp⟩
  exact ⟨hs, undisturbed.1 s hs, hc, hb, hrun, (undisturbed.2 c₂ hc).block _ hb _ subset_rfl _ hrun⟩

end Collector

end MarkSweep
