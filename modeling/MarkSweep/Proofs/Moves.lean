import MarkSweep.Proofs.Twins

/-!
# How collections move a heap

An action moves a part of the state along a relation (`Action.Moves`) if the relation holds between
what the part was before and what it is afterwards, refused or not. If the relation is transitive, a
sequence moves along it when each of its parts does, from the state that the parts before have left
(`Moves.bind`).

A collection does three things to its heap: it asks what the heap owns, it sets the mark in headers
that it has just read, and it sweeps. If the heap moves along a relation each time
(`Heap.Tracks`), then so it does in a collection (`Collector.moves_collect`), and in an allocation
too if the relation allows for new objects (`Collector.moves_allocate`). As for twin heaps, the
proofs follow the texts of marking, collection and allocation.
-/

namespace MarkSweep

namespace Action

variable {σ τ α β : Type} {R : τ → τ → Prop} {part : σ → τ} {x : Action σ α} {s : σ}

/-- What `part` shows of the state is related to what it shows afterwards. -/
def Moves (R : τ → τ → Prop) (part : σ → τ) (x : Action σ α) (s : σ) : Prop :=
  R (part s) (part (x.after s))

/-- Questions leave the state as it is, answered or not. -/
theorem after_ask (question : σ → Except Refusal α) (s : σ) : (ask question).after s = s := by
  rw [after, ask]
  cases question s <;> rfl

/-- Conditions leave the state as it is, whether they hold or not. -/
theorem after_require (condition : Bool) (e : Refusal) (s : σ) :
    (require condition e : Action σ Unit).after s = s := by
  cases condition <;> rfl

/-- What leaves the part as it is moves it along every reflexive relation. -/
theorem moves_of_part_eq (hrefl : ∀ a, R a a) (hpart : part (x.after s) = part s) :
    Moves R part x s := by
  rw [Moves, hpart]
  exact hrefl _

/-- A sequence moves the part along a transitive relation if each of its two actions does. -/
theorem Moves.bind (htrans : ∀ a b c, R a b → R b c → R a c) (hx : Moves R part x s)
    {f : α → Action σ β} (hf : ∀ a t, x s = .ok a t → Moves R part (f a) t) :
    Moves R part (x >>= f) s := by
  cases h : x s with
  | ok a t =>
    have hnext := hf a t h
    rw [Moves, after_of_eq_ok h] at hx
    rw [Moves, after_bind_of_eq_ok h]
    exact htrans _ _ _ hx hnext
  | error e t =>
    rw [Moves, after_of_eq_error h] at hx
    rwa [Moves, after_bind_of_eq_error h]

/-- Actions on the part itself move it as they do on their own. -/
theorem moves_within {focus : σ → τ × (τ → σ)} {x : Action τ α} (hpart : (focus s).1 = part s)
    (haround : ∀ a, part ((focus s).2 a) = a) (hx : R (part s) (x.after (part s))) :
    Moves R part (within focus x) s := by
  have hafter : part ((within focus x).after s) = x.after (part s) := by
    rw [← hpart]
    cases hx : x (focus s).1 with
    | ok a t =>
      have hwithin : within focus x s = .ok a ((focus s).2 t) := by simp only [within, hx]
      rw [after_of_eq_ok hwithin, after_of_eq_ok hx, haround]
    | error e t =>
      have hwithin : within focus x s = .error e ((focus s).2 t) := by simp only [within, hx]
      rw [after_of_eq_error hwithin, after_of_eq_error hx, haround]
  rwa [Moves, hafter]

end Action

open MarkSweep.Action

/-- The relation holds between a heap and what becomes of it by each of the things that a collection
does. -/
structure Heap.Tracks {H : Type} [Heap H] (R : H → H → Prop) : Prop where
  refl : ∀ heap, R heap heap
  trans : ∀ a b c, R a b → R b c → R a c
  owns : ∀ heap p, R heap (Heap.owns heap p).2
  setMark : ∀ heap p hd, Heap.header heap p = .ok hd →
    R heap ((Heap.setHeader p hd.setMark).after heap)
  sweep : ∀ heap, R heap ((Heap.sweep : Action H Sweep).after heap)

variable {H : Type} [Heap H] {R : H → H → Prop} (hR : Heap.Tracks R)

include hR

/-! ### Marking -/

/-- Looking up children asks the heap who owns them, and so moves it by these questions only. -/
theorem Children.moves_find (parent : Addr) (ps : List Addr) (heap : H) :
    R heap (Children.find parent ps heap).2 := by
  induction ps generalizing heap with
  | nil => exact hR.refl heap
  | cons p ps ih =>
    have howns := hR.owns heap p
    rw [Children.find]
    cases p.isNull with
    | true => exact ih heap
    | false =>
      generalize Heap.owns heap p = answer at howns ⊢
      obtain ⟨owned, heap'⟩ := answer
      cases owned with
      | false => exact howns
      | true =>
        simp only [Bool.false_eq_true, if_false]
        cases Heap.header heap' p with
        | error e => exact howns
        | ok hd => exact hR.trans _ _ _ howns (ih heap')

namespace Marking

omit [Heap H] hR in
theorem moves_onHeap {α : Type} {x : Action H α} {m : Marking H}
    (hx : R m.heap (x.after m.heap)) : Moves R Marking.heap (onHeap x) m :=
  moves_within rfl (fun _ => rfl) hx

/-- Going through the roots moves the heap by questions of ownership only. -/
theorem moves_liveRoots (ps : List Addr) (heap : H) : Moves R id (liveRoots ps) heap := by
  induction ps generalizing heap with
  | nil => exact hR.refl heap
  | cons p ps ih =>
    rw [liveRoots]
    cases p.isNull with
    | true => exact ih heap
    | false =>
      have howns : Moves R id (Heap.askOwns p) heap := hR.owns heap p
      refine howns.bind hR.trans fun owned t _ => ?_
      have hrequire : Moves R id (require owned (.danglingRoot p)) t :=
        moves_of_part_eq hR.refl (after_require ..)
      refine hrequire.bind hR.trans fun _ u _ => ?_
      exact (ih u).bind hR.trans fun _ v _ => hR.refl v

/-- A visit moves the heap: it sets a mark, reads a payload and looks up children. -/
theorem moves_visit (tracers : TracerMap) {p : Addr} {hd : Header} {m : Marking H}
    (hheader : Heap.header m.heap p = .ok hd) : Moves R Marking.heap (visit tracers p hd) m := by
  have hmark : Moves R Marking.heap (onHeap (Heap.setHeader p hd.setMark)) m :=
    moves_onHeap (hR.setMark m.heap p hd hheader)
  refine hmark.bind hR.trans fun _ n _ => ?_
  -- When the mark is set, only questions follow.
  have hnote : Moves R Marking.heap (modify fun m => { m with marked := p :: m.marked }) n :=
    moves_of_part_eq hR.refl rfl
  refine hnote.bind hR.trans fun _ n _ => ?_
  have hread : Moves R Marking.heap (ask fun m : Marking H => Heap.payload m.heap p) n :=
    moves_of_part_eq hR.refl (congrArg Marking.heap (after_ask ..))
  refine hread.bind hR.trans fun payload n _ => ?_
  refine Moves.bind hR.trans (moves_onHeap (Children.moves_find hR p _ n.heap)) fun _ n _ => ?_
  split
  · exact moves_of_part_eq hR.refl rfl
  · exact moves_of_part_eq hR.refl rfl
  · exact moves_of_part_eq hR.refl rfl

/-- By induction on the budget, the visits of a marking move the heap one after the other. -/
theorem moves_visitAll (tracers : TracerMap) (budget : Nat) (m : Marking H) :
    Moves R Marking.heap (visitAll tracers budget) m := by
  have hnext : ∀ m, Moves R Marking.heap (ask fun m : Marking H => nextUnmarked m.heap m.queue) m :=
    fun m => moves_of_part_eq hR.refl (congrArg Marking.heap (after_ask ..))
  induction budget generalizing m with
  | zero =>
    rw [visitAll]
    refine (hnext m).bind hR.trans fun found n _ => ?_
    cases found with
    | none => exact moves_of_part_eq hR.refl rfl
    | some _ => exact moves_of_part_eq hR.refl rfl
  | succ budget ih =>
    rw [visitAll]
    refine (hnext m).bind hR.trans fun found n hn => ?_
    obtain ⟨hfound, rfl⟩ := ask_eq_ok_iff.mp hn
    cases found with
    | none => exact moves_of_part_eq hR.refl rfl
    | some found =>
      obtain ⟨p, hd, rest⟩ := found
      have hheader : Heap.header ({ n with queue := rest } : Marking H).heap p = .ok hd :=
        header_of_nextUnmarked hfound
      have hcut : Moves R Marking.heap (modify fun m => { m with queue := rest }) n :=
        moves_of_part_eq hR.refl rfl
      refine hcut.bind hR.trans fun _ n' hn' => ?_
      -- The header was read before the queue was cut.
      obtain rfl : { n with queue := rest } = n' := by simpa using hn'
      exact (moves_visit hR tracers hheader).bind hR.trans fun _ n _ => ih n

/-- A whole marking, refused or not, moves the heap along the relation. -/
theorem moves_run (tracers : TracerMap) (roots : List Addr) (m : Marking H) :
    Moves R Marking.heap (run tracers roots) m := by
  refine Moves.bind hR.trans (moves_onHeap (moves_liveRoots hR roots m.heap)) fun live m _ => ?_
  have hqueue : Moves R Marking.heap (modify (enqueue live)) m := moves_of_part_eq hR.refl rfl
  exact hqueue.bind hR.trans fun _ m _ => moves_visitAll hR tracers budget m

end Marking

/-! ### Collections -/

namespace Collector

omit [Heap H] hR in
theorem moves_onHeap {α : Type} {x : Action H α} {c : Collector H}
    (hx : R c.heap (x.after c.heap)) : Moves R Collector.heap (onHeap x) c :=
  moves_within rfl (fun _ => rfl) hx

/-- The marking of a collector moves its heap along the relation. -/
theorem moves_mark (c : Collector H) : Moves R Collector.heap mark c := by
  obtain ⟨heap, roots, tracers, trigger, totals⟩ := c
  have hrun := Marking.moves_run hR tracers roots.roots (.start heap)
  rw [Moves, Action.after] at hrun ⊢
  rw [mark]
  cases hm : Marking.run tracers roots.roots (.start heap) with
  | ok _ m =>
    rw [hm] at hrun
    exact hrun
  | error e m =>
    rw [hm] at hrun
    exact hrun

/-- A collection moves the heap as far as marking and sweeping do, also when it is refused. -/
theorem moves_collect (c : Collector H) : Moves R Collector.heap collect c := by
  refine (moves_mark hR c).bind hR.trans fun marked c _ => ?_
  refine Moves.bind hR.trans (moves_onHeap (hR.sweep c.heap)) fun sweep c _ => ?_
  exact Moves.bind hR.trans (moves_of_part_eq hR.refl rfl) fun _ c _ =>
    moves_of_part_eq hR.refl rfl

/-- An allocation moves the heap as far as collecting and handing out blocks do. -/
theorem moves_allocate (tag : Tag) (size : Nat)
    (hallocate : ∀ heap : H, R heap ((Heap.allocate tag size).after heap)) (c : Collector H) :
    Moves R Collector.heap (allocate tag size) c := by
  have htry : ∀ c : Collector H, Moves R Collector.heap (onHeap (Heap.allocate tag size)) c :=
    fun c => moves_onHeap (hallocate c.heap)
  have hfind : Moves R Collector.heap (findRoom tag size) c := by
    refine (htry c).bind hR.trans fun room c _ => ?_
    cases room with
    | some p => exact moves_of_part_eq hR.refl rfl
    | none =>
      refine Moves.bind hR.trans (moves_of_part_eq hR.refl rfl) fun d c _ => ?_
      cases d.trigger with
      | manual => exact moves_of_part_eq hR.refl rfl
      | onExhaustion =>
        -- The answer of the collection is discarded, what it does to the heap is not.
        have hcollect : Moves R Collector.heap (discard collect) c := by
          rw [Moves, after_discard]
          exact moves_collect hR c
        exact hcollect.bind hR.trans fun _ c _ => htry c
  refine hfind.bind hR.trans fun room c _ => ?_
  cases room with
  | none => exact moves_of_part_eq hR.refl rfl
  | some p =>
    exact Moves.bind hR.trans (moves_of_part_eq hR.refl rfl) fun _ c _ =>
      moves_of_part_eq hR.refl rfl

end Collector

end MarkSweep
