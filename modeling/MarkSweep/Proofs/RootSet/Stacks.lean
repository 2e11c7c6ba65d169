import Mathlib.Data.Finmap
import MarkSweep.Proofs.Alike
import MarkSweep.Proofs.RootSet

/-!
# A root set is two stacks

What a root set is meant to be is said by `RootStacks`: a stack of finite maps from slots to
addresses beside a stack of lists, one for each open temporary scope. The two know nothing of each
other. A root set has all temporaries in one list and finds the scopes again by the numbers that it
has saved.

`RootSet.Represents` says how a root set stands for two stacks. Every operation goes alike on both
(`Represents.alike`), so whatever a program does, it cannot tell them apart (`RootSet.like_stacks`).
Bracketing of frames and bracketing of scopes need not respect each other.
-/

namespace MarkSweep

open MarkSweep.Action

/-- The addresses that slots are bound to. -/
abbrev SlotMap := Finmap fun _ : Nat => Addr

/-- The stacks that a root set stands for. -/
structure RootStacks where
  /-- The slots of the active frames, the current one first. -/
  frames : List SlotMap
  /-- The temporaries of the open scopes, the innermost first, each oldest first. -/
  scopes : List (List Addr)

namespace RootSet

/-- What an operation answers. -/
inductive Answer where
  | done
  /-- The slots of a frame that has been left. -/
  | left (slots : SlotMap)
  /-- Whether an address has become a temporary. -/
  | held (registered : Bool)

end RootSet

namespace RootStacks

open RootSet (Op Answer)

/-- No frame and no scope. -/
def empty : RootStacks := ⟨[], []⟩

/-- All temporaries, oldest first. -/
def temps (s : RootStacks) : List Addr := s.scopes.reverse.flatten

/-- The addresses that slots are bound to. -/
def values (slots : SlotMap) : Multiset Addr := slots.entries.map Sigma.snd

/-- Changes the slots of the current frame. -/
def updateFrame (change : SlotMap → SlotMap) : Action RootStacks Answer := fun s =>
  match s.frames with
  | [] => .error .noActiveFrame s
  | f :: fs => .ok .done { s with frames := change f :: fs }

/-- Carries an operation out on the stacks. -/
def reply : Op → Action RootStacks Answer
  | .enter => fun s => .ok .done { s with frames := ∅ :: s.frames }
  | .leave => fun s =>
    match s.frames with
    | [] => .error .emptyFrameStack s
    | f :: fs => .ok (.left f) { s with frames := fs }
  | .bindSlot slot p => updateFrame (·.insert slot p)
  | .unbindAll => updateFrame fun _ => ∅
  | .openScope => fun s => .ok .done { s with scopes := [] :: s.scopes }
  | .closeScope => fun s =>
    match s.scopes with
    | [] => .error .noOpenScope s
    | _ :: outer => .ok .done { s with scopes := outer }
  | .hold p => fun s =>
    match s.scopes with
    | [] => .ok (.held false) s
    | inner :: outer => .ok (.held true) { s with scopes := (inner ++ [p]) :: outer }

/-- The list has all roots of the stacks: those of the frames, the outermost frame first and in any
order within a frame, then the temporaries, oldest first. -/
def Enumerates (s : RootStacks) (ps : List Addr) : Prop :=
  ∃ parts : List (List Addr), ps = parts.flatten ++ s.temps ∧
    List.Forall₂ (fun (part : List Addr) slots => part = values slots) parts s.frames.reverse

/-- Carries operations out, one after the other. -/
def serve (ops : List Op) (s : RootStacks) : RootStacks :=
  ops.foldl (fun s op => (reply op).after s) s

end RootStacks

/-! ### Frames -/

namespace Frame

/-- The bindings as pairs of a dependent type. -/
def entries (f : Frame) : List (Sigma fun _ : Nat => Addr) := f.bindings.map fun b => ⟨b.1, b.2⟩

/-- The slots of a frame, whatever order they stand in. -/
def slotMap (f : Frame) : SlotMap := f.entries.toFinmap

/-- Each slot is bound once. -/
def Functional (f : Frame) : Prop := (f.bindings.map (·.1)).Nodup

/-- What can be seen of a frame is a finite map of slots. -/
structure Shows (f : Frame) (slots : SlotMap) : Prop where
  slot_eq : ∀ slot, f.slot? slot = slots.lookup slot
  size_eq : f.size = slots.entries.card
  addresses_eq : (f.addresses : Multiset Addr) = RootStacks.values slots

variable {f : Frame} {slot : Nat} {p : Addr}

/-- A slot of the frame is looked up in its map. -/
theorem lookup_slotMap (f : Frame) (slot : Nat) : f.slotMap.lookup slot = f.slot? slot := by
  rw [slotMap, Finmap.dlookup_list_toFinmap, slot?, entries]
  -- Both sides find the first binding of the slot.
  induction f.bindings with
  | nil => rfl
  | cons b rest ih =>
    obtain ⟨key, q⟩ := b
    by_cases hkey : slot = key
    · subst hkey
      simp
    · rw [List.map_cons, List.dlookup_cons_ne _ _ hkey, ih, List.lookup_cons, beq_false_of_ne hkey]

/-- Without the bindings of one slot, the others are found as before. -/
theorem lookup_filter_ne {key slot : Nat} (hkey : key ≠ slot) (bindings : List (Nat × Addr)) :
    (bindings.filter (·.1 ≠ slot)).lookup key = bindings.lookup key := by
  induction bindings with
  | nil => rfl
  | cons b rest ih =>
    obtain ⟨slot', q⟩ := b
    by_cases hslot : slot' = slot
    · subst hslot
      have hskip : ((slot', q) :: rest).filter (·.1 ≠ slot') = rest.filter (·.1 ≠ slot') :=
        List.filter_cons_of_neg (by simp)
      rw [hskip, ih, List.lookup_cons, beq_false_of_ne hkey]
    · have hkeep : ((slot', q) :: rest).filter (·.1 ≠ slot) =
          (slot', q) :: rest.filter (·.1 ≠ slot) := List.filter_cons_of_pos (by simpa using hslot)
      rw [hkeep, List.lookup_cons, List.lookup_cons, ih]

/-- To bind a slot is to insert it into the map, in place of what was there. -/
theorem slotMap_bindSlot (f : Frame) (slot : Nat) (p : Addr) :
    (f.bindSlot slot p).slotMap = f.slotMap.insert slot p := by
  refine Finmap.ext_lookup fun key => ?_
  rw [lookup_slotMap, slot?, bindSlot, List.lookup_cons]
  by_cases hkey : key = slot
  · subst hkey
    rw [Finmap.lookup_insert]
    simp
  · -- Another slot is looked up among the bindings that are left.
    rw [Finmap.lookup_insert_of_ne _ hkey, lookup_slotMap, beq_false_of_ne hkey]
    exact lookup_filter_ne hkey f.bindings

theorem slotMap_empty : slotMap .empty = ∅ := Finmap.toFinmap_nil

theorem functional_empty : Functional .empty := List.nodup_nil

/-- A slot that is bound anew is not bound twice. -/
theorem Functional.bindSlot (hf : f.Functional) (slot : Nat) (p : Addr) :
    (f.bindSlot slot p).Functional := by
  have hrest : ((f.bindings.filter (·.1 ≠ slot)).map (·.1)).Nodup :=
    hf.sublist (List.filter_sublist.map _)
  refine List.nodup_cons.mpr ⟨?_, hrest⟩
  simp

/-- If no slot is bound twice, the map has just the entries of the frame. -/
theorem Functional.entries_slotMap (hf : f.Functional) : f.slotMap.entries = f.entries := by
  have hkeys : f.entries.NodupKeys := by
    rw [List.NodupKeys, List.keys, entries, List.map_map]
    exact hf
  -- Without repetitions the bindings are a finite map already.
  have hmap : f.slotMap = AList.toFinmap ⟨f.entries, hkeys⟩ := by
    refine Finmap.ext_lookup fun slot => ?_
    rw [slotMap, Finmap.dlookup_list_toFinmap, Finmap.lookup_toFinmap]
    rfl
  rw [hmap, AList.toFinmap_entries]

/-- A frame that binds no slot twice shows what its map has. -/
theorem Functional.shows (hf : f.Functional) : f.Shows f.slotMap where
  slot_eq slot := (f.lookup_slotMap slot).symm
  size_eq := by
    rw [hf.entries_slotMap, Multiset.coe_card, entries, List.length_map, size]
  addresses_eq := by
    rw [RootStacks.values, hf.entries_slotMap, Multiset.map_coe, entries, List.map_map]
    rfl

end Frame

namespace RootSet

/-! ### What a root set stands for -/

/-- Carries an operation out and answers as the operation does. -/
def reply : Op → Action RootSet Answer
  | .enter => do
    modify RootSet.enter
    return .done
  | .leave => do
    let f ← RootSet.leave
    return .left f.slotMap
  | .bindSlot slot p => do
    RootSet.bindSlot slot p
    return .done
  | .unbindAll => do
    RootSet.unbindAll
    return .done
  | .openScope => do
    modify RootSet.openScope
    return .done
  | .closeScope => do
    RootSet.closeScope
    return .done
  | .hold p => fun r => .ok (.held r.inScope) (r.hold p)

/-- Carries operations out, one after the other. -/
def serve (ops : List Op) (r : RootSet) : RootSet :=
  ops.foldl (fun r op => op.run.after r) r

/-- The temporaries of all scopes and the numbers of those that each scope has found, with the lists
that they stand for. -/
inductive Stacked : List Addr → List Nat → List (List Addr) → Prop where
  | none : Stacked [] [] []
  | scope {temps : List Addr} {marks : List Nat} {outer : List (List Addr)}
      (stacked : Stacked temps marks outer) (inner : List Addr) :
      Stacked (temps ++ inner) (temps.length :: marks) (inner :: outer)

/-- The root set stands for the stacks. -/
structure Represents (r : RootSet) (s : RootStacks) : Prop where
  functional : ∀ f ∈ r.frames, f.Functional
  frames_eq : s.frames = r.frames.map Frame.slotMap
  stacked : Stacked r.temps r.marks s.scopes

variable {r : RootSet} {s : RootStacks} {op : Op} {temps : List Addr} {marks : List Nat}
  {scopes : List (List Addr)}

/-- The answer apart, this is what the operation does. -/
theorem after_reply (op : Op) (r : RootSet) : (reply op).after r = op.run.after r := by
  cases op with
  | leave =>
    rw [reply, after_bind_pure, Op.run, after_discard]
  | bindSlot slot p => rw [reply, after_bind_pure, Op.run]
  | unbindAll => rw [reply, after_bind_pure, Op.run]
  | closeScope => rw [reply, after_bind_pure, Op.run]
  | enter => rfl
  | openScope => rfl
  | hold p => rfl

/-! ### What follows from it -/

/-- The temporaries are those of all scopes, the outermost first. -/
theorem Stacked.temps_eq (hs : Stacked temps marks scopes) : temps = scopes.reverse.flatten := by
  induction hs with
  | none => rfl
  | scope _ inner ih => rw [List.reverse_cons, List.flatten_append, List.flatten_singleton, ← ih]

/-- Without a scope there are no temporaries. -/
theorem Stacked.temps_eq_nil (hs : Stacked temps [] scopes) : temps = [] := by
  cases hs
  rfl

/-- There is a mark for each open scope. -/
theorem Stacked.length_eq (hs : Stacked temps marks scopes) : marks.length = scopes.length := by
  induction hs with
  | none => rfl
  | scope _ inner ih => rw [List.length_cons, List.length_cons, ih]

/-- No mark stands higher than the temporaries do. -/
theorem Stacked.le_length (hs : Stacked temps marks scopes) : ∀ n ∈ marks, n ≤ temps.length := by
  induction hs with
  | none => simp
  | scope _ inner ih =>
    rw [List.forall_mem_cons, List.length_append]
    exact ⟨Nat.le_add_right _ _, fun n hn => (ih n hn).trans (Nat.le_add_right _ _)⟩

/-- The saved numbers decrease from the innermost scope outwards. -/
theorem Stacked.pairwise (hs : Stacked temps marks scopes) : marks.Pairwise (· ≥ ·) := by
  induction hs with
  | none => exact .nil
  | scope hstacked inner ih => exact .cons hstacked.le_length ih

/-! ### Operations go alike -/

theorem represents_empty : Represents .empty .empty := ⟨by simp [empty], rfl, .none⟩

namespace Represents

variable (hr : r.Represents s)

include hr

/-- A change of the innermost frame goes alike if it does so on the slots. -/
theorem updateFrame {change : Frame → Frame} {change' : SlotMap → SlotMap}
    (hfunctional : ∀ f : Frame, f.Functional → (change f).Functional)
    (hslots : ∀ f : Frame, (change f).slotMap = change' f.slotMap) :
    Alike Represents (do RootSet.updateFrame change; return Answer.done)
      (RootStacks.updateFrame change') r s := by
  obtain ⟨frames, temps, marks⟩ := r
  obtain ⟨fs, scopes⟩ := s
  obtain ⟨hf, rfl, hst⟩ := hr
  cases frames with
  | nil => exact alike_of_eq_error rfl rfl ⟨hf, rfl, hst⟩
  | cons f rest =>
    obtain ⟨hfirst, hrest⟩ := List.forall_mem_cons.mp hf
    refine alike_of_eq_ok rfl rfl ⟨List.forall_mem_cons.mpr ⟨hfunctional f hfirst, hrest⟩, ?_, hst⟩
    rw [List.map_cons, List.map_cons, hslots]

/-- The innermost frame is left alike, or missed alike. -/
theorem leave : Alike Represents (reply .leave) (RootStacks.reply .leave) r s := by
  obtain ⟨frames, temps, marks⟩ := r
  obtain ⟨fs, scopes⟩ := s
  obtain ⟨hf, rfl, hst⟩ := hr
  cases frames with
  | nil => exact alike_of_eq_error rfl rfl ⟨hf, rfl, hst⟩
  | cons f rest => exact alike_of_eq_ok rfl rfl ⟨(List.forall_mem_cons.mp hf).2, rfl, hst⟩

/-- Closing the innermost scope cuts off its temporaries and no others. -/
theorem closeScope : Alike Represents (reply .closeScope) (RootStacks.reply .closeScope) r s := by
  obtain ⟨frames, temps, marks⟩ := r
  obtain ⟨fs, scopes⟩ := s
  obtain ⟨hf, hfs, hst⟩ := hr
  cases hst with
  | none => exact alike_of_eq_error rfl rfl ⟨hf, hfs, .none⟩
  | @scope outerTemps _ _ hst inner =>
    refine alike_of_eq_ok rfl rfl ⟨hf, hfs, ?_⟩
    -- The saved number is that of the temporaries of the outer scopes.
    show Stacked ((outerTemps ++ inner).take outerTemps.length) _ _
    rwa [List.take_left]

/-- A new temporary stands behind those of the innermost scope, which are the latest. -/
theorem hold (p : Addr) : Alike Represents (reply (.hold p)) (RootStacks.reply (.hold p)) r s := by
  obtain ⟨frames, temps, marks⟩ := r
  obtain ⟨fs, scopes⟩ := s
  obtain ⟨hf, hfs, hst⟩ := hr
  cases hst with
  | none => exact alike_of_eq_ok rfl rfl ⟨hf, hfs, .none⟩
  | @scope outerTemps _ _ hst inner =>
    refine alike_of_eq_ok rfl rfl ⟨hf, hfs, ?_⟩
    show Stacked (outerTemps ++ inner ++ [p]) _ _
    rw [List.append_assoc]
    exact .scope hst (inner ++ [p])

/-- An operation answers the same on both sides, and the root set stands for the stacks again. -/
theorem alike (op : Op) : Alike Represents (reply op) (RootStacks.reply op) r s := by
  cases op with
  | enter =>
    refine alike_of_eq_ok rfl rfl ⟨?_, ?_, hr.stacked⟩
    · exact List.forall_mem_cons.mpr ⟨Frame.functional_empty, hr.functional⟩
    · show ∅ :: s.frames = (Frame.empty :: r.frames).map Frame.slotMap
      rw [List.map_cons, Frame.slotMap_empty, hr.frames_eq]
  | leave => exact hr.leave
  | bindSlot slot p =>
    exact hr.updateFrame (fun _ hf => hf.bindSlot slot p) fun f => f.slotMap_bindSlot slot p
  | unbindAll =>
    exact hr.updateFrame (fun _ _ => Frame.functional_empty) fun _ => Frame.slotMap_empty
  | openScope =>
    refine alike_of_eq_ok rfl rfl ⟨hr.functional, hr.frames_eq, ?_⟩
    have hopen := Stacked.scope hr.stacked []
    rwa [List.append_nil] at hopen
  | closeScope => exact hr.closeScope
  | hold p => exact hr.hold p

/-- By induction on the operations, a root set goes on representing its stacks. -/
theorem serve (ops : List Op) : (r.serve ops).Represents (s.serve ops) := by
  induction ops generalizing r s with
  | nil => exact hr
  | cons op rest ih =>
    have hnext := (hr.alike op).after
    rw [after_reply] at hnext
    exact ih hnext

end Represents

/-! ### Balanced stretches -/

/-- The operation concerns frames only. -/
def Op.OnFrames : Op → Prop
  | enter | leave | bindSlot _ _ | unbindAll => True
  | openScope | closeScope | hold _ => False

/-- The operations close every scope that they open, and no other. What they hold outside of the
scopes that they open is listed; frames are entered and left as they like. -/
inductive Balanced : List Op → List Addr → Prop where
  | nil : Balanced [] []
  | frame {op : Op} {ops : List Op} {held : List Addr} (onFrames : op.OnFrames)
      (balanced : Balanced ops held) : Balanced (op :: ops) held
  | hold {ops : List Op} {held : List Addr} (p : Addr) (balanced : Balanced ops held) :
      Balanced (.hold p :: ops) (p :: held)
  | scope {inner ops : List Op} {forgotten held : List Addr} (inside : Balanced inner forgotten)
      (balanced : Balanced ops held) : Balanced (.openScope :: inner ++ .closeScope :: ops) held

/-- Operations on frames leave the temporaries and their scopes. -/
theorem Op.OnFrames.after (h : op.OnFrames) (r : RootSet) :
    (op.run.after r).marks = r.marks ∧ (op.run.after r).temps = r.temps := by
  obtain ⟨frames, temps, marks⟩ := r
  cases op with
  | enter => exact ⟨rfl, rfl⟩
  | leave => cases frames <;> exact ⟨rfl, rfl⟩
  | bindSlot slot p => cases frames <;> exact ⟨rfl, rfl⟩
  | unbindAll => cases frames <;> exact ⟨rfl, rfl⟩
  | _ => exact h.elim

theorem marks_hold (r : RootSet) (p : Addr) : (r.hold p).marks = r.marks := by
  rw [hold]
  split <;> rfl

/-- An address is held behind the other temporaries, if a scope is open. -/
theorem temps_hold (r : RootSet) (p : Addr) :
    (r.hold p).temps = r.temps ++ if r.inScope then [p] else [] := by
  rw [hold]
  split
  · rfl
  · rw [List.append_nil]

/-- To close a scope drops the temporaries from its mark on. -/
theorem after_closeScope {n : Nat} (h : r.marks = n :: marks) :
    closeScope.after r = { r with temps := r.temps.take n, marks := marks } := by
  rw [Action.after, closeScope, h]

theorem serve_append (ops rest : List Op) (r : RootSet) :
    r.serve (ops ++ rest) = (r.serve ops).serve rest := List.foldl_append

/-- A balanced stretch adds to the innermost scope what it holds outside of its own scopes, and
leaves all other temporaries alone. -/
theorem Balanced.serve {stretch : List Op} {held : List Addr} (hb : Balanced stretch held)
    (r : RootSet) : (r.serve stretch).marks = r.marks ∧
      (r.serve stretch).temps = r.temps ++ if r.inScope then held else [] := by
  -- The stretch may begin in any root set, so that it can begin inside its own scope.
  induction hb generalizing r with
  | nil => simp [RootSet.serve]
  | @frame op ops held honFrames _ ih =>
    obtain ⟨hmarks, htemps⟩ := honFrames.after r
    obtain ⟨hmarks', htemps'⟩ := ih (op.run.after r)
    rw [inScope, hmarks, htemps] at htemps'
    exact ⟨hmarks'.trans hmarks, htemps'⟩
  | @hold ops held p _ ih =>
    obtain ⟨hmarks, htemps⟩ := ih (r.hold p)
    rw [inScope, marks_hold, temps_hold] at htemps
    -- Without a scope neither this temporary nor a later one is registered.
    refine ⟨hmarks.trans (marks_hold r p), htemps.trans ?_⟩
    rw [List.append_assoc]
    show r.temps ++ ((if r.inScope then [p] else []) ++ if r.inScope then held else []) = _
    cases r.inScope <;> rfl
  | @scope inner ops forgotten held _ _ ihinner ih =>
    -- Inside its own scope the stretch adds temporaries behind those that there are.
    obtain ⟨hmarks, htemps⟩ := ihinner r.openScope
    have hopen : r.openScope.inScope = true := rfl
    rw [hopen, if_pos rfl] at htemps
    have hclosed : closeScope.after (r.openScope.serve inner) =
        ⟨(r.openScope.serve inner).frames, r.temps, r.marks⟩ := by
      rw [after_closeScope hmarks, htemps, show r.openScope.temps = r.temps from rfl,
        List.take_left]
    have hserve : r.serve (.openScope :: inner ++ .closeScope :: ops) =
        (closeScope.after (r.openScope.serve inner)).serve ops :=
      serve_append inner (.closeScope :: ops) r.openScope
    rw [hserve, hclosed]
    exact ih _

/-! ### The comparison -/

/-- Nothing that can be asked of a root set tells it from the stacks. -/
structure Shows (r : RootSet) (s : RootStacks) : Prop where
  depth_eq : r.depth = s.frames.length
  scopeDepth_eq : r.scopeDepth = s.scopes.length
  tempCount_eq : r.tempCount = s.temps.length
  inScope_eq : r.inScope = !s.scopes.isEmpty
  slot_eq : ∀ slot, r.slot? slot = s.frames.head?.bind (·.lookup slot)
  frames : List.Forall₂ Frame.Shows r.frames s.frames
  roots : s.Enumerates r.roots

/-- A program that uses the root set might as well use the stacks. -/
structure LikeStacks (r : RootSet) (s : RootStacks) : Prop where
  shows : r.Shows s
  /-- Every operation has the same answer or is refused for the same reason, and nothing tells the
  root set from the stacks afterwards. -/
  alike : ∀ op, Alike Shows (reply op) (RootStacks.reply op) r s
  /-- The saved numbers decrease from the innermost scope outwards. -/
  pairwise_marks : r.marks.Pairwise (· ≥ ·)
  marks_le : ∀ n ∈ r.marks, n ≤ r.temps.length
  temps_eq_nil : r.inScope = false → r.temps = []
  /-- A balanced stretch leaves the scopes as they were, but for what it holds outside of its own
  scopes. -/
  balanced : ∀ stretch held, Balanced stretch held → (r.serve stretch).marks = r.marks ∧
    (r.serve stretch).temps = r.temps ++ if r.inScope then held else []

/-- What a root set shows is what the stacks have that it represents. -/
theorem Represents.shows (hr : r.Represents s) : r.Shows s where
  depth_eq := by rw [depth, hr.frames_eq, List.length_map]
  scopeDepth_eq := hr.stacked.length_eq
  tempCount_eq := congrArg List.length hr.stacked.temps_eq
  inScope_eq := by
    rw [inScope, Bool.not_inj_iff, Bool.eq_iff_iff, List.isEmpty_iff_length_eq_zero,
      List.isEmpty_iff_length_eq_zero, hr.stacked.length_eq]
  slot_eq slot := by
    rw [slot?, hr.frames_eq, List.head?_map]
    cases r.frames.head? with
    | none => rfl
    | some f => exact (f.lookup_slotMap slot).symm
  frames := by
    rw [hr.frames_eq, List.forall₂_map_right_iff, List.forall₂_same]
    intro f hf
    exact (hr.functional f hf).shows
  roots := by
    refine ⟨r.frames.reverse.map Frame.addresses, ?_, ?_⟩
    · rw [RootSet.roots, hr.stacked.temps_eq, List.flatMap_def]
      rfl
    · rw [hr.frames_eq, ← List.map_reverse, List.forall₂_map_left_iff, List.forall₂_map_right_iff,
        List.forall₂_same]
      exact fun f hf => (hr.functional f (List.mem_reverse.mp hf)).shows.addresses_eq

/-- A root set that represents its stacks is like them, whatever is done next. -/
theorem Represents.likeStacks (hr : r.Represents s) : LikeStacks r s where
  shows := hr.shows
  alike op := (hr.alike op).mono fun _ _ => Represents.shows
  pairwise_marks := hr.stacked.pairwise
  marks_le := hr.stacked.le_length
  temps_eq_nil hscope := by
    have hmarks : r.marks = [] := by simpa [inScope] using hscope
    exact (hmarks ▸ hr.stacked).temps_eq_nil
  balanced _ _ hb := hb.serve r

/-- Whatever a program does with a new root set, it might do with two stacks. -/
theorem like_stacks (ops : List Op) :
    LikeStacks (empty.serve ops) (RootStacks.empty.serve ops) :=
  (represents_empty.serve ops).likeStacks

/-- A frame is entered inside a scope and left behind it. The stretch has a scope and a frame that
overlap, and holds one temporary outside of the scope. -/
theorem like_stacks_small :
    let r := empty.serve [.openScope, .hold 8, .enter, .bindSlot 0 16, .hold 0]
    let stretch : List Op := [.openScope, .hold 24, .enter, .closeScope, .hold 32, .leave]
    r.roots = [16, 8, 0] ∧ Balanced stretch [32] ∧ (r.serve stretch).marks = [0] ∧
      (r.serve stretch).temps = [8, 0, 32] := by
  intro r stretch
  have hinside : Balanced [.hold 24, .enter] [24] := .hold 24 (.frame trivial .nil)
  have hbehind : Balanced [.hold 32, .leave] [32] := .hold 32 (.frame trivial .nil)
  have hb : Balanced stretch [32] := .scope hinside hbehind
  obtain ⟨hmarks, htemps⟩ :=
    (like_stacks [.openScope, .hold 8, .enter, .bindSlot 0 16, .hold 0]).balanced stretch _ hb
  exact ⟨rfl, hb, hmarks, htemps⟩

end RootSet

end MarkSweep
