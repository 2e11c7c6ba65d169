import MarkSweep.Proofs.Action
import MarkSweep.RootSet

/-!
# Operations on root sets

`RootSet.Op` lists what a program can do with its roots. An operation brings no address into the
root set but the one it is given (`Op.mem_roots`).

`RootSet.Keeps` says that a temporary outlives all scopes but the outermost `n`. As long as that
many scopes are open, no operation forgets the temporary (`Keeps.after`).
-/

namespace MarkSweep.RootSet

/-- An operation of a program on its roots. -/
inductive Op where
  | enter
  | leave
  | bindSlot (slot : Nat) (p : Addr)
  | unbindAll
  | openScope
  | closeScope
  | hold (p : Addr)
deriving DecidableEq

namespace Op

/-- Carries the operation out. The answer of `leave` is not needed. -/
def run : Op → Action RootSet Unit
  | enter => modify RootSet.enter
  | leave => discard RootSet.leave
  | bindSlot slot p => RootSet.bindSlot slot p
  | unbindAll => RootSet.unbindAll
  | openScope => modify RootSet.openScope
  | closeScope => RootSet.closeScope
  | hold p => modify fun r => r.hold p

/-- The addresses that the operation is given. -/
def addresses : Op → List Addr
  | bindSlot _ p => [p]
  | hold p => [p]
  | _ => []

end Op

variable {r : RootSet} {p q : Addr} {n : Nat}

/-- Roots are the addresses bound in a frame and the temporaries. -/
theorem mem_roots : p ∈ r.roots ↔ (∃ f ∈ r.frames, p ∈ f.addresses) ∨ p ∈ r.temps := by
  simp [roots]

/-- To hold an address adds no other root. -/
theorem mem_roots_hold (h : q ∈ (r.hold p).roots) : q ∈ r.roots ∨ q = p := by
  rw [hold] at h
  split at h
  · rw [mem_roots] at h ⊢
    rcases h with hframe | htemp
    · exact .inl (.inl hframe)
    · rw [List.mem_append, List.mem_singleton] at htemp
      exact htemp.imp_left .inr
  · exact .inl h

/-- What a change of a frame brings into the frame is all that it brings into the roots. -/
theorem mem_roots_updateFrame {change : Frame → Frame} {ps : List Addr}
    (hchange : ∀ f : Frame, p ∈ (change f).addresses → p ∈ f.addresses ∨ p ∈ ps)
    (h : p ∈ ((updateFrame change).after r).roots) : p ∈ r.roots ∨ p ∈ ps := by
  obtain ⟨frames, temps, marks⟩ := r
  cases frames with
  | nil => exact .inl h
  | cons f fs =>
    have h' : p ∈ (RootSet.mk (change f :: fs) temps marks).roots := h
    rw [mem_roots] at h' ⊢
    simp only [List.mem_cons, exists_eq_or_imp] at h' ⊢
    rcases h' with (hf | hfs) | htemp
    · exact (hchange f hf).imp_left fun hf => .inl (.inl hf)
    · exact .inl (.inl (.inr hfs))
    · exact .inl (.inr htemp)

/-- To bind a slot adds no other address to the frame. -/
theorem mem_addresses_bindSlot {f : Frame} {slot : Nat} (h : p ∈ (f.bindSlot slot q).addresses) :
    p ∈ f.addresses ∨ p ∈ [q] := by
  simp only [Frame.bindSlot, Frame.addresses, List.map_cons, List.mem_cons, List.mem_map,
    List.mem_filter] at h
  rcases h with rfl | ⟨binding, ⟨hmem, -⟩, rfl⟩
  · exact .inr (List.mem_singleton_self p)
  · exact .inl (List.mem_map_of_mem hmem)

/-- After an operation the roots are among those before and the addresses it was given. -/
theorem Op.mem_roots {op : Op} (h : p ∈ (op.run.after r).roots) :
    p ∈ r.roots ∨ p ∈ op.addresses := by
  cases op with
  | enter =>
    -- The new frame is empty.
    refine .inl ?_
    rw [RootSet.mem_roots] at h ⊢
    simpa [Op.run, Action.after, RootSet.enter, Frame.empty, Frame.addresses] using h
  | leave =>
    refine .inl ?_
    obtain ⟨frames, temps, marks⟩ := r
    cases frames with
    | nil => exact h
    | cons f fs =>
      have h' : p ∈ (RootSet.mk fs temps marks).roots := h
      rw [RootSet.mem_roots] at h' ⊢
      rcases h' with ⟨g, hg, hp⟩ | htemp
      · exact .inl ⟨g, List.mem_cons_of_mem f hg, hp⟩
      · exact .inr htemp
  | bindSlot slot q => exact mem_roots_updateFrame (fun _ => mem_addresses_bindSlot) h
  | unbindAll =>
    refine mem_roots_updateFrame (fun f hf => ?_) h
    simp [Frame.empty, Frame.addresses] at hf
  | openScope => exact .inl h
  | closeScope =>
    refine .inl ?_
    obtain ⟨frames, temps, marks⟩ := r
    cases marks with
    | nil => exact h
    | cons k ks =>
      have h' : p ∈ (RootSet.mk frames (temps.take k) ks).roots := h
      rw [RootSet.mem_roots] at h' ⊢
      exact h'.imp_right List.mem_of_mem_take
  | hold q => simpa [Op.addresses] using mem_roots_hold h

/-- `p` is a temporary, and closing scopes does not forget it as long as `n` of them stay open. -/
def Keeps (n : Nat) (p : Addr) (r : RootSet) : Prop :=
  ∃ i, r.temps[i]? = some p ∧ ∀ k ∈ r.marks.take (r.scopeDepth - n), i < k

/-- What a scope keeps is a root. -/
theorem Keeps.mem_roots (h : r.Keeps n p) : p ∈ r.roots := by
  obtain ⟨i, hi, -⟩ := h
  exact RootSet.mem_roots.mpr (.inr (List.mem_of_getElem? hi))

/-- A new temporary is kept as long as the scope that it was held in. -/
theorem keeps_hold (h : r.inScope) : (r.hold p).Keeps r.scopeDepth p := by
  refine ⟨r.temps.length, ?_, ?_⟩
  · simp [hold, h]
  · simp [hold, h, scopeDepth]

theorem scopeDepth_hold (r : RootSet) (p : Addr) : (r.hold p).scopeDepth = r.scopeDepth := by
  rw [RootSet.hold]
  split <;> rfl

/-- What the outer scopes keep is kept when another address is held. -/
theorem Keeps.hold (h : r.Keeps n p) (q : Addr) : (r.hold q).Keeps n p := by
  obtain ⟨i, hi, hmarks⟩ := h
  rw [RootSet.hold]
  split
  · refine ⟨i, ?_, hmarks⟩
    rw [List.getElem?_append_left (List.getElem?_eq_some_iff.mp hi).1]
    exact hi
  · exact ⟨i, hi, hmarks⟩

/-- What the outer scopes keep is kept when another is opened inside. -/
theorem Keeps.openScope (h : r.Keeps n p) (hn : n ≤ r.scopeDepth) : r.openScope.Keeps n p := by
  obtain ⟨i, hi, hmarks⟩ := h
  -- The new scope begins behind all temporaries there are.
  have hlt := (List.getElem?_eq_some_iff.mp hi).1
  refine ⟨i, hi, ?_⟩
  have hdepth : r.openScope.scopeDepth - n = (r.scopeDepth - n) + 1 := by
    simp only [RootSet.openScope, scopeDepth, List.length_cons] at hn ⊢
    omega
  rw [hdepth, RootSet.openScope, List.take_succ_cons, List.forall_mem_cons]
  exact ⟨hlt, hmarks⟩

/-- What the outer scopes keep is kept when one is closed inside. -/
theorem Keeps.closeScope (h : r.Keeps n p) (hn : n ≤ (RootSet.closeScope.after r).scopeDepth) :
    (RootSet.closeScope.after r).Keeps n p := by
  obtain ⟨frames, temps, marks⟩ := r
  obtain ⟨i, hi, hmarks⟩ := h
  cases marks with
  | nil => exact ⟨i, hi, hmarks⟩
  | cons k ks =>
    change n ≤ ks.length at hn
    have hdepth : (k :: ks).length - n = (ks.length - n) + 1 := by
      rw [List.length_cons]
      omega
    simp only [scopeDepth, hdepth, List.take_succ_cons, List.forall_mem_cons] at hmarks
    obtain ⟨hlt, hmarks⟩ := hmarks
    -- The temporaries that go are those from `k` on.
    refine ⟨i, ?_, hmarks⟩
    show (temps.take k)[i]? = some p
    rw [List.getElem?_take_of_lt hlt]
    exact hi

/-- What scopes keep has nothing to do with frames. -/
theorem Keeps.updateFrame (h : r.Keeps n p) (change : Frame → Frame) :
    ((RootSet.updateFrame change).after r).Keeps n p := by
  obtain ⟨frames, temps, marks⟩ := r
  cases frames <;> exact h

/-- A temporary is kept by every operation that leaves its scope open. -/
theorem Keeps.after (h : r.Keeps n p) (op : Op) (hn : n ≤ r.scopeDepth)
    (hn' : n ≤ (op.run.after r).scopeDepth) : (op.run.after r).Keeps n p := by
  cases op with
  | enter => exact h
  | leave =>
    obtain ⟨frames, temps, marks⟩ := r
    cases frames <;> exact h
  | bindSlot slot q => exact h.updateFrame _
  | unbindAll => exact h.updateFrame _
  | openScope => exact h.openScope hn
  | closeScope => exact h.closeScope hn'
  | hold q => exact h.hold q

end MarkSweep.RootSet
