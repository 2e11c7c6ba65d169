import MarkSweep.Proofs.Action

/-!
# Actions that go alike

Two actions, each on a state of its own, go alike (`Action.Alike`) if both give the same answer or
are refused for the same reason, and the states that they leave behind are related.

A sequence goes alike if each of its parts does, from the states that the parts before it have left
(`Alike.bind`). So a program over one kind of state is compared with the same program over another
by following its text once.
-/

namespace MarkSweep.Action

variable {σ τ σ' τ' α β : Type} {R Q : σ → τ → Prop} {s s' : σ} {t t' : τ}

/-- `x` goes on from `s` as `y` does from `t`, and the states they leave are related by `R`. -/
structure Alike (R : σ → τ → Prop) (x : Action σ α) (y : Action τ α) (s : σ) (t : τ) : Prop where
  answer_eq : x.answer? s = y.answer? t
  refusal_eq : x.refusal? s = y.refusal? t
  after : R (x.after s) (y.after t)

section Results

variable {x : Action σ α} {y : Action τ α} {a : α} {e : Refusal}

/-- Two actions with the same answer go alike if the states they leave are related. -/
theorem alike_of_eq_ok (hx : x s = .ok a s') (hy : y t = .ok a t') (hR : R s' t') :
    Alike R x y s t := by
  refine ⟨?_, ?_, ?_⟩
  · rw [answer?, hx, answer?, hy]
  · rw [refusal?, hx, refusal?, hy]
  · rwa [after_of_eq_ok hx, after_of_eq_ok hy]

/-- Two actions with the same refusal go alike if the states they leave are related. -/
theorem alike_of_eq_error (hx : x s = .error e s') (hy : y t = .error e t') (hR : R s' t') :
    Alike R x y s t := by
  refine ⟨?_, ?_, ?_⟩
  · rw [answer?, hx, answer?, hy]
  · rw [refusal?, hx, refusal?, hy]
  · rwa [after_of_eq_error hx, after_of_eq_error hy]

/-- Two actions that go alike are both answered or both refused. -/
theorem Alike.cases (h : Alike R x y s t) :
    (∃ a s' t', x s = .ok a s' ∧ y t = .ok a t' ∧ R s' t') ∨
      ∃ e s' t', x s = .error e s' ∧ y t = .error e t' ∧ R s' t' := by
  cases hx : x s with
  | ok a s' =>
    have hanswer : y.answer? t = some a := by rw [← h.answer_eq, answer?, hx]
    refine .inl ⟨a, s', y.after t, rfl, eq_ok_of_answer? hanswer, ?_⟩
    exact after_of_eq_ok hx ▸ h.after
  | error e s' =>
    have hrefusal : y.refusal? t = some e := by rw [← h.refusal_eq, refusal?, hx]
    refine .inr ⟨e, s', y.after t, rfl, eq_error_of_refusal? hrefusal, ?_⟩
    exact after_of_eq_error hx ▸ h.after

/-- Actions that go alike do so for every coarser relation between the states. -/
theorem Alike.mono (h : Alike R x y s t) (hRQ : ∀ s t, R s t → Q s t) : Alike Q x y s t :=
  ⟨h.answer_eq, h.refusal_eq, hRQ _ _ h.after⟩

end Results

/-! ### Building blocks -/

theorem alike_pure (a : α) (hR : R s t) : Alike R (pure a) (pure a) s t :=
  alike_of_eq_ok rfl rfl hR

theorem alike_throw (e : Refusal) (hR : R s t) :
    Alike R (throw e : Action σ α) (throw e) s t := alike_of_eq_error rfl rfl hR

theorem alike_modify {f : σ → σ} {g : τ → τ} (hR : R (f s) (g t)) :
    Alike R (modify f) (modify g) s t := alike_of_eq_ok rfl rfl hR

theorem alike_require (condition : Bool) (e : Refusal) (hR : R s t) :
    Alike R (require condition e) (require condition e) s t := by
  cases condition with
  | true => exact alike_of_eq_ok rfl rfl hR
  | false => exact alike_of_eq_error rfl rfl hR

/-- Questions go alike exactly if they have the same answer. -/
theorem alike_ask_iff {q : σ → Except Refusal α} {r : τ → Except Refusal α} :
    Alike R (ask q) (ask r) s t ↔ q s = r t ∧ R s t := by
  constructor
  · intro h
    rcases h.cases with ⟨a, s', t', hq, hr, hR⟩ | ⟨e, s', t', hq, hr, hR⟩
    · obtain ⟨hq, rfl⟩ := ask_eq_ok_iff.mp hq
      obtain ⟨hr, rfl⟩ := ask_eq_ok_iff.mp hr
      exact ⟨hq.trans hr.symm, hR⟩
    · obtain ⟨hq, rfl⟩ := ask_eq_error_iff.mp hq
      obtain ⟨hr, rfl⟩ := ask_eq_error_iff.mp hr
      exact ⟨hq.trans hr.symm, hR⟩
  · rintro ⟨hqr, hR⟩
    cases hr : r t with
    | ok a =>
      exact alike_of_eq_ok (ask_eq_ok_iff.mpr ⟨hqr.trans hr, rfl⟩)
        (ask_eq_ok_iff.mpr ⟨hr, rfl⟩) hR
    | error e =>
      exact alike_of_eq_error (ask_eq_error_iff.mpr ⟨hqr.trans hr, rfl⟩)
        (ask_eq_error_iff.mpr ⟨hr, rfl⟩) hR

/-- The second part of a sequence has to go alike from the states that the first part leaves, if it
is answered. -/
theorem Alike.bind {x : Action σ α} {y : Action τ α} {f : α → Action σ β} {g : α → Action τ β}
    (h : Alike R x y s t)
    (hfg : ∀ a s' t', x s = .ok a s' → y t = .ok a t' → R s' t' → Alike R (f a) (g a) s' t') :
    Alike R (x >>= f) (y >>= g) s t := by
  rcases h.cases with ⟨a, s', t', hx, hy, hR⟩ | ⟨e, s', t', hx, hy, hR⟩
  · obtain ⟨hanswer, hrefusal, hafter⟩ := hfg a s' t' hx hy hR
    refine ⟨?_, ?_, ?_⟩
    · simpa only [answer?, bind_apply, hx, hy] using hanswer
    · simpa only [refusal?, bind_apply, hx, hy] using hrefusal
    · rwa [after_bind_of_eq_ok hx, after_bind_of_eq_ok hy]
  · refine alike_of_eq_error (e := e) ?_ ?_ hR
    · rw [bind_apply, hx]
    · rw [bind_apply, hy]

/-- What is read of the states may differ, as long as the same comes of it. -/
theorem alike_get_bind {f : σ → Action σ α} {g : τ → Action τ α}
    (h : Alike R (f s) (g t) s t) : Alike R (get >>= f) (get >>= g) s t :=
  ⟨h.answer_eq, h.refusal_eq, h.after⟩

/-- Actions that go alike still do if their answers are ignored. -/
theorem Alike.discard {x : Action σ α} {y : Action τ α} (h : Alike R x y s t) :
    Alike R (discard x) (discard y) s t := by
  rcases h.cases with ⟨a, s', t', hx, hy, hR⟩ | ⟨e, s', t', hx, hy, hR⟩
  · refine alike_of_eq_ok (a := ⟨⟩) ?_ ?_ hR
    · rw [discard_apply, hx]
    · rw [discard_apply, hy]
  · refine alike_of_eq_error (e := e) ?_ ?_ hR
    · rw [discard_apply, hx]
    · rw [discard_apply, hy]

/-- Actions on parts of the states go alike if they do so on the parts. -/
theorem Alike.within {R' : σ' → τ' → Prop} {x : Action σ α} {y : Action τ α}
    {focus : σ' → σ × (σ → σ')} {focus' : τ' → τ × (τ → τ')} {u : σ'} {v : τ'}
    (h : Alike R x y (focus u).1 (focus' v).1)
    (haround : ∀ s t, R s t → R' ((focus u).2 s) ((focus' v).2 t)) :
    Alike R' (Action.within focus x) (Action.within focus' y) u v := by
  rcases h.cases with ⟨a, s', t', hx, hy, hR⟩ | ⟨e, s', t', hx, hy, hR⟩
  · refine alike_of_eq_ok (a := a) ?_ ?_ (haround _ _ hR)
    · simp only [Action.within, hx]
    · simp only [Action.within, hy]
  · refine alike_of_eq_error (e := e) ?_ ?_ (haround _ _ hR)
    · simp only [Action.within, hx]
    · simp only [Action.within, hy]

end MarkSweep.Action
