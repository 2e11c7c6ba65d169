import MarkSweep.Action

/-!
# Results of actions

The result of an action has two parts: the state that it leaves behind (`Action.after`), which does
not depend on whether it was refused, and either an answer (`Action.answer?`) or a refusal
(`Action.refusal?`).
-/

namespace MarkSweep.Action

variable {σ α β : Type}

/-- The state that an operation leaves behind, refused or not. -/
def after (x : Action σ α) (s : σ) : σ :=
  match x s with
  | .ok _ t => t
  | .error _ t => t

/-- What an operation answers, if it is not refused. -/
def answer? (x : Action σ α) (s : σ) : Option α :=
  match x s with
  | .ok a _ => some a
  | .error _ _ => none

/-- Why an operation is refused, if it is. -/
def refusal? (x : Action σ α) (s : σ) : Option Refusal :=
  match x s with
  | .ok _ _ => none
  | .error e _ => some e

theorem after_of_eq_ok {x : Action σ α} {s t : σ} {a : α} (h : x s = .ok a t) : x.after s = t := by
  rw [after, h]

theorem after_of_eq_error {x : Action σ α} {s t : σ} {e : Refusal} (h : x s = .error e t) :
    x.after s = t := by
  rw [after, h]

/-- Answer and state left behind together are the result. -/
theorem eq_ok_of_answer? {x : Action σ α} {s : σ} {a : α} (h : x.answer? s = some a) :
    x s = .ok a (x.after s) := by
  unfold answer? at h
  split at h
  next hx =>
    obtain rfl := Option.some.inj h
    rw [after_of_eq_ok hx, hx]
  next => contradiction

/-- The refusal and the state left behind together are the result. -/
theorem eq_error_of_refusal? {x : Action σ α} {s : σ} {e : Refusal} (h : x.refusal? s = some e) :
    x s = .error e (x.after s) := by
  unfold refusal? at h
  split at h
  next => contradiction
  next hx =>
    obtain rfl := Option.some.inj h
    rw [after_of_eq_error hx, hx]

/-- To ignore the answer of an operation changes nothing about its effect. -/
@[simp]
theorem after_discard (x : Action σ α) (s : σ) :
    Action.after (discard x : Action σ PUnit) s = x.after s := by
  rw [after, discard_apply, after]
  cases x s <;> rfl

/-- A question is answered in the same state in which it has been asked. -/
theorem ask_eq_ok_iff {question : σ → Except Refusal α} {s t : σ} {a : α} :
    ask question s = .ok a t ↔ question s = .ok a ∧ t = s := by
  unfold ask
  cases question s <;> simp [eq_comm]

/-- A question that is refused has no effect either. -/
theorem ask_eq_error_iff {question : σ → Except Refusal α} {s t : σ} {e : Refusal} :
    ask question s = .error e t ↔ question s = .error e ∧ t = s := by
  unfold ask
  cases question s <;> simp [eq_comm]

/-- A question whose answer is not asked for has no effect. -/
theorem discard_ask_of_eq_ok {question : σ → Except Refusal α} {s : σ} {a : α}
    (h : question s = .ok a) : (discard (ask question) : Action σ PUnit) s = .ok ⟨⟩ s := by
  rw [discard_apply, ask_of_eq_ok h]

theorem discard_ask_of_eq_error {question : σ → Except Refusal α} {s : σ} {e : Refusal}
    (h : question s = .error e) : (discard (ask question) : Action σ PUnit) s = .error e s := by
  rw [discard_apply, ask_eq_error_iff.mpr ⟨h, rfl⟩]

/-- To go on after a condition means that it holds and that nothing has changed. -/
theorem require_eq_ok_iff {condition : Bool} {e : Refusal} {s t : σ} {u : Unit} :
    (require condition e : Action σ Unit) s = .ok u t ↔ condition ∧ t = s := by
  cases condition <;> simp [require, eq_comm]

/-- Once the first part has been answered, the sequence is what the second part makes of it. -/
theorem bind_of_eq_ok {x : Action σ α} {f : α → Action σ β} {s t : σ} {a : α}
    (h : x s = .ok a t) : (x >>= f) s = f a t := by
  rw [bind_apply, h]

/-- If the first part is refused, the second is not begun. -/
theorem bind_of_eq_error {x : Action σ α} {f : α → Action σ β} {s t : σ} {e : Refusal}
    (h : x s = .error e t) : (x >>= f) s = .error e t := by
  rw [bind_apply, h]

theorem after_bind_of_eq_ok {x : Action σ α} {f : α → Action σ β} {s t : σ} {a : α}
    (h : x s = .ok a t) : (x >>= f).after s = (f a).after t := by
  rw [after, bind_of_eq_ok h, after]

theorem after_bind_of_eq_error {x : Action σ α} {f : α → Action σ β} {s t : σ} {e : Refusal}
    (h : x s = .error e t) : (x >>= f).after s = t :=
  after_of_eq_error (bind_of_eq_error h)

/-- A sequence is answered if both of its parts are. -/
theorem bind_eq_ok_iff {x : Action σ α} {f : α → Action σ β} {s u : σ} {b : β} :
    (x >>= f) s = .ok b u ↔ ∃ a t, x s = .ok a t ∧ f a t = .ok b u := by
  rw [bind_apply]
  cases x s <;> simp [and_assoc]

/-- What an operation answers may be changed without another effect. -/
@[simp]
theorem after_bind_pure (x : Action σ α) (f : α → β) (s : σ) :
    (x >>= fun a => pure (f a)).after s = x.after s := by
  rw [after, bind_apply, after]
  cases x s <;> rfl

end MarkSweep.Action
