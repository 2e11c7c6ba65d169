import MarkSweep.Refusal

/-!
# Actions

An operation on a state that can be refused. A refusal carries its reason and the state it leaves
behind, for an operation that is refused half-way may already have changed something.

The lemmas say what the building blocks of an action do to a state, so that a longer action can be
followed step by step with `simp`.
-/

namespace MarkSweep

/-- An operation on a state `σ` with an answer in `α`. -/
abbrev Action (σ α : Type) := EStateM Refusal σ α

namespace Action

variable {σ τ α β : Type}

/-- Asks a question about the state, which does not change. -/
def ask (question : σ → Except Refusal α) : Action σ α := fun s =>
  match question s with
  | .ok a => .ok a s
  | .error e => .error e s

/-- Runs an operation on a part of the state. The focus takes a state apart, into the part and what
puts a state around the part again. -/
def within (focus : σ → τ × (τ → σ)) (x : Action τ α) : Action σ α := fun s =>
  let (part, around) := focus s
  match x part with
  | .ok a part => .ok a (around part)
  | .error e part => .error e (around part)

/-- Refuses unless a condition holds. -/
def require (condition : Bool) (otherwise : Refusal) : Action σ Unit := fun s =>
  if condition then .ok () s else .error otherwise s

/-- A refused action ends the sequence; otherwise the next action goes on from its state. -/
@[simp]
theorem bind_apply (x : Action σ α) (f : α → Action σ β) (s : σ) :
    (x >>= f) s = match x s with
      | .ok a t => f a t
      | .error e t => .error e t := by
  cases h : x s <;> simp [bind, EStateM.bind, h]

/-- An answer that is given at once leaves the state as it is. -/
@[simp]
theorem pure_apply (a : α) (s : σ) : (pure a : Action σ α) s = .ok a s := rfl

/-- A refusal undoes nothing: the state stays as it is at that moment. -/
@[simp]
theorem throw_apply (e : Refusal) (s : σ) : (throw e : Action σ α) s = .error e s := rfl

@[simp]
theorem get_apply (s : σ) : (get : Action σ σ) s = .ok s s := rfl

@[simp]
theorem set_apply (t s : σ) : (set t : Action σ PUnit) s = .ok ⟨⟩ t := rfl

@[simp]
theorem modify_apply (f : σ → σ) (s : σ) : (modify f : Action σ PUnit) s = .ok ⟨⟩ (f s) := rfl

/-- Discarding the answer of an action changes neither its state nor its refusals. -/
@[simp]
theorem discard_apply (x : Action σ α) (s : σ) : (discard x : Action σ PUnit) s = match x s with
    | .ok _ t => .ok ⟨⟩ t
    | .error e t => .error e t := by
  change EStateM.map (Function.const α PUnit.unit) x s = _
  rw [EStateM.map]
  cases x s <;> rfl

/-- A condition that holds is no obstacle, and has no effect. -/
@[simp]
theorem require_true (e : Refusal) (s : σ) : require true e s = .ok () s := rfl

/-- A condition that does not hold is refused for the given reason. -/
@[simp]
theorem require_false (e : Refusal) (s : σ) : require false e s = .error e s := rfl

/-- A question that has an answer leaves the state as it is. -/
theorem ask_of_eq_ok {question : σ → Except Refusal α} {s : σ} {a : α} (h : question s = .ok a) :
    ask question s = .ok a s := by
  rw [ask, h]

end Action

end MarkSweep
