import MarkSweep.Proofs.AuditedHeap.Audit
import MarkSweep.Proofs.BlockHeap.Frames
import MarkSweep.Proofs.Moves

/-!
# Audited heaps with an open back

The heap behind a record can be got at: a program may make any request there, and the record does
not learn of it (`AuditedHeap.Exposed`). Heap and record may come to differ in any way then. What
remains is that the heap is in one piece and that no address is on record twice
(`AuditedHeap.Orderly`, `Exposed.orderly`).

What a sweep has done to heap and record depends on where it ends (`AuditedHeap.SweepCourse`,
`sweep_course`).
-/

namespace MarkSweep.AuditedHeap

open MarkSweep.Action

/-- The audited heaps that were new in memories of 32-bit addresses and have been used, audited and
changed behind the record in any way. -/
inductive Exposed : AuditedHeap BlockHeap → Prop where
  | start {memory : Memory} {layout : Layout} {heap : BlockHeap}
      (memory_le : memory.size ≤ UInt32.size)
      (created : BlockHeap.create memory layout = .ok heap) : Exposed (.start heap)
  | request {a : AuditedHeap BlockHeap} {α : Type} (exposed : Exposed a)
      (request : Heap.Request α) : Exposed (request.run.after a)
  | audit {a : AuditedHeap BlockHeap} (exposed : Exposed a) : Exposed (audit.after a)
  | bypass {a : AuditedHeap BlockHeap} (exposed : Exposed a) (request : BlockHeap.Request) :
      Exposed ((onInner request.run).after a)

/-- The map of the heap fits its region, and there is one entry at most for each address. -/
structure Orderly (a : AuditedHeap BlockHeap) : Prop where
  mapped : a.inner.Mapped
  nodup : (a.entries.map (·.addr)).Nodup

variable {a b : AuditedHeap BlockHeap} {h : BlockHeap} {es : List Entry} {p : Addr} {α : Type}

/-- Tracked are the addresses that have an entry. -/
theorem isTracked_iff {H : Type} {a : AuditedHeap H} :
    a.isTracked p ↔ p ∈ a.entries.map (·.addr) := by
  rw [isTracked, entry?, List.find?_isSome, List.mem_map]
  simp only [decide_eq_true_eq]

/-! ### Sweeping -/

/-- An audit changes nothing, and it succeeds only if every entry is at rest in the heap. -/
theorem audit_cases (hm : a.inner.Mapped) :
    (∀ e ∈ a.entries, e.Rests a.inner) ∧ audit a = .ok () a ∨ ∃ r, audit a = .error r a := by
  cases hcheck : ask checkMismatch a with
  | error r t =>
    obtain ⟨-, rfl⟩ := ask_eq_error_iff.mp hcheck
    exact .inr ⟨r, bind_of_eq_error hcheck⟩
  | ok _ t =>
    obtain ⟨-, rfl⟩ := ask_eq_ok_iff.mp hcheck
    have haudit : audit t = auditEntries t.entries t := bind_of_eq_ok hcheck
    rw [haudit]
    rcases auditEntries_cases hm t.entries with hok | ⟨-, herror⟩
    · exact .inl hok
    · exact .inr herror

/-- How a sweep can go: whether it is refused, and what it has done to heap and record by then. -/
inductive SweepCourse (a : AuditedHeap BlockHeap) :
    EStateM.Result Refusal (AuditedHeap BlockHeap) Sweep → Prop where
  /-- A disagreement is remembered, so nothing is done. -/
  | stopped {r : Refusal} (remembered : a.mismatch? ≠ none) : SweepCourse a (.error r a)
  /-- The sweep of the heap is refused. -/
  | cutShort {r : Refusal} {h : BlockHeap} (settled : a.mismatch? = none)
      (swept : BlockHeap.sweep a.inner = .error r h) : SweepCourse a (.error r { a with inner := h })
  /-- A block that has gone has not been released, and the record is empty at that time. -/
  | abandoned {r : Refusal} {report : Sweep} {h : BlockHeap} (settled : a.mismatch? = none)
      (swept : BlockHeap.sweep a.inner = .ok report h)
      (unreleased : ∃ e ∈ a.entries, ¬ h.owns e.addr ∧ ¬ e.Released h) :
      SweepCourse a (.error r { a with inner := h, entries := [] })
  /-- The record has been revised, and the audit is refused. -/
  | disputed {r : Refusal} {report : Sweep} {h : BlockHeap} (settled : a.mismatch? = none)
      (swept : BlockHeap.sweep a.inner = .ok report h)
      (released : ∀ e ∈ a.entries, ¬ h.owns e.addr → e.Released h) :
      SweepCourse a (.error r { a with inner := h, entries := a.entries.filter (h.owns ·.addr) })
  | completed {report : Sweep} {h : BlockHeap} (settled : a.mismatch? = none)
      (swept : BlockHeap.sweep a.inner = .ok report h)
      (released : ∀ e ∈ a.entries, ¬ h.owns e.addr → e.Released h)
      (rests : ∀ e ∈ a.entries.filter (h.owns ·.addr), e.Rests h) :
      SweepCourse a (.ok report { a with inner := h, entries := a.entries.filter (h.owns ·.addr) })

/-- Every sweep of a heap in one piece has one of these courses, whatever the record says. -/
theorem sweep_course (hm : a.inner.Mapped) : SweepCourse a (sweep a) := by
  cases hmismatch : a.mismatch? with
  | some m =>
    have hcheck : ask checkMismatch a = .error (.ownershipMismatch m.addr m.heap !m.heap) a :=
      ask_eq_error_iff.mpr ⟨by rw [checkMismatch, hmismatch], rfl⟩
    rw [sweep, bind_of_eq_error hcheck]
    exact .stopped (by simp [hmismatch])
  | none =>
    have hcheck : ask checkMismatch a = .ok () a :=
      ask_of_eq_ok (by rw [checkMismatch, hmismatch])
    have hinner := onInner_apply (Heap.sweep : Action BlockHeap Sweep) a
    rw [sweep, bind_of_eq_ok hcheck]
    cases hsweep : BlockHeap.sweep a.inner with
    | error r h =>
      have hsweep' : Heap.sweep a.inner = .error r h := hsweep
      rw [hsweep'] at hinner
      rw [bind_of_eq_error hinner]
      exact .cutShort hmismatch hsweep
    | ok report h =>
      have hsweep' : Heap.sweep a.inner = .ok report h := hsweep
      rw [hsweep'] at hinner
      have hm' : h.Mapped := by
        have hafter := BlockHeap.Request.mapped .sweep hm
        rwa [BlockHeap.Request.run, after_discard, after_of_eq_ok hsweep] at hafter
      rw [bind_of_eq_ok hinner]
      -- The record is revised while it is empty.
      rcases survivors_cases a.entries { a with inner := h, entries := [] } with
        ⟨hreleased, hkept⟩ | ⟨hunreleased, r, hbad⟩
      · rcases audit_cases (a := { a with inner := h, entries := a.entries.filter (h.owns ·.addr) })
          hm' with ⟨hrests, hok⟩ | ⟨r, herror⟩
        · simp only [bind_apply, get_apply, set_apply, hkept, modify_apply, hok, pure_apply]
          exact .completed hmismatch hsweep hreleased hrests
        · simp only [bind_apply, get_apply, set_apply, hkept, modify_apply, herror]
          exact .disputed hmismatch hsweep hreleased
      · simp only [bind_apply, get_apply, set_apply, hbad]
        exact .abandoned hmismatch hsweep hunreleased

/-! ### Heap and record stay in order -/

/-- The action leaves an orderly state behind, if it is given one. -/
def KeepsOrder (x : Action (AuditedHeap BlockHeap) α) (a : AuditedHeap BlockHeap) : Prop :=
  a.Orderly → (x.after a).Orderly

/-- An action that changes nothing keeps order. -/
theorem keepsOrder_of_after_eq {x : Action (AuditedHeap BlockHeap) α} (hx : x.after a = a) :
    KeepsOrder x a := by
  intro ha
  rwa [hx]

/-- A sequence keeps order if its first part does, and its second wherever it is begun. -/
theorem KeepsOrder.bind {β : Type} {x : Action (AuditedHeap BlockHeap) α}
    {f : α → Action (AuditedHeap BlockHeap) β} (hx : KeepsOrder x a)
    (hf : ∀ answer b, x a = .ok answer b → KeepsOrder (f answer) b) : KeepsOrder (x >>= f) a := by
  have hx : Moves (fun a b : AuditedHeap BlockHeap => a.Orderly → b.Orderly) id x a := hx
  exact hx.bind (fun _ _ _ hab hbc ha => hbc (hab ha)) hf

/-- What is read of the state is the state itself. -/
theorem keepsOrder_get_bind {f : AuditedHeap BlockHeap → Action (AuditedHeap BlockHeap) α}
    (hf : KeepsOrder (f a) a) : KeepsOrder (get >>= f) a := hf

/-- Order is kept when the heap is replaced by another in one piece and entries are struck off. -/
theorem Orderly.of_sublist (ha : a.Orderly) (hm : h.Mapped) (hsub : es.Sublist a.entries) :
    Orderly { a with inner := h, entries := es } :=
  ⟨hm, ha.nodup.sublist (hsub.map _)⟩

/-- Order is kept when an address is taken on record that has not been there. -/
theorem Orderly.record (ha : a.Orderly) (tag : Tag) (size : Nat) (hp : a.isTracked p = false) :
    Orderly { a with entries := a.entries ++ [⟨p, tag, size⟩] } := by
  refine ⟨ha.mapped, ?_⟩
  rw [List.map_append]
  refine List.nodup_append.mpr ⟨ha.nodup, List.pairwise_singleton _ _, fun q hq r hr heq => ?_⟩
  obtain rfl : r = p := List.mem_singleton.mp hr
  exact ne_true_of_eq_false hp (isTracked_iff.mpr (heq ▸ hq))

/-- What comes to a request of the heap keeps order, for it does not touch the record. -/
theorem keepsOrder_onInner {x : Action BlockHeap α} (request : BlockHeap.Request)
    (hx : x.after a.inner = request.run.after a.inner) : KeepsOrder (onInner x) a := by
  intro ha
  rw [after_onInner, hx]
  exact ha.of_sublist (request.mapped ha.mapped) (List.Sublist.refl _)

theorem keepsOrder_ask (question : AuditedHeap BlockHeap → Except Refusal α)
    (a : AuditedHeap BlockHeap) : KeepsOrder (ask question) a :=
  keepsOrder_of_after_eq (after_ask ..)

theorem keepsOrder_require (condition : Bool) (e : Refusal) (a : AuditedHeap BlockHeap) :
    KeepsOrder (require condition e) a :=
  keepsOrder_of_after_eq (after_require ..)

/-- An allocation keeps order, for an address is taken on record only if it is not there yet. -/
theorem keepsOrder_allocate (tag : Tag) (size : Nat) (a : AuditedHeap BlockHeap) :
    KeepsOrder (allocate tag size) a := by
  refine (keepsOrder_ask _ _).bind fun _ b _ => ?_
  have hinner : KeepsOrder (onInner (Heap.allocate tag size)) b :=
    keepsOrder_onInner (.allocate tag size) (after_discard ..).symm
  refine hinner.bind fun room b _ => ?_
  cases room with
  | none => exact keepsOrder_of_after_eq rfl
  | some p =>
    refine keepsOrder_get_bind ((keepsOrder_require _ _ _).bind fun _ c hc => ?_)
    obtain ⟨hnew, rfl⟩ := require_eq_ok_iff.mp hc
    refine (keepsOrder_ask _ _).bind fun _ d hd => ?_
    obtain ⟨-, rfl⟩ := ask_eq_ok_iff.mp hd
    -- It has been checked that the address is not on record, so it may be taken on record.
    exact fun hd => hd.record tag size (by simpa using hnew)

/-- Replacing a header keeps order, refused or not. -/
theorem keepsOrder_setHeader (p : Addr) (hd : Header) (a : AuditedHeap BlockHeap) :
    KeepsOrder (setHeader p hd) a := by
  refine (keepsOrder_ask _ _).bind fun _ b _ => keepsOrder_get_bind ?_
  cases b.entry? p with
  | none => exact keepsOrder_of_after_eq rfl
  | some entry =>
    refine (keepsOrder_require _ _ _).bind fun _ c _ => ?_
    exact keepsOrder_onInner (.setHeader p hd) rfl

/-- A sweep keeps order on each of its courses, also where it loses entries. -/
theorem keepsOrder_sweep (a : AuditedHeap BlockHeap) : KeepsOrder sweep a := by
  intro ha
  have hm := BlockHeap.Request.mapped .sweep ha.mapped
  rw [BlockHeap.Request.run, after_discard] at hm
  have hcourse := sweep_course ha.mapped
  rw [after]
  generalize sweep a = result at hcourse ⊢
  -- Whatever the course, what is left on record is some of what has been there.
  cases hcourse with
  | stopped _ => exact ha
  | cutShort _ hswept =>
    rw [after_of_eq_error hswept] at hm
    exact ha.of_sublist hm (List.Sublist.refl _)
  | abandoned _ hswept _ =>
    rw [after_of_eq_ok hswept] at hm
    exact ha.of_sublist hm (List.nil_sublist _)
  | disputed _ hswept _ =>
    rw [after_of_eq_ok hswept] at hm
    exact ha.of_sublist hm List.filter_sublist
  | completed _ hswept _ _ =>
    rw [after_of_eq_ok hswept] at hm
    exact ha.of_sublist hm List.filter_sublist

/-- Whatever is asked of an audited heap, order is kept. -/
theorem keepsOrder_request (request : Heap.Request α) (a : AuditedHeap BlockHeap) :
    KeepsOrder request.run a := by
  cases request with
  | allocate tag size => exact keepsOrder_allocate tag size a
  | header p => exact keepsOrder_ask _ a
  | setHeader p hd => exact keepsOrder_setHeader p hd a
  | payload p => exact keepsOrder_ask _ a
  | sweep => exact keepsOrder_sweep a
  | owns p => exact fun ha => ⟨ha.mapped, ha.nodup⟩
  | usage => exact keepsOrder_of_after_eq rfl

/-- By induction over its history, an exposed heap is in order, whatever has been done behind the
record. -/
theorem Exposed.orderly (ha : Exposed a) : a.Orderly := by
  induction ha with
  | start _ hcreated => exact ⟨BlockHeap.mapped_of_create hcreated, List.nodup_nil⟩
  | request _ request ih => exact keepsOrder_request request _ ih
  | @audit a _ ih =>
    rcases audit_cases ih.mapped with ⟨-, hok⟩ | ⟨r, herror⟩
    · rwa [after_of_eq_ok hok]
    · rwa [after_of_eq_error herror]
  | bypass _ request ih => exact keepsOrder_onInner request rfl ih

end MarkSweep.AuditedHeap
