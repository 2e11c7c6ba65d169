import MarkSweep.Proofs.AuditedHeap.Faithful

/-!
# Audits

An audit goes through the record entry by entry and asks the heap about each block on it. It is
refused exactly if one of them is not as the record says (`auditEntries_cases`).

A sweep of the audited heap strikes the blocks that have gone off the record and audits the rest. On
a faithful record it goes like the sweep of the heap alone (`Faithful.alike_sweep`), and with that
so does every request (`Faithful.alike`).
-/

namespace MarkSweep

open MarkSweep.Action

/-- The heap owns the block on record, and its header is that of a block at rest that agrees with
the record. -/
def Entry.Rests (e : Entry) (h : BlockHeap) : Prop :=
  h.owns e.addr ∧ (h.headerAt e.addr).alloc ∧ (h.headerAt e.addr).mark = false ∧
    e.agrees (h.headerAt e.addr)

/-- What is left of the block on record is a header with neither bit set, inside no other block. -/
def Entry.Released (e : Entry) (h : BlockHeap) : Prop :=
  ∃ hd, h.header e.addr = .ok hd ∧ hd.alloc = false ∧ hd.mark = false

/-- A block on record has been released if a granule starts there, outside all blocks, whose header
has neither bit set. -/
theorem Entry.released_iff {e : Entry} {h : BlockHeap} (hm : h.Mapped) : e.Released h ↔
    h.layout.isBoundary e.addr ∧ h.map.isInsideBlock e.addr = false ∧
      (h.headerAt e.addr).alloc = false ∧ (h.headerAt e.addr).mark = false := by
  simp only [Released, BlockHeap.header_eq_ok_iff hm]
  constructor
  · rintro ⟨_, ⟨hp, hinside, rfl⟩, hclean⟩
    exact ⟨hp, hinside, hclean⟩
  · rintro ⟨hp, hinside, hclean⟩
    exact ⟨_, ⟨hp, hinside, rfl⟩, hclean⟩

namespace AuditedHeap

open BlockHeap (owns_iff)

variable {a : AuditedHeap BlockHeap} {log es : List Entry} {e : Entry} {p : Addr} {α : Type}

/-! ### Going through the record -/

/-- The heap behind the record is asked who owns an address without any effect on either. -/
theorem onInner_askOwns_eq (a : AuditedHeap BlockHeap) (p : Addr) :
    onInner (Heap.askOwns p) a = .ok (a.inner.owns p) a := by
  rw [onInner_apply]
  rfl

/-- An entry at rest is passed over. -/
theorem auditEntries_cons_of_rests (hm : a.inner.Mapped) (he : e.Rests a.inner) :
    auditEntries (e :: es) a = auditEntries es a := by
  obtain ⟨howns, hrests⟩ := he
  have hcheck : ask (fun _ => e.checkLive (a.inner.headerAt e.addr)) a = .ok () a :=
    ask_of_eq_ok (Entry.checkLive_eq_ok_iff.mpr hrests)
  simp only [auditEntries, bind_apply, onInner_askOwns_eq, howns, require_true,
    ask_header_apply _ (hm.header_eq howns), hcheck]

/-- An entry that is not at rest ends the audit, and nothing has been changed. -/
theorem auditEntries_cons_of_not_rests (hm : a.inner.Mapped) (he : ¬ e.Rests a.inner) :
    ∃ r, auditEntries (e :: es) a = .error r a := by
  by_cases howns : a.inner.owns e.addr
  · cases hlive : e.checkLive (a.inner.headerAt e.addr) with
    | ok _ => exact absurd ⟨howns, Entry.checkLive_eq_ok_iff.mp hlive⟩ he
    | error r =>
      have hcheck : ask (fun _ => e.checkLive (a.inner.headerAt e.addr)) a = .error r a :=
        ask_eq_error_iff.mpr ⟨hlive, rfl⟩
      refine ⟨r, ?_⟩
      simp only [auditEntries, bind_apply, onInner_askOwns_eq, howns, require_true,
        ask_header_apply _ (hm.header_eq howns), hcheck]
  · refine ⟨.ownershipMismatch e.addr false true, ?_⟩
    simp only [auditEntries, bind_apply, onInner_askOwns_eq, eq_false_of_ne_true howns,
      require_false]

/-- An audit goes through if all entries are in order, and is refused otherwise. -/
theorem auditEntries_cases (hm : a.inner.Mapped) (es : List Entry) :
    ((∀ e ∈ es, e.Rests a.inner) ∧ auditEntries es a = .ok () a) ∨
      (∃ e ∈ es, ¬ e.Rests a.inner) ∧ ∃ r, auditEntries es a = .error r a := by
  induction es with
  | nil => exact .inl ⟨by simp, rfl⟩
  | cons e es ih =>
    by_cases he : e.Rests a.inner
    · rw [auditEntries_cons_of_rests hm he]
      rcases ih with ⟨hall, hok⟩ | ⟨⟨e', he', hdisturbed⟩, herror⟩
      · exact .inl ⟨List.forall_mem_cons.mpr ⟨he, hall⟩, hok⟩
      · exact .inr ⟨⟨e', List.mem_cons_of_mem _ he', hdisturbed⟩, herror⟩
    · -- The first entry that is not in order ends the audit.
      exact .inr ⟨⟨e, List.mem_cons_self, he⟩, auditEntries_cons_of_not_rests hm he⟩

/-- With no disagreement remembered, an audit goes through the whole record. -/
theorem audit_eq (hmismatch : a.mismatch? = none) : audit a = auditEntries a.entries a := by
  have hcheck : ask checkMismatch a = .ok () a := by
    refine ask_of_eq_ok ?_
    rw [checkMismatch, hmismatch]
  simp only [audit, bind_apply, hcheck, get_apply]

/-- The header of a block on record is checked for what a released block leaves behind. -/
theorem ask_checkReleased_cases (e : Entry) (a : AuditedHeap BlockHeap) :
    let check : Action (AuditedHeap BlockHeap) Unit := ask fun a => do
      let header ← Heap.header a.inner e.addr
      e.checkReleased header
    (e.Released a.inner ∧ check a = .ok () a) ∨ ¬ e.Released a.inner ∧ ∃ r, check a = .error r a := by
  intro check
  cases hheader : a.inner.header e.addr with
  | error r =>
    have hinner : Heap.header a.inner e.addr = .error r := hheader
    refine .inr ⟨?_, r, ask_eq_error_iff.mpr ⟨by rw [hinner]; rfl, rfl⟩⟩
    rintro ⟨hd, hok, -⟩
    exact absurd (hheader.symm.trans hok) (by simp)
  | ok hd =>
    have hreleased : e.Released a.inner ↔ hd.alloc = false ∧ hd.mark = false := by
      simp only [Entry.Released, hheader, Except.ok.injEq, exists_eq_left']
    rw [hreleased, show check a = ask (fun _ => e.checkReleased hd) a from
      ask_header_apply _ hheader, ask, Entry.checkReleased]
    cases hd.alloc <;> cases hd.mark <;> simp

/-- The entries of owned blocks survive if all other blocks have been released. Otherwise there is
an end at one that has not. -/
theorem survivors_cases (es : List Entry) (a : AuditedHeap BlockHeap) :
    ((∀ e ∈ es, ¬ a.inner.owns e.addr → e.Released a.inner) ∧
        survivors es a = .ok (es.filter (a.inner.owns ·.addr)) a) ∨
      (∃ e ∈ es, ¬ a.inner.owns e.addr ∧ ¬ e.Released a.inner) ∧ ∃ r, survivors es a = .error r a := by
  induction es with
  | nil => exact .inl ⟨by simp, rfl⟩
  | cons e es ih =>
    rw [survivors, bind_of_eq_ok (onInner_askOwns_eq a e.addr), List.forall_mem_cons,
      List.exists_mem_cons_iff]
    cases howns : a.inner.owns e.addr with
    | true =>
      -- The block is still there, so its entry is kept.
      have hkept : (e :: es).filter (a.inner.owns ·.addr) =
          e :: es.filter (a.inner.owns ·.addr) := List.filter_cons_of_pos howns
      rw [if_pos rfl, hkept]
      rcases ih with ⟨hall, hok⟩ | ⟨hsome, r, herror⟩
      · exact .inl ⟨⟨by simp, hall⟩, bind_of_eq_ok hok⟩
      · exact .inr ⟨.inr hsome, r, bind_of_eq_error herror⟩
    | false =>
      -- The block has gone, and what it has left behind is checked.
      have hdropped : (e :: es).filter (a.inner.owns ·.addr) = es.filter (a.inner.owns ·.addr) :=
        List.filter_cons_of_neg (by simp [howns])
      rw [if_neg Bool.false_ne_true, hdropped]
      rcases ask_checkReleased_cases e a with ⟨he, hcheck⟩ | ⟨he, r, hcheck⟩
      · rw [bind_of_eq_ok hcheck]
        exact ih.imp (fun ⟨hall, hok⟩ => ⟨⟨fun _ => he, hall⟩, hok⟩)
          fun ⟨hsome, herror⟩ => ⟨.inr hsome, herror⟩
      · exact .inr ⟨.inl ⟨by simp, he⟩, r, bind_of_eq_error hcheck⟩

/-! ### Sweeping -/

/-- A sweep leaves no marks. -/
theorem mark_sweptHeader (hd : Header) : (BlockHeap.sweptHeader hd).mark = false := by
  rw [BlockHeap.sweptHeader]
  split <;> rfl

/-- Losing its mark makes no difference to whether a header agrees with its entry. -/
theorem agrees_sweptHeader (hd : Header) : e.agrees (BlockHeap.sweptHeader hd) = e.agrees hd := by
  rw [BlockHeap.sweptHeader]
  split <;> rfl

namespace Faithful

variable {h : BlockHeap} (hf : a.Faithful log)
  (hswept : BlockHeap.Swept a.inner.map.blocks a.inner h)

include hf hswept

/-- After the sweep of the heap, the header of each block on record is the swept one. -/
theorem headerAt_swept (he : e ∈ a.entries) :
    h.headerAt e.addr = BlockHeap.sweptHeader (a.inner.headerAt e.addr) := by
  obtain ⟨b, hb, hstart⟩ := owns_iff.mp (hf.owns_of_mem he)
  rw [← hstart]
  exact hswept.headerAt_of_mem b hb

/-- What is left of the blocks are those that the heap still owns. -/
theorem blocks_swept : h.map.blocks = a.inner.map.blocks.filter (h.owns ·.start) := by
  refine hswept.blocks_eq.trans (List.filter_congr fun b hb => ?_)
  have hiff : h.owns b.start ↔ b ∈ h.map.blocks := by
    refine ⟨fun howns => ?_, fun hb' => owns_iff.mpr ⟨b, hb', rfl⟩⟩
    obtain ⟨c, hc, hstart⟩ := owns_iff.mp howns
    have hc' : c ∈ a.inner.map.blocks := List.mem_of_mem_filter (hswept.blocks_eq ▸ hc)
    rwa [← hf.valid.map.eq_of_start_eq (BlockMap.mem_blocks.mp hc').1
      (BlockMap.mem_blocks.mp hb).1 hstart]
  rw [Bool.eq_iff_iff, hiff, hswept.blocks_eq, List.mem_filter]
  exact ⟨fun hkept => ⟨hb, hkept⟩, fun hkept => hkept.2⟩

/-- The record is faithful again when the blocks that have gone are struck off. -/
theorem swept (hc : h.Consistent) :
    Faithful { a with inner := h, entries := a.entries.filter (h.owns ·.addr) } log := by
  refine ⟨hswept.valid, hc, hf.mismatch_eq, ?_, ?_, ?_⟩
  · have hperm := hf.entries_perm.filter h.owns
    rw [List.filter_map, List.filter_map] at hperm
    rw [hf.blocks_swept hswept]
    exact hperm
  · exact fun e he => hf.logged e (List.mem_of_mem_filter he)
  · intro e he
    have he' := List.mem_of_mem_filter he
    exact (congrArg e.agrees (hf.headerAt_swept hswept he')).trans
      ((agrees_sweptHeader _).trans (hf.agrees e he'))

/-- The blocks that have gone have been released. -/
theorem released_swept (hc : h.Consistent) (he : e ∈ a.entries) (hgone : ¬ h.owns e.addr) :
    e.Released h := by
  have howns := hf.owns_of_mem he
  have hboundary : h.layout.isBoundary e.addr := hswept.layout_eq ▸ hf.valid.boundary howns
  have hinside : h.map.isInsideBlock e.addr = false := by
    -- It was inside no block before, and no block has come.
    have hbefore := hf.valid.map.not_isInsideBlock howns
    rw [BlockMap.isInsideBlock_eq_false_iff] at hbefore ⊢
    intro b hb hused
    have hb' : b ∈ a.inner.map.blocks :=
      List.mem_of_mem_filter (hswept.blocks_eq ▸ BlockMap.mem_blocks.mpr ⟨hb, hused⟩)
    exact hbefore b (BlockMap.mem_blocks.mp hb').1 (BlockMap.mem_blocks.mp hb').2
  exact (Entry.released_iff hc.mapped).mpr
    ⟨hboundary, hinside, hc.clear e.addr hboundary hgone⟩

/-- After a sweep the rest of the record passes an audit. -/
theorem audit_swept (hc : h.Consistent) :
    audit { a with inner := h, entries := a.entries.filter (h.owns ·.addr) } =
      .ok () { a with inner := h, entries := a.entries.filter (h.owns ·.addr) } := by
  have hf' := hf.swept hswept hc
  rw [audit_eq hf'.mismatch_eq]
  rcases auditEntries_cases hf'.valid.mapped (a.entries.filter (h.owns ·.addr)) with
    ⟨-, hok⟩ | ⟨⟨e, he, hdisturbed⟩, -⟩
  · exact hok
  · have howns := hf'.owns_of_mem he
    refine absurd ⟨howns, hc.alloc e.addr howns, ?_, hf'.agrees e he⟩ hdisturbed
    exact (congrArg Header.mark (hf.headerAt_swept hswept (List.mem_of_mem_filter he))).trans
      (mark_sweptHeader _)

/-- A sweep of the audited heap is a sweep of the heap, after which only the blocks still owned are
on record. -/
theorem sweep_eq {report : Sweep} (hsweep : BlockHeap.sweep a.inner = .ok report h)
    (hc : h.Consistent) : sweep a =
      .ok report { a with inner := h, entries := a.entries.filter (h.owns ·.addr) } := by
  have hinner : Heap.sweep a.inner = .ok report h := hsweep
  -- The survivors are looked for while the record is empty.
  have hsurvivors : survivors a.entries { a with inner := h, entries := [] } =
      .ok (a.entries.filter (h.owns ·.addr)) { a with inner := h, entries := [] } := by
    rcases survivors_cases a.entries { a with inner := h, entries := [] } with
      ⟨-, hok⟩ | ⟨⟨e, he, hgone, hnot⟩, -⟩
    · exact hok
    · exact absurd (hf.released_swept hswept hc he hgone) hnot
  simp only [sweep, bind_apply, hf.ask_checkMismatch_eq, onInner_apply, hinner, get_apply,
    set_apply, hsurvivors, modify_apply, hf.audit_swept hswept hc, pure_apply]

omit hswept

/-- A sweep goes with the record as it goes without. -/
theorem alike_sweep : Alike (Beside log) sweep BlockHeap.sweep a a.inner := by
  obtain ⟨h, hsweep, hswept⟩ := BlockHeap.sweep_eq hf.valid
  have hc : (BlockHeap.Request.sweep.run.after a.inner).Consistent :=
    BlockHeap.Request.Contained.consistent trivial hf.consistent
  rw [BlockHeap.Request.run, after_discard, after_of_eq_ok hsweep] at hc
  exact alike_of_eq_ok (hf.sweep_eq hswept hsweep hc) hsweep ⟨rfl, hf.swept hswept hc⟩

/-! ### All requests -/

/-- On a faithful record every request goes as on the heap alone, and the record stays faithful. -/
theorem alike (request : Heap.Request α) (hmarks : request.OnlyMarks a.inner) :
    Alike (Beside ((request.newEntry a.inner).toList ++ log)) request.run request.run a
      a.inner := by
  cases request with
  | allocate tag size => exact hf.alike_allocate tag size
  | header p => exact alike_ask_iff.mpr ⟨hf.header_eq p, rfl, hf⟩
  | setHeader p hd => exact hf.alike_setHeader hmarks
  | payload p => exact alike_ask_iff.mpr ⟨hf.payload_eq p, rfl, hf⟩
  | sweep => exact hf.alike_sweep
  | owns p =>
    have howns : Heap.askOwns p a = .ok (a.inner.owns p) a := by
      have hanswer : Heap.owns a p = (a.inner.owns p, a) := hf.owns_eq p
      rw [Heap.askOwns, hanswer]
    exact alike_of_eq_ok howns rfl ⟨rfl, hf⟩
  | usage => exact alike_of_eq_ok rfl rfl ⟨rfl, hf⟩

/-- A request that would change more of a header than its mark is refused without a change, so no
request at all makes the record unfaithful. -/
theorem after (request : Heap.Request α) :
    (request.run.after a).Faithful ((request.newEntry a.inner).toList ++ log) := by
  by_cases hmarks : request.OnlyMarks a.inner
  · exact (hf.alike request hmarks).after.2
  · cases request with
    | setHeader p hd =>
      obtain ⟨hp, hother⟩ := Classical.not_imp.mp hmarks
      have hheader : Heap.header a.inner p = .ok (a.inner.headerAt p) := hf.valid.header_eq hp
      have hrefused : Heap.setHeader p hd a = .error (.corruptHeader p .changesMoreThanMark) a := by
        refine (hf.setHeader_of_owns hp).trans (if_neg fun hsame => hother ?_)
        rw [hheader, hsame]
        rfl
      rw [Heap.Request.run, after_of_eq_error hrefused]
      exact hf
    | _ => exact absurd trivial hmarks

end Faithful

end AuditedHeap

end MarkSweep
