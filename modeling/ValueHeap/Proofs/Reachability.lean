import Mathlib.Logic.Relation
import ValueHeap.Proofs.Coherence
import ValueHeap.Arena.Collection

/-!
# Reachability between values

`Leads` is the closure of the references between values, without regard to which slots are
occupied. In a coherent arena the walk of `reach` follows exactly these references, since no child
leaves the occupied slots: `mem_reach_iff_leads`.
-/

namespace ValueHeap

namespace Arena

/-- The value in `j` can be reached from the value in `i` along references, in zero or more
    steps. -/
def Leads (a : Arena) (i j : Slot) : Prop :=
  Relation.ReflTransGen (fun x y => y ∈ a.childrenAt x) i j

/-- The value in the slot can be reached from a root that names a value. -/
def Kept (a : Arena) (roots : List Handle) (i : Slot) : Prop :=
  ∃ h ∈ roots, a.resolves h ∧ a.Leads h.slot i

variable {a : Arena} {ledger : List Handle} {moving : List Slot}

namespace Coherent

/-- What can be reached from a live value is live. -/
theorem leads_live (c : a.Coherent ledger moving) {i j : Slot} (h : a.Leads i j)
    (hi : (a.occupant? i).isSome) : (a.occupant? j).isSome := by
  induction h with
  | refl => exact hi
  | tail _ hj _ => exact c.closed _ _ hj

theorem kept_live (c : a.Coherent ledger moving) {roots : List Handle} {i : Slot}
    (h : a.Kept roots i) : (a.occupant? i).isSome := by
  obtain ⟨r, _, hr, hl⟩ := h
  exact c.leads_live hl (resolves_iff_handleOf.mp hr).1

/-- **The walk over occupied slots reaches exactly what references lead to.** -/
theorem mem_reach_iff_leads (c : a.Coherent ledger moving) {start : List Slot}
    (hs : ∀ i ∈ start, (a.occupant? i).isSome) (j : Slot) :
    j ∈ reach a.childrenAt a.liveSlots start ↔ ∃ i ∈ start, a.Leads i j := by
  rw [mem_reach_iff]
  constructor
  · intro h
    induction h with
    | here hx _ => exact ⟨_, hx, .refl⟩
    | step _ hy _ ih =>
      obtain ⟨i, hi, hl⟩ := ih
      exact ⟨i, hi, hl.tail hy⟩
  · rintro ⟨i, hi, hl⟩
    induction hl with
    | refl => exact .here hi (mem_liveSlots.mpr (hs i hi))
    | tail _ hy ih => exact .step ih hy (mem_liveSlots.mpr (c.closed _ _ hy))

theorem mem_reachable (c : a.Coherent ledger moving) (roots : List Handle) (j : Slot) :
    j ∈ a.reachable roots ↔ a.Kept roots j := by
  unfold reachable
  rw [c.mem_reach_iff_leads]
  · constructor
    · rintro ⟨i, hi, hl⟩
      obtain ⟨h, hh, rfl⟩ := List.mem_map.mp hi
      obtain ⟨hm, hr⟩ := List.mem_filter.mp hh
      exact ⟨h, hm, hr, hl⟩
    · rintro ⟨h, hm, hr, hl⟩
      exact ⟨h.slot, List.mem_map_of_mem (List.mem_filter.mpr ⟨hm, hr⟩), hl⟩
  · intro i hi
    obtain ⟨h, hh, rfl⟩ := List.mem_map.mp hi
    exact (resolves_iff_handleOf.mp (List.mem_filter.mp hh).2).1

end Coherent

end Arena

end ValueHeap
