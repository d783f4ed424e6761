import ValueHeap.Proofs.Coherence
import ValueHeap.Arena.Collection

/-!
# Reclaiming what is no longer referred to

The cascade empties slots whose count is zero. The references that an emptied value held are on
the move until they are taken from its children, so the counts are exact before and after every
single step, and no count is ever taken below zero.

* `unlinkAll_coherent`: one round of references given up, with the list of slots that are to be
  emptied next;
* **`cascade_coherent`**: the whole cascade, by induction on its rounds.
-/

namespace ValueHeap

namespace Arena

variable {ledger : List Handle} {moving : List Slot}

/-- Every slot of the list that is occupied has no reference. -/
def Unreferred (a : Arena) (pending : List Slot) : Prop :=
  ∀ i ∈ pending, ∀ o, a.occupant? i = some o → o.count = 0

theorem mem_unreferenced {a : Arena} {i : Slot} :
    i ∈ a.unreferenced ↔ ∃ o, a.occupant? i = some o ∧ o.count = 0 := by
  unfold unreferenced count?
  rw [List.mem_filter, List.mem_range, beq_iff_eq, Option.map_eq_some_iff]
  constructor
  · exact fun h => h.2
  · rintro ⟨o, ho, h0⟩
    exact ⟨lt_size_of_occupant? (by rw [ho]; rfl), o, ho, h0⟩

/-- Giving up one reference leaves the slots without references as they were. -/
theorem Unreferred.unlink {a : Arena} {pending : List Slot} {c : Slot}
    (co : a.Coherent ledger (c :: moving)) (h : a.Unreferred pending) :
    (a.unlink c).Unreferred pending := by
  intro i hi o ho
  rw [occupant?_unlink] at ho
  by_cases e : i = c
  · subst e
    obtain ⟨o', ho', hpos⟩ := co.count_pos_of_moving
    have := h i hi o' ho'
    omega
  · rw [if_neg e] at ho
    exact h i hi o ho

theorem unlinkAll_coherent (children pending : List Slot) (a : Arena)
    (co : a.Coherent ledger (children ++ moving)) (h : a.Unreferred pending) :
    (a.unlinkAll children pending).1.Coherent ledger moving ∧
      (a.unlinkAll children pending).1.Unreferred (a.unlinkAll children pending).2 := by
  induction children generalizing a pending with
  | nil => exact ⟨co, h⟩
  | cons c children ih =>
    have co' := Coherent.unlink co
    have h' := h.unlink co
    unfold unlinkAll
    refine ih _ _ co' ?_
    by_cases h0 : (a.unlink c).count? c = some 0
    · rw [if_pos h0]
      intro i hi o ho
      rcases List.mem_cons.mp hi with rfl | hi
      · obtain ⟨o', ho', e⟩ := Option.map_eq_some_iff.mp h0
        rw [ho'] at ho
        cases ho
        exact e
      · exact h' i hi o ho
    · rw [if_neg h0]
      exact h'

theorem refills?_unlinkAll (children pending : List Slot) (a : Arena) (j : Slot) :
    (a.unlinkAll children pending).1.refills? j = a.refills? j := by
  induction children generalizing a pending with
  | nil => rfl
  | cons c children ih =>
    unfold unlinkAll
    exact (ih _ (a.unlink c)).trans (refills?_unlink a c j)

/-- What emptying a slot without references leaves, its payload's children on the move. -/
theorem free?_coherent {a b : Arena} {i : Slot} {p : Payload} (co : a.Coherent ledger moving)
    (h0 : ∀ o, a.occupant? i = some o → o.count = 0) (h : a.free? i = some (p, b)) :
    b.Coherent ledger (p.children ++ moving) := by
  obtain ⟨o, ho, rfl, hs⟩ := free?_eq_some h
  exact (co.vacate ho (h0 o ho)).of_sameSlots hs

/-- **One round keeps the invariant**: a slot without references is emptied, and the references that
    its value held are taken. -/
theorem round_coherent {a b : Arena} {i : Slot} {p : Payload} {pending : List Slot}
    (co : a.Coherent ledger moving) (h : a.Unreferred (i :: pending))
    (hf : a.free? i = some (p, b)) :
    (b.unlinkAll p.children pending).1.Coherent ledger moving ∧
      (b.unlinkAll p.children pending).1.Unreferred (b.unlinkAll p.children pending).2 := by
  obtain ⟨_, _, _, hs⟩ := free?_eq_some hf
  refine unlinkAll_coherent p.children pending b (free?_coherent co (h i List.mem_cons_self) hf) ?_
  intro j hj o ho
  rw [hs.occupant?, occupant?_vacate] at ho
  by_cases e : j = i
  · rw [if_pos e] at ho
    cases ho
  · rw [if_neg e] at ho
    exact h j (List.mem_cons_of_mem _ hj) o ho

/-- **The cascade keeps the invariant.** -/
theorem cascade_coherent (a : Arena) (freed : Nat) (pending : List Slot)
    (co : a.Coherent ledger moving) (h : a.Unreferred pending) :
    (a.cascade freed pending).2.Coherent ledger moving := by
  fun_induction cascade a freed pending with
  | case1 => exact co
  | case2 a freed i pending hn ih => exact ih co fun j hj => h j (List.mem_cons_of_mem _ hj)
  | case3 a freed i pending p b hf ih =>
    obtain ⟨h1, h2⟩ := round_coherent co h hf
    exact ih h1 h2

/-- A slot to look at that is empty is passed over. -/
theorem cascade_vacant {a : Arena} {i : Slot} (e : a.free? i = none) (freed : Nat)
    (pending : List Slot) : a.cascade freed (i :: pending) = a.cascade freed pending := by
  rw [cascade]
  split
  · rfl
  · rename_i hf
    rw [e] at hf
    cases hf

/-- One that is emptied is followed by what it alone held. -/
theorem cascade_emptied {a b : Arena} {i : Slot} {p : Payload} (e : a.free? i = some (p, b))
    (freed : Nat) (pending : List Slot) : a.cascade freed (i :: pending) =
      (b.unlinkAll p.children pending).1.cascade (freed + 1)
        (b.unlinkAll p.children pending).2 := by
  rw [cascade]
  split
  · rename_i hf
    rw [e] at hf
    cases hf
  · rename_i hf
    rw [e] at hf
    cases hf
    rfl

theorem refills?_cascade (a : Arena) (freed : Nat) (pending : List Slot) (j : Slot) :
    (a.cascade freed pending).2.refills? j = a.refills? j := by
  fun_induction cascade a freed pending with
  | case1 => rfl
  | case2 a freed i pending hn ih => exact ih
  | case3 a freed i pending p b hf ih =>
    obtain ⟨_, _, _, hs⟩ := free?_eq_some hf
    rw [ih, refills?_unlinkAll, hs.refills?, refills?_vacate]

theorem unreferred_unreferenced (a : Arena) : a.Unreferred a.unreferenced.reverse := by
  intro i hi o ho
  obtain ⟨o', ho', h0⟩ := mem_unreferenced.mp (List.mem_reverse.mp hi)
  rw [ho'] at ho
  cases ho
  exact h0

theorem reclaim_coherent {a : Arena} (co : a.Coherent ledger moving) :
    a.reclaim.2.Coherent ledger moving :=
  (cascade_coherent a 0 _ co a.unreferred_unreferenced).of_sameSlots (sameSlots_note _ _)

/-- Reclaiming keeps the generation of every slot. -/
theorem refills?_reclaim (a : Arena) (j : Slot) : a.reclaim.2.refills? j = a.refills? j :=
  ((sameSlots_note _ _).refills? j).trans (refills?_cascade a 0 _ j)

end Arena

end ValueHeap
