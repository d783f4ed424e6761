import Mathlib.Data.Set.Finite.List
import Mathlib.Order.WellFoundedSet
import ValueHeap.Proofs.Reclaim
import ValueHeap.Proofs.Reachability
import ValueHeap.Proofs.Ownership

/-!
# What the cascade empties, and what it leaves

A slot stays if it can be reached from a slot that has a handle outstanding or lies on a cycle of
references; the cascade empties every other. Two things are followed through its rounds: a set of
slots that support one another is never touched (`Supported`), and every slot whose count is zero
is on the list of slots to look at (`Listed`), so that at the end every count is positive.

* `Anchored` is what stays, `cascade_kept` that it does stay;
* `anchored_of_positive`: where every count is positive, every live slot is anchored; going from
  holder to holder ends at a handle or runs into a cycle;
* **`Coherent.reclaim_reclaimed`**: what reclaiming leaves of a coherent arena.
-/

namespace ValueHeap

namespace Arena

variable {a b c : Arena} {ledger : List Handle} {moving : List Slot}

/-! ## 1. What holds a value -/

/-- The value in `i` can be reached from the value in `j` in one step or more. -/
def Below (a : Arena) (i j : Slot) : Prop :=
  Relation.TransGen (fun x y => y ∈ a.childrenAt x) j i

/-- The slot can be reached from one that has a handle outstanding or lies on a cycle. -/
def Anchored (a : Arena) (ledger : List Handle) (i : Slot) : Prop :=
  ∃ s, (a.handleOf s ∈ ledger ∨ a.Below s s) ∧ a.Leads s i

theorem anchored_of_mem {i : Slot} (h : a.handleOf i ∈ ledger) : a.Anchored ledger i :=
  ⟨i, .inl h, .refl⟩

theorem anchored_of_cycle {i : Slot} (h : a.Below i i) : a.Anchored ledger i := ⟨i, .inr h, .refl⟩

/-- What an anchored value holds is anchored. -/
theorem Anchored.child {i j : Slot} (h : a.Anchored ledger i) (hj : j ∈ a.childrenAt i) :
    a.Anchored ledger j := by
  obtain ⟨s, hs, hl⟩ := h
  exact ⟨s, hs, hl.tail hj⟩

/-- With more references, more is anchored. -/
theorem Anchored.mono (hid : b.id = a.id) (hr : ∀ j, b.refills? j = a.refills? j)
    (hc : ∀ j, b.childrenAt j ⊆ a.childrenAt j) {i : Slot} (h : b.Anchored ledger i) :
    a.Anchored ledger i := by
  obtain ⟨s, hs, hl⟩ := h
  refine ⟨s, ?_, Relation.ReflTransGen.mono (fun x _ hy => hc x hy) _ _ hl⟩
  rw [← handleOf_eq hid (hr s)]
  exact hs.imp_right fun k => Relation.TransGen.mono (fun x _ hy => hc x hy) _ _ k

/-! ## 2. Slots that support one another -/

/-- Each of the slots is live, and a handle to it is outstanding or one of them holds it. -/
def Supported (a : Arena) (ledger : List Handle) (A : Slot → Prop) : Prop :=
  ∀ i, A i → (a.occupant? i).isSome ∧
    (a.handleOf i ∈ ledger ∨ ∃ j, A j ∧ i ∈ a.childrenAt j)

/-- **The anchored live slots support one another.** -/
theorem Coherent.supported (co : a.Coherent ledger moving) :
    a.Supported ledger fun i => (a.occupant? i).isSome ∧ a.Anchored ledger i := by
  -- a slot that holds a live one is live
  have hlive : ∀ {s i}, a.Leads s i → (a.occupant? i).isSome → (a.occupant? s).isSome := by
    intro s i hl hi
    rcases Relation.ReflTransGen.cases_head hl with rfl | ⟨x, hx, _⟩
    · exact hi
    · exact occupied_of_childrenAt hx
  rintro i ⟨hi, s, hs, hl⟩
  refine ⟨hi, ?_⟩
  rcases Relation.ReflTransGen.cases_tail hl with rfl | ⟨x, hx, hxi⟩
  · rcases hs with hm | hcyc
    · exact .inl hm
    · -- on a cycle, the slot before this one is on it too
      obtain ⟨y, hy, hyi⟩ := Relation.TransGen.tail'_iff.mp hcyc
      exact .inr ⟨y, ⟨co.leads_live hy hi, i, .inr hcyc, hy⟩, hyi⟩
  · exact .inr ⟨x, ⟨co.leads_live hx (hlive hl hi), s, hs, hx⟩, hxi⟩

theorem Supported.congr {A : Slot → Prop} (h : a.Supported ledger A) (hid : b.id = a.id)
    (hr : ∀ j, b.refills? j = a.refills? j) (hp : ∀ j, A j → b.payload? j = a.payload? j) :
    b.Supported ledger A := by
  intro i hi
  obtain ⟨hl, hs⟩ := h i hi
  refine ⟨?_, ?_⟩
  · have he := congrArg Option.isSome (hp i hi)
    simp only [payload?, Option.isSome_map] at he
    rwa [he]
  · rw [handleOf_eq hid (hr i)]
    refine hs.imp_right ?_
    rintro ⟨j, hj, hij⟩
    exact ⟨j, hj, by rwa [childrenAt_congr (hp j hj)]⟩

/-- A slot that is supported has a reference. -/
theorem Supported.count_pos {A : Slot → Prop} (h : a.Supported ledger A)
    (co : a.Coherent ledger moving) {i : Slot} {o : Occupant} (hi : A i)
    (ho : a.occupant? i = some o) : 0 < o.count := by
  have hc := co.counted i o ho
  rcases (h i hi).2 with hm | ⟨j, _, hj⟩
  · have := List.count_pos_iff.mpr hm
    omega
  · have := entriesOn_pos.mpr ⟨j, hj⟩
    omega

theorem payload?_unlinkAll (children pending : List Slot) (a : Arena) (j : Slot) :
    (a.unlinkAll children pending).1.payload? j = a.payload? j := by
  induction children generalizing a pending with
  | nil => rfl
  | cons c children ih =>
    unfold unlinkAll
    exact (ih _ (a.unlink c)).trans (payload?_unlink a c j)

/-- One round of the cascade changes one payload: the slot is emptied. -/
theorem payload?_round {i : Slot} {p : Payload} (hf : a.free? i = some (p, b))
    (pending : List Slot) (j : Slot) : (b.unlinkAll p.children pending).1.payload? j =
      if j = i then none else a.payload? j := by
  obtain ⟨o, _, _, hs⟩ := free?_eq_some hf
  rw [payload?_unlinkAll]
  have h := revises_vacate a i j
  rw [← h]
  unfold payload?
  rw [hs.occupant?]

/-- **The cascade empties slots, and none of those that support one another.** -/
theorem cascade_kept (a : Arena) (freed : Nat) (pending : List Slot) {A : Slot → Prop}
    (co : a.Coherent ledger moving) (hu : a.Unreferred pending) (hA : a.Supported ledger A) :
    (∀ j p, (a.cascade freed pending).2.payload? j = some p → a.payload? j = some p) ∧
      ∀ j, A j → (a.cascade freed pending).2.payload? j = a.payload? j := by
  fun_induction cascade a freed pending with
  | case1 => exact ⟨fun _ _ h => h, fun _ _ => rfl⟩
  | case2 a freed i pending hn ih => exact ih co (fun j hj => hu j (List.mem_cons_of_mem _ hj)) hA
  | case3 a freed i pending p b hf ih =>
    obtain ⟨o, ho, _, hs⟩ := free?_eq_some hf
    obtain ⟨co', hu'⟩ := round_coherent co hu hf
    have hround := payload?_round hf pending
    have hne : ∀ j, A j → j ≠ i := by
      rintro j hj rfl
      have := hA.count_pos co hj ho
      have := hu j List.mem_cons_self o ho
      omega
    have hA' : (b.unlinkAll p.children pending).1.Supported ledger A := by
      refine hA.congr ?_ (fun j => ?_) fun j hj => ?_
      · rw [id_unlinkAll, hs.id]
        rfl
      · rw [refills?_unlinkAll, hs.refills?, refills?_vacate]
      · rw [hround, if_neg (hne j hj)]
    obtain ⟨h1, h2⟩ := ih co' hu' hA'
    refine ⟨fun j q hq => ?_, fun j hj => ?_⟩
    · have h3 := h1 j q hq
      rw [hround] at h3
      by_cases e : j = i
      · rw [if_pos e] at h3
        cases h3
      · rwa [if_neg e] at h3
    · rw [h2 j hj, hround, if_neg (hne j hj)]

/-! ## 3. Slots without references -/

/-- Every occupied slot without a reference is on the list. -/
def Listed (a : Arena) (pending : List Slot) : Prop :=
  ∀ i o, a.occupant? i = some o → o.count = 0 → i ∈ pending

/-- A slot that loses its last reference is put on the list. -/
theorem unlinkAll_listed (children pending : List Slot) (a : Arena) (h : a.Listed pending) :
    (a.unlinkAll children pending).1.Listed (a.unlinkAll children pending).2 := by
  induction children generalizing a pending with
  | nil => exact h
  | cons c children ih =>
    unfold unlinkAll
    refine ih _ _ fun i o ho h0 => ?_
    by_cases e : i = c
    · subst e
      have hc : (a.unlink i).count? i = some 0 := by rw [count?, ho, Option.map_some, h0]
      rw [if_pos hc]
      exact List.mem_cons_self
    · rw [occupant?_unlink, if_neg e] at ho
      have hi := h i o ho h0
      split
      · exact List.mem_cons_of_mem _ hi
      · exact hi

/-- **After the cascade every count is positive.** -/
theorem cascade_positive (a : Arena) (freed : Nat) (pending : List Slot) (h : a.Listed pending) :
    ∀ i o, (a.cascade freed pending).2.occupant? i = some o → 0 < o.count := by
  fun_induction cascade a freed pending with
  | case1 a freed =>
    intro i o ho
    refine Nat.pos_of_ne_zero fun h0 => ?_
    cases h i o ho h0
  | case2 a freed i pending hn ih =>
    refine ih fun j o ho h0 => ?_
    rcases List.mem_cons.mp (h j o ho h0) with rfl | hj
    · rw [free?_eq_none.mp hn] at ho
      cases ho
    · exact hj
  | case3 a freed i pending p b hf ih =>
    obtain ⟨_, _, _, hs⟩ := free?_eq_some hf
    refine ih (unlinkAll_listed p.children pending b fun j o ho h0 => ?_)
    rw [hs.occupant?, occupant?_vacate] at ho
    by_cases e : j = i
    · rw [if_pos e] at ho
      cases ho
    · rw [if_neg e] at ho
      exact (List.mem_cons.mp (h j o ho h0)).resolve_left e

/-- The answer of the cascade is the number of slots it emptied. -/
theorem cascade_fst (a : Arena) (freed : Nat) (pending : List Slot) :
    (a.cascade freed pending).1 + (a.cascade freed pending).2.live = freed + a.live := by
  fun_induction cascade a freed pending with
  | case1 => rfl
  | case2 a freed i pending hn ih => exact ih
  | case3 a freed i pending p b hf ih =>
    have h1 := live_free? hf
    rw [live_unlinkAll] at ih
    omega

/-! ## 4. Where every count is positive -/

/-- `x` holds `y` up, by a chain of references that does not start on a cycle. -/
def HoldsUp (a : Arena) (x y : Slot) : Prop := a.Below y x ∧ ¬ a.Below x x

theorem isStrictOrder_holdsUp (a : Arena) : IsStrictOrder Slot a.HoldsUp where
  irrefl _ h := h.2 h.1
  trans _ _ _ h k := ⟨h.1.trans k.1, h.2⟩

/-- **Where every count is positive, every live slot is anchored**: there are finitely many live
    slots, so going from holder to holder ends at a handle or comes to a cycle. -/
theorem Coherent.anchored_of_positive (co : a.Coherent ledger [])
    (h : ∀ i o, a.occupant? i = some o → 0 < o.count) {i : Slot} (hi : (a.occupant? i).isSome) :
    a.Anchored ledger i := by
  have := isStrictOrder_holdsUp a
  have wf := (List.finite_toSet a.liveSlots).wellFoundedOn (r := a.HoldsUp)
  refine wf.induction (P := fun j => a.Anchored ledger j) (mem_liveSlots.mpr hi) ?_
  intro j hj ih
  obtain ⟨o, ho⟩ := Option.isSome_iff_exists.mp (mem_liveSlots.mp hj)
  have hc := co.counted j o ho
  have hpos := h j o ho
  rw [List.count_nil, Nat.add_zero] at hc
  by_cases hm : a.handleOf j ∈ ledger
  · exact anchored_of_mem hm
  · have h0 := List.count_eq_zero.mpr hm
    obtain ⟨k, hk⟩ := entriesOn_pos.mp (show 0 < a.entriesOn j by omega)
    refine Anchored.child ?_ hk
    by_cases hcyc : a.Below k k
    · exact anchored_of_cycle hcyc
    · exact ih k (mem_liveSlots.mpr (occupied_of_childrenAt hk)) ⟨.single hk, hcyc⟩

/-! ## 5. Reclaiming -/

/-- What reclaiming leaves, in terms of what is anchored; `freed` is what it answers. -/
structure Reclaimed (a b : Arena) (ledger : List Handle) (freed : Nat) : Prop where
  id : b.id = a.id
  refills? : ∀ j, b.refills? j = a.refills? j
  payload? : ∀ j p, b.payload? j = some p → a.payload? j = some p
  live_iff : ∀ j, (b.occupant? j).isSome ↔ (a.occupant? j).isSome ∧ a.Anchored ledger j
  positive : ∀ j o, b.occupant? j = some o → 0 < o.count
  freed : freed = (a.liveSlots.filter fun j => (b.occupant? j).isNone).length

/-- **What reclaiming leaves** of a coherent arena. -/
theorem Coherent.reclaim_reclaimed (co : a.Coherent ledger []) :
    Reclaimed a a.reclaim.2 ledger a.reclaim.1 := by
  have hs : SameSlots a.reclaim.2 (a.cascade 0 a.unreferenced.reverse).2 := sameSlots_note _ _
  have hu : a.Unreferred a.unreferenced.reverse := unreferred_unreferenced a
  have hlisted : a.Listed a.unreferenced.reverse := fun i o ho h0 =>
    List.mem_reverse.mpr (mem_unreferenced.mpr ⟨o, ho, h0⟩)
  have cb := reclaim_coherent co
  have hid : a.reclaim.2.id = a.id := hs.id.trans (id_cascade a 0 _)
  have hr := refills?_reclaim a
  have hpay : ∀ j, a.reclaim.2.payload? j =
      (a.cascade 0 a.unreferenced.reverse).2.payload? j := fun j => by
    unfold Arena.payload?
    rw [hs.occupant?]
  obtain ⟨hback, hkept⟩ := cascade_kept a 0 a.unreferenced.reverse co hu co.supported
  have hback' : ∀ j p, a.reclaim.2.payload? j = some p → a.payload? j = some p := fun j p hp =>
    hback j p ((hpay j).symm.trans hp)
  have hpos : ∀ j o, a.reclaim.2.occupant? j = some o → 0 < o.count := fun j o ho =>
    cascade_positive a 0 _ hlisted j o ((hs.occupant? j).symm.trans ho)
  have hlive : ∀ j, (a.reclaim.2.occupant? j).isSome →
      (a.occupant? j).isSome ∧ a.reclaim.2.payload? j = a.payload? j := by
    intro j hj
    obtain ⟨o, ho⟩ := Option.isSome_iff_exists.mp hj
    have hp := payload?_of_occupant? ho
    have hp' := hback' j _ hp
    exact ⟨occupied_of_payload? hp', hp.trans hp'.symm⟩
  have hsub : ∀ j, a.reclaim.2.childrenAt j ⊆ a.childrenAt j := by
    intro j x hx
    rwa [childrenAt_congr (hlive j (occupied_of_childrenAt hx)).2] at hx
  refine ⟨hid, hr, hback', fun j => ⟨fun hj => ⟨(hlive j hj).1, ?_⟩, fun hj => ?_⟩, hpos, ?_⟩
  · exact (cb.anchored_of_positive hpos hj).mono hid hr hsub
  · obtain ⟨o, ho⟩ := Option.isSome_iff_exists.mp hj.1
    refine occupied_of_payload? (p := o.payload) ?_
    rw [hpay, hkept j hj, payload?_of_occupant? ho]
  · have hn : a.reclaim.1 + a.reclaim.2.live = 0 + a.live := cascade_fst a 0 _
    have hsplit := live_split hr hback'
    omega

namespace Reclaimed

variable {n : Nat}

theorem payload?_of_anchored (w : Reclaimed a b ledger n) {j : Slot} (hj : (a.occupant? j).isSome)
    (h : a.Anchored ledger j) : b.payload? j = a.payload? j := by
  obtain ⟨o, ho⟩ := Option.isSome_iff_exists.mp ((w.live_iff j).mpr ⟨hj, h⟩)
  have hp := payload?_of_occupant? ho
  rw [w.payload? j _ hp, hp]

/-- **A handle outstanding that names a value still names it.** -/
theorem resolves (w : Reclaimed a b ledger n) {h : Handle} (hm : h ∈ ledger) (hr : a.resolves h) :
    b.resolves h := by
  obtain ⟨hl, he⟩ := resolves_iff_handleOf.mp hr
  refine resolves_iff_handleOf.mpr ⟨(w.live_iff _).mpr ⟨hl, anchored_of_mem (he ▸ hm)⟩, ?_⟩
  rw [handleOf_eq w.id (w.refills? _)]
  exact he

/-- **Reclaiming again finds nothing.** -/
theorem again (w : Reclaimed a b ledger n) :
    b.reclaim.1 = 0 ∧ ∀ j, b.reclaim.2.occupant? j = b.occupant? j := by
  have hnone : b.unreferenced = [] := by
    rw [List.eq_nil_iff_forall_not_mem]
    intro i hi
    obtain ⟨o, ho, h0⟩ := mem_unreferenced.mp hi
    have := w.positive i o ho
    omega
  unfold reclaim
  rw [hnone, List.reverse_nil, cascade]
  exact ⟨rfl, fun j => rfl⟩

end Reclaimed

end Arena

end ValueHeap
