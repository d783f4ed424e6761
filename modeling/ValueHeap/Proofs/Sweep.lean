import ValueHeap.Proofs.Reachability

/-!
# Sweeping what cannot be reached

A sweep empties every slot that no root leads to, and then takes the references held by what is
gone from the counts of what stays. That this leaves the counts exact rests on their being exact
before: the entries on a slot that stays split into those that are gone and those that stay.

* `freeAll_emptied`, `freeAll_fst`: emptying a list of slots;
* `settle_settled`: no reference beyond the slots is met, and no count falls short;
* **`sweep_swept`**: what a sweep of a coherent arena leaves, in terms of what the roots lead to;
* `Swept.coherent`, `Swept.again`, `sweep_congr`: the arena is coherent again, a second sweep finds
  nothing, and only the set of resolving roots matters.
-/

namespace ValueHeap

namespace Arena

variable {a b : Arena} {ledger : List Handle}

/-! ## 1. Emptying a list of slots -/

/-- `b` is `a` with the given slots emptied. -/
structure Emptied (a b : Arena) (is : List Slot) : Prop where
  id : b.id = a.id
  occupant? : ∀ j, b.occupant? j = if j ∈ is then none else a.occupant? j
  refills? : ∀ j, b.refills? j = a.refills? j

theorem freeAll_emptied (is : List Slot) (a : Arena) : Emptied a (a.freeAll is).2 is := by
  induction is generalizing a with
  | nil => exact ⟨rfl, fun _ => rfl, fun _ => rfl⟩
  | cons i is ih =>
    unfold freeAll
    cases hf : a.free? i with
    | none =>
      have h := ih a
      refine ⟨h.id, fun j => ?_, h.refills?⟩
      rw [h.occupant?]
      by_cases e : j = i
      · rw [e, free?_eq_none.mp hf, ite_self, ite_self]
      · simp [e]
    | some q =>
      obtain ⟨p, b⟩ := q
      obtain ⟨o, ho, rfl, hs⟩ := free?_eq_some hf
      have h := ih b
      refine ⟨h.id.trans hs.id, fun j => ?_, fun j => ?_⟩
      · show (b.freeAll is).2.occupant? j = _
        rw [h.occupant?, hs.occupant?, occupant?_vacate]
        by_cases e : j = i
        · simp [e]
        · simp [e]
      · show (b.freeAll is).2.refills? j = _
        rw [h.refills?, hs.refills?, refills?_vacate]

theorem VacantExact.freeAll (is : List Slot) (v : a.VacantExact) :
    (a.freeAll is).2.VacantExact := by
  induction is generalizing a with
  | nil => exact v
  | cons i is ih =>
    unfold Arena.freeAll
    cases hf : a.free? i with
    | none => exact ih v
    | some q =>
      obtain ⟨p, b⟩ := q
      obtain ⟨o, ho, _, hs⟩ := free?_eq_some hf
      exact ih ((v.vacate (by rw [ho]; rfl)).of_sameSlots hs)

/-- The payloads that come out, where no slot is listed twice. -/
theorem freeAll_fst (is : List Slot) (a : Arena) (hd : is.Nodup) :
    (a.freeAll is).1 = is.filterMap a.payload? := by
  induction is generalizing a with
  | nil => rfl
  | cons i is ih =>
    obtain ⟨hi, hd⟩ := List.nodup_cons.mp hd
    unfold freeAll
    cases hf : a.free? i with
    | none =>
      have hp : a.payload? i = none := by rw [payload?, free?_eq_none.mp hf]; rfl
      rw [List.filterMap_cons_none hp]
      exact ih a hd
    | some q =>
      obtain ⟨p, b⟩ := q
      obtain ⟨o, ho, rfl, hs⟩ := free?_eq_some hf
      have hp := payload?_of_occupant? ho
      show o.payload :: (b.freeAll is).1 = _
      rw [List.filterMap_cons_some hp, ih b hd]
      -- the slots that follow are other slots, so emptying this one leaves them alone
      refine congrArg _ (List.filterMap_congr fun j hj => ?_)
      have hji : j ≠ i := fun e => hi (e ▸ hj)
      unfold payload?
      rw [hs.occupant?, occupant?_vacate, if_neg hji]

/-! ## 2. Taking the references of what is gone -/

/-- `b` is `a` with the orphaned references taken from the slots that stay. -/
structure Settled (a b : Arena) (staying orphaned : List Slot) : Prop where
  id : b.id = a.id
  vacant : b.vacant = a.vacant
  occupant? : ∀ j, b.occupant? j = if j ∈ staying then
    (a.occupant? j).map (fun o => { o with count := o.count - orphaned.count j })
    else a.occupant? j
  refills? : ∀ j, b.refills? j = a.refills? j

namespace Settled

variable {d : Arena} {c : Slot} {staying orphaned : List Slot}

theorem none (a : Arena) (staying : List Slot) : Settled a a staying [] := by
  refine ⟨rfl, rfl, fun j => ?_, fun _ => rfl⟩
  cases a.occupant? j <;> simp

/-- A reference to a slot that stays is taken first. -/
theorem take (h : Settled (a.unlink c) d staying orphaned) (hm : c ∈ staying) :
    Settled a d staying (c :: orphaned) := by
  refine ⟨h.id.trans (id_unlink a c), h.vacant.trans (vacant_unlink a c), fun j => ?_,
    fun j => (h.refills? j).trans (refills?_unlink a c j)⟩
  rw [h.occupant?, occupant?_unlink]
  by_cases hj : j ∈ staying
  · rw [if_pos hj, if_pos hj]
    by_cases e : j = c
    · rw [if_pos e, Option.map_map, e, List.count_cons_self]
      refine congrArg (fun f => (a.occupant? c).map f) (funext fun o => ?_)
      show Occupant.mk (o.count - 1 - orphaned.count c) o.payload = ⟨_, o.payload⟩
      rw [Nat.sub_sub, Nat.add_comm]
    · rw [if_neg e, List.count_cons_of_ne (Ne.symm e)]
  · have e : j ≠ c := fun e => hj (e ▸ hm)
    rw [if_neg hj, if_neg hj, if_neg e]

/-- A reference to a slot that does not stay is passed over. -/
theorem skip (h : Settled a d staying orphaned) (hm : c ∉ staying) :
    Settled a d staying (c :: orphaned) := by
  refine ⟨h.id, h.vacant, fun j => ?_, h.refills?⟩
  rw [h.occupant?]
  by_cases hj : j ∈ staying
  · have e : c ≠ j := fun e => hm (e ▸ hj)
    rw [if_pos hj, if_pos hj, List.count_cons_of_ne e]
  · rw [if_neg hj, if_neg hj]

end Settled

/-- **The references of what is gone are taken without fault**, where they name slots of the
    arena. -/
theorem settle_settled {slots : Nat} {staying : List Slot} (orphaned : List Slot) (a : Arena)
    (hb : ∀ i ∈ orphaned, i < slots) :
    ∃ b, a.settle slots staying orphaned = .ok () b ∧ Settled a b staying orphaned := by
  induction orphaned generalizing a with
  | nil => exact ⟨a, rfl, .none a staying⟩
  | cons c orphaned ih =>
    have hlt : ¬ slots ≤ c := Nat.not_le.mpr (hb c List.mem_cons_self)
    have hb' : ∀ i ∈ orphaned, i < slots := fun i hi => hb i (List.mem_cons_of_mem _ hi)
    unfold settle
    rw [if_neg hlt]
    by_cases hm : c ∈ staying
    · rw [if_pos hm]
      obtain ⟨b, hok, h⟩ := ih (a.unlink c) hb'
      exact ⟨b, hok, h.take hm⟩
    · rw [if_neg hm]
      obtain ⟨b, hok, h⟩ := ih a hb'
      exact ⟨b, hok, h.skip hm⟩

/-! ## 3. Sweeping -/

/-- What a sweep leaves, in terms of what the roots lead to; `freed` is what it answers. -/
structure Swept (a b : Arena) (roots : List Handle) (freed : Nat) : Prop where
  id : b.id = a.id
  vacant : b.VacantExact
  refills? : ∀ j, b.refills? j = a.refills? j
  gone : ∀ j, ¬ a.Kept roots j → b.occupant? j = none
  kept : ∀ j, a.Kept roots j → b.occupant? j =
    (a.occupant? j).map (fun o => { o with count := o.count - a.entriesGone b j })
  freed : freed = (a.liveSlots.filter fun j => (b.occupant? j).isNone).length

/-- What the payloads in some slots refer to; an empty slot adds nothing. -/
theorem flatMap_payloads (a : Arena) (is : List Slot) :
    (is.filterMap a.payload?).flatMap Payload.children =
      (is.filter fun i => (a.occupant? i).isSome).flatMap a.childrenAt := by
  induction is with
  | nil => rfl
  | cons i is ih =>
    cases ho : a.occupant? i with
    | none =>
      have hp : a.payload? i = none := by rw [payload?, ho]; rfl
      rw [List.filterMap_cons_none hp, List.filter_cons_of_neg (by simp [ho]), ih]
    | some o =>
      rw [List.filterMap_cons_some (payload?_of_occupant? ho),
        List.filter_cons_of_pos (by simp [ho]), List.flatMap_cons, List.flatMap_cons, ih,
        childrenAt_of_occupant? ho]

theorem length_payloads (a : Arena) (is : List Slot) :
    (is.filterMap a.payload?).length = (is.filter fun i => (a.occupant? i).isSome).length := by
  induction is with
  | nil => rfl
  | cons i is ih =>
    cases ho : a.occupant? i with
    | none =>
      have hp : a.payload? i = none := by rw [payload?, ho]; rfl
      rw [List.filterMap_cons_none hp, List.filter_cons_of_neg (by simp [ho]), ih]
    | some o =>
      rw [List.filterMap_cons_some (payload?_of_occupant? ho),
        List.filter_cons_of_pos (by simp [ho]), List.length_cons, List.length_cons, ih]

/-- The slots that are looked at and occupied are the live slots that do not stay. -/
theorem filter_live (a : Arena) (staying : List Slot) :
    (((List.range a.cells.size).filter fun i => !staying.contains i).filter
      fun i => (a.occupant? i).isSome) = a.liveSlots.filter fun i => !staying.contains i := by
  unfold liveSlots
  rw [List.filter_filter, List.filter_filter]
  exact List.filter_congr fun i _ => Bool.and_comm _ _

/-- `b` is `a` with every slot emptied that does not stay, and the references taken that the values
    in them held. -/
structure Cleared (a b : Arena) (staying : List Slot) : Prop where
  id : b.id = a.id
  vacant : b.VacantExact
  refills? : ∀ j, b.refills? j = a.refills? j
  occupant? : ∀ j, b.occupant? j = if j ∈ staying then
    (a.occupant? j).map (fun o => { o with count := o.count -
      ((a.liveSlots.filter fun i => !staying.contains i).flatMap a.childrenAt).count j })
    else none

/-- **Clearing does not fail** in a coherent arena: the references that are taken are some of the
    entries. -/
theorem Coherent.cleared (c : a.Coherent ledger []) (staying : List Slot) :
    let looked := (List.range a.cells.size).filter fun i => !staying.contains i
    ∃ b, (a.freeAll looked).2.settle a.cells.size staying
      ((a.freeAll looked).1.flatMap Payload.children) = .ok () b ∧ Cleared a b staying := by
  intro looked
  set dead := a.liveSlots.filter fun i => !staying.contains i with hdead
  have hem := freeAll_emptied looked a
  have hnl : ∀ j ∈ staying, j ∉ looked := by
    intro j hj hm
    have := (List.mem_filter.mp hm).2
    simp [hj] at this
  have horph : (a.freeAll looked).1.flatMap Payload.children = dead.flatMap a.childrenAt := by
    rw [freeAll_fst looked a (List.nodup_range.filter _), flatMap_payloads, filter_live]
  have hin : ∀ i ∈ dead.flatMap a.childrenAt, i < a.cells.size := by
    intro i hi
    obtain ⟨j, _, hj⟩ := List.mem_flatMap.mp hi
    exact lt_size_of_occupant? (c.closed i j hj)
  obtain ⟨b, hok, hs⟩ := settle_settled (dead.flatMap a.childrenAt) (a.freeAll looked).2 hin
  refine ⟨b, horph ▸ hok, hs.id.trans hem.id, ?_, fun j => (hs.refills? j).trans (hem.refills? j),
    fun j => ?_⟩
  · refine (c.vacant.freeAll looked).congr hs.vacant hs.refills? fun j => ?_
    rw [hs.occupant?]
    by_cases hj : j ∈ staying
    · rw [if_pos hj, Option.isSome_map]
    · rw [if_neg hj]
  · rw [hs.occupant?, hem.occupant?]
    by_cases hj : j ∈ staying
    · rw [if_pos hj, if_pos hj, if_neg (hnl j hj)]
    · rw [if_neg hj, if_neg hj]
      by_cases hl : j ∈ looked
      · rw [if_pos hl]
      · rw [if_neg hl, ← Option.not_isSome_iff_eq_none]
        intro ho
        exact hl (List.mem_filter.mpr ⟨List.mem_range.mpr (lt_size_of_occupant? ho), by simp [hj]⟩)

/-- **What a sweep leaves** of a coherent arena. It always answers. -/
theorem Coherent.sweep_swept (c : a.Coherent ledger []) (roots : List Handle) :
    ∃ n b, a.sweep roots = .ok n b ∧ Swept a b roots n := by
  set staying := a.reachable roots with hst
  set looked := (List.range a.cells.size).filter fun i => !staying.contains i with hlk
  have hstay : ∀ j, j ∈ staying ↔ a.Kept roots j := c.mem_reachable roots
  obtain ⟨s, hok, hs⟩ := c.cleared staying
  let b := { s with containersBuilt := 0 }.note
    (.collect (a.freeAll looked).1.length { s with containersBuilt := 0 }.live)
  have hbs : SameSlots b s := ⟨rfl, rfl, rfl⟩
  -- the dead are the live slots that are empty afterwards
  have hdead : (a.liveSlots.filter fun i => !staying.contains i) =
      a.liveSlots.filter fun j => (b.occupant? j).isNone := by
    refine List.filter_congr fun j hj => ?_
    obtain ⟨o, ho⟩ := Option.isSome_iff_exists.mp (mem_liveSlots.mp hj)
    rw [hbs.occupant?, hs.occupant?]
    by_cases hm : j ∈ staying
    · simp [hm, ho]
    · simp [hm]
  refine ⟨(a.freeAll looked).1.length, b, ?_, hs.id, hs.vacant.of_sameSlots hbs, hs.refills?,
    fun j hj => ?_, fun j hj => ?_, ?_⟩
  · unfold sweep
    simp only [← hst, ← hlk]
    rw [hok]
    rfl
  · rw [hbs.occupant?, hs.occupant?, if_neg fun hm => hj ((hstay j).mp hm)]
  · rw [hbs.occupant?, hs.occupant?, if_pos ((hstay j).mpr hj), hdead]
    rfl
  · rw [freeAll_fst looked a (List.nodup_range.filter _), length_payloads, filter_live, hdead]

namespace Swept

variable {roots : List Handle} {n : Nat}

theorem kept_of_live (w : Swept a b roots n) {j : Slot} (h : (b.occupant? j).isSome) :
    a.Kept roots j := by
  by_contra hk
  rw [w.gone j hk] at h
  cases h

theorem payload? (w : Swept a b roots n) {j : Slot} (h : a.Kept roots j) :
    b.payload? j = a.payload? j := by
  unfold Arena.payload?
  rw [w.kept j h, Option.map_map]
  rfl

theorem payload?_of_some (w : Swept a b roots n) {j : Slot} {p : Payload}
    (h : b.payload? j = some p) : a.payload? j = some p := by
  obtain ⟨o, ho, _⟩ := Option.map_eq_some_iff.mp h
  rw [← w.payload? (w.kept_of_live (by rw [ho]; rfl)), h]

theorem childrenAt (w : Swept a b roots n) {j : Slot} (h : a.Kept roots j) :
    b.childrenAt j = a.childrenAt j := childrenAt_congr (w.payload? h)

theorem handleOf (w : Swept a b roots n) (j : Slot) : b.handleOf j = a.handleOf j :=
  handleOf_eq w.id (w.refills? j)

theorem live_iff (w : Swept a b roots n) (c : a.Coherent ledger []) (j : Slot) :
    (b.occupant? j).isSome ↔ a.Kept roots j := by
  refine ⟨w.kept_of_live, fun h => ?_⟩
  rw [w.kept j h, Option.isSome_map]
  exact c.kept_live h

/-- The child of a value that stays, stays. -/
theorem kept_child (w : Swept a b roots n) {i j : Slot} (h : i ∈ b.childrenAt j) :
    a.Kept roots i := by
  have hj := w.kept_of_live (occupied_of_childrenAt h)
  rw [w.childrenAt hj] at h
  obtain ⟨r, hr, hres, hl⟩ := hj
  exact ⟨r, hr, hres, hl.tail h⟩

/-- **What a sweep leaves is coherent**: what it took from a count is what is gone from the
    entries. -/
theorem coherent (w : Swept a b roots n) (c : a.Coherent ledger []) : b.Coherent ledger [] where
  vacant := w.vacant
  issued h hm e := by
    rw [w.refills?]
    exact c.issued h hm (e.trans w.id)
  counted j o ho := by
    have hk := w.kept_of_live (by rw [ho]; rfl)
    rw [w.kept j hk] at ho
    obtain ⟨o', ho', rfl⟩ := Option.map_eq_some_iff.mp ho
    have h1 := c.counted j o' ho'
    have h2 := entriesOn_split w.refills? (fun i p => w.payload?_of_some) j
    rw [w.handleOf]
    show o'.count - _ = _
    omega
  closed i j hj := (w.live_iff c i).mpr (w.kept_child hj)
  views i d hd := by
    have hk : a.Kept roots d := w.kept_child (j := i) (by
      rw [childrenAt_of_payload? hd]
      exact List.mem_cons_self)
    have h1 := c.views i d (w.payload?_of_some hd)
    unfold kind? at h1 ⊢
    rwa [w.payload? hk]
  moving_live i hi := by cases hi

/-- **Handles that still name a value** are those that did, to what is kept. -/
theorem resolves_iff (w : Swept a b roots n) (c : a.Coherent ledger []) (h : Handle) :
    b.resolves h ↔ a.resolves h ∧ a.Kept roots h.slot := by
  rw [resolves_iff_handleOf, resolves_iff_handleOf, w.handleOf, w.live_iff c]
  constructor
  · rintro ⟨hk, he⟩
    exact ⟨⟨c.kept_live hk, he⟩, hk⟩
  · rintro ⟨⟨_, he⟩, hk⟩
    exact ⟨hk, he⟩

/-- **Nothing that stays is without a reference**, where the roots are outstanding handles. -/
theorem count_pos (w : Swept a b roots n) (c : a.Coherent ledger []) (hr : ∀ h ∈ roots, h ∈ ledger)
    {j : Slot} {o : Occupant} (ho : b.occupant? j = some o) : 0 < o.count := by
  have cb := w.coherent c
  have h1 := cb.counted j o ho
  obtain ⟨r, hm, hres, hl⟩ := w.kept_of_live (by rw [ho]; rfl)
  cases Relation.ReflTransGen.cases_tail hl with
  | inl e =>
    -- a root: its handle is outstanding
    subst e
    have he := (resolves_iff_handleOf.mp hres).2
    have h2 := List.count_pos_iff.mpr (hr r hm)
    rw [w.handleOf, ← he] at h1
    omega
  | inr e =>
    -- no root: the value before it on the way stays and holds it
    obtain ⟨i, hi, hj⟩ := e
    have hk : a.Kept roots i := ⟨r, hm, hres, hi⟩
    have h2 : 0 < b.entriesOn j := entriesOn_pos.mpr ⟨i, by rwa [w.childrenAt hk]⟩
    omega

/-- What the roots lead to, they still lead to. -/
theorem kept_again (w : Swept a b roots n) (c : a.Coherent ledger []) {j : Slot}
    (h : a.Kept roots j) : b.Kept roots j := by
  obtain ⟨r, hm, hres, hl⟩ := h
  have hroot : a.Kept roots r.slot := ⟨r, hm, hres, .refl⟩
  refine ⟨r, hm, (w.resolves_iff c r).mpr ⟨hres, hroot⟩, ?_⟩
  induction hl with
  | refl => exact .refl
  | tail hi hj ih =>
    rw [← w.childrenAt ⟨r, hm, hres, hi⟩] at hj
    exact ih.tail hj

/-- **A second sweep finds nothing** and leaves every occupant as it is. -/
theorem again (w : Swept a b roots n) (c : a.Coherent ledger []) :
    ∃ d, b.sweep roots = .ok 0 d ∧ ∀ j, d.occupant? j = b.occupant? j := by
  have cb := w.coherent c
  obtain ⟨m, d, hok, h⟩ := cb.sweep_swept roots
  have hstay : ∀ j, (b.occupant? j).isSome → (d.occupant? j).isSome := fun j hj =>
    (h.live_iff cb j).mpr (w.kept_again c (w.kept_of_live hj))
  have hnone : (b.liveSlots.filter fun j => (d.occupant? j).isNone) = [] := by
    rw [List.filter_eq_nil_iff]
    intro j hj
    obtain ⟨o, ho⟩ := Option.isSome_iff_exists.mp (hstay j (mem_liveSlots.mp hj))
    simp [ho]
  have hm : m = 0 := by rw [h.freed, hnone]; rfl
  refine ⟨d, hm ▸ hok, fun j => ?_⟩
  by_cases hk : b.Kept roots j
  · have h0 : b.entriesGone d j = 0 := by rw [entriesGone, hnone]; rfl
    rw [h.kept j hk, h0]
    cases b.occupant? j <;> rfl
  · rw [h.gone j hk]
    cases ho : b.occupant? j with
    | none => rfl
    | some o => exact absurd (w.kept_again c (w.kept_of_live (by rw [ho]; rfl))) hk

end Swept

/-! ## 4. The order of the roots -/

theorem settle_congr {slots : Nat} {staying staying' : List Slot}
    (h : ∀ j, j ∈ staying' ↔ j ∈ staying) (orphaned : List Slot) (a : Arena) :
    a.settle slots staying' orphaned = a.settle slots staying orphaned := by
  induction orphaned generalizing a with
  | nil => rfl
  | cons c orphaned ih =>
    unfold settle
    by_cases hc : c ∈ staying
    · rw [if_pos hc, if_pos ((h c).mpr hc), ih]
    · rw [if_neg hc, if_neg fun k => hc ((h c).mp k), ih]

/-- **Only the set of the roots that resolve matters**, not their order or repetition. -/
theorem sweep_congr (c : a.Coherent ledger []) {roots roots' : List Handle}
    (h : ∀ r, a.resolves r → (r ∈ roots' ↔ r ∈ roots)) : a.sweep roots' = a.sweep roots := by
  have hk : ∀ j, j ∈ a.reachable roots' ↔ j ∈ a.reachable roots := by
    intro j
    rw [c.mem_reachable, c.mem_reachable]
    constructor
    · rintro ⟨r, hm, hres, hl⟩
      exact ⟨r, (h r hres).mp hm, hres, hl⟩
    · rintro ⟨r, hm, hres, hl⟩
      exact ⟨r, (h r hres).mpr hm, hres, hl⟩
  have hf : ((List.range a.cells.size).filter fun i => !(a.reachable roots').contains i) =
      (List.range a.cells.size).filter fun i => !(a.reachable roots).contains i := by
    refine List.filter_congr fun i _ => ?_
    by_cases hi : i ∈ a.reachable roots
    · have hi' := (hk i).mpr hi
      simp [hi, hi']
    · have hi' : i ∉ a.reachable roots' := fun k => hi ((hk i).mp k)
      simp [hi, hi']
  unfold sweep
  simp only [hf, settle_congr hk]

end Arena

end ValueHeap
