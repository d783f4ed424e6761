import ValueHeap.Proofs.Journals

/-!
# No reference is taken from a count of zero

Every reference is counted: one that is held in a value, one that a handle stands for, and one that
an operation has in hand. An operation takes only references that it was handed, that it has added
or that a value gave up, so each of them is still counted when it is taken.

* `Arena.Backed`: the counts cover the references in values and those on the move;
  **`Stroked.backed`** is the step;
* `Drawn.never_short`, **`Phrase.never_short`**: no stroke of an operation takes a reference that is
  not counted;
* **`World.Reachable.never_short`**: what a program is permitted to do never does.
-/

namespace ValueHeap

open Arena

namespace Arena

variable {a b : Arena} {s : Stroke} {log : List Stroke} {m m' n : Multiset Slot} {whole : Prop}
  {ledger : List Handle}

/-! ## 1. References and counts -/

/-- The counts cover the references in values and those on the move. Where the arena is whole, what
    is referred to is there. -/
structure Backed (whole : Prop) (a : Arena) (m : Multiset Slot) : Prop where
  vacant : a.VacantExact
  covered : ∀ i o, a.occupant? i = some o → m.count i + a.entriesOn i ≤ o.count
  grounded : whole → ∀ i, 0 < m.count i + a.entriesOn i → (a.occupant? i).isSome

/-- Where payloads stay, so do the references in values. -/
theorem entriesOn_of_payload? (h : ∀ j, b.payload? j = a.payload? j) (i : Slot) :
    b.entriesOn i = a.entriesOn i := entriesOn_congr (fun j => childrenAt_congr (h j)) i

namespace Backed

/-- One more reference is counted. -/
theorem retain {i : Slot} (k : Backed whole a m) (hi : (a.occupant? i).isSome) (hm : n ≤ m + {i}) :
    Backed whole (a.update i fun o => { o with count := o.count + 1 }) n := by
  have hstill :=
    still_update k.vacant i (f := fun o => { o with count := o.count + 1 }) fun _ => rfl
  have hcount := fun j => Multiset.count_le_of_le j hm
  simp only [Multiset.count_add, Multiset.count_singleton] at hcount
  refine ⟨hstill.vacant, fun j o ho => ?_, fun w j hj => ?_⟩
  · have hj := hcount j
    rw [entriesOn_of_payload? hstill.payload?]
    rw [occupant?_update] at ho
    by_cases e : j = i
    · rw [if_pos e] at ho hj
      obtain ⟨o', ho', rfl⟩ := Option.map_eq_some_iff.mp ho
      have := k.covered j o' ho'
      show _ ≤ o'.count + 1
      omega
    · rw [if_neg e] at ho hj
      have := k.covered j o ho
      omega
  · rw [entriesOn_of_payload? hstill.payload?] at hj
    rw [hstill.occupied]
    by_cases e : j = i
    · rwa [e]
    · have hle := hcount j
      rw [if_neg e] at hle
      exact k.grounded w j (by omega)

/-- A reference that is taken is one of those that the count covers, and the rest stays covered. -/
theorem unlink {i : Slot} {c : Nat} (k : Backed whole a m) (hc : a.count? i = some c)
    (hm : {i} + n ≤ m) : (c == 0) = false ∧ Backed whole (a.unlink i) n := by
  have hstill := still_unlink k.vacant i
  have hcount := fun j => Multiset.count_le_of_le j hm
  simp only [Multiset.count_add, Multiset.count_singleton] at hcount
  obtain ⟨o, ho, rfl⟩ := Option.map_eq_some_iff.mp hc
  have hi := hcount i
  rw [if_pos rfl] at hi
  have hcovered := k.covered i o ho
  refine ⟨beq_eq_false_iff_ne.mpr (by omega), hstill.vacant, fun j o' ho' => ?_, fun w j hj => ?_⟩
  · have hj := hcount j
    rw [entriesOn_of_payload? hstill.payload?]
    rw [occupant?_unlink] at ho'
    by_cases e : j = i
    · subst e
      rw [if_pos rfl, ho] at ho'
      cases ho'
      rw [if_pos rfl] at hj
      show _ ≤ o.count - 1
      omega
    · rw [if_neg e] at ho' hj
      have := k.covered j o' ho'
      omega
  · rw [entriesOn_of_payload? hstill.payload?] at hj
    rw [hstill.occupied]
    have hle := hcount j
    exact k.grounded w j (by omega)

/-- What is no part of the slots does not matter. -/
theorem of_sameSlots (h : SameSlots b a) (k : Backed whole a m) (hm : n ≤ m) :
    Backed whole b n := by
  have hstill := Still.of_sameSlots k.vacant h
  refine ⟨hstill.vacant, fun i o ho => ?_, fun w i hi => ?_⟩
  · have hle := Multiset.count_le_of_le i hm
    rw [entriesOn_of_payload? hstill.payload?]
    rw [h.occupant?] at ho
    have := k.covered i o ho
    omega
  · have hle := Multiset.count_le_of_le i hm
    rw [entriesOn_of_payload? hstill.payload?] at hi
    rw [hstill.occupied]
    exact k.grounded w i (by omega)

/-- What the new payload refers to comes off the move, and what the old one did goes on it. -/
theorem setPayload {i : Slot} {p q : Payload} (k : Backed whole a m) (hp : a.payload? i = some p)
    (hk : p.kind = q.kind) (hm : (q.children : Multiset Slot) + n ≤ m + p.children) :
    Backed whole (a.setPayload i q) n := by
  have hcount := fun j => Multiset.count_le_of_le j hm
  simp only [Multiset.count_add, Multiset.coe_count] at hcount
  have hent : ∀ j, _ = a.entriesOn j + q.children.count j := (revises_setPayload q hp).entriesOn
  simp only [childrenAt_of_payload? hp] at hent
  have hcounts : ∀ j, ((a.setPayload i q).occupant? j).map (·.count) =
      (a.occupant? j).map (·.count) := fun j => by
    rw [occupant?_setPayload]
    split
    · rw [Option.map_map]
      rfl
    · rfl
  refine ⟨(rewrites_setPayload k.vacant hp hk).vacant, fun j o ho => ?_, fun w j hj => ?_⟩
  · have hle := hcount j
    have he := hent j
    have hc := hcounts j
    rw [ho] at hc
    obtain ⟨o', ho', e⟩ := Option.map_eq_some_iff.mp hc.symm
    have := e ▸ k.covered j o' ho'
    dsimp only at this
    omega
  · have hle := hcount j
    have he := hent j
    have hc := congrArg Option.isSome (hcounts j)
    rw [Option.isSome_map, Option.isSome_map] at hc
    rw [hc]
    exact k.grounded w j (by omega)

/-- What the value in a new slot refers to comes off the move, and its first references go on it. -/
theorem fill {p : Payload} {c : Nat} (k : Backed whole a m) (w : whole)
    (hm : (p.children : Multiset Slot) + n ≤ m + Multiset.replicate c a.nextSlot) :
    Backed whole (a.fill ⟨c, p⟩) n := by
  have hcount := fun j => Multiset.count_le_of_le j hm
  simp only [Multiset.count_add, Multiset.coe_count, Multiset.count_replicate] at hcount
  have hent : ∀ j, _ = a.entriesOn j + p.children.count j :=
    (revises_fill ⟨c, p⟩ k.vacant).entriesOn
  simp only [childrenAt_of_vacant k.vacant.nextSlot_vacant, List.count_nil, Nat.add_zero] at hent
  have hocc := fun j => occupant?_fill a ⟨c, p⟩ j k.vacant.lt_size
  refine ⟨k.vacant.fill _, fun j o ho => ?_, fun _ j hj => ?_⟩
  · have hle := hcount j
    have he := hent j
    rw [hocc] at ho
    by_cases e : j = a.nextSlot
    · -- nothing referred to the slot before
      have hnone : ¬ 0 < m.count j + a.entriesOn j := fun hp => by
        have hlive := k.grounded w j hp
        rw [e, k.vacant.nextSlot_vacant] at hlive
        cases hlive
      rw [if_pos e] at ho
      cases ho
      rw [if_pos e.symm] at hle
      show _ ≤ c
      omega
    · rw [if_neg e] at ho
      rw [if_neg (Ne.symm e)] at hle
      have := k.covered j o ho
      omega
  · have hle := hcount j
    have he := hent j
    rw [hocc]
    by_cases e : j = a.nextSlot
    · rw [if_pos e]
      rfl
    · rw [if_neg (Ne.symm e)] at hle
      rw [if_neg e]
      exact k.grounded w j (by omega)

/-- What the value in a slot that is emptied referred to goes on the move, and so may other
    references to it. -/
theorem vacate {i : Slot} {o : Occupant} (k : Backed whole a m) (ho : a.occupant? i = some o)
    (hw : ¬ whole) (hm : n ≤ m + o.payload.children) : Backed whole (a.vacate i) n := by
  refine ⟨k.vacant.vacate (by rw [ho]; rfl), fun j o' ho' => ?_, fun w => absurd w hw⟩
  have hj := Multiset.count_le_of_le j hm
  simp only [Multiset.count_add, Multiset.coe_count] at hj
  have he : _ = a.entriesOn j + ([] : List Slot).count j := (revises_vacate a i).entriesOn j
  rw [childrenAt_of_occupant? ho, List.count_nil] at he
  rw [occupant?_vacate] at ho'
  by_cases e : j = i
  · rw [if_pos e] at ho'
    cases ho'
  · rw [if_neg e] at ho'
    have := k.covered j o' ho'
    omega

end Backed

/-! ## 2. Strokes -/

/-- **A stroke takes no reference that is not counted**, if what it takes is on the move, and the
    counts cover what is left. Slots are filled in a whole arena only, and emptied in one that need
    not be. -/
theorem Stroked.backed (h : Stroked a s b) (k : Backed whole a m) (hm : s.spent + n ≤ m + s.gained)
    (hf : s.Fills → whole) (he : s.Empties → ¬ whole) :
    s.fallsShort = false ∧ Backed whole b n := by
  cases h with
  | retained hi =>
    simp only [Stroke.spent, zero_add] at hm
    exact ⟨rfl, k.retain hi hm⟩
  | unlinked hc =>
    simp only [Stroke.gained, add_zero] at hm
    exact k.unlink hc hm
  | @returned i c hc =>
    simp only [Stroke.gained, add_zero] at hm
    obtain ⟨hne, hk⟩ := k.unlink hc hm
    exact ⟨hne, hk.of_sameSlots (sameSlots_giveBack a i) le_rfl⟩
  | rewritten hp hk => exact ⟨rfl, k.setPayload hp hk hm⟩
  | filled ha => exact ⟨rfl, (k.fill (hf trivial) hm).of_sameSlots (sameSlots_of_filled ha) le_rfl⟩
  | emptied hfree =>
    obtain ⟨o, ho, rfl, same⟩ := free?_eq_some hfree
    simp only [Stroke.spent, zero_add] at hm
    exact ⟨rfl, (k.vacate ho (he trivial) hm).of_sameSlots same le_rfl⟩
  | collected _ | duplicated _ _ =>
    simp only [Stroke.spent, Stroke.gained, zero_add, add_zero] at hm
    exact ⟨rfl, k.of_sameSlots (sameSlots_note _ _) hm⟩
  | recounted =>
    simp only [Stroke.spent, Stroke.gained, zero_add, add_zero] at hm
    exact ⟨rfl, k.of_sameSlots (a := a) ⟨rfl, rfl, rfl⟩ hm⟩

/-- **No stroke of a solvent log takes a reference that is not counted.** -/
theorem Drawn.never_short (h : Drawn a log b) (hs : Solvent m log m') (k : Backed whole a m)
    (hf : ∀ s ∈ log, s.Fills → whole) (he : ∀ s ∈ log, s.Empties → ¬ whole) :
    ∀ s ∈ log, s.fallsShort = false := by
  induction h generalizing m with
  | nil => exact List.forall_mem_nil _
  | cons hstroke _ ih =>
    cases hs with
    | cons hm hrest =>
      obtain ⟨hf1, hf2⟩ := List.forall_mem_cons.mp hf
      obtain ⟨he1, he2⟩ := List.forall_mem_cons.mp he
      obtain ⟨hone, k'⟩ := hstroke.backed k hm hf1 he1
      exact List.forall_mem_cons.mpr ⟨hone, ih hrest k' hf2 he2⟩

/-! ## 3. Coherent arenas -/

/-- The handles of a call that name values are among those that are outstanding. -/
theorem count_handed_le (a : Arena) (hs : List Handle) (i : Slot) :
    (a.handed hs).count i ≤ hs.count (a.handleOf i) := by
  rw [handed, slotsOf, Multiset.coe_count, List.count_eq_countP, List.countP_map,
    List.countP_filter, List.count_eq_countP]
  refine List.countP_mono_left fun h _ hi => ?_
  obtain ⟨hslot, hr⟩ := Bool.and_eq_true_iff.mp hi
  obtain ⟨_, e⟩ := resolves_iff_handleOf.mp hr
  rw [e]
  exact beq_iff_eq.mpr (congrArg a.handleOf (beq_iff_eq.mp hslot))

/-- **In a coherent arena the counts cover the handles that a call is handed.** -/
theorem Coherent.backed {hs : List Handle} (co : a.Coherent (hs ++ ledger) []) :
    Backed True a (a.handed hs) where
  vacant := co.vacant
  covered i o ho := by
    have hc := co.counted i o ho
    have hle := a.count_handed_le hs i
    rw [List.count_append, List.count_nil] at hc
    omega
  grounded _ i hi := by
    rcases Nat.eq_zero_or_pos (a.entriesOn i) with e | e
    · rw [e, Nat.add_zero] at hi
      obtain ⟨h, hm, rfl⟩ := List.mem_map.mp (Multiset.mem_coe.mp (Multiset.count_pos.mp hi))
      exact (resolves_iff_handleOf.mp (List.mem_filter.mp hm).2).1
    · obtain ⟨j, hj⟩ := entriesOn_pos.mp e
      exact co.closed i j hj

end Arena

/-! ## 4. Operations and programs -/

/-- **No operation takes a reference that is not counted**, if what it is handed is: a copy takes
    none, a collection fills no slot, and anything else empties none. -/
theorem Phrase.never_short {a b : Arena} {m : Multiset Slot} {log : List Stroke}
    (p : Phrase m log) (h : Drawn a log b) (k : Backed True a m) :
    ∀ s ∈ log, s.fallsShort = false := by
  have k' : Backed False a m := ⟨k.vacant, k.covered, False.elim⟩
  cases p with
  | @candid log more hr hc hs =>
    refine h.never_short hs k (fun _ _ _ => trivial) (List.forall_mem_append.mpr ⟨?_, ?_⟩)
    · intro s hs he
      cases s <;> first | exact he.elim | exact (hr _ hs).elim
    · intro s hs he
      cases s <;> first | exact he.elim | exact (hc _ hs).elim
  | discarding hd hs =>
    refine h.never_short hs k' (fun s hs hf => ?_) fun _ _ _ => not_false
    cases s <;> first | exact hf.elim | exact hd _ hs
  | @collection log live hd hs =>
    have hend : Solvent 0 [.collected (heard log).length live] 0 := .single le_rfl
    refine h.never_short (hs.trans hend) k' (List.forall_mem_append.mpr
      ⟨fun s hs hf => ?_, List.forall_mem_singleton.mpr fun hf => hf⟩) fun _ _ _ => not_false
    cases s <;> first | exact hf.elim | exact hd _ hs
  | copying hc =>
    intro s hs
    cases s <;> first | rfl | exact (hc _ hs).elim
  | copy hf hw =>
    refine List.forall_mem_append.mpr ⟨List.forall_mem_append.mpr ⟨?_, ?_⟩,
      List.forall_mem_singleton.mpr rfl⟩
    · intro s hs
      cases s <;> first | rfl | exact (hf _ hs).elim
    · intro s hs
      cases s <;> first | rfl | exact (hw _ hs).elim

namespace World

variable {w : World} {k : Nat} {a b : Arena} {act : Action} {log : List Stroke}

/-- **What a program is permitted to do takes no reference that is not counted.** -/
theorem Reachable.never_short (hw : w.Reachable) (hp : w.Permits act) (ha : w.arena? k = some a)
    (hd : w.Does k act log) (hb : Drawn a log b) : ∀ s ∈ log, s.fallsShort = false := by
  have co := hw.sound.coherent k a ha
  rcases hd with ⟨c, a', rfl, ha', hk⟩ | hk
  · cases ha.symm.trans ha'
    obtain ⟨a', ha', hsub, _⟩ := permits_call.mp hp
    cases ha.symm.trans ha'
    have hperm : (c.consumed ++ (w.held.diff c.consumed ++ w.lost)).Perm w.outstanding := by
      rw [← List.append_assoc]
      exact (perm_consumed hsub).append_right w.lost
    exact hk.phrase.never_short hb (co.perm_ledger hperm).backed
  · have hnone : a.Coherent ([] ++ w.outstanding) [] := co
    exact hk.phrase.never_short hb hnone.backed

end World

end ValueHeap
