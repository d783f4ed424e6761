import ValueHeap.Proofs.Copy

/-!
# How an arena changes

An operation leaves the values of an arena as they are, adds some, replaces the payload of one, or
takes some away. Each way is a relation between the arena before and the arena after. None of them
speaks of counts, so they hold of every arena whose list of empty slots is exact, coherent or not.

* `Still`, `Gains`, `Rewrites` and `Shrinks`: nothing, one more value, another payload, fewer
  values;
* `Grows` and `Grafts`: more values; a graft's new values refer to new values only;
* `Evolves`: what all of them have in common, closed under composition. No slot goes back to an
  earlier filling, and no slot is occupied anew without being filled again.
-/

namespace ValueHeap

namespace Arena

variable {a b c : Arena} {i : Slot} {p q : Payload}

/-! ## 1. What every change keeps -/

/-- **What becomes of an arena**, whatever is done with it short of a reset. -/
structure Evolves (a b : Arena) : Prop where
  id : b.id = a.id
  vacant : b.VacantExact
  grown : ∀ j r, a.refills? j = some r → ∃ s, b.refills? j = some s ∧ r ≤ s
  /-- Who is there and was not filled in since has been there before. -/
  settled : ∀ j, b.refills? j = a.refills? j → (b.occupant? j).isSome → (a.occupant? j).isSome

/-- A live slot has been filled, so it has a number of refills. -/
theorem refills?_of_occupant? (h : (a.occupant? i).isSome) : ∃ r, a.refills? i = some r :=
  Option.isSome_iff_exists.mp (refills?_isSome.mpr (lt_size_of_occupant? h))

namespace Evolves

theorem refl (v : a.VacantExact) : Evolves a a :=
  ⟨rfl, v, fun _ r hr => ⟨r, hr, Nat.le_refl r⟩, fun _ _ h => h⟩

/-- Between equal generations of a slot there is no other. -/
theorem between (h : Evolves a b) (k : Evolves b c) {j : Slot} (e : c.refills? j = a.refills? j) :
    b.refills? j = a.refills? j ∨ c.refills? j = none := by
  cases hc : c.refills? j with
  | none => exact .inr rfl
  | some s =>
    obtain ⟨r, hr, hsr⟩ := h.grown j s (e ▸ hc)
    obtain ⟨t, ht, hrt⟩ := k.grown j r hr
    rw [hc] at ht
    cases ht
    rw [hr, ← e, hc]
    exact .inl (congrArg some (Nat.le_antisymm hrt hsr))

theorem trans (h : Evolves a b) (k : Evolves b c) : Evolves a c := by
  refine ⟨k.id.trans h.id, k.vacant, fun j r hr => ?_, fun j e hj => ?_⟩
  · obtain ⟨s, hs, hrs⟩ := h.grown j r hr
    obtain ⟨t, ht, hst⟩ := k.grown j s hs
    exact ⟨t, ht, hrs.trans hst⟩
  · have hb : b.refills? j = a.refills? j := by
      obtain ⟨r, hr⟩ := refills?_of_occupant? hj
      exact (h.between k e).resolve_right fun hn => by rw [hr] at hn; cases hn
    exact h.settled j hb (k.settled j (e.trans hb.symm) hj)

end Evolves

/-- Where the generations stay and no slot becomes occupied, nothing is new. -/
theorem evolves_of_refills? (hid : b.id = a.id) (v : b.VacantExact)
    (hr : ∀ j, b.refills? j = a.refills? j)
    (ho : ∀ j, (b.occupant? j).isSome → (a.occupant? j).isSome) : Evolves a b :=
  ⟨hid, v, fun j r h => ⟨r, (hr j).trans h, Nat.le_refl r⟩, fun j _ => ho j⟩

/-! ## 2. Nothing changes -/

/-- Whether a slot is live can be seen by its payload. -/
theorem occupied_congr (h : b.payload? i = a.payload? i) :
    (b.occupant? i).isSome = (a.occupant? i).isSome := by
  have e := congrArg Option.isSome h
  simpa only [payload?, Option.isSome_map] using e

theorem payload?_isSome (a : Arena) (i : Slot) : (a.payload? i).isSome = (a.occupant? i).isSome :=
  Option.isSome_map

/-- `b` holds the values of `a`, in the same slots and generations; only counts may differ. -/
structure Still (a b : Arena) : Prop extends SamePayloads b a where
  id : b.id = a.id
  vacant : b.VacantExact

namespace Still

theorem refl (v : a.VacantExact) : Still a a := ⟨⟨fun _ => rfl, fun _ => rfl⟩, rfl, v⟩

theorem trans (h : Still a b) (k : Still b c) : Still a c :=
  ⟨⟨fun j => (k.payload? j).trans (h.payload? j), fun j => (k.refills? j).trans (h.refills? j)⟩,
    k.id.trans h.id, k.vacant⟩

theorem occupied (h : Still a b) (j : Slot) : (b.occupant? j).isSome = (a.occupant? j).isSome :=
  occupied_congr (h.payload? j)

theorem of_sameSlots (v : a.VacantExact) (h : SameSlots b a) : Still a b :=
  ⟨⟨fun j => by unfold Arena.payload?; rw [h.occupant?], h.refills?⟩, h.id, v.of_sameSlots h⟩

theorem evolves (h : Still a b) : Evolves a b :=
  evolves_of_refills? h.id h.vacant h.refills? fun j => by rw [h.occupied]; exact fun k => k

theorem resolves (h : Still a b) (x : Handle) : b.resolves x ↔ a.resolves x := by
  rw [resolves_iff_handleOf, resolves_iff_handleOf, h.occupied, handleOf_eq h.id (h.refills? _)]

end Still

/-- An update of an occupant that keeps its payload changes a count at most. -/
theorem still_update (v : a.VacantExact) (i : Slot) {f : Occupant → Occupant}
    (hf : ∀ o, (f o).payload = o.payload) : Still a (a.update i f) := by
  have hp := payload?_update a i hf
  exact ⟨⟨hp, refills?_update a i f⟩, rfl,
    v.congr rfl (refills?_update a i f) fun j => occupied_congr (hp j)⟩

theorem still_unlink (v : a.VacantExact) (i : Slot) : Still a (a.unlink i) := by
  have hp := payload?_unlink a i
  exact ⟨⟨hp, refills?_unlink a i⟩, id_unlink a i,
    v.congr (vacant_unlink a i) (refills?_unlink a i) fun j => occupied_congr (hp j)⟩

/-- A reference that is given back empties no slot, even if it was the last one. -/
theorem still_giveBack (v : a.VacantExact) (i : Slot) : Still a (a.giveBack i) :=
  (still_unlink v i).trans (.of_sameSlots (still_unlink v i).vacant (sameSlots_giveBack a i))

theorem still_giveBackAll (is : List Slot) (v : a.VacantExact) : Still a (a.giveBackAll is) := by
  induction is generalizing a with
  | nil => exact .refl v
  | cons i is ih => exact (still_giveBack v i).trans (ih (still_giveBack v i).vacant)

/-- The same holds of an entry that was replaced in a container, if there was one. -/
theorem still_giveBackReplaced (v : a.VacantExact) (previous : Option Slot) :
    Still a (a.giveBackReplaced previous) := by
  cases previous with
  | none => exact .refl v
  | some i => exact still_giveBack v i

/-- A handle that names nothing is released without effect. -/
theorem still_release (v : a.VacantExact) (h : Handle) : Still a (a.release h) := by
  unfold release
  split
  · exact still_giveBack v _
  · exact .refl v

theorem still_releaseAll (hs : List Handle) (v : a.VacantExact) : Still a (a.releaseAll hs) := by
  induction hs generalizing a with
  | nil => exact .refl v
  | cons h hs ih => exact (still_release v h).trans (ih (still_release v h).vacant)

/-! ## 3. One more value -/

/-- `b` is `a` with one more value, in a slot that was empty and moves on. -/
structure Gains (a b : Arena) (i : Slot) (p : Payload) : Prop where
  id : b.id = a.id
  vacant : b.VacantExact
  fresh : a.occupant? i = none
  payload? : Revises b a i (some p)
  refills? : ∀ j, j ≠ i → b.refills? j = a.refills? j
  newer : ∃ r, b.refills? i = some r ∧ ∀ s, a.refills? i = some s → s < r

/-- **A slot that is filled is one more value.** -/
theorem gains_fill (v : a.VacantExact) (o : Occupant) :
    Gains a (a.fill o) a.nextSlot o.payload where
  id := id_fill a o
  vacant := v.fill o
  fresh := v.nextSlot_vacant
  payload? := revises_fill o v
  refills? j hj := by rw [refills?_fill a o j v.lt_size, if_neg hj]
  newer := by
    refine ⟨a.nextRefills, by rw [refills?_fill a o _ v.lt_size, if_pos rfl], fun s hs => ?_⟩
    rw [nextRefills, hs]
    exact Nat.lt_succ_self s

/-- Counts may change before a value is added, -/
theorem Still.gains (h : Still a b) (k : Gains b c i p) : Gains a c i p where
  id := k.id.trans h.id
  vacant := k.vacant
  fresh := Option.not_isSome_iff_eq_none.mp fun hi => by
    rw [← h.occupied, k.fresh] at hi
    cases hi
  payload? j := by rw [k.payload? j, h.payload?]
  refills? j hj := (k.refills? j hj).trans (h.refills? j)
  newer := by
    obtain ⟨r, hr, hlt⟩ := k.newer
    exact ⟨r, hr, fun s hs => hlt s ((h.refills? i).trans hs)⟩

/-- and after it. -/
theorem Gains.still (h : Gains a b i p) (k : Still b c) : Gains a c i p where
  id := k.id.trans h.id
  vacant := k.vacant
  fresh := h.fresh
  payload? j := by rw [k.payload?, h.payload? j]
  refills? j hj := (k.refills? j).trans (h.refills? j hj)
  newer := by
    obtain ⟨r, hr, hlt⟩ := h.newer
    exact ⟨r, (k.refills? i).trans hr, hlt⟩

/-- No value that was there is in the new slot. -/
theorem Gains.not_new (h : Gains a b i p) {j : Slot} (hj : (a.occupant? j).isSome) : j ≠ i := by
  rintro rfl
  rw [h.fresh] at hj
  cases hj

theorem Gains.payload?_new (h : Gains a b i p) : b.payload? i = some p := by
  rw [h.payload? i, if_pos rfl]

/-! ## 4. Another payload -/

/-- `b` is `a` with another payload of the same kind in one slot. -/
structure Rewrites (a b : Arena) (i : Slot) (q : Payload) : Prop where
  id : b.id = a.id
  vacant : b.VacantExact
  kind? : a.kind? i = some q.kind
  payload? : Revises b a i (some q)
  refills? : ∀ j, b.refills? j = a.refills? j

/-- **A payload that is replaced by one of its kind is another payload in one slot.** -/
theorem rewrites_setPayload (v : a.VacantExact) (hp : a.payload? i = some p)
    (hk : p.kind = q.kind) : Rewrites a (a.setPayload i q) i q := by
  refine ⟨rfl, v.congr rfl (refills?_update a i _) fun j => ?_, ?_,
    revises_setPayload q hp, refills?_update a i _⟩
  · rw [occupant?_setPayload]
    split
    · exact Option.isSome_map
    · rfl
  · rw [Arena.kind?, hp, Option.map_some, hk]

theorem Rewrites.occupied (h : Rewrites a b i q) : (a.occupant? i).isSome := by
  obtain ⟨p, hp, _⟩ := Option.map_eq_some_iff.mp h.kind?
  exact occupied_of_payload? hp

theorem Rewrites.still (h : Rewrites a b i q) (k : Still b c) : Rewrites a c i q :=
  ⟨k.id.trans h.id, k.vacant, h.kind?, fun j => by rw [k.payload?, h.payload? j],
    fun j => (k.refills? j).trans (h.refills? j)⟩

/-- No slot is filled or emptied where a payload is replaced. -/
theorem Rewrites.occupied_iff (h : Rewrites a b i q) (j : Slot) :
    (b.occupant? j).isSome = (a.occupant? j).isSome := by
  rw [← payload?_isSome, ← payload?_isSome, h.payload? j]
  by_cases e : j = i
  · rw [if_pos e, e, payload?_isSome, h.occupied]
    rfl
  · rw [if_neg e]

/-- So every handle names what it named. -/
theorem Rewrites.resolves (h : Rewrites a b i q) (x : Handle) : b.resolves x ↔ a.resolves x := by
  rw [resolves_iff_handleOf, resolves_iff_handleOf, h.occupied_iff, handleOf_eq h.id (h.refills? _)]

theorem Rewrites.evolves (h : Rewrites a b i q) : Evolves a b :=
  evolves_of_refills? h.id h.vacant h.refills? fun j => by rw [h.occupied_iff]; exact fun k => k

/-! ## 5. Fewer values -/

/-- `b` is `a` without some of its values. -/
structure Shrinks (a b : Arena) : Prop where
  id : b.id = a.id
  vacant : b.VacantExact
  payload? : ∀ j p, b.payload? j = some p → a.payload? j = some p
  refills? : ∀ j, b.refills? j = a.refills? j

namespace Shrinks

theorem refl (v : a.VacantExact) : Shrinks a a := ⟨rfl, v, fun _ _ h => h, fun _ => rfl⟩

theorem trans (h : Shrinks a b) (k : Shrinks b c) : Shrinks a c :=
  ⟨k.id.trans h.id, k.vacant, fun j p hp => h.payload? j p (k.payload? j p hp),
    fun j => (k.refills? j).trans (h.refills? j)⟩

theorem occupied (h : Shrinks a b) {j : Slot} (hj : (b.occupant? j).isSome) :
    (a.occupant? j).isSome := by
  obtain ⟨o, ho⟩ := Option.isSome_iff_exists.mp hj
  exact occupied_of_payload? (h.payload? j _ (payload?_of_occupant? ho))

theorem evolves (h : Shrinks a b) : Evolves a b :=
  evolves_of_refills? h.id h.vacant h.refills? fun _ => h.occupied

end Shrinks

/-- Nothing is a special case of fewer, -/
theorem Still.shrinks (h : Still a b) : Shrinks a b :=
  ⟨h.id, h.vacant, fun j _ hp => (h.payload? j).symm.trans hp, h.refills?⟩

/-- **A slot that is emptied is a value less.** -/
theorem shrinks_free? (v : a.VacantExact) (h : a.free? i = some (p, b)) : Shrinks a b := by
  obtain ⟨o, ho, _, hs⟩ := free?_eq_some h
  refine ⟨hs.id, (v.vacate (by rw [ho]; rfl)).of_sameSlots hs, fun j q hq => ?_, fun j => ?_⟩
  · unfold Arena.payload? at hq
    rw [hs.occupant?] at hq
    have hrev : (a.vacate i).payload? j = _ := revises_vacate a i j
    unfold Arena.payload? at hrev
    rw [hrev] at hq
    by_cases e : j = i
    · rw [if_pos e] at hq
      cases hq
    · rwa [if_neg e] at hq
  · rw [hs.refills?, refills?_vacate]

/-! ## 6. More values -/

/-- `b` holds the values of `a` and perhaps more. -/
structure Grows (a b : Arena) : Prop extends Evolves a b where
  kept : ∀ j p, a.payload? j = some p → b.payload? j = some p ∧ b.refills? j = a.refills? j

namespace Grows

theorem refl (v : a.VacantExact) : Grows a a := ⟨.refl v, fun _ _ h => ⟨h, rfl⟩⟩

theorem trans (h : Grows a b) (k : Grows b c) : Grows a c := by
  refine ⟨h.toEvolves.trans k.toEvolves, fun j p hp => ?_⟩
  obtain ⟨h1, h2⟩ := h.kept j p hp
  obtain ⟨k1, k2⟩ := k.kept j p h1
  exact ⟨k1, k2.trans h2⟩

theorem occupied (h : Grows a b) {j : Slot} (hj : (a.occupant? j).isSome) :
    (b.occupant? j).isSome := by
  obtain ⟨o, ho⟩ := Option.isSome_iff_exists.mp hj
  exact occupied_of_payload? (h.kept j _ (payload?_of_occupant? ho)).1

/-- A slot that is empty at the end was empty at the start. -/
theorem vacant_of (h : Grows a b) {j : Slot} (hj : b.occupant? j = none) :
    a.occupant? j = none := by
  refine Option.not_isSome_iff_eq_none.mp fun k => ?_
  have := h.occupied k
  rw [hj] at this
  cases this

theorem childrenAt (h : Grows a b) {j : Slot} (hj : (a.occupant? j).isSome) :
    b.childrenAt j = a.childrenAt j := by
  obtain ⟨o, ho⟩ := Option.isSome_iff_exists.mp hj
  have hp := payload?_of_occupant? ho
  exact childrenAt_congr ((h.kept j _ hp).1.trans hp.symm)

theorem handleOf (h : Grows a b) {j : Slot} (hj : (a.occupant? j).isSome) :
    b.handleOf j = a.handleOf j := by
  obtain ⟨o, ho⟩ := Option.isSome_iff_exists.mp hj
  exact handleOf_eq h.id (h.kept j _ (payload?_of_occupant? ho)).2

/-- A handle that names a value still names it. -/
theorem resolves (h : Grows a b) {x : Handle} (hx : a.resolves x) : b.resolves x := by
  obtain ⟨hl, he⟩ := resolves_iff_handleOf.mp hx
  refine resolves_iff_handleOf.mpr ⟨h.occupied hl, ?_⟩
  rw [h.handleOf hl]
  exact he

end Grows

/-- Nothing is a special case of more. -/
theorem Still.grows (h : Still a b) : Grows a b :=
  ⟨h.evolves, fun j _ hp => ⟨(h.payload? j).trans hp, h.refills? j⟩⟩

/-- One more value is more values: the new slot has moved on, the others stay. -/
theorem Gains.grows (h : Gains a b i p) : Grows a b := by
  refine ⟨⟨h.id, h.vacant, fun j r hr => ?_, fun j e hj => ?_⟩, fun j q hq => ?_⟩
  · by_cases e : j = i
    · subst e
      obtain ⟨s, hs, hlt⟩ := h.newer
      exact ⟨s, hs, (hlt r hr).le⟩
    · exact ⟨r, (h.refills? j e).trans hr, Nat.le_refl r⟩
  · -- the new slot has moved on
    have hne : j ≠ i := by
      rintro rfl
      obtain ⟨s, hs, hlt⟩ := h.newer
      exact absurd (hlt s (e ▸ hs)) (Nat.lt_irrefl s)
    rwa [← payload?_isSome, h.payload? j, if_neg hne, payload?_isSome] at hj
  · have hne := h.not_new (occupied_of_payload? hq)
    exact ⟨by rw [h.payload? j, if_neg hne, hq], h.refills? j hne⟩

/-- A change to a value that was not there at the start is no change of what was there. -/
theorem Grows.rewrites (h : Grows a b) (k : Rewrites b c i q) (hi : a.occupant? i = none) :
    Grows a c := by
  refine ⟨h.toEvolves.trans k.evolves, fun j p hp => ?_⟩
  obtain ⟨h1, h2⟩ := h.kept j p hp
  have hne : j ≠ i := by
    rintro rfl
    have := occupied_of_payload? hp
    rw [hi] at this
    cases this
  exact ⟨by rw [k.payload? j, if_neg hne, h1], (k.refills? j).trans h2⟩

/-! ## 7. More values, apart from those that were there -/

/-- `b` holds the values of `a`, and more values that refer to such further values only. -/
structure Grafts (a b : Arena) : Prop extends Grows a b where
  apart : ∀ j k, a.occupant? j = none → k ∈ b.childrenAt j → a.occupant? k = none

namespace Grafts

theorem refl (v : a.VacantExact) : Grafts a a :=
  ⟨.refl v, fun j k hj hk => by rw [childrenAt_of_vacant hj] at hk; cases hk⟩

theorem trans (h : Grafts a b) (k : Grafts b c) : Grafts a c := by
  refine ⟨h.toGrows.trans k.toGrows, fun j m hj hm => ?_⟩
  cases hb : b.payload? j with
  | none =>
    have hv : b.occupant? j = none := Option.map_eq_none_iff.mp hb
    exact h.vacant_of (k.apart j m hv hm)
  | some p =>
    rw [k.childrenAt (occupied_of_payload? hb)] at hm
    exact h.apart j m hj hm

theorem still (h : Grafts a b) (k : Still b c) : Grafts a c := by
  refine ⟨h.toGrows.trans k.grows, fun j m hj hm => ?_⟩
  rw [childrenAt_congr (k.payload? j)] at hm
  exact h.apart j m hj hm

/-- A payload whose children are further values may be put into a further slot. -/
theorem revised (h : Grafts a b) (g : Grows a c) (hp : Revises c b i (some q))
    (hc : ∀ j ∈ q.children, a.occupant? j = none) : Grafts a c := by
  refine ⟨g, fun j m hj hm => ?_⟩
  rw [hp.childrenAt] at hm
  by_cases e : j = i
  · rw [if_pos e] at hm
    exact hc m hm
  · rw [if_neg e] at hm
    exact h.apart j m hj hm

theorem gains (h : Grafts a b) (k : Gains b c i p) (hc : ∀ j ∈ p.children, a.occupant? j = none) :
    Grafts a c :=
  h.revised (h.toGrows.trans k.grows) k.payload? hc

theorem rewrites (h : Grafts a b) (k : Rewrites b c i q) (hi : a.occupant? i = none)
    (hc : ∀ j ∈ q.children, a.occupant? j = none) : Grafts a c :=
  h.revised (h.toGrows.rewrites k hi) k.payload? hc

end Grafts

/-! ## 8. Copies -/

/-- A refused copy leaves the values that were there. -/
theorem Restored.grows (w : Restored a b) : Grows a b := by
  have hp : ∀ j, b.payload? j = a.payload? j := fun j => by
    unfold Arena.payload?
    rw [w.occupant?]
  refine ⟨⟨w.id, w.vacant, w.grown, fun j _ hj => by rwa [w.occupant?] at hj⟩, fun j p hj => ?_⟩
  exact ⟨(hp j).trans hj, w.refills? j (occupied_of_payload? hj)⟩

/-- The slots that a copy fills are further ones. -/
theorem Filled.grows {plan : List (Slot × Payload)} {built : List (Slot × Slot)}
    (w : Filled a b plan built) : Grows a b := by
  refine ⟨⟨w.id, w.vacant, fun j r hr => ?_, fun j e hj => ?_⟩, fun j p hp => ?_⟩
  · by_cases hm : j ∈ built.map (·.2)
    · obtain ⟨s, hs, hlt⟩ := w.newer j hm
      exact ⟨s, hs, (hlt r hr).le⟩
    · exact ⟨r, (w.old j hm).2.trans hr, Nat.le_refl r⟩
  · have hm : j ∉ built.map (·.2) := by
      intro hm
      obtain ⟨s, hs, hlt⟩ := w.newer j hm
      exact absurd (hlt s (e ▸ hs)) (Nat.lt_irrefl s)
    rwa [(w.old j hm).1] at hj
  · have hm : j ∉ built.map (·.2) := by
      intro hm
      have := occupied_of_payload? hp
      rw [w.fresh j hm] at this
      cases this
    obtain ⟨h1, h2⟩ := w.old j hm
    refine ⟨?_, h2⟩
    unfold Arena.payload?
    rw [h1]
    exact hp

end Arena

end ValueHeap
