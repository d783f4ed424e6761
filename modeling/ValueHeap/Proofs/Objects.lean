import ValueHeap.Proofs.Contents

/-!
# An arena as a store of values

Every filling of a slot is a value of its own. What a value holds is told by values, not by slots,
so nothing that is done to other values changes it.

* `contents?`: what a value holds, as long as it is there; `Names` and `Newborn`;
* `Carries`: of the values that were there, at most one has its payload changed
  (`perform_carries`);
* **`perform_contents`**: a call makes of a value what `updated?` says, and nothing else;
* **`perform_births`**: a call that builds adds one value; `perform_not_newborn`: any other adds
  none;
* **`copyTo_reproduces`**: copies by values;
* `item_names` to `entriesOf_names`: reading hands out the values that are held.
-/

namespace ValueHeap

namespace Arena

open Outcome

variable {a b c : Arena} {o : ObjectId} {x : Contents}

/-! ## 1. The store of an arena -/

/-- What a value holds, as long as it is there. -/
def contents? (a : Arena) (o : ObjectId) : Option Contents :=
  if a.Alive o then (a.payload? o.slot).map (·.contents a.object) else none

/-- The handle names the value. -/
def Names (a : Arena) (h : Handle) (o : ObjectId) : Prop := a.resolves h ∧ a.object h.slot = o

/-- The value is there now and was not before. -/
def Newborn (a b : Arena) (o : ObjectId) : Prop := b.Alive o ∧ ¬ a.Alive o

theorem contents?_eq_some : a.contents? o = some x ↔
    a.Alive o ∧ ∃ p, a.payload? o.slot = some p ∧ p.contents a.object = x := by
  unfold contents?
  by_cases h : a.Alive o
  · rw [if_pos h, Option.map_eq_some_iff, and_iff_right h]
  · rw [if_neg h]
    exact ⟨nofun, fun k => absurd k.1 h⟩

theorem contents?_object {i : Slot} {p : Payload} (h : a.payload? i = some p) :
    a.contents? (a.object i) = some (p.contents a.object) :=
  contents?_eq_some.mpr ⟨alive_object (occupied_of_payload? h), p, h, rfl⟩

theorem not_alive_of_vacant (h : a.occupant? o.slot = none) : ¬ a.Alive o := fun ha => by
  have ho := ha.1
  rw [h] at ho
  cases ho

/-- Who is in a slot of the same generation is the same. -/
theorem Alive.of_refills? (h : b.Alive o) (hr : b.refills? o.slot = a.refills? o.slot)
    (ho : (a.occupant? o.slot).isSome) : a.Alive o :=
  ⟨ho, (object_congr hr).symm.trans h.2⟩

/-! ## 2. What a call leaves of the values that were there -/

/-- The payload in a slot once a payload was changed. -/
def revised (a : Arena) (w : Option (Slot × Payload)) (j : Slot) : Option Payload :=
  match w with
  | some (i, q) => if j = i then some q else a.payload? j
  | none => a.payload? j

/-- Of the values that were there, those that are there still are in the same filling of their slot,
    and only one has its payload changed. -/
structure Carries (a b : Arena) (w : Option (Slot × Payload)) : Prop where
  refills? : ∀ j, (a.occupant? j).isSome → b.refills? j = a.refills? j
  payload? : ∀ j, (a.occupant? j).isSome → (b.occupant? j).isSome → b.payload? j = a.revised w j

theorem Grows.carries (h : Grows a b) : Carries a b none := by
  have kept : ∀ j, (a.occupant? j).isSome →
      b.payload? j = a.payload? j ∧ b.refills? j = a.refills? j := fun j hj => by
    obtain ⟨q, hq⟩ := Option.isSome_iff_exists.mp hj
    have hp := payload?_of_occupant? hq
    exact ⟨(h.kept j _ hp).1.trans hp.symm, (h.kept j _ hp).2⟩
  exact ⟨fun j hj => (kept j hj).2, fun j hj _ => (kept j hj).1⟩

theorem Shrinks.carries (h : Shrinks a b) : Carries a b none := by
  refine ⟨fun j _ => h.refills? j, fun j _ hj => ?_⟩
  obtain ⟨q, hq⟩ := Option.isSome_iff_exists.mp hj
  have hp := payload?_of_occupant? hq
  exact hp.trans (h.payload? j _ hp).symm

theorem Writes.carries {w : Option (Slot × Payload)} (h : Writes a b w) : Carries a b w := by
  cases w with
  | none => exact (Still.grows h).carries
  | some q => exact ⟨fun j _ => Rewrites.refills? h j, fun j _ _ => Rewrites.payload? h j⟩

/-- More values make no difference to those that were there. -/
theorem Carries.grows {w : Option (Slot × Payload)} (h : Writes a b w) (k : Grows b c) :
    Carries a c w := by
  refine ⟨fun j hj => ?_, fun j hj hc => ?_⟩
  · rw [k.carries.refills? j (by rwa [h.occupied_iff])]
    exact h.carries.refills? j hj
  · have hb : (b.occupant? j).isSome := by rwa [h.occupied_iff]
    rw [k.carries.payload? j hb hc]
    exact h.carries.payload? j hj hb

theorem Effect.carries {c : Call} {y : Answer} (h : Effect a c y b) :
    Carries a b (c.written? a) := by
  unfold Effect at h
  split at h
  · exact h.1.toGrows.carries
  · exact h.carries
  · exact h.carries
  · exact h.carries
  · obtain ⟨_, m, hw, ha⟩ := h
    exact .grows hw ha.grows

namespace Call

/-- Whether the call does to a value what it is for. An iterator moves on even when no room is left
    for its element. -/
def succeeds (a : Arena) : Call → Bool
  | nextValue iterator => (a.stepIterator iterator).answer.isOk
  | c => (a.perform c).answer.isOk

/-- The payload that a call changes. -/
def changed? (a : Arena) (c : Call) : Option (Slot × Payload) :=
  if c.succeeds a then c.written? a else none

/-- The value a call is about to change, and how. -/
def update? (a : Arena) : Call → Option (Handle × Update)
  | assign h s => some (h, .assigned s)
  | append list x => some (list, .appended (a.object x.slot))
  | insertEntry dict key x => some (dict, .inserted key (a.object x.slot))
  | bindMember table name x => some (table, .inserted name (a.object x.slot))
  | stepIterator iterator | nextValue iterator => some (iterator, .stepped)
  | _ => none

end Call

theorem Outcome.Ends.of_isOk {α : Type} {r : Outcome α} {good : α → Arena → Prop}
    {bad : Arena → Prop} {fatal : Fault → Arena → Prop} (h : r.Ends good bad fatal)
    (hr : r.answer.isOk) : ∃ x, good x r.arena := by
  obtain ⟨(e | f) | x, b⟩ := r
  · cases hr
  · cases hr
  · exact ⟨x, h⟩

theorem isOk_map {α β : Type} {f : α → β} {r : Outcome α} :
    (r.map f).answer.isOk = r.answer.isOk := by
  obtain ⟨e | x, b⟩ := r <;> rfl

/-- An iterator can be stepped if it can be read. -/
theorem stepIterator_isOk (iterator : Handle) :
    (a.stepIterator iterator).answer.isOk = (a.readIterator iterator).isOk := by
  unfold stepIterator
  cases a.readIterator iterator with
  | error e => rfl
  | ok walk =>
    simp only
    split <;> rfl

theorem stepped?_of_not_isOk {iterator : Handle} (h : ¬ (a.stepIterator iterator).answer.isOk) :
    a.stepped? iterator = none := by
  rw [stepIterator_isOk] at h
  unfold stepped?
  cases hr : a.readIterator iterator with
  | error e => rfl
  | ok walk =>
    rw [hr] at h
    exact absurd rfl h

theorem changed?_nextValue (iterator : Handle) :
    (Call.nextValue iterator).changed? a = a.stepped? iterator := by
  unfold Call.changed?
  split
  · rfl
  · rename_i h
    exact (stepped?_of_not_isOk h).symm

theorem changed?_eq {c : Call} (h : ∀ iterator, c ≠ .nextValue iterator) :
    c.changed? a = if (a.perform c).answer.isOk then c.written? a else none := by
  unfold Call.changed? Call.succeeds
  split
  · exact absurd rfl (h _)
  · rfl

/-- **What a call leaves of the values that were there**, however it ends. -/
theorem perform_carries (v : a.VacantExact) (c : Call) :
    Carries a (a.perform c).arena (c.changed? a) := by
  have h := perform_effect v c
  unfold Ends at h
  by_cases hc : ∃ iterator, c = .nextValue iterator
  · obtain ⟨iterator, rfl⟩ := hc
    rw [changed?_nextValue]
    split at h
    · exact h.1.carries
    · exact Writes.carries h
    · exact Writes.carries h
  · have hc : ∀ iterator, c ≠ .nextValue iterator := fun iterator e => hc ⟨iterator, e⟩
    have remains : Remains a c (a.perform c).arena → Carries a (a.perform c).arena none := by
      intro k
      unfold Remains at k
      split at k
      · exact k.toGrows.carries
      · exact k.carries
      · exact k.carries
      · exact k.carries
      · exact absurd rfl (hc _)
      · exact k.grows.carries
    rw [changed?_eq hc]
    split at h
    · rename_i hx
      rw [hx]
      exact h.1.carries
    · rename_i hx
      rw [hx]
      exact remains h
    · rename_i hx
      rw [hx]
      exact remains h

/-! ## 3. What a call makes of the value it changes -/

theorem occupied_of_resolves {h : Handle} (hr : a.resolves h) : (a.occupant? h.slot).isSome :=
  (resolves_iff_handleOf.mp hr).1

/-- A scalar is overwritten. -/
theorem contents_scalar {f : Slot → ObjectId} {p : Payload} {s : Scalar}
    (h : p.kind = s.payload.kind) : s.payload.contents f = (p.contents f).apply (.assigned s) := by
  cases s <;> cases p <;> first | rfl | cases h

/-- An insertion under a name. -/
theorem contents_insert (f : Slot → ObjectId) (entries : Entries) (key : String) (i : Slot) :
    ((entries.insert key i).pairs.map fun q => (q.1, f q.2)) =
      put key (f i) (entries.pairs.map fun q => (q.1, f q.2)) := map_putPair f i entries.pairs

/-- A call that changes a value, and what that holds afterwards: `q` is its payload, which refers to
    values that are there. -/
structure Changes (a : Arena) (c : Call) (h : Handle) (u : Update) (p q : Payload) : Prop where
  payload? : a.payload? h.slot = some p
  revised : ∀ j, a.revised (c.written? a) j = if j = h.slot then some q else a.payload? j
  kind : q.kind = p.kind
  children : ∀ j ∈ q.children, (a.occupant? j).isSome
  contents : q.contents a.object = (p.contents a.object).apply u

/-- A step moves the iterator on, or leaves it where it has ended. -/
theorem changes_step {c : Call} {iterator : Handle} (hw : c.written? a = a.stepped? iterator)
    (hs : (a.stepIterator iterator).answer.isOk) : ∃ p q, Changes a c iterator .stepped p q := by
  rw [stepIterator_isOk] at hs
  cases hr : a.readIterator iterator with
  | error e =>
    rw [hr] at hs
    cases hs
  | ok walk =>
    have hp := readIterator_eq_ok hr
    refine ⟨.iterator walk, .iterator walk.moved, hp, fun j => ?_, rfl, List.forall_mem_nil _, rfl⟩
    have hst : a.stepped? iterator = walk.next?.map fun q => (iterator.slot, .iterator q.2) := by
      unfold stepped?
      rw [hr]
    rw [hw, hst]
    unfold Progression.moved
    cases walk.next? with
    | some next => rfl
    | none =>
      by_cases e : j = iterator.slot
      · rw [if_pos e, e]
        exact hp
      · rw [if_neg e]
        rfl

/-- **A call that succeeds changes the value it is about** as its update says. -/
theorem changes_of_update? (v : a.VacantExact)
    (closed : ∀ i j, i ∈ a.childrenAt j → (a.occupant? i).isSome) {c : Call} {h : Handle}
    {u : Update} (hu : c.update? a = some (h, u)) (hs : c.succeeds a) :
    ∃ p q, Changes a c h u p q := by
  cases c with
  | assign h' s =>
    cases hu
    obtain ⟨_, hr, r⟩ := Ends.of_isOk (assign_leaves v h s) (isOk_map ▸ hs)
    obtain ⟨p, hp, hk⟩ := Option.map_eq_some_iff.mp r.kind?
    refine ⟨p, s.payload, hp, fun j => rfl, hk.symm, fun j hj => ?_, contents_scalar hk⟩
    rw [(scalar_leaf s).1] at hj
    cases hj
  | append list x =>
    cases hu
    obtain ⟨_, hr, items, hl, _⟩ := Ends.of_isOk (append_leaves v h x) (isOk_map ▸ hs)
    have hp := readList_eq_ok hl
    refine ⟨.list items, .list (items ++ [x.slot]), hp, fun j => ?_, rfl, fun j hj => ?_, ?_⟩
    · rw [Call.written?_append hl]
      rfl
    · rcases List.mem_append.mp hj with hj | hj
      · exact closed j h.slot (by rwa [childrenAt_of_payload? hp])
      · rw [List.mem_singleton.mp hj]
        exact occupied_of_resolves hr
    · exact congrArg Contents.list List.map_append
  | insertEntry dict key x =>
    cases hu
    obtain ⟨_, hr, entries, hd, _⟩ := Ends.of_isOk (insertEntry_leaves v h key x) (isOk_map ▸ hs)
    have hp := readDictionary_eq_ok hd
    refine ⟨_, .dictionary (entries.insert key x.slot), hp, fun j => ?_, rfl, fun j hj => ?_, ?_⟩
    · rw [Call.written?_insertEntry hd]
      rfl
    · rcases mem_putPair hj with rfl | hj
      · exact occupied_of_resolves hr
      · exact closed j h.slot (by rwa [childrenAt_of_payload? hp])
    · exact congrArg Contents.dictionary (contents_insert a.object entries key x.slot)
  | bindMember table name x =>
    cases hu
    obtain ⟨_, hr, m, hm, _⟩ := Ends.of_isOk (bindMember_leaves v h name x) (isOk_map ▸ hs)
    have hp := readModule_eq_ok hm
    refine ⟨_, .moduleTable { m with members := m.members.insert name x.slot }, hp, fun j => ?_,
      rfl, fun j hj => ?_, ?_⟩
    · rw [Call.written?_bindMember hm]
      rfl
    · rcases mem_putPair hj with rfl | hj
      · exact occupied_of_resolves hr
      · exact closed j h.slot (by rwa [childrenAt_of_payload? hp])
    · exact congrArg (Contents.moduleTable m.name)
        (contents_insert a.object m.members name x.slot)
  | stepIterator iterator =>
    cases hu
    exact changes_step rfl (isOk_map ▸ hs)
  | nextValue iterator =>
    cases hu
    exact changes_step rfl hs
  | _ => cases hu

theorem written?_of_update? {c : Call} (h : c.update? a = none) : c.written? a = none := by
  cases c <;> first | rfl | cases h

/-- What a call does to a value, if it is about that one and succeeds. -/
def updated? (a : Arena) (c : Call) (o : ObjectId) : Option Update :=
  match c.update? a with
  | some (h, u) => if c.succeeds a ∧ a.object h.slot = o then some u else none
  | none => none

theorem revised_updated (v : a.VacantExact)
    (closed : ∀ i j, i ∈ a.childrenAt j → (a.occupant? i).isSome) (c : Call) (hal : a.Alive o)
    {p : Payload} (hp : a.payload? o.slot = some p) :
    ∃ q, a.revised (c.changed? a) o.slot = some q ∧ q.kind = p.kind ∧
      (∀ j ∈ q.children, (a.occupant? j).isSome) ∧
      q.contents a.object = (p.contents a.object).updated (a.updated? c o) := by
  have hold : ∀ j ∈ p.children, (a.occupant? j).isSome := fun j hj =>
    closed j o.slot (by rwa [childrenAt_of_payload? hp])
  unfold Call.changed? updated?
  cases hu : c.update? a with
  | none =>
    rw [written?_of_update? hu, ite_self]
    exact ⟨p, hp, rfl, hold, rfl⟩
  | some w =>
    obtain ⟨h, u⟩ := w
    simp only
    by_cases hs : c.succeeds a
    · obtain ⟨p', q, k⟩ := changes_of_update? v closed hu hs
      rw [if_pos hs, k.revised]
      by_cases e : o.slot = h.slot
      · -- the call is about this value
        have ho : a.object h.slot = o := e ▸ hal.2
        cases hp.symm.trans (e ▸ k.payload?)
        rw [if_pos e]
        refine ⟨q, rfl, k.kind, k.children, ?_⟩
        rw [k.contents, if_pos ⟨hs, ho⟩]
        rfl
      · have ho : ¬ (c.succeeds a ∧ a.object h.slot = o) := fun k =>
          e (congrArg ObjectId.slot k.2).symm
        rw [if_neg e, if_neg ho]
        exact ⟨p, hp, rfl, hold, rfl⟩
    · rw [if_neg hs, if_neg fun k => hs k.1]
      exact ⟨p, hp, rfl, hold, rfl⟩

/-- **What a call makes of what a value holds**, if the value is there before and after. -/
theorem perform_contents (v : a.VacantExact)
    (closed : ∀ i j, i ∈ a.childrenAt j → (a.occupant? i).isSome) (c : Call)
    (hx : a.contents? o = some x) (ho : (a.perform c).arena.Alive o) :
    (a.perform c).arena.contents? o = some (x.updated (a.updated? c o)) ∧
      (x.updated (a.updated? c o)).kind = x.kind := by
  obtain ⟨hal, p, hp, rfl⟩ := contents?_eq_some.mp hx
  obtain ⟨q, hq, hkind, hchildren, hcontents⟩ := revised_updated v closed c hal hp
  have h := perform_carries v c
  rw [← hcontents]
  refine ⟨contents?_eq_some.mpr ⟨ho, q, (h.payload? o.slot hal.1 ho.1).trans hq, ?_⟩, ?_⟩
  · -- slots that were occupied are filled with the same values as before
    exact contents_congr fun j hj => object_congr (h.refills? j (hchildren j hj))
  · rw [kind_contents, kind_contents, hkind]

/-- What is only carried along holds the same. -/
theorem Carries.contents? (h : Carries a b none)
    (closed : ∀ i j, i ∈ a.childrenAt j → (a.occupant? i).isSome) (hx : a.contents? o = some x)
    (ho : b.Alive o) : b.contents? o = some x := by
  obtain ⟨hal, p, hp, rfl⟩ := contents?_eq_some.mp hx
  refine contents?_eq_some.mpr ⟨ho, p, (h.payload? o.slot hal.1 ho.1).trans hp, ?_⟩
  exact contents_congr fun j hj =>
    object_congr (h.refills? j (closed j o.slot (by rwa [childrenAt_of_payload? hp])))

/-- **What a value holds are values that are there.** -/
theorem alive_of_entries (closed : ∀ i j, i ∈ a.childrenAt j → (a.occupant? i).isSome)
    (hx : a.contents? o = some x) {e : ObjectId} (he : e ∈ x.entries) : a.Alive e := by
  obtain ⟨_, p, hp, rfl⟩ := contents?_eq_some.mp hx
  rw [entries_contents] at he
  obtain ⟨j, hj, rfl⟩ := List.mem_map.mp he
  exact alive_object (closed j o.slot (by rwa [childrenAt_of_payload? hp]))

/-- The value behind a view is a dictionary. -/
theorem Coherent.dictionary_of_view {ledger : List Handle} (co : a.Coherent ledger [])
    {dict : ObjectId} (hx : a.contents? o = some (.view dict)) :
    ∃ entries, a.contents? dict = some (.dictionary entries) := by
  obtain ⟨_, p, hp, hc⟩ := contents?_eq_some.mp hx
  cases p <;> cases hc
  rename_i d
  obtain ⟨q, hq, hk⟩ := Option.map_eq_some_iff.mp (co.views o.slot d hp)
  cases q <;> cases hk
  exact ⟨_, contents?_object hq⟩

/-! ## 4. New values -/

theorem vacant_of_newborn {w : Option (Slot × Payload)} (h : Carries a b w) (hn : Newborn a b o) :
    a.occupant? o.slot = none := by
  refine Option.not_isSome_iff_eq_none.mp fun ho => hn.2 ?_
  exact hn.1.of_refills? (h.refills? o.slot ho) ho

/-- No value is new whose slot was occupied. -/
theorem Carries.not_newborn {w : Option (Slot × Payload)} (h : Carries a b w)
    (ho : (b.occupant? o.slot).isSome → (a.occupant? o.slot).isSome) : ¬ Newborn a b o :=
  fun hn => by
    have hocc := ho hn.1.1
    rw [vacant_of_newborn h hn] at hocc
    cases hocc

theorem Shrinks.not_newborn (h : Shrinks a b) : ¬ Newborn a b o :=
  h.carries.not_newborn h.occupied

theorem Restored.not_newborn (h : Restored a b) : ¬ Newborn a b o :=
  h.grows.carries.not_newborn fun ho => h.occupant? o.slot ▸ ho

theorem Writes.not_newborn {w : Option (Slot × Payload)} (h : Writes a b w) : ¬ Newborn a b o :=
  h.carries.not_newborn fun ho => h.occupied_iff o.slot ▸ ho

/-- A value is new whose slot was empty. -/
theorem newborn_of_vacant {i : Slot} (hb : (b.occupant? i).isSome) (hi : a.occupant? i = none) :
    Newborn a b (b.object i) := ⟨alive_object hb, not_alive_of_vacant hi⟩

/-- The slots that the payload of a new value names are those of the handles that are stored. -/
theorem children_built? {c : Call} {p : Payload} (h : c.built? a = some p) {j : Slot}
    (hj : j ∈ p.children) : ∃ g ∈ c.stored, g.slot = j := by
  cases c with
  | buildScalar s =>
    cases h
    rw [(scalar_leaf s).1] at hj
    cases hj
  | buildList items =>
    cases h
    exact List.mem_map.mp hj
  | buildTuple items =>
    cases h
    exact List.mem_map.mp hj
  | buildView dict =>
    cases h
    exact ⟨dict, List.mem_cons_self, (List.mem_singleton.mp hj).symm⟩
  | buildBoundName owner name =>
    cases h
    exact ⟨owner, List.mem_cons_self, (List.mem_singleton.mp hj).symm⟩
  | buildRange start stop step =>
    obtain ⟨walk, _, rfl⟩ := Option.map_eq_some_iff.mp h
    cases hj
  | nextValue iterator =>
    obtain ⟨value, _, rfl⟩ := Option.map_eq_some_iff.mp h
    cases hj
  | readValue s =>
    simp only [Call.built?] at h
    cases hr : s.readPayload.1 with
    | error e =>
      rw [hr] at h
      cases h
    | ok q =>
      rw [hr] at h
      cases h
      rw [(children_of_readPayload (Prod.ext hr rfl : s.readPayload = (.ok p, _))).1] at hj
      cases hj
  | _ => cases h <;> cases hj

/-- What the value that a call builds holds; the handles that it is given are read as the values
    they name. -/
def Call.born? (a : Arena) (c : Call) : Option Contents := (c.built? a).map (·.contents a.object)

/-- **A call that builds adds one value**, which holds what it was given. -/
theorem Did.births {c : Call} {y : Answer} (h : Did a c y b) (hx : c.born? a = some x) :
    ∃ g e, y.issued = [g] ∧ b.Names g e ∧ b.contents? e = some x ∧
      ∀ o, Newborn a b o ↔ o = e := by
  obtain ⟨hstored, m, hw, hadd⟩ := h
  obtain ⟨p, hp, rfl⟩ := Option.map_eq_some_iff.mp hx
  rw [hp] at hadd
  obtain ⟨g, hg, hgain, hres⟩ := hadd
  have hcarry := Carries.grows hw hgain.grows
  have hfresh : a.occupant? g.slot = none := by
    have := hw.occupied_iff g.slot
    rw [hgain.fresh] at this
    exact Option.not_isSome_iff_eq_none.mp (by rw [← this]; exact Bool.false_ne_true)
  have hb : b.payload? g.slot = some p := hgain.payload?_new
  refine ⟨g, b.object g.slot, hg, ⟨hres, rfl⟩, ?_, fun o => ⟨fun hn => ?_, ?_⟩⟩
  · rw [contents?_object hb]
    refine congrArg some (contents_congr fun j hj => object_congr ?_)
    obtain ⟨s, hs, rfl⟩ := children_built? hp hj
    exact hcarry.refills? _ (occupied_of_resolves (hstored s hs))
  · -- any other slot was as occupied before
    have hslot : o.slot = g.slot := by
      by_contra e
      have hm : (m.occupant? o.slot).isSome := by
        rw [← payload?_isSome, ← (hgain.payload? o.slot).trans (if_neg e), payload?_isSome]
        exact hn.1.1
      rw [hw.occupied_iff, vacant_of_newborn hcarry hn] at hm
      cases hm
    rw [← hslot]
    exact hn.1.2.symm
  · rintro rfl
    exact newborn_of_vacant (occupied_of_payload? hb) hfresh

/-- A call that builds nothing adds no value. -/
theorem Did.not_newborn {c : Call} {y : Answer} (h : Did a c y b) (hx : c.born? a = none) :
    ¬ Newborn a b o := by
  obtain ⟨_, m, hw, hadd⟩ := h
  rw [Option.map_eq_none_iff.mp hx] at hadd
  exact (hw.still hadd).not_newborn

/-- **A call that builds adds one value**, and answers with a handle to it. -/
theorem perform_births (v : a.VacantExact) {c : Call} {y : Answer} (hx : c.born? a = some x)
    (hc : a.perform c = .ok y b) : ∃ g e, y.issued = [g] ∧ b.Names g e ∧ b.contents? e = some x ∧
      ∀ o, Newborn a b o ↔ o = e := by
  have h := perform_effect v c
  rw [hc] at h
  have h : Effect a c y b := h.1
  unfold Effect at h
  split at h
  · cases hx
  · cases hx
  · cases hx
  · cases hx
  · exact h.births hx

/-- **Any other call adds none**, if it makes no copy and builds no document. -/
theorem perform_not_newborn (v : a.VacantExact) {c : Call} (hd : ∀ d, c ≠ .importDocument d)
    (hh : ∀ h, c ≠ .copy h) (hx : c.born? a = none ∨ ¬ (a.perform c).answer.isOk) :
    ¬ Newborn a (a.perform c).arena o := by
  have h := perform_effect v c
  have remains : Remains a c (a.perform c).arena → ¬ Newborn a (a.perform c).arena o := by
    intro k
    unfold Remains at k
    split at k
    · exact absurd rfl (hd _)
    · exact absurd rfl (hh _)
    · exact k.not_newborn
    · exact k.not_newborn
    · exact Writes.not_newborn k
    · exact Writes.not_newborn (w := none) k
  unfold Ends at h
  split at h
  · rename_i y hy
    have hx : c.born? a = none := hx.resolve_right fun k => k (by rw [hy]; rfl)
    have h := h.1
    unfold Effect at h
    split at h
    · exact absurd rfl (hd _)
    · exact absurd rfl (hh _)
    · exact h.not_newborn
    · exact h.not_newborn
    · exact h.not_newborn hx
  · exact remains h
  · exact remains h

/-! ## 5. Copies and documents -/

/-- The value is part of the one that the handle names: it can be reached from there. -/
def PartOf (a : Arena) (h : Handle) (o : ObjectId) : Prop :=
  ∃ s, a.Leads h.slot s ∧ o = a.object s

/-- `b` is `t` with a copy of the value that `h` names in `a`; `F` tells the copy of each part. -/
structure Reproduces (a t b : Arena) (h g : Handle) (F : ObjectId → ObjectId) : Prop where
  names : b.Names g (F (a.object h.slot))
  injective : ∀ o e, a.PartOf h o → a.PartOf h e → F o = F e → o = e
  newborn_iff : ∀ o, Newborn t b o ↔ ∃ e, a.PartOf h e ∧ o = F e
  /-- A copy starts from what its original holds, with the copies in the place of the parts. -/
  contents : ∀ o, a.PartOf h o → ∃ x, a.contents? o = some x ∧
    b.contents? (F o) = some (x.restarted.rename F)

/-- **A copy starts from what its original holds**, with every value renamed. -/
theorem IsCopy.contents {t : Arena} {root : Slot} {f : Slot → Slot} {h : Handle}
    (k : IsCopy a t b root f h) {s : Slot} (hs : s ∈ a.partsOf root) :
    b.contents? (b.object (f s)) = (a.contents? (a.object s)).map fun x =>
      x.restarted.rename fun e => b.object (f e.slot) := by
  obtain ⟨q, hq⟩ := occupied_of_part hs
  have hp := payload?_of_occupant? hq
  rw [contents?_object hp, contents?_object (k.payload? hs hp), contents_mapSlots,
    Option.map_some, ← contents_restarted, contents_rename]
  rfl

theorem IsCopy.newborn_iff {t : Arena} {root : Slot} {f : Slot → Slot} {h : Handle}
    (k : IsCopy a t b root f h) :
    Newborn t b o ↔ ∃ s ∈ a.partsOf root, o = b.object (f s) := by
  constructor
  · intro hn
    by_cases hm : o.slot ∈ (a.partsOf root).map f
    · obtain ⟨s, hs, e⟩ := List.mem_map.mp hm
      exact ⟨s, hs, by rw [e]; exact hn.1.2.symm⟩
    · obtain ⟨h1, h2⟩ := k.old o.slot hm
      exact absurd (hn.1.of_refills? h2 (h1 ▸ hn.1.1)) hn.2
  · rintro ⟨s, hs, rfl⟩
    exact newborn_of_vacant (k.live hs) (k.fresh s hs)

/-- **A copy reproduces its original**, by values. -/
theorem IsCopy.reproduces {t : Arena} {f : Slot → Slot} {h g : Handle} {ledger : List Handle}
    (k : IsCopy a t b h.slot f g) (co : a.Coherent ledger [])
    (hr : (a.occupant? h.slot).isSome) :
    Reproduces a t b h g fun e => b.object (f e.slot) := by
  have hmem := co.mem_partsOf hr
  have hroot := mem_partsOf_self hr
  refine ⟨⟨?_, ?_⟩, ?_, fun o => ?_, ?_⟩
  · rw [k.handle, resolves_iff_handleOf]
    exact ⟨k.live hroot, rfl⟩
  · rw [k.handle]
    rfl
  · rintro _ _ ⟨s, hs, rfl⟩ ⟨s', hs', rfl⟩ e
    have := k.injective s ((hmem s).mpr hs) s' ((hmem s').mpr hs') (congrArg ObjectId.slot e)
    rw [this]
  · rw [k.newborn_iff]
    constructor
    · rintro ⟨s, hs, rfl⟩
      exact ⟨_, ⟨s, (hmem s).mp hs, rfl⟩, rfl⟩
    · rintro ⟨_, ⟨s, hs, rfl⟩, rfl⟩
      exact ⟨s, (hmem s).mpr hs, rfl⟩
  · rintro _ ⟨s, hs, rfl⟩
    have hpart := (hmem s).mpr hs
    obtain ⟨q, hq⟩ := occupied_of_part hpart
    have hx := contents?_object (payload?_of_occupant? hq)
    refine ⟨_, hx, ?_⟩
    show b.contents? (b.object (f s)) = _
    rw [k.contents hpart, hx, Option.map_some]

/-- **Copies by values**: a copy that is made reproduces its original, and a refused one adds
    nothing. -/
theorem copyTo_reproduces {t : Arena} {h : Handle} {ledger : List Handle}
    (co : a.Coherent ledger []) (v : t.VacantExact) (crossing : Bool) :
    (∀ g b, a.copyTo h t crossing = .ok g b → ∃ F, Reproduces a t b h g F) ∧
      ∀ e b, a.copyTo h t crossing = .error e b → ∀ o, ¬ Newborn t b o := by
  have hm := copyTo_meets (h := h) co v crossing
  unfold Meets Ends at hm
  constructor
  · intro g b e
    rw [e] at hm
    obtain ⟨hr, f, k⟩ := hm
    exact ⟨_, k.reproduces co hr⟩
  · intro f b e o
    rw [e] at hm
    exact hm.not_newborn

/-- What is grafted on refers to nothing that was there. -/
theorem Grafts.newborn_entries (h : Grafts a b) (hn : Newborn a b o) (hx : b.contents? o = some x)
    {e : ObjectId} (he : e ∈ x.entries) : ¬ a.Alive e := by
  obtain ⟨_, p, hp, rfl⟩ := contents?_eq_some.mp hx
  rw [entries_contents] at he
  obtain ⟨j, hj, rfl⟩ := List.mem_map.mp he
  exact not_alive_of_vacant (h.apart o.slot j (vacant_of_newborn h.toGrows.carries hn)
    (by rwa [childrenAt_of_payload? hp]))

/-- Values that come from a document refer to such values only, however building it ends. -/
theorem importDocument_entries (v : a.VacantExact) (d : Document)
    (hn : Newborn a (a.importDocument d).arena o)
    (hx : (a.importDocument d).arena.contents? o = some x) : ∀ e ∈ x.entries, ¬ a.Alive e := by
  have h : (a.importDocument d).Always (Grafts a) :=
    Ends.weaken (buildTree_growing Document.levels d v) fun _ _ k => k.1
  exact fun e he => (always_iff.mp h).newborn_entries hn hx he

/-- The value that is built from a document is new. -/
theorem importDocument_newborn (v : a.VacantExact) {d : Document} {h : Handle}
    (hok : a.importDocument d = .ok h b) : ∃ e, b.Names h e ∧ Newborn a b e := by
  obtain ⟨_, hfree, hr⟩ := (buildTree_growing Document.levels d v).of_ok hok
  exact ⟨_, ⟨hr, rfl⟩, newborn_of_vacant (occupied_of_resolves hr) hfree⟩

/-! ## 6. Reading what a value holds -/

theorem handOut_names {i : Slot} (v : a.VacantExact) (hi : (a.occupant? i).isSome) :
    ∃ h b, a.handOut i = .ok h b ∧ Still a b ∧ b.Names h (a.object i) := by
  have h := handOut_leaves v i
  unfold handOut at h ⊢
  rw [retain_eq_ok hi] at h ⊢
  refine ⟨_, _, rfl, h.1, h.2.1, ?_⟩
  exact object_congr (h.1.refills? i)

theorem handOutFound_names (found : Option Slot) (v : a.VacantExact)
    (hi : ∀ i ∈ found, (a.occupant? i).isSome) :
    ∃ h b, a.handOutFound found = .ok h b ∧ Option.Rel b.Names h (found.map a.object) := by
  cases found with
  | none => exact ⟨none, a, rfl, .none⟩
  | some i =>
    obtain ⟨h, b, e, _, hn⟩ := handOut_names v (hi i rfl)
    refine ⟨some h, b, ?_, .some hn⟩
    show (a.handOut i).andThen _ = _
    rw [e]
    rfl

theorem handOutPairs_names (pairs : List (String × Slot)) (v : a.VacantExact)
    (hi : ∀ p ∈ pairs, (a.occupant? p.2).isSome) :
    ∃ hs b, a.handOutPairs pairs = .ok hs b ∧ Still a b ∧
      List.Forall₂ (fun p e => p.1 = e.1 ∧ b.Names p.2 e.2) hs
        (pairs.map fun p => (p.1, a.object p.2)) := by
  induction pairs generalizing a with
  | nil => exact ⟨[], a, rfl, .refl v, .nil⟩
  | cons p rest ih =>
    obtain ⟨key, i⟩ := p
    obtain ⟨h, m, e1, k1, hn⟩ := handOut_names v (hi _ List.mem_cons_self)
    obtain ⟨hs, b, e2, k2, hrest⟩ := ih k1.vacant fun p hp => by
      rw [k1.occupied]
      exact hi p (List.mem_cons_of_mem _ hp)
    refine ⟨(key, h) :: hs, b, ?_, k1.trans k2, .cons ⟨rfl, ?_⟩ ?_⟩
    · unfold handOutPairs
      rw [e1, andThen_ok, e2]
      rfl
    · exact ⟨(k2.resolves h).mpr hn.1, (object_congr (k2.refills? _)).trans hn.2⟩
    · have hsame : (fun p : String × Slot => (p.1, m.object p.2)) =
          fun p => (p.1, a.object p.2) :=
        funext fun p => congrArg (Prod.mk p.1) (object_congr (k1.refills? p.2))
      rwa [hsame] at hrest

theorem Names.payload? {h : Handle} (hn : a.Names h o) (hx : a.contents? o = some x) :
    ∃ p, a.payload? h.slot = some p ∧ p.contents a.object = x := by
  obtain ⟨_, p, hp, hc⟩ := contents?_eq_some.mp hx
  rw [← hn.2] at hp
  exact ⟨p, hp, hc⟩

section Readings

variable (v : a.VacantExact) (closed : ∀ i j, i ∈ a.childrenAt j → (a.occupant? i).isSome)
  {h : Handle} (hn : a.Names h o)

include v closed hn

/-- The item at a place of a list or a tuple. -/
theorem item_names {items : List ObjectId}
    (hx : a.contents? o = some (.list items) ∨ a.contents? o = some (.tuple items)) (n : Nat) :
    ∃ g b, a.item h n = .ok g b ∧ Option.Rel b.Names g items[n]? := by
  obtain ⟨slots, hread, hp, rfl⟩ : ∃ slots, a.readSequence h = .ok slots ∧
      (∀ i ∈ slots, (a.occupant? i).isSome) ∧ slots.map a.object = items := by
    obtain ⟨q, hq⟩ := resolves_iff.mp hn.1
    unfold readSequence
    rw [hq]
    obtain ⟨p, hp, hc⟩ : ∃ p, a.payload? h.slot = some p ∧
        (p.contents a.object = .list items ∨ p.contents a.object = .tuple items) := by
      rcases hx with hx | hx
      · obtain ⟨p, hp, hc⟩ := hn.payload? hx
        exact ⟨p, hp, .inl hc⟩
      · obtain ⟨p, hp, hc⟩ := hn.payload? hx
        exact ⟨p, hp, .inr hc⟩
    have hchildren : ∀ i ∈ p.children, (a.occupant? i).isSome := fun i hi =>
      closed i h.slot (by rwa [childrenAt_of_payload? hp])
    rw [payload?_of_occupant? (occupant?_of_lookup hq)] at hp
    obtain ⟨count, payload⟩ := q
    cases hp
    cases payload <;> rcases hc with hc | hc <;> cases hc
    · exact ⟨_, rfl, hchildren, rfl⟩
    · exact ⟨_, rfl, hchildren, rfl⟩
  obtain ⟨g, b, e, hg⟩ := handOutFound_names slots[n]? v
    fun i hi => hp i (List.mem_of_getElem? hi)
  refine ⟨g, b, ?_, by rwa [List.getElem?_map]⟩
  unfold item
  rw [hread]
  exact e

/-- The value under a key of a dictionary. -/
theorem entry_names {entries : List (String × ObjectId)}
    (hx : a.contents? o = some (.dictionary entries)) (key : String) :
    ∃ g b, a.entry h key = .ok g b ∧ Option.Rel b.Names g (entries.lookup key) := by
  obtain ⟨p, hp, hc⟩ := hn.payload? hx
  cases p <;> cases hc
  rename_i e
  obtain ⟨g, b, hok, hg⟩ := handOutFound_names (e.get? key) v fun i hi =>
    closed i h.slot (by rw [childrenAt_of_payload? hp]; exact Entries.mem_slots_of_get? hi)
  refine ⟨g, b, ?_, by rwa [lookup_map]⟩
  unfold entry
  rw [show a.readDictionary h = .ok e from read_of_payload? hn.1 hp rfl]
  exact hok

/-- The value under a name of a module. -/
theorem member_names {name : String} {members : List (String × ObjectId)}
    (hx : a.contents? o = some (.moduleTable name members)) (key : String) :
    ∃ g b, a.member h key = .ok g b ∧ Option.Rel b.Names g (members.lookup key) := by
  obtain ⟨p, hp, hc⟩ := hn.payload? hx
  cases p <;> cases hc
  rename_i m
  obtain ⟨g, b, hok, hg⟩ := handOutFound_names (m.members.get? key) v fun i hi =>
    closed i h.slot (by rw [childrenAt_of_payload? hp]; exact Entries.mem_slots_of_get? hi)
  refine ⟨g, b, ?_, by rwa [lookup_map]⟩
  unfold member
  rw [show a.readModule h = .ok m from read_of_payload? hn.1 hp rfl]
  exact hok

/-- The value that a bound name belongs to. -/
theorem ownerOf_names {owner : ObjectId} {name : String}
    (hx : a.contents? o = some (.bound owner name)) :
    ∃ g b, a.ownerOf h = .ok g b ∧ b.Names g owner := by
  obtain ⟨p, hp, hc⟩ := hn.payload? hx
  cases p <;> cases hc
  rename_i n
  obtain ⟨g, b, hok, _, hg⟩ := handOut_names v (closed n.owner h.slot (by
    rw [childrenAt_of_payload? hp]
    exact List.mem_cons_self))
  refine ⟨g, b, ?_, hg⟩
  unfold ownerOf
  rw [show a.readAttr h = .ok n from read_of_payload? hn.1 hp rfl]
  exact hok

/-- The entries behind a view: those of its dictionary, in their order. -/
theorem entriesOf_names {dict : ObjectId} {entries : List (String × ObjectId)}
    (hx : a.contents? o = some (.view dict)) (hd : a.contents? dict = some (.dictionary entries)) :
    ∃ hs b, a.entriesOf h = .ok hs b ∧
      List.Forall₂ (fun p e => p.1 = e.1 ∧ b.Names p.2 e.2) hs entries := by
  obtain ⟨p, hp, hc⟩ := hn.payload? hx
  cases p <;> cases hc
  rename_i d
  obtain ⟨_, q, hq, hqc⟩ := contents?_eq_some.mp hd
  cases q <;> cases hqc
  rename_i es
  have hq : a.payload? d = some (.dictionary es) := hq
  obtain ⟨hs, b, hok, _, hall⟩ := handOutPairs_names es.pairs v fun p hp' =>
    closed p.2 d (by rw [childrenAt_of_payload? hq]; exact List.mem_map_of_mem hp')
  refine ⟨hs, b, ?_, hall⟩
  unfold entriesOf
  rw [show a.readDictItems h = .ok d from read_of_payload? hn.1 hp rfl]
  simp only [follow_eq_ok hq]
  exact hok

end Readings

end Arena

end ValueHeap
