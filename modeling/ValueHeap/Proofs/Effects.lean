import ValueHeap.Proofs.World
import ValueHeap.Proofs.Changes

/-!
# What each operation does to the values

The operations of an arena, by the changes of `Changes`: a factory adds one value, an update
rewrites one, a reading leaves all values as they are. This holds of every arena whose list of
empty slots is exact, and however the operation ends.

* `Outcome.Leaves`: with an answer `good`, and without one the values as they were;
* `Call.written?` and `Call.built?`: the payload that a call changes and the value that it builds;
* **`perform_effect`**: what every call does; the handles it answers with name values;
* `perform_evolves`: so the arena evolves, whatever is called and however it ends.
-/

namespace ValueHeap

namespace Arena

namespace Outcome

variable {α β : Type}

/-- With an answer the operation leaves `good`, and without one the values of `a`. -/
def Leaves (r : Outcome α) (a : Arena) (good : α → Arena → Prop) : Prop :=
  r.Ends good (Still a) fun _ => Still a

theorem Leaves.imp {r : Outcome α} {a : Arena} {good good' : α → Arena → Prop}
    (h : r.Leaves a good) (k : ∀ x b, good x b → good' x b) : r.Leaves a good' :=
  Ends.weaken h k

/-- What leaves the values of `b` leaves those of `a`, if `b` has them still. -/
theorem Leaves.after {r : Outcome α} {a b : Arena} {good : α → Arena → Prop} (h : Still a b)
    (k : r.Leaves b good) : r.Leaves a good :=
  Ends.imp k (fun _ _ k => k) (fun _ k => h.trans k) fun _ _ k => h.trans k

theorem Leaves.andThen {r : Outcome α} {next : α → Arena → Outcome β} {a : Arena}
    {mid : α → Arena → Prop} {good : β → Arena → Prop} (h : r.Leaves a mid)
    (k : ∀ x b, mid x b → (next x b).Leaves a good) : (r.andThen next).Leaves a good :=
  Ends.andThen h k

/-- An operation all of whose ends leave the same. -/
def Always (r : Outcome α) (P : Arena → Prop) : Prop := r.Ends (fun _ => P) P fun _ => P

theorem always_iff {r : Outcome α} {P : Arena → Prop} : r.Always P ↔ P r.arena := by
  obtain ⟨(e | f) | x, a⟩ := r <;> exact Iff.rfl

end Outcome

open Outcome

variable {a b c t : Arena}

/-! ## 1. References -/

/-- The handle for an occupied slot names a value. -/
theorem resolves_handleOf {i : Slot} (h : (a.occupant? i).isSome) : a.resolves (a.handleOf i) :=
  resolves_iff_handleOf.mpr ⟨h, rfl⟩

theorem retain_leaves (v : a.VacantExact) (i : Slot) :
    (a.retain i).Leaves a fun _ b => Still a b ∧ (b.occupant? i).isSome := by
  unfold retain retain?
  cases ho : a.occupant? i with
  | none => exact .refl v
  | some o =>
    have h : Still a (a.update i fun o => { o with count := o.count + 1 }) :=
      still_update v i fun _ => rfl
    exact ⟨h, (h.occupied i).trans (by rw [ho]; rfl)⟩

theorem handOut_leaves (v : a.VacantExact) (i : Slot) :
    (a.handOut i).Leaves a fun h b => Still a b ∧ b.resolves h ∧ h.slot = i :=
  (retain_leaves v i).andThen fun _ _ h => ⟨h.1, resolves_handleOf h.2, rfl⟩

theorem clone_leaves (v : a.VacantExact) (h : Handle) :
    (a.clone h).Leaves a fun g b => Still a b ∧ b.resolves g ∧ g.slot = h.slot := by
  unfold clone
  cases a.lookup h with
  | error e => exact Still.refl v
  | ok o => exact handOut_leaves v h.slot

/-! ## 2. Building -/

theorem allocate_leaves (v : a.VacantExact) (p : Payload) (n : Nat) :
    (a.allocate p n).Leaves a fun i b => Gains a b i p := by
  have hs : ∀ {b}, SameSlots b a → Still a b := fun h => .of_sameSlots v h
  rcases a.allocate_cases p n with ⟨b, e, hb⟩ | ⟨why, b, e, hb⟩ | ⟨b, e, hb⟩ <;> rw [e]
  · have h := gains_fill v ⟨n, p⟩
    exact h.still (.of_sameSlots h.vacant hb)
  · exact hs hb
  · exact hs hb

/-- Building adds one value, and the handle names it. -/
def Builds? (a : Arena) (p : Payload) (h : Handle) (b : Arena) : Prop :=
  Gains a b h.slot p ∧ b.resolves h

theorem Still.builds? {p : Payload} {h : Handle} (k : Still a b) (w : b.Builds? p h c) :
    a.Builds? p h c := ⟨k.gains w.1, w.2⟩

theorem build_leaves (v : a.VacantExact) (p : Payload) : (a.build p).Leaves a (a.Builds? p) := by
  refine (allocate_leaves v p 1).andThen fun i b h => ⟨h, resolves_handleOf ?_⟩
  exact occupied_of_payload? h.payload?_new

theorem buildHolding_leaves (v : a.VacantExact) (p : Payload) :
    (a.buildHolding p).Leaves a (a.Builds? p) :=
  Ends.onError (build_leaves v p) fun _ h => h.trans (still_giveBackAll _ h.vacant)

theorem buildRange_leaves (v : a.VacantExact) (start stop step : Int32) :
    (a.buildRange start stop step).Leaves a fun h b =>
      ∃ walk, Progression.new? start stop step = some walk ∧ a.Builds? (.iterator walk) h b := by
  unfold buildRange
  cases hw : Progression.new? start stop step with
  | none => exact Still.refl v
  | some walk => exact (build_leaves v _).imp fun h b k => ⟨walk, rfl, k⟩

theorem buildSequence_leaves (v : a.VacantExact) (make : List Slot → Payload)
    (items : List Handle) : (a.buildSequence make items).Leaves a fun h b =>
      (∀ x ∈ items, a.resolves x) ∧ a.Builds? (make (items.map (·.slot))) h b := by
  unfold buildSequence
  cases he : a.firstError? items with
  | some e => exact still_releaseAll items v
  | none => exact (buildHolding_leaves v _).imp fun h b k => ⟨firstError?_eq_none he, k⟩

/-- What can be read, its handle names. -/
theorem resolves_of_read {α : Type} {wanted : Kind} {pick : Payload → Option α} {h : Handle} {x : α}
    (e : a.read wanted pick h = .ok x) : a.resolves h := by
  unfold read at e
  cases hl : a.lookup h with
  | ok o => exact resolves_iff.mpr ⟨o, hl⟩
  | error e' =>
    rw [hl] at e
    cases e

/-- A handle that names a value is read as the payload of that value. -/
theorem read_of_payload? {α : Type} {wanted : Kind} {pick : Payload → Option α} {h : Handle}
    {p : Payload} {x : α} (hr : a.resolves h) (hp : a.payload? h.slot = some p)
    (hx : pick p = some x) : a.read wanted pick h = .ok x := by
  obtain ⟨o, ho⟩ := resolves_iff.mp hr
  rw [payload?_of_occupant? (occupant?_of_lookup ho)] at hp
  cases hp
  unfold read
  rw [ho]
  simp only [hx]

theorem buildView_leaves (v : a.VacantExact) (dict : Handle) :
    (a.buildView dict).Leaves a fun h b =>
      a.resolves dict ∧ a.Builds? (.dictItems dict.slot) h b := by
  unfold buildView
  cases hr : a.readDictionary dict with
  | error e => exact Still.refl v
  | ok entries =>
    refine (retain_leaves v dict.slot).andThen fun _ b h => .after h.1 ?_
    refine (buildHolding_leaves h.1.vacant _).imp fun _ _ k => ⟨?_, h.1.builds? k⟩
    exact resolves_of_read hr

theorem buildBoundName_leaves (v : a.VacantExact) (owner : Handle) (name : String) :
    (a.buildBoundName owner name).Leaves a fun h b =>
      a.resolves owner ∧ a.Builds? (.attr ⟨owner.slot, name⟩) h b := by
  unfold buildBoundName
  cases hl : a.lookup owner with
  | error e => exact Still.refl v
  | ok o =>
    refine (retain_leaves v owner.slot).andThen fun _ b h => .after h.1 ?_
    refine (buildHolding_leaves h.1.vacant _).imp fun _ _ k => ⟨?_, h.1.builds? k⟩
    exact resolves_iff.mpr ⟨o, hl⟩

theorem readValue_leaves (v : a.VacantExact) (s : ByteStream) :
    (a.readValue s).1.Leaves a fun h b =>
      ∃ p, s.readPayload.1 = .ok p ∧ a.Builds? p h b := by
  unfold readValue
  split
  · exact Still.refl v
  · rename_i p u hr
    have h : (a.build p).Leaves a fun h b => ∃ q, s.readPayload.1 = .ok q ∧ a.Builds? q h b :=
      (build_leaves v p).imp fun h b k => ⟨p, by rw [hr], k⟩
    simp only
    split <;> exact h

/-! ## 3. Changing what values hold -/

theorem assign_leaves (v : a.VacantExact) (h : Handle) (s : Scalar) :
    (a.assign h s).Leaves a fun _ b => a.resolves h ∧ Rewrites a b h.slot s.payload := by
  unfold assign payloadAs
  cases hl : a.lookup h with
  | error e => exact Still.refl v
  | ok o =>
    have hp := payload?_of_occupant? (occupant?_of_lookup hl)
    by_cases hk : o.payload.kind = s.payload.kind
    · simp only [hk, ↓reduceIte]
      exact ⟨resolves_iff.mpr ⟨o, hl⟩, rewrites_setPayload v hp hk⟩
    · simp only [hk, ↓reduceIte]
      exact Still.refl v

/-- What is stored is stored in a container that was read, for a handle that names a value. -/
theorem takeOver_leaves {α : Type} (v : a.VacantExact) (item : Handle)
    (container : Except HeapError α) (store : α → Arena) :
    (a.takeOver item container store).Leaves a fun _ b =>
      a.resolves item ∧ ∃ x, container = .ok x ∧ b = store x := by
  unfold takeOver
  cases hl : a.lookup item with
  | error e => exact still_release v item
  | ok o =>
    cases container with
    | error e => exact still_release v item
    | ok x => exact ⟨resolves_iff.mpr ⟨o, hl⟩, x, rfl, rfl⟩

theorem append_leaves (v : a.VacantExact) (list item : Handle) :
    (a.append list item).Leaves a fun _ b => a.resolves item ∧ ∃ items,
      a.readList list = .ok items ∧ Rewrites a b list.slot (.list (items ++ [item.slot])) := by
  refine (takeOver_leaves v item _ _).imp ?_
  rintro _ _ ⟨hi, items, hr, rfl⟩
  exact ⟨hi, items, hr, rewrites_setPayload v (readList_eq_ok hr) rfl⟩

theorem insertEntry_leaves (v : a.VacantExact) (dict : Handle) (key : String) (item : Handle) :
    (a.insertEntry dict key item).Leaves a fun _ b => a.resolves item ∧ ∃ entries,
      a.readDictionary dict = .ok entries ∧
        Rewrites a b dict.slot (.dictionary (entries.insert key item.slot)) := by
  refine (takeOver_leaves v item _ _).imp ?_
  rintro _ _ ⟨hi, entries, hr, rfl⟩
  have h := rewrites_setPayload (q := .dictionary (entries.insert key item.slot)) v
    (readDictionary_eq_ok hr) rfl
  exact ⟨hi, entries, hr, h.still (still_giveBackReplaced h.vacant _)⟩

theorem bindMember_leaves (v : a.VacantExact) (table : Handle) (name : String) (item : Handle) :
    (a.bindMember table name item).Leaves a fun _ b => a.resolves item ∧ ∃ m,
      a.readModule table = .ok m ∧ Rewrites a b table.slot
        (.moduleTable { m with members := m.members.insert name item.slot }) := by
  refine (takeOver_leaves v item _ _).imp ?_
  rintro _ _ ⟨hi, m, hr, rfl⟩
  have h := rewrites_setPayload v (readModule_eq_ok hr)
    (q := .moduleTable { m with members := m.members.insert name item.slot }) rfl
  exact ⟨hi, m, hr, h.still (still_giveBackReplaced h.vacant _)⟩

/-! ## 4. Reading what values hold -/

theorem handOutFound_leaves (v : a.VacantExact) (found : Option Slot) :
    (a.handOutFound found).Leaves a fun h b => Still a b ∧ ∀ g ∈ h.toList, b.resolves g := by
  cases found with
  | none => exact ⟨.refl v, fun g hg => by cases hg⟩
  | some i =>
    refine (handOut_leaves v i).andThen fun h b k => ⟨k.1, fun g hg => ?_⟩
    rw [List.mem_singleton.mp hg]
    exact k.2.1

theorem item_leaves (v : a.VacantExact) (sequence : Handle) (index : Nat) :
    (a.item sequence index).Leaves a fun h b => Still a b ∧ ∀ g ∈ h.toList, b.resolves g := by
  unfold item
  cases a.readSequence sequence with
  | error e => exact Still.refl v
  | ok items => exact handOutFound_leaves v _

theorem entry_leaves (v : a.VacantExact) (dict : Handle) (key : String) :
    (a.entry dict key).Leaves a fun h b => Still a b ∧ ∀ g ∈ h.toList, b.resolves g := by
  unfold entry
  cases a.readDictionary dict with
  | error e => exact Still.refl v
  | ok entries => exact handOutFound_leaves v _

theorem member_leaves (v : a.VacantExact) (table : Handle) (name : String) :
    (a.member table name).Leaves a fun h b => Still a b ∧ ∀ g ∈ h.toList, b.resolves g := by
  unfold member
  cases a.readModule table with
  | error e => exact Still.refl v
  | ok m => exact handOutFound_leaves v _

theorem ownerOf_leaves (v : a.VacantExact) (bound : Handle) :
    (a.ownerOf bound).Leaves a fun h b => Still a b ∧ b.resolves h := by
  unfold ownerOf
  cases a.readAttr bound with
  | error e => exact Still.refl v
  | ok n => exact (handOut_leaves v n.owner).imp fun _ _ k => ⟨k.1, k.2.1⟩

theorem handOutPairs_leaves (pairs : List (String × Slot)) (v : a.VacantExact) :
    (a.handOutPairs pairs).Leaves a fun hs b =>
      Still a b ∧ ∀ g ∈ hs.map (·.2), b.resolves g := by
  induction pairs generalizing a with
  | nil => exact ⟨.refl v, fun g hg => by cases hg⟩
  | cons p rest ih =>
    refine (handOut_leaves v p.2).andThen fun h b k => .after k.1 ?_
    refine (ih k.1.vacant).andThen fun hs c l => ⟨k.1.trans l.1, fun g hg => ?_⟩
    rcases List.mem_cons.mp hg with e | hg
    · rw [e]
      exact (l.1.resolves h).mpr k.2.1
    · exact l.2 g hg

theorem entriesOf_leaves (v : a.VacantExact) (view : Handle) :
    (a.entriesOf view).Leaves a fun hs b =>
      Still a b ∧ ∀ g ∈ hs.map (·.2), b.resolves g := by
  unfold entriesOf
  cases a.readDictItems view with
  | error e => exact Still.refl v
  | ok d =>
    simp only
    split
    · exact Still.refl v
    · exact handOutPairs_leaves _ v
    · exact Still.refl v

/-! ## 5. Iterators -/

/-- The arena has at most the payload of one value changed. -/
def Writes (a b : Arena) : Option (Slot × Payload) → Prop
  | some (i, q) => Rewrites a b i q
  | none => Still a b

/-- The arena has at most one value more; `hs` is the handle to it. -/
def Adds (a b : Arena) (hs : List Handle) : Option Payload → Prop
  | some p => ∃ h, hs = [h] ∧ a.Builds? p h b
  | none => Still a b

/-- The element an iterator stands at, if it can be read and has not ended. -/
def element? (a : Arena) (iterator : Handle) : Option Int32 :=
  match a.readIterator iterator with
  | .ok walk => walk.next?.map (·.1)
  | .error _ => none

/-- The payload of an iterator one step on, with its slot. -/
def stepped? (a : Arena) (iterator : Handle) : Option (Slot × Payload) :=
  match a.readIterator iterator with
  | .ok walk => walk.next?.map fun q => (iterator.slot, .iterator q.2)
  | .error _ => none

theorem stepIterator_ends (v : a.VacantExact) (iterator : Handle) :
    (a.stepIterator iterator).Ends
      (fun value b => value = a.element? iterator ∧ Writes a b (a.stepped? iterator))
      (fun b => Still a b ∧ a.stepped? iterator = none)
      fun _ b => Still a b ∧ a.stepped? iterator = none := by
  unfold stepIterator element? stepped?
  cases hr : a.readIterator iterator with
  | error e => exact ⟨.refl v, rfl⟩
  | ok walk =>
    simp only
    cases walk.next? with
    | none => exact ⟨rfl, .refl v⟩
    | some q => exact ⟨rfl, rewrites_setPayload v (readIterator_eq_ok hr) rfl⟩

theorem Writes.vacant {w : Option (Slot × Payload)} (h : Writes a b w) : b.VacantExact := by
  cases w with
  | none => exact Still.vacant h
  | some q => exact Rewrites.vacant h

theorem Writes.still {w : Option (Slot × Payload)} (h : Writes a b w) (k : Still b c) :
    Writes a c w := by
  cases w with
  | none => exact Still.trans h k
  | some q => exact Rewrites.still h k

theorem Writes.occupied_iff {w : Option (Slot × Payload)} (h : Writes a b w) (j : Slot) :
    (b.occupant? j).isSome = (a.occupant? j).isSome := by
  cases w with
  | none => exact Still.occupied h j
  | some q => exact Rewrites.occupied_iff h j

/-- The next value is built after the iterator has moved on, which it has even if no value is
    built. -/
theorem nextValue_ends (v : a.VacantExact) (iterator : Handle) :
    (a.nextValue iterator).Ends
      (fun h b => (∃ m, Writes a m (a.stepped? iterator) ∧
        Adds m b h.toList ((a.element? iterator).map .integer)) ∧ ∀ g ∈ h.toList, b.resolves g)
      (fun b => Writes a b (a.stepped? iterator)) fun _ b => Writes a b (a.stepped? iterator) := by
  have unread : ∀ b, Still a b ∧ a.stepped? iterator = none → Writes a b (a.stepped? iterator) := by
    rintro b ⟨k, e⟩
    rw [e]
    exact k
  have step := Ends.imp (stepIterator_ends v iterator) (fun _ _ k => k) unread fun _ => unread
  refine Ends.andThen step ?_
  rintro next b ⟨rfl, hw⟩
  cases a.element? iterator with
  | none => exact ⟨⟨b, hw, .refl hw.vacant⟩, List.forall_mem_nil _⟩
  | some value =>
    have built : (b.buildInteger value).Leaves b (b.Builds? (.integer value)) :=
      build_leaves hw.vacant _
    refine Ends.andThen (Ends.imp built (fun _ _ k => k) (fun _ => hw.still) fun _ _ => hw.still) ?_
    exact fun h c k => ⟨⟨b, hw, h, rfl, k⟩, List.forall_mem_singleton.mpr k.2⟩

/-! ## 6. Documents -/

/-- Building a document adds values that refer to such values only, however it ends; the handle
    names one of them. -/
def Growing (r : Outcome Handle) (a : Arena) : Prop :=
  r.Ends (fun h b => Grafts a b ∧ a.occupant? h.slot = none ∧ b.resolves h) (Grafts a)
    fun _ => Grafts a

theorem Growing.of_ok {r : Outcome Handle} {h : Handle} (w : Growing r a) (e : r = .ok h b) :
    Grafts a b ∧ a.occupant? h.slot = none ∧ b.resolves h := by
  rw [e] at w
  exact w

/-- The handles name further values. -/
def Further (a b : Arena) (hs : List Handle) : Prop :=
  ∀ h ∈ hs, a.occupant? h.slot = none ∧ b.resolves h

/-- Building one document after others. -/
theorem Growing.after {r : Outcome Handle} (w : Grafts a b) (h : Growing r b) :
    r.Ends (fun g c => Grafts a c ∧ Grows b c ∧ a.occupant? g.slot = none ∧ c.resolves g)
      (Grafts a) fun _ => Grafts a :=
  Ends.imp h (fun _ _ k => ⟨w.trans k.1, k.1.toGrows, w.vacant_of k.2.1, k.2.2⟩)
    (fun _ k => w.trans k) fun _ _ k => w.trans k

theorem Still.grafts (h : Still a b) (v : a.VacantExact) : Grafts a b := (Grafts.refl v).still h

theorem growing_build (v : a.VacantExact) {p : Payload} (hp : p.children = []) :
    Growing (a.build p) a := by
  refine Ends.imp (build_leaves v p) (fun h b k => ⟨?_, k.1.fresh, k.2⟩) (fun _ k => k.grafts v)
    fun _ _ k => k.grafts v
  exact (Grafts.refl v).gains k.1 fun j hj => by rw [hp] at hj; cases hj

theorem buildItems_grafts {build : Document → Arena → Outcome Handle}
    (hb : ∀ d b, b.VacantExact → Growing (build d b) b) (docs : List Document)
    (built : List Handle) (w : Grafts a b) (hw : Further a b built) :
    (buildItems build b docs built).Ends (fun hs c => Grafts a c ∧ Further a c hs) (Grafts a)
      fun _ => Grafts a := by
  induction docs generalizing b built with
  | nil => exact ⟨w, hw⟩
  | cons d rest ih =>
    refine (Ends.onError (Growing.after w (hb d b w.vacant)) fun c k => ?_).andThen ?_
    · exact k.still (still_releaseAll built k.vacant)
    · rintro h c ⟨hc, hbc, hnew, hres⟩
      refine ih (built ++ [h]) hc fun g hg => ?_
      rcases List.mem_append.mp hg with hg | hg
      · exact ⟨(hw g hg).1, hbc.resolves (hw g hg).2⟩
      · rw [List.mem_singleton.mp hg]
        exact ⟨hnew, hres⟩

/-- A slot in a list of pairs after one was put in is that slot or was there. -/
theorem mem_putPair {key : String} {slot j : Slot} {l : List (String × Slot)}
    (h : j ∈ (putPair key slot l).map (·.2)) : j = slot ∨ j ∈ l.map (·.2) := by
  have hc := count_putPair key slot j l
  have h1 := List.count_pos_iff.mpr h
  by_cases e : j = slot
  · exact .inl e
  · rw [List.count_cons_of_ne (Ne.symm e), List.count_nil] at hc
    exact .inr (List.count_pos_iff.mp (by omega))

/-- A further value that is put into a further dictionary is held by further values only. -/
theorem Grafts.insertEntry {dict item : Handle} {key : String} (w : Grafts a b)
    (hd : a.occupant? dict.slot = none) (hi : a.occupant? item.slot = none)
    (hr : b.resolves dict) : (b.insertEntry dict key item).Ends
      (fun _ c => Grafts a c ∧ c.resolves dict) (Grafts a) fun _ => Grafts a := by
  refine Ends.imp (insertEntry_leaves w.vacant dict key item) ?_ (fun _ k => w.still k)
    fun _ _ k => w.still k
  rintro _ c ⟨_, entries, he, k⟩
  refine ⟨w.rewrites k hd fun j hj => ?_, ?_⟩
  · rcases mem_putPair hj with rfl | hj
    · exact hi
    · refine w.apart dict.slot j hd ?_
      rw [childrenAt_of_payload? (readDictionary_eq_ok he)]
      exact hj
  · exact (k.resolves dict).mpr hr

theorem buildMembers_grafts {build : Document → Arena → Outcome Handle}
    (hb : ∀ d b, b.VacantExact → Growing (build d b) b) (dict : Handle)
    (members : List (String × Document)) (w : Grafts a b) (hd : a.occupant? dict.slot = none)
    (hr : b.resolves dict) : (buildMembers build dict b members).Ends
      (fun _ c => Grafts a c ∧ c.resolves dict) (Grafts a) fun _ => Grafts a := by
  induction members generalizing b with
  | nil => exact ⟨w, hr⟩
  | cons m rest ih =>
    obtain ⟨key, d⟩ := m
    refine Ends.andThen (Growing.after w (hb d b w.vacant)) ?_
    rintro h c ⟨hc, hbc, hnew, _⟩
    refine Ends.andThen (hc.insertEntry hd hnew (hbc.resolves hr)) ?_
    rintro _ e ⟨he, hre⟩
    exact ih he hre

/-- **Building a document adds values that refer to such values only**, however it ends. -/
theorem buildTree_growing (levels : Nat) (d : Document) (v : a.VacantExact) :
    Growing (buildTree levels d a) a := by
  induction levels generalizing d a with
  | zero => exact Grafts.refl v
  | succ levels ih =>
    have built : ∀ d b, b.VacantExact → Growing (buildTree levels d b) b := fun d _ vb => ih d vb
    cases d with
    | null => exact Grafts.refl v
    | bool flag => exact growing_build v rfl
    | integer n => exact growing_build v (children_wholeNumber n)
    | float x => exact growing_build v rfl
    | string text => exact growing_build v rfl
    | array items =>
      have h := buildItems_grafts built items [] (.refl v) fun h hh => by cases hh
      refine Ends.andThen h ?_
      rintro hs b ⟨w, hw⟩
      have hlist := buildSequence_leaves w.vacant Payload.list hs
      refine Ends.imp hlist ?_ (fun _ k => w.still k) fun _ _ k => w.still k
      rintro h c ⟨_, k⟩
      refine ⟨w.gains k.1 fun j hj => ?_, w.vacant_of k.1.fresh, k.2⟩
      obtain ⟨g, hg, rfl⟩ := List.mem_map.mp hj
      exact (hw g hg).1
    | object members =>
      refine Ends.andThen (growing_build v (p := .dictionary .empty) rfl) ?_
      rintro dict b ⟨w, hd, hr⟩
      have h := buildMembers_grafts built dict members w hd hr
      refine (Ends.onError h fun c k => k.still (still_release k.vacant dict)).andThen ?_
      rintro _ c ⟨k, hrc⟩
      exact ⟨k, hd, hrc⟩

/-! ## 7. Copies -/

theorem retainAll_leaves (is : List Slot) (v : a.VacantExact) :
    (a.retainAll is).Leaves a fun _ b => Still a b := by
  induction is generalizing a with
  | nil => exact Still.refl v
  | cons i is ih =>
    refine (retain_leaves v i).andThen fun _ b h => .after h.1 ?_
    exact (ih h.1.vacant).imp fun _ _ k => h.1.trans k

/-- Rewiring changes values that were not there at the start. -/
theorem rewire_grows (f : Slot → Slot) (is : List Slot) (w : Grows a b)
    (hi : ∀ i ∈ is, a.occupant? i = none) : (b.rewire f is).Always (Grows a) := by
  induction is generalizing b with
  | nil => exact w
  | cons i is ih =>
    unfold rewire
    cases hp : b.payload? i with
    | none =>
      obtain ⟨g, hg⟩ := follow_eq_error hp
      rw [hg]
      exact w
    | some p =>
      rw [follow_eq_ok hp]
      have k := rewrites_setPayload w.vacant hp (p.kind_mapSlots f).symm
      have wk := w.rewrites k (hi i List.mem_cons_self)
      have h := retainAll_leaves (p.mapSlots f).children k.vacant
      have hall : ((b.setPayload i (p.mapSlots f)).retainAll (p.mapSlots f).children).Always
          (Grows a) :=
        Ends.imp h (fun _ _ hc => wk.trans hc.grows) (fun _ hc => wk.trans hc.grows)
          fun _ _ hc => wk.trans hc.grows
      exact Ends.andThen hall fun _ c hc => ih hc fun j hj => hi j (List.mem_cons_of_mem _ hj)

/-- **A copy adds values**, however it ends, and its handle names one. -/
theorem copyTo_grows (a : Arena) (h : Handle) (v : t.VacantExact) (crossing : Bool) :
    (a.copyTo h t crossing).Ends (fun g b => Grows t b ∧ b.resolves g) (Grows t)
      fun _ => Grows t := by
  unfold copyTo
  cases a.lookup h with
  | error e => exact Grows.refl v
  | ok o =>
    cases a.copyParts h.slot with
    | error f => exact Grows.refl v
    | ok plan =>
      have hfill : (t.fillSlots plan []).Ends
          (fun built b => Grows t b ∧ ∀ i ∈ built.map (·.2), t.occupant? i = none) (Grows t)
          fun _ => Grows t := by
        refine Ends.imp (fillSlots_ends plan (.start v)) (fun built b w => ⟨w.grows, w.fresh⟩)
          (fun b w => w.grows) ?_
        rintro f b ⟨_, e, _, _, w, hs⟩
        exact w.grows.trans (Still.of_sameSlots w.vacant hs).grows
      refine Ends.andThen hfill ?_
      rintro built b ⟨w, hnew⟩
      have hwire : (b.rewire (renamed built) (built.map (·.2))).Always (Grows t) :=
        rewire_grows _ _ w hnew
      refine Ends.andThen hwire ?_
      intro _ d wd
      cases built with
      | nil => exact wd
      | cons q rest =>
        have hroot : (d.retain q.2).Ends (fun _ e => Grows t e ∧ (e.occupant? q.2).isSome)
            (Grows t) fun _ => Grows t :=
          Ends.imp (retain_leaves wd.vacant q.2) (fun _ _ k => ⟨wd.trans k.1.grows, k.2⟩)
            (fun _ k => wd.trans k.grows) fun _ _ k => wd.trans k.grows
        refine Ends.andThen hroot ?_
        rintro _ e ⟨we, hl⟩
        have hn := Still.of_sameSlots we.vacant
          (sameSlots_note e (.duplicate (q :: rest).length crossing))
        exact ⟨we.trans hn.grows, resolves_handleOf ((hn.occupied q.2).trans hl)⟩

/-! ## 8. Collections -/

theorem still_unlinkAll (children pending : List Slot) (v : a.VacantExact) :
    Still a (a.unlinkAll children pending).1 := by
  induction children generalizing a pending with
  | nil => exact .refl v
  | cons c children ih =>
    unfold unlinkAll
    exact (still_unlink v c).trans (ih _ (still_unlink v c).vacant)

theorem shrinks_cascade (freed : Nat) (pending : List Slot) (v : a.VacantExact) :
    Shrinks a (a.cascade freed pending).2 := by
  fun_induction cascade a freed pending with
  | case1 => exact .refl v
  | case2 a freed i pending hn ih => exact ih v
  | case3 a freed i pending p b hf ih =>
    have h := shrinks_free? v hf
    have k := still_unlinkAll p.children pending h.vacant
    exact h.trans (k.shrinks.trans (ih k.vacant))

theorem shrinks_reclaim (v : a.VacantExact) : Shrinks a a.reclaim.2 := by
  have h := shrinks_cascade 0 a.unreferenced.reverse v
  exact h.trans (Still.of_sameSlots h.vacant (sameSlots_note _ _)).shrinks

theorem shrinks_freeAll (is : List Slot) (v : a.VacantExact) : Shrinks a (a.freeAll is).2 := by
  induction is generalizing a with
  | nil => exact .refl v
  | cons i is ih =>
    unfold freeAll
    cases hf : a.free? i with
    | none => exact ih v
    | some q =>
      have h := shrinks_free? v hf
      exact h.trans (ih h.vacant)

theorem settle_always {slots : Nat} {staying : List Slot} (orphaned : List Slot)
    (v : a.VacantExact) : (a.settle slots staying orphaned).Always (Still a) := by
  induction orphaned generalizing a with
  | nil => exact Still.refl v
  | cons c orphaned ih =>
    unfold settle
    split
    · exact Still.refl v
    · split
      · have h := still_unlink v c
        exact Ends.imp (ih h.vacant) (fun _ _ => h.trans) (fun _ => h.trans) fun _ _ => h.trans
      · exact ih v

theorem sweep_always (v : a.VacantExact) (roots : List Handle) :
    (a.sweep roots).Always (Shrinks a) := by
  set staying := a.reachable roots with hst
  set looked := (List.range a.cells.size).filter fun i => !staying.contains i with hlk
  have h := shrinks_freeAll looked v
  have hall : ((a.freeAll looked).2.settle a.cells.size staying
      ((a.freeAll looked).1.flatMap Payload.children)).Always (Shrinks a) :=
    Ends.imp (settle_always _ h.vacant) (fun _ _ k => h.trans k.shrinks)
      (fun _ k => h.trans k.shrinks) fun _ _ k => h.trans k.shrinks
  unfold sweep
  simp only [← hst, ← hlk]
  refine Ends.andThen hall fun _ b k => k.trans (Still.shrinks ?_)
  have hs : SameSlots ({ b with containersBuilt := 0 }.note
      (.collect (a.freeAll looked).1.length b.live)) b := ⟨rfl, rfl, rfl⟩
  exact .of_sameSlots k.vacant hs

/-! ## 9. Calls -/

namespace Call

/-- The handles whose values a call stores in, or puts behind, the value it builds or changes. -/
def stored : Call → List Handle
  | buildList items | buildTuple items => items
  | buildView h | buildBoundName h _ => [h]
  | append _ h | insertEntry _ _ h | bindMember _ _ h => [h]
  | _ => []

/-- The value a call changes, with its new payload. -/
def written? (a : Arena) : Call → Option (Slot × Payload)
  | assign h s => some (h.slot, s.payload)
  | append list x =>
    match a.readList list with
    | .ok items => some (list.slot, .list (items ++ [x.slot]))
    | .error _ => none
  | insertEntry dict key x =>
    match a.readDictionary dict with
    | .ok entries => some (dict.slot, .dictionary (entries.insert key x.slot))
    | .error _ => none
  | bindMember table name x =>
    match a.readModule table with
    | .ok m =>
      some (table.slot, .moduleTable { m with members := m.members.insert name x.slot })
    | .error _ => none
  | stepIterator iterator | nextValue iterator => a.stepped? iterator
  | _ => none

theorem written?_append {list x : Handle} {items : List Slot} (h : a.readList list = .ok items) :
    written? a (append list x) = some (list.slot, .list (items ++ [x.slot])) := by
  simp only [written?, h]

theorem written?_insertEntry {dict x : Handle} {key : String} {entries : Entries}
    (h : a.readDictionary dict = .ok entries) :
    written? a (insertEntry dict key x) =
      some (dict.slot, .dictionary (entries.insert key x.slot)) := by
  simp only [written?, h]

theorem written?_bindMember {table x : Handle} {name : String} {m : ModuleTable}
    (h : a.readModule table = .ok m) : written? a (bindMember table name x) =
      some (table.slot, .moduleTable { m with members := m.members.insert name x.slot }) := by
  simp only [written?, h]

/-- The payload of the value a call builds. -/
def built? (a : Arena) : Call → Option Payload
  | buildScalar s => some s.payload
  | buildAlias name asName => some (.importAlias ⟨name, asName⟩)
  | buildDictionary => some (.dictionary .empty)
  | buildFunction name params isGenerator => some (.function ⟨name, params, isGenerator⟩)
  | buildBuiltin name => some (.builtin name)
  | buildModule name => some (.moduleTable ⟨name, .empty⟩)
  | buildHostObject typeName number => some (.hostObject ⟨typeName, number⟩)
  | buildRange start stop step => (Progression.new? start stop step).map .iterator
  | buildList items => some (.list (items.map (·.slot)))
  | buildTuple items => some (.tuple (items.map (·.slot)))
  | buildView dict => some (.dictItems dict.slot)
  | buildBoundName owner name => some (.attr ⟨owner.slot, name⟩)
  | readValue s =>
    match s.readPayload.1 with
    | .ok p => some p
    | .error _ => none
  | nextValue iterator => (a.element? iterator).map .integer
  | _ => none

end Call

/-- What a call with an answer has done, if it neither copies nor collects: it has changed at most
    one value and then built at most one, to which it answers with a handle. -/
def Did (a : Arena) (c : Call) (x : Answer) (b : Arena) : Prop :=
  (∀ h ∈ c.stored, a.resolves h) ∧ ∃ m, Writes a m (c.written? a) ∧ Adds m b x.issued (c.built? a)

/-- What a call leaves with its answer. -/
def Effect (a : Arena) (c : Call) (x : Answer) (b : Arena) : Prop :=
  match c with
  | .importDocument _ => Grafts a b ∧ ∀ h ∈ x.issued, a.occupant? h.slot = none
  | .copy _ => Grows a b
  | .reclaim | .sweep _ => Shrinks a b
  | c => Did a c x b

/-- What a call leaves without an answer. -/
def Remains (a : Arena) (c : Call) (b : Arena) : Prop :=
  match c with
  | .importDocument _ => Grafts a b
  | .copy _ => Grows a b
  | .reclaim | .sweep _ => Shrinks a b
  | .nextValue iterator => Writes a b (a.stepped? iterator)
  | _ => Still a b

section Effects

variable {α : Type} {c : Call} {f : α → Answer} {r : Outcome α}

/-- A call that builds its value and does nothing else. -/
theorem did_build {r : Outcome Handle} (hw : c.written? a = none)
    (h : r.Leaves a fun x b =>
      (∀ g ∈ c.stored, a.resolves g) ∧ ∃ p, c.built? a = some p ∧ a.Builds? p x b)
    (v : a.VacantExact) :
    (r.map .handle).Leaves a fun x b => Did a c x b ∧ ∀ g ∈ x.issued, b.resolves g := by
  refine Ends.map (h.imp ?_)
  rintro x b ⟨hs, p, hp, k⟩
  refine ⟨⟨hs, a, ?_, ?_⟩, fun g hg => ?_⟩
  · rw [hw]
    exact Still.refl v
  · rw [hp]
    exact ⟨x, rfl, k⟩
  · rw [List.mem_singleton.mp hg]
    exact k.2

/-- A call that changes its value and does nothing else. -/
theorem did_write {r : Outcome α} (hb : c.built? a = none) (hf : ∀ x, (f x).issued = [])
    (h : r.Leaves a fun _ b => (∀ g ∈ c.stored, a.resolves g) ∧ Writes a b (c.written? a)) :
    (r.map f).Leaves a fun x b => Did a c x b ∧ ∀ g ∈ x.issued, b.resolves g := by
  refine Ends.map (h.imp ?_)
  rintro x b ⟨hs, k⟩
  refine ⟨⟨hs, b, k, ?_⟩, fun g hg => ?_⟩
  · rw [hb]
    exact Still.refl k.vacant
  · rw [hf] at hg
    cases hg

/-- A call that only reads. -/
theorem did_read (hw : c.written? a = none) (hb : c.built? a = none) (hs : c.stored = [])
    (h : r.Leaves a fun x b => Still a b ∧ ∀ g ∈ (f x).issued, b.resolves g) :
    (r.map f).Leaves a fun x b => Did a c x b ∧ ∀ g ∈ x.issued, b.resolves g := by
  refine Ends.map (h.imp ?_)
  rintro x b ⟨k, hr⟩
  refine ⟨⟨fun g hg => ?_, b, ?_, ?_⟩, hr⟩
  · rw [hs] at hg
    cases hg
  · rw [hw]
    exact k
  · rw [hb]
    exact Still.refl k.vacant

theorem leaves_ofAnswer (v : a.VacantExact) (x : Except HeapError α)
    (hf : ∀ x, (f x).issued = []) :
    (ofAnswer x a).Leaves a fun x b => Still a b ∧ ∀ g ∈ (f x).issued, b.resolves g := by
  cases x with
  | error e => exact Still.refl v
  | ok x => exact ⟨.refl v, fun g hg => by rw [hf] at hg; cases hg⟩

theorem leaves_ofAsk (v : a.VacantExact) (x : Except Fault α) (hf : ∀ x, (f x).issued = []) :
    (ofAsk x a).Leaves a fun x b => Still a b ∧ ∀ g ∈ (f x).issued, b.resolves g := by
  cases x with
  | error e => exact Still.refl v
  | ok x => exact ⟨.refl v, fun g hg => by rw [hf] at hg; cases hg⟩

end Effects

/-- **What every call does**, and that the handles it answers with name values. -/
theorem perform_effect (v : a.VacantExact) (c : Call) :
    (a.perform c).Ends (fun x b => Effect a c x b ∧ ∀ h ∈ x.issued, b.resolves h) (Remains a c)
      fun _ => Remains a c := by
  have none : ∀ {P : Handle → Prop}, ∀ h ∈ ([] : List Handle), P h := List.forall_mem_nil _
  have one : ∀ {P : Handle → Prop} {h : Handle}, P h → ∀ g ∈ [h], P g :=
    List.forall_mem_singleton.mpr
  -- a factory that stores nothing
  have leaf : ∀ {c : Call} {p : Payload}, c.written? a = .none → c.built? a = some p →
      c.stored = [] → ((a.build p).map .handle).Leaves a fun x b =>
        Did a c x b ∧ ∀ h ∈ x.issued, b.resolves h := fun hw hp hs =>
    did_build hw ((build_leaves v _).imp fun _ _ k => ⟨by rw [hs]; exact none, _, hp, k⟩) v
  have sequence : ∀ {c : Call} (make : List Slot → Payload) (items : List Handle),
      c.written? a = .none → c.built? a = some (make (items.map (·.slot))) → c.stored = items →
      ((a.buildSequence make items).map .handle).Leaves a fun x b =>
        Did a c x b ∧ ∀ h ∈ x.issued, b.resolves h := fun make items hw hp hs =>
    did_build hw ((buildSequence_leaves v make items).imp fun _ _ k =>
      ⟨by rw [hs]; exact k.1, _, hp, k.2⟩) v
  cases c with
  | buildScalar s => exact leaf rfl rfl rfl
  | buildAlias name asName => exact leaf rfl rfl rfl
  | buildDictionary => exact leaf rfl rfl rfl
  | buildFunction name params isGenerator => exact leaf rfl rfl rfl
  | buildBuiltin name => exact leaf rfl rfl rfl
  | buildModule name => exact leaf rfl rfl rfl
  | buildHostObject typeName number => exact leaf rfl rfl rfl
  | buildRange start stop step =>
    refine did_build rfl ((buildRange_leaves v start stop step).imp ?_) v
    rintro x b ⟨walk, hw, k⟩
    exact ⟨none, .iterator walk, congrArg (Option.map Payload.iterator) hw, k⟩
  | buildList items => exact sequence .list items rfl rfl rfl
  | buildTuple items => exact sequence .tuple items rfl rfl rfl
  | buildView dict =>
    exact did_build rfl ((buildView_leaves v dict).imp fun _ _ k => ⟨one k.1, _, rfl, k.2⟩) v
  | buildBoundName owner name =>
    exact did_build rfl ((buildBoundName_leaves v owner name).imp
      fun _ _ k => ⟨one k.1, _, rfl, k.2⟩) v
  | importDocument d =>
    refine Ends.map (Ends.weaken (buildTree_growing Document.levels d v) ?_)
    exact fun x b k => ⟨⟨k.1, one k.2.1⟩, one k.2.2⟩
  | readValue s =>
    refine did_build rfl ((readValue_leaves v s).imp ?_) v
    rintro x b ⟨p, hp, k⟩
    exact ⟨none, p, by simp only [Call.built?, hp], k⟩
  | copy h =>
    refine Ends.map (Ends.weaken (copyTo_grows a h v false) ?_)
    exact fun x b k => ⟨k.1, one k.2⟩
  | clone h =>
    exact did_read rfl rfl rfl ((clone_leaves v h).imp fun _ _ k => ⟨k.1, one k.2.1⟩)
  | release h =>
    have k := still_release v h
    exact ⟨⟨none, _, k, Still.refl k.vacant⟩, none⟩
  | assign h s =>
    exact did_write rfl (fun _ => rfl) ((assign_leaves v h s).imp fun _ _ k => ⟨none, k.2⟩)
  | append list x =>
    refine did_write rfl (fun _ => rfl) ((append_leaves v list x).imp ?_)
    rintro _ b ⟨hi, items, hr, k⟩
    exact ⟨one hi, by rw [Call.written?_append hr]; exact k⟩
  | insertEntry dict key x =>
    refine did_write rfl (fun _ => rfl) ((insertEntry_leaves v dict key x).imp ?_)
    rintro _ b ⟨hi, entries, hr, k⟩
    exact ⟨one hi, by rw [Call.written?_insertEntry hr]; exact k⟩
  | bindMember table name x =>
    refine did_write rfl (fun _ => rfl) ((bindMember_leaves v table name x).imp ?_)
    rintro _ b ⟨hi, m, hr, k⟩
    exact ⟨one hi, by rw [Call.written?_bindMember hr]; exact k⟩
  | stepIterator iterator =>
    refine Ends.map (Ends.imp (stepIterator_ends v iterator) ?_ (fun _ k => k.1) fun _ _ k => k.1)
    rintro x b ⟨_, k⟩
    exact ⟨⟨none, b, k, Still.refl k.vacant⟩, none⟩
  | item sequence index => exact did_read rfl rfl rfl (item_leaves v sequence index)
  | entry dict key => exact did_read rfl rfl rfl (entry_leaves v dict key)
  | member table name => exact did_read rfl rfl rfl (member_leaves v table name)
  | ownerOf bound =>
    exact did_read rfl rfl rfl ((ownerOf_leaves v bound).imp fun _ _ k => ⟨k.1, one k.2⟩)
  | entriesOf view => exact did_read rfl rfl rfl (entriesOf_leaves v view)
  | nextValue iterator =>
    refine Ends.map (Ends.weaken (nextValue_ends v iterator) ?_)
    exact fun x b k => ⟨⟨none, k.1⟩, k.2⟩
  | reclaim => exact ⟨shrinks_reclaim v, none⟩
  | sweep roots =>
    exact Ends.map (Ends.weaken (sweep_always v roots) fun _ _ k => ⟨k, none⟩)
  | payloadAs wanted h => exact did_read rfl rfl rfl (leaves_ofAnswer v _ fun _ => rfl)
  | hasKey dict key => exact did_read rfl rfl rfl (leaves_ofAnswer v _ fun _ => rfl)
  | hasMember table name => exact did_read rfl rfl rfl (leaves_ofAnswer v _ fun _ => rfl)
  | refcount h => exact did_read rfl rfl rfl (leaves_ofAnswer v _ fun _ => rfl)
  | resolves h => exact ⟨⟨none, a, Still.refl v, Still.refl v⟩, none⟩
  | exportDocument h =>
    refine Ends.map ?_
    unfold Outcome.Ends
    rcases a.exportDocument h with (e | f) | d
    · exact Still.refl v
    · exact Still.refl v
    · exact ⟨⟨none, a, Still.refl v, Still.refl v⟩, none⟩
  | writeValue h s => exact did_read rfl rfl rfl (leaves_ofAnswer v _ fun _ => rfl)
  | live => exact ⟨⟨none, a, Still.refl v, Still.refl v⟩, none⟩
  | shouldCollect => exact ⟨⟨none, a, Still.refl v, Still.refl v⟩, none⟩
  | snapshot => exact ⟨⟨none, a, Still.refl v, Still.refl v⟩, none⟩
  | kindOf h => exact did_read rfl rfl rfl (leaves_ofAsk v _ fun _ => rfl)
  | iterable h => exact did_read rfl rfl rfl (leaves_ofAsk v _ fun _ => rfl)
  | callable h => exact did_read rfl rfl rfl (leaves_ofAsk v _ fun _ => rfl)
  | generates h => exact did_read rfl rfl rfl (leaves_ofAsk v _ fun _ => rfl)
  | truth h => exact did_read rfl rfl rfl (leaves_ofAsk v _ fun _ => rfl)
  | equalValues x y => exact did_read rfl rfl rfl (leaves_ofAsk v _ fun _ => rfl)
  | greater x y => exact did_read rfl rfl rfl (leaves_ofAsk v _ fun _ => rfl)
  | atLeast x y => exact did_read rfl rfl rfl (leaves_ofAsk v _ fun _ => rfl)

/-! ## 10. Every call -/

theorem Writes.evolves {w : Option (Slot × Payload)} (h : Writes a b w) : Evolves a b := by
  cases w with
  | none => exact Still.evolves h
  | some q => exact Rewrites.evolves h

theorem Adds.grows {hs : List Handle} {p : Option Payload} (h : Adds a b hs p) : Grows a b := by
  cases p with
  | none => exact Still.grows h
  | some p =>
    obtain ⟨_, _, k⟩ := h
    exact k.1.grows

theorem Effect.evolves {c : Call} {x : Answer} (h : Effect a c x b) : Evolves a b := by
  unfold Effect at h
  split at h
  · exact h.1.toEvolves
  · exact h.toEvolves
  · exact h.evolves
  · exact h.evolves
  · obtain ⟨_, m, hw, ha⟩ := h
    exact hw.evolves.trans ha.grows.toEvolves

theorem Remains.evolves {c : Call} (h : Remains a c b) : Evolves a b := by
  unfold Remains at h
  split at h
  · exact h.toEvolves
  · exact h.toEvolves
  · exact h.evolves
  · exact h.evolves
  · exact h.evolves
  · exact h.evolves

/-- **An arena evolves**, whatever is called and however it ends. -/
theorem perform_evolves (v : a.VacantExact) (c : Call) : Evolves a (a.perform c).arena :=
  always_iff.mp (Ends.imp (perform_effect v c) (fun _ _ h => h.1.evolves) (fun _ h => h.evolves)
    fun _ _ h => h.evolves)

/-- **The handles a call answers with name values.** -/
theorem perform_issued (v : a.VacantExact) (c : Call) :
    ∀ h ∈ (a.perform c).issued, (a.perform c).arena.resolves h := by
  have h := perform_effect v c
  unfold Ends at h
  unfold Outcome.issued
  cases hx : (a.perform c).answer with
  | ok x =>
    rw [hx] at h
    exact h.2
  | error e => exact List.forall_mem_nil _

end Arena

end ValueHeap
