import ValueHeap.Proofs.Coherence
import ValueHeap.Document.Import
import ValueHeap.Stream.Value

/-!
# Operations keep the invariant

Each operation takes over the handles it is handed and answers with new ones, so it moves the
ledger along. `Outcome.Meets` says what an operation leaves when it answers and when it reports an
error; a fault is met only if a counter of the tracker left its range.

Whether a generation starts over can only be seen at the end of an operation, so the invariant is
carried as `Sound`: coherent, as long as no generation has started over.

* `Meets.andThen`, `Meets.onError`: the rules for the two ways in which operations are composed;
* one lemma for each factory, update and reading;
* **`buildTree_meets`**: building a document, by induction on its levels.
-/

namespace ValueHeap

/-! ## 0. Entries -/

/-- What is found under a key is one of the slots. -/
theorem mem_of_lookup {key : String} {i : Slot} :
    ∀ {l : List (String × Slot)}, l.lookup key = some i → i ∈ l.map (·.2)
  | [], h => by cases h
  | (k, j) :: rest, h => by
      rw [lookup_pair] at h
      by_cases hk : key = k
      · rw [if_pos hk] at h
        cases h
        exact List.mem_cons_self
      · rw [if_neg hk] at h
        exact List.mem_cons_of_mem _ (mem_of_lookup h)

/-- A slot that is put under a key takes the place of the slot that was there. -/
theorem count_putPair (key : String) (slot j : Slot) :
    ∀ l : List (String × Slot),
      ((putPair key slot l).map (·.2)).count j + (l.lookup key).toList.count j =
        (l.map (·.2)).count j + [slot].count j
  | [] => by simp [putPair]
  | (k, i) :: rest => by
      have ih := count_putPair key slot j rest
      rw [lookup_pair]
      by_cases hk : k = key
      · subst hk
        simp only [putPair, ↓reduceIte, List.map_cons, Option.toList_some, List.count_cons,
          List.count_nil]
        omega
      · rw [if_neg fun e => hk e.symm]
        simp only [putPair, hk, ↓reduceIte, List.map_cons, List.count_cons] at ih ⊢
        omega

theorem Entries.mem_slots_of_get? {e : Entries} {key : String} {i : Slot}
    (h : e.get? key = some i) : i ∈ e.slots := mem_of_lookup h

namespace Arena

/-- Coherent, as long as no generation has started over. -/
def Sound (a : Arena) (ledger : List Handle) (moving : List Slot) : Prop :=
  a.Unwrapped → a.Coherent ledger moving

/-- Occupied, as long as no generation has started over. -/
def Holds (a : Arena) (i : Slot) : Prop := a.Unwrapped → (a.occupant? i).isSome

/-! ## 1. Outcomes -/

namespace Outcome

variable {α β : Type}

/-- What an operation leaves: `good` with an answer, `bad` with an error, `fatal` with a fault. -/
def Ends (r : Outcome α) (good : α → Arena → Prop) (bad : Arena → Prop)
    (fatal : Fault → Arena → Prop) : Prop :=
  match r.answer with
  | .ok x => good x r.arena
  | .error (.error _) => bad r.arena
  | .error (.fault f) => fatal f r.arena

/-- What an operation leaves whose only fault is a counter that left its range. -/
def Meets (r : Outcome α) (good : α → Arena → Prop) (bad : Arena → Prop) : Prop :=
  r.Ends good bad fun f a => a.Unwrapped → f = .counterOverflow

/-- **Operations in sequence**: what the first one leaves with an answer, the second one has. -/
theorem Ends.andThen {r : Outcome α} {next : α → Arena → Outcome β} {mid : α → Arena → Prop}
    {good : β → Arena → Prop} {bad : Arena → Prop} {fatal : Fault → Arena → Prop}
    (h : r.Ends mid bad fatal) (k : ∀ x a, mid x a → (next x a).Ends good bad fatal) :
    (r.andThen next).Ends good bad fatal := by
  obtain ⟨answer, a⟩ := r
  rcases answer with (e | f) | x
  · exact h
  · exact h
  · exact k x a h

/-- **Cleaning up** starts from what an error leaves; nobody cleans up after a fault. -/
theorem Ends.onError {r : Outcome α} {clean : Arena → Arena} {good : α → Arena → Prop}
    {bad bad' : Arena → Prop} {fatal : Fault → Arena → Prop} (h : r.Ends good bad fatal)
    (k : ∀ a, bad a → bad' (clean a)) : (r.onError clean).Ends good bad' fatal := by
  obtain ⟨answer, a⟩ := r
  rcases answer with (e | f) | x
  · exact k a h
  · exact h
  · exact h

/-- Less may be said of every case. -/
theorem Ends.imp {r : Outcome α} {good good' : α → Arena → Prop} {bad bad' : Arena → Prop}
    {fatal fatal' : Fault → Arena → Prop} (h : r.Ends good bad fatal)
    (k : ∀ x a, good x a → good' x a) (l : ∀ a, bad a → bad' a)
    (m : ∀ f a, fatal f a → fatal' f a) : r.Ends good' bad' fatal' := by
  obtain ⟨answer, a⟩ := r
  rcases answer with (e | f) | x
  · exact l a h
  · exact m f a h
  · exact k x a h

/-- Less is said of the case of success. -/
theorem Ends.weaken {r : Outcome α} {good good' : α → Arena → Prop} {bad : Arena → Prop}
    {fatal : Fault → Arena → Prop} (h : r.Ends good bad fatal)
    (k : ∀ x a, good x a → good' x a) : r.Ends good' bad fatal :=
  h.imp k (fun _ l => l) fun _ _ m => m

/-- A fault that cannot occur meets everything. -/
theorem meets_fault {f : Fault} {a : Arena} {good : α → Arena → Prop} {bad : Arena → Prop}
    (h : a.Unwrapped → f = .counterOverflow) : (fault f a : Outcome α).Meets good bad := h

theorem Meets.andThen {r : Outcome α} {next : α → Arena → Outcome β} {mid : α → Arena → Prop}
    {good : β → Arena → Prop} {bad : Arena → Prop} (h : r.Meets mid bad)
    (k : ∀ x a, mid x a → (next x a).Meets good bad) : (r.andThen next).Meets good bad :=
  Ends.andThen h k

theorem Meets.onError {r : Outcome α} {clean : Arena → Arena} {good : α → Arena → Prop}
    {bad bad' : Arena → Prop} (h : r.Meets good bad) (k : ∀ a, bad a → bad' (clean a)) :
    (r.onError clean).Meets good bad' := Ends.onError h k

theorem Meets.imp {r : Outcome α} {good good' : α → Arena → Prop} {bad bad' : Arena → Prop}
    (h : r.Meets good bad) (k : ∀ x a, good x a → good' x a) (l : ∀ a, bad a → bad' a) :
    r.Meets good' bad' := Ends.imp h k l fun _ _ m => m

end Outcome

open Outcome

variable {a b : Arena} {ledger : List Handle} {moving : List Slot}

/-! ## 2. Generations that have not started over -/

/-- Generations are all that decides whether one has started over. -/
theorem unwrapped_congr (h : ∀ i, b.refills? i = a.refills? i) :
    b.Unwrapped ↔ a.Unwrapped := by
  constructor
  · intro hu
    exact unwrapped_of_refills fun i r hr => hu.refills_lt ((h i).trans hr)
  · intro hu
    exact unwrapped_of_refills fun i r hr => hu.refills_lt ((h i).symm.trans hr)

/-- A slot that is filled again only moves on. -/
theorem unwrapped_of_fill {o : Occupant} (h : (a.fill o).Unwrapped) : a.Unwrapped := by
  refine unwrapped_of_refills fun i r hr => ?_
  unfold fill at h
  cases hv : a.vacant with
  | nil =>
    rw [hv] at h
    obtain ⟨c, hc, rfl⟩ := Option.map_eq_some_iff.mp hr
    exact h c (Array.mem_push.mpr (.inl (Array.mem_of_getElem? hc)))
  | cons k rest =>
    rw [hv] at h
    obtain ⟨c, hc, rfl⟩ := Option.map_eq_some_iff.mp hr
    by_cases hk : k = i
    · have hm : (⟨c.refills + 1, some o⟩ : Cell) ∈
          a.cells.modify k (fun c => ⟨c.refills + 1, some o⟩) :=
        Array.mem_of_getElem? (i := i) (by simp [Array.getElem?_modify, hk, hc])
      exact Nat.lt_of_succ_lt (h _ hm)
    · exact h c (Array.mem_of_getElem? (i := i) (by simp [Array.getElem?_modify, hk, hc]))

theorem refills?_giveBack (a : Arena) (i j : Slot) : (a.giveBack i).refills? j = a.refills? j := by
  rw [(sameSlots_giveBack a i).refills?, refills?_unlink]

theorem refills?_release (a : Arena) (h : Handle) (j : Slot) :
    (a.release h).refills? j = a.refills? j := by
  unfold release
  split
  · exact refills?_giveBack a _ j
  · rfl

theorem refills?_releaseAll (hs : List Handle) (a : Arena) (j : Slot) :
    (a.releaseAll hs).refills? j = a.refills? j := by
  induction hs generalizing a with
  | nil => rfl
  | cons h hs ih => exact (ih (a.release h)).trans (refills?_release a h j)

theorem refills?_giveBackAll (is : List Slot) (a : Arena) (j : Slot) :
    (a.giveBackAll is).refills? j = a.refills? j := by
  induction is generalizing a with
  | nil => rfl
  | cons i is ih => exact (ih (a.giveBack i)).trans (refills?_giveBack a i j)

/-- **A handle that is given back leaves the ledger**, and its reference is no longer counted. -/
theorem Sound.release {h : Handle} (s : a.Sound (h :: ledger) moving) :
    (a.release h).Sound ledger moving := fun hu =>
  (s ((unwrapped_congr (refills?_release a h)).mp hu)).release

theorem Sound.releaseAll (hs : List Handle) (s : a.Sound (hs ++ ledger) moving) :
    (a.releaseAll hs).Sound ledger moving := fun hu =>
  (s ((unwrapped_congr (refills?_releaseAll hs a)).mp hu)).releaseAll hs

/-- References that an operation held itself are no longer on the move. -/
theorem Sound.giveBackAll (is : List Slot) (s : a.Sound ledger (is ++ moving)) :
    (a.giveBackAll is).Sound ledger moving := fun hu =>
  (s ((unwrapped_congr (refills?_giveBackAll is a)).mp hu)).giveBackAll is

theorem Sound.of_sameSlots (h : SameSlots b a) (s : a.Sound ledger moving) :
    b.Sound ledger moving := fun hu => (s (h.unwrapped.mp hu)).of_sameSlots h

theorem Sound.perm_ledger {ledger' : List Handle} (s : a.Sound ledger moving)
    (h : ledger'.Perm ledger) : a.Sound ledger' moving := fun hu => (s hu).perm_ledger h

/-! ## 3. New references and new values -/

/-- `b` holds the payloads of `a`, in the same generations. -/
structure SamePayloads (b a : Arena) : Prop where
  payload? : ∀ j, b.payload? j = a.payload? j
  refills? : ∀ j, b.refills? j = a.refills? j

/-- A value that is there stays there where payloads and generations do. -/
theorem SamePayloads.holds {j : Slot} (h : SamePayloads b a) (hj : a.Holds j) : b.Holds j := by
  intro hu
  have ha := hj ((unwrapped_congr h.refills?).mp hu)
  have he := congrArg Option.isSome (h.payload? j)
  simp only [Arena.payload?, Option.isSome_map] at he
  rwa [he]

theorem samePayloads_retain (a : Arena) (i : Slot) :
    SamePayloads (a.update i (fun o => { o with count := o.count + 1 })) a :=
  ⟨payload?_update a i fun _ => rfl, refills?_update a i _⟩

/-- **A reference that is added is on the move** until it is stored or issued. -/
theorem retain_meets {i : Slot} {bad : Arena → Prop} (s : a.Sound ledger moving)
    (hi : a.Holds i) :
    (a.retain i).Meets (fun _ b => b.Sound ledger (i :: moving) ∧ SamePayloads b a) bad := by
  unfold retain retain?
  cases ho : a.occupant? i with
  | none =>
    refine meets_fault fun hu => ?_
    have := hi hu
    rw [ho] at this
    cases this
  | some o =>
    have hp := samePayloads_retain a i
    refine ⟨fun hu => ?_, hp⟩
    exact (s ((unwrapped_congr hp.refills?).mp hu)).retain (by rw [ho]; rfl)

/-- A reference that is issued goes from the move to the ledger. -/
theorem handOut_meets {i : Slot} {bad : Arena → Prop} (s : a.Sound ledger moving)
    (hi : a.Holds i) :
    (a.handOut i).Meets (fun h b => b.Sound (h :: ledger) moving ∧ SamePayloads b a) bad := by
  refine (retain_meets s hi).andThen ?_
  rintro _ b ⟨h1, h2⟩
  exact ⟨fun hu => (h1 hu).issue, h2⟩

/-- **A slot that is filled** takes the references that its payload holds off the move, and puts its
    first ones on it; if it is refused all stay where they were. -/
theorem allocate_meets {p : Payload} {n : Nat} (s : a.Sound ledger (p.children ++ moving))
    (hv : a.Unwrapped → ∀ d, p = .dictItems d → a.kind? d = some .dictionary) :
    (a.allocate p n).Meets (fun i b => b.Sound ledger (List.replicate n i ++ moving))
      (fun b => b.Sound ledger (p.children ++ moving)) := by
  rcases a.allocate_cases p n with ⟨b, e, hb⟩ | ⟨why, b, e, hb⟩ | ⟨b, e, hb⟩
  · rw [e]
    intro hu
    have hf := hb.unwrapped.mp hu
    have ha := unwrapped_of_fill hf
    exact ((s ha).fill (hv ha) hf).of_sameSlots hb
  · rw [e]
    exact s.of_sameSlots hb
  · rw [e]
    exact meets_fault fun _ => rfl

/-- **Building a value** turns the references it holds into a handle to it. -/
theorem build_meets {p : Payload} (s : a.Sound ledger (p.children ++ moving))
    (hv : a.Unwrapped → ∀ d, p = .dictItems d → a.kind? d = some .dictionary) :
    (a.build p).Meets (fun h b => b.Sound (h :: ledger) moving)
      (fun b => b.Sound ledger (p.children ++ moving)) := by
  refine (allocate_meets s hv).andThen ?_
  intro i b h hu
  exact (h hu).issue

/-- A value without children is built from nothing. -/
theorem build_leaf_meets {p : Payload} (s : a.Sound ledger moving) (hp : p.children = [])
    (hk : p.kind ≠ .dictItems) :
    (a.build p).Meets (fun h b => b.Sound (h :: ledger) moving)
      (fun b => b.Sound ledger moving) := by
  have s' : a.Sound ledger (p.children ++ moving) := by rwa [hp]
  have h := build_meets s' fun _ d e => absurd (congrArg Payload.kind e) hk
  rwa [hp] at h

/-- Scalars hold no references. -/
theorem scalar_leaf (v : Scalar) : v.payload.children = [] ∧ v.payload.kind ≠ .dictItems := by
  cases v <;> exact ⟨rfl, Kind.noConfusion⟩

theorem buildRange_meets {start stop step : Int32} (s : a.Sound ledger moving) :
    (a.buildRange start stop step).Meets (fun h b => b.Sound (h :: ledger) moving)
      (fun b => b.Sound ledger moving) := by
  unfold buildRange
  cases Progression.new? start stop step with
  | none => exact s
  | some walk => exact build_leaf_meets s rfl Kind.noConfusion

/-- If the slot is refused, the references that it would have held are given back. -/
theorem buildHolding_meets {p : Payload} (s : a.Sound ledger (p.children ++ moving))
    (hv : a.Unwrapped → ∀ d, p = .dictItems d → a.kind? d = some .dictionary) :
    (a.buildHolding p).Meets (fun h b => b.Sound (h :: ledger) moving)
      (fun b => b.Sound ledger moving) :=
  (build_meets s hv).onError fun _ h => h.giveBackAll p.children

/-! ## 4. Values with children -/

/-- What a reading finds is the payload in the handle's slot. -/
theorem payload?_of_read {α : Type} {wanted : Kind} {pick : Payload → Option α}
    {make : α → Payload} {h : Handle} {x : α} (hp : ∀ p x, pick p = some x → p = make x)
    (e : a.read wanted pick h = .ok x) : a.payload? h.slot = some (make x) := by
  unfold read at e
  cases hl : a.lookup h with
  | error e' =>
    rw [hl] at e
    cases e
  | ok o =>
    rw [payload?_of_occupant? (occupant?_of_lookup hl)]
    rw [hl] at e
    cases hk : pick o.payload with
    | none =>
      simp only [hk] at e
      cases e
    | some y =>
      simp only [hk] at e
      cases e
      rw [hp _ _ hk]

theorem readList_eq_ok {h : Handle} {items : List Slot} (e : a.readList h = .ok items) :
    a.payload? h.slot = some (.list items) :=
  payload?_of_read (fun p _ hp => by cases p <;> cases hp; rfl) e

theorem readDictionary_eq_ok {h : Handle} {entries : Entries}
    (e : a.readDictionary h = .ok entries) : a.payload? h.slot = some (.dictionary entries) :=
  payload?_of_read (fun p _ hp => by cases p <;> cases hp; rfl) e

theorem readDictItems_eq_ok {h : Handle} {d : Slot} (e : a.readDictItems h = .ok d) :
    a.payload? h.slot = some (.dictItems d) :=
  payload?_of_read (fun p _ hp => by cases p <;> cases hp; rfl) e

theorem readModule_eq_ok {h : Handle} {m : ModuleTable} (e : a.readModule h = .ok m) :
    a.payload? h.slot = some (.moduleTable m) :=
  payload?_of_read (fun p _ hp => by cases p <;> cases hp; rfl) e

theorem readAttr_eq_ok {h : Handle} {b : BoundName} (e : a.readAttr h = .ok b) :
    a.payload? h.slot = some (.attr b) :=
  payload?_of_read (fun p _ hp => by cases p <;> cases hp; rfl) e

theorem readIterator_eq_ok {h : Handle} {r : Progression} (e : a.readIterator h = .ok r) :
    a.payload? h.slot = some (.iterator r) :=
  payload?_of_read (fun p _ hp => by cases p <;> cases hp; rfl) e

/-- What can be read as a sequence holds just its items. -/
theorem readSequence_eq_ok {h : Handle} {items : List Slot} (e : a.readSequence h = .ok items) :
    a.childrenAt h.slot = items := by
  unfold readSequence at e
  split at e
  · cases e
  · rename_i n its hl
    cases e
    exact childrenAt_of_occupant? (occupant?_of_lookup hl)
  · rename_i n its hl
    cases e
    exact childrenAt_of_occupant? (occupant?_of_lookup hl)
  · cases e

theorem occupied_of_payload? {i : Slot} {p : Payload} (h : a.payload? i = some p) :
    (a.occupant? i).isSome := by
  obtain ⟨o, ho, _⟩ := Option.map_eq_some_iff.mp h
  rw [ho]
  rfl

theorem firstError?_eq_none {items : List Handle} (e : a.firstError? items = none) :
    ∀ h ∈ items, a.resolves h := by
  intro h hm
  have hn := List.findSome?_eq_none_iff.mp e h hm
  rw [resolves_iff]
  cases hl : a.lookup h with
  | ok o => exact ⟨o, rfl⟩
  | error e' =>
    simp only [hl] at hn
    cases hn

/-- **Building a sequence** takes over the handles of its items, whether it is built or not. -/
theorem buildSequence_meets {make : List Slot → Payload} {items : List Handle}
    (s : a.Sound (items ++ ledger) moving) (hm : ∀ is, (make is).children = is)
    (hk : ∀ is, (make is).kind ≠ .dictItems) :
    (a.buildSequence make items).Meets (fun h b => b.Sound (h :: ledger) moving)
      (fun b => b.Sound ledger moving) := by
  unfold buildSequence
  cases he : a.firstError? items with
  | some e => exact s.releaseAll items
  | none =>
    refine buildHolding_meets (fun hu => ?_) fun _ d e => absurd (congrArg Payload.kind e) (hk _)
    rw [hm]
    exact (s hu).redeemAll items (firstError?_eq_none he)

/-- **A view adds a reference to its dictionary**, which is one as long as the view is there. -/
theorem buildView_meets {dict : Handle} (s : a.Sound ledger moving) :
    (a.buildView dict).Meets (fun h b => b.Sound (h :: ledger) moving)
      (fun b => b.Sound ledger moving) := by
  unfold buildView
  cases hr : a.readDictionary dict with
  | error e => exact s
  | ok entries =>
    have hp := readDictionary_eq_ok hr
    refine (retain_meets s fun _ => occupied_of_payload? hp).andThen ?_
    rintro _ b ⟨h1, h2⟩
    refine buildHolding_meets h1 fun _ d e => ?_
    cases e
    rw [kind?, h2.payload?, hp]
    rfl

theorem buildBoundName_meets {owner : Handle} {name : String} (s : a.Sound ledger moving) :
    (a.buildBoundName owner name).Meets (fun h b => b.Sound (h :: ledger) moving)
      (fun b => b.Sound ledger moving) := by
  unfold buildBoundName
  cases hl : a.lookup owner with
  | error e => exact s
  | ok o =>
    refine (retain_meets s fun _ => by rw [occupant?_of_lookup hl]; rfl).andThen ?_
    rintro _ b ⟨h1, _⟩
    exact buildHolding_meets h1 fun _ d e => by cases e

/-! ## 5. Changing what containers hold -/

/-- A payload is replaced where the references of the old one and the new one balance. -/
theorem Sound.setPayload {i : Slot} {p q : Payload} {moving' : List Slot}
    (s : a.Sound ledger moving) (hp : a.payload? i = some p) (hk : q.kind = p.kind)
    (hn : p.kind ≠ .dictItems)
    (hb : ∀ j, moving'.count j + q.children.count j = moving.count j + p.children.count j) :
    (a.setPayload i q).Sound ledger moving' := fun hu =>
  (s ((unwrapped_congr (refills?_update a i _)).mp hu)).setPayload hp hk hn hb

/-- **A handle that is to be stored** is taken over, whether it is stored or not. -/
theorem takeOver_meets {α : Type} {item : Handle} {container : Except HeapError α}
    {store : α → Arena} (s : a.Sound (item :: ledger) moving)
    (hs : ∀ x, container = .ok x → a.Sound ledger (item.slot :: moving) →
      (store x).Sound ledger moving) :
    (a.takeOver item container store).Meets (fun _ b => b.Sound ledger moving)
      (fun b => b.Sound ledger moving) := by
  unfold takeOver
  cases hl : a.lookup item with
  | error e => exact s.release
  | ok o =>
    cases hc : container with
    | error e => exact s.release
    | ok x => exact hs x hc fun hu => (s hu).redeem (resolves_iff.mpr ⟨o, hl⟩)

/-- The reference of the item goes from the move to the end of the list. -/
theorem append_meets {list item : Handle} (s : a.Sound (item :: ledger) moving) :
    (a.append list item).Meets (fun _ b => b.Sound ledger moving)
      (fun b => b.Sound ledger moving) := by
  refine takeOver_meets s fun items hr h => ?_
  refine h.setPayload (readList_eq_ok hr) rfl Kind.noConfusion fun j => ?_
  simp only [Payload.children, List.count_append, List.count_cons, List.count_nil]
  omega

/-- What an entry replaced is given back, if there was one. -/
theorem giveBackReplaced_sound {previous : Option Slot}
    (s : a.Sound ledger (previous.toList ++ moving)) :
    (a.giveBackReplaced previous).Sound ledger moving := by
  cases previous with
  | none => exact s
  | some i => exact fun hu => (s ((unwrapped_congr (refills?_giveBack a i)).mp hu)).giveBack

/-- **An entry takes the place of the one before**, whose reference goes on the move. -/
theorem insertEntry_meets {dict item : Handle} {key : String}
    (s : a.Sound (item :: ledger) moving) :
    (a.insertEntry dict key item).Meets (fun _ b => b.Sound ledger moving)
      (fun b => b.Sound ledger moving) := by
  refine takeOver_meets s fun entries hr h => giveBackReplaced_sound ?_
  refine h.setPayload (readDictionary_eq_ok hr) rfl Kind.noConfusion fun j => ?_
  have hc := count_putPair key item.slot j entries.pairs
  simp only [Payload.children, Entries.slots, Entries.insert, Entries.get?, List.count_append,
    List.count_cons, List.count_nil] at hc ⊢
  omega

theorem bindMember_meets {table item : Handle} {name : String}
    (s : a.Sound (item :: ledger) moving) :
    (a.bindMember table name item).Meets (fun _ b => b.Sound ledger moving)
      (fun b => b.Sound ledger moving) := by
  refine takeOver_meets s fun m hr h => giveBackReplaced_sound ?_
  refine h.setPayload (readModule_eq_ok hr) rfl Kind.noConfusion fun j => ?_
  have hc := count_putPair name item.slot j m.members.pairs
  simp only [Payload.children, Entries.slots, Entries.insert, Entries.get?, List.count_append,
    List.count_cons, List.count_nil] at hc ⊢
  omega

/-- Values without references may be replaced at will. -/
theorem assign_meets {h : Handle} {v : Scalar} (s : a.Sound ledger moving) :
    (a.assign h v).Meets (fun _ b => b.Sound ledger moving) (fun b => b.Sound ledger moving) := by
  unfold assign payloadAs
  cases hl : a.lookup h with
  | error e => exact s
  | ok o =>
    by_cases hk : o.payload.kind = v.payload.kind
    · simp only [hk, ↓reduceIte]
      have hv : v.payload.kind.holdsReferences = false := by cases v <;> rfl
      refine s.setPayload (payload?_of_occupant? (occupant?_of_lookup hl)) hk.symm ?_ fun j => ?_
      · rw [hk]
        cases v <;> exact Kind.noConfusion
      · rw [Payload.children_eq_nil hv, Payload.children_eq_nil (hk ▸ hv)]
    · simp only [hk, ↓reduceIte]
      exact s

/-! ## 6. Reading what containers hold -/

/-- A handle is issued for what is found, if anything is. -/
theorem handOutFound_meets {found : Option Slot} {bad : Arena → Prop} (s : a.Sound ledger moving)
    (hi : ∀ i, found = some i → a.Holds i) :
    (a.handOutFound found).Meets (fun h b => b.Sound (h.toList ++ ledger) moving) bad := by
  cases found with
  | none => exact s
  | some i =>
    refine (handOut_meets s (hi i rfl)).andThen ?_
    rintro h b ⟨h1, _⟩
    exact h1

/-- A child of a value is held. -/
theorem Sound.holds_child {i j : Slot} (s : a.Sound ledger moving) (h : i ∈ a.childrenAt j) :
    a.Holds i := fun hu => (s hu).closed i j h

theorem item_meets {sequence : Handle} {index : Nat} (s : a.Sound ledger moving) :
    (a.item sequence index).Meets (fun h b => b.Sound (h.toList ++ ledger) moving)
      (fun b => b.Sound ledger moving) := by
  unfold item
  cases hr : a.readSequence sequence with
  | error e => exact s
  | ok items =>
    refine handOutFound_meets s fun i hi => s.holds_child (j := sequence.slot) ?_
    rw [readSequence_eq_ok hr]
    exact List.mem_of_getElem? hi

theorem entry_meets {dict : Handle} {key : String} (s : a.Sound ledger moving) :
    (a.entry dict key).Meets (fun h b => b.Sound (h.toList ++ ledger) moving)
      (fun b => b.Sound ledger moving) := by
  unfold entry
  cases hr : a.readDictionary dict with
  | error e => exact s
  | ok entries =>
    refine handOutFound_meets s fun i hi => s.holds_child (j := dict.slot) ?_
    rw [childrenAt_of_payload? (readDictionary_eq_ok hr)]
    exact Entries.mem_slots_of_get? hi

theorem member_meets {table : Handle} {name : String} (s : a.Sound ledger moving) :
    (a.member table name).Meets (fun h b => b.Sound (h.toList ++ ledger) moving)
      (fun b => b.Sound ledger moving) := by
  unfold member
  cases hr : a.readModule table with
  | error e => exact s
  | ok m =>
    refine handOutFound_meets s fun i hi => s.holds_child (j := table.slot) ?_
    rw [childrenAt_of_payload? (readModule_eq_ok hr)]
    exact Entries.mem_slots_of_get? hi

theorem ownerOf_meets {bound : Handle} (s : a.Sound ledger moving) :
    (a.ownerOf bound).Meets (fun h b => b.Sound (h :: ledger) moving)
      (fun b => b.Sound ledger moving) := by
  unfold ownerOf
  cases hr : a.readAttr bound with
  | error e => exact s
  | ok b =>
    refine (handOut_meets s (s.holds_child (j := bound.slot) ?_)).imp (fun _ _ h => h.1)
      fun _ h => h
    rw [childrenAt_of_payload? (readAttr_eq_ok hr)]
    exact List.mem_cons_self

/-- The handles of a listing are issued one after the other; each finds its value still there. -/
theorem handOutPairs_meets {bad : Arena → Prop} (pairs : List (String × Slot))
    (s : a.Sound ledger moving) (hi : ∀ p ∈ pairs, a.Holds p.2) :
    (a.handOutPairs pairs).Meets (fun hs b => b.Sound (hs.map (·.2) ++ ledger) moving) bad := by
  induction pairs generalizing a ledger with
  | nil => exact s
  | cons p rest ih =>
    refine (handOut_meets s (hi p List.mem_cons_self)).andThen ?_
    rintro h b ⟨h1, h2⟩
    refine (ih h1 fun q hq => h2.holds (hi q (List.mem_cons_of_mem _ hq))).andThen ?_
    intro hs c h3
    exact h3.perm_ledger List.perm_middle.symm

/-- A slot that holds a value can be followed. -/
theorem follow_eq_ok {i : Slot} {p : Payload} (h : a.payload? i = some p) : a.follow i = .ok p := by
  obtain ⟨o, ho, rfl⟩ := Option.map_eq_some_iff.mp h
  exact follow_of_occupant? ho

theorem follow_eq_error {i : Slot} (h : a.payload? i = none) : ∃ f, a.follow i = .error f := by
  have ho : a.occupant? i = none := Option.map_eq_none_iff.mp h
  unfold occupant? at ho
  unfold follow
  cases hc : a.cells[i]? with
  | none => exact ⟨_, rfl⟩
  | some c =>
    obtain ⟨r, oc⟩ := c
    rw [hc] at ho
    cases (show oc = none from ho)
    exact ⟨_, rfl⟩

/-- **Listing the entries of a view** faults only if the view is of no dictionary, which a coherent
    arena excludes. -/
theorem entriesOf_meets {view : Handle} (s : a.Sound ledger moving) :
    (a.entriesOf view).Meets (fun hs b => b.Sound (hs.map (·.2) ++ ledger) moving)
      (fun b => b.Sound ledger moving) := by
  unfold entriesOf
  cases hr : a.readDictItems view with
  | error e => exact s
  | ok d =>
    -- the view's dictionary is one, as long as the arena is coherent
    have hd : a.Unwrapped → ∃ entries, a.payload? d = some (.dictionary entries) := by
      intro hu
      obtain ⟨p, hp, hk⟩ := Option.map_eq_some_iff.mp ((s hu).views _ _ (readDictItems_eq_ok hr))
      cases p <;> cases hk
      exact ⟨_, hp⟩
    cases hf : a.follow d with
    | error f =>
      simp only [hf]
      refine meets_fault fun hu => ?_
      obtain ⟨entries, he⟩ := hd hu
      rw [follow_eq_ok he] at hf
      cases hf
    | ok p =>
      simp only [hf]
      cases p
      case dictionary entries =>
        refine handOutPairs_meets _ s fun q hq hu => ?_
        obtain ⟨entries', he⟩ := hd hu
        rw [follow_eq_ok he] at hf
        cases hf
        refine (s hu).closed q.2 d ?_
        rw [childrenAt_of_payload? he]
        exact List.mem_map_of_mem hq
      all_goals
        refine meets_fault fun hu => ?_
        obtain ⟨entries, he⟩ := hd hu
        rw [follow_eq_ok he] at hf
        cases hf

/-! ## 7. Iterators -/

theorem stepIterator_meets {iterator : Handle} (s : a.Sound ledger moving) :
    (a.stepIterator iterator).Meets (fun _ b => b.Sound ledger moving)
      (fun b => b.Sound ledger moving) := by
  unfold stepIterator
  cases hr : a.readIterator iterator with
  | error e => exact s
  | ok walk =>
    simp only
    cases walk.next? with
    | none => exact s
    | some q =>
      obtain ⟨value, moved⟩ := q
      exact s.setPayload (readIterator_eq_ok hr) rfl Kind.noConfusion fun _ => rfl

/-- The iterator moves first, and the new integer is built afterwards. -/
theorem nextValue_meets {iterator : Handle} (s : a.Sound ledger moving) :
    (a.nextValue iterator).Meets (fun h b => b.Sound (h.toList ++ ledger) moving)
      (fun b => b.Sound ledger moving) := by
  refine (stepIterator_meets s).andThen fun next b h => ?_
  cases next with
  | none => exact h
  | some value =>
    refine (build_leaf_meets h rfl Kind.noConfusion).andThen ?_
    intro k c hc
    exact hc

/-! ## 8. Documents and streams -/

/-- What building a document has to do, wherever it is done. -/
def Builds (build : Arena → Outcome Handle) : Prop :=
  ∀ (a : Arena) (ledger : List Handle), a.Sound ledger [] →
    (build a).Meets (fun h b => b.Sound (h :: ledger) []) (fun b => b.Sound ledger [])

/-- What has been built so far is in the ledger, and is released if an item fails. -/
theorem buildItems_meets {build : Document → Arena → Outcome Handle} (hb : ∀ d, Builds (build d))
    (docs : List Document) (built : List Handle) (s : a.Sound (built ++ ledger) []) :
    (buildItems build a docs built).Meets (fun hs b => b.Sound (hs ++ ledger) [])
      (fun b => b.Sound ledger []) := by
  induction docs generalizing a built with
  | nil => exact s
  | cons d rest ih =>
    refine ((hb d a _ s).onError fun b h => h.releaseAll built).andThen fun h b h1 => ?_
    refine ih (built ++ [h]) (h1.perm_ledger ?_)
    rw [List.append_assoc]
    exact List.perm_middle

theorem buildMembers_meets {build : Document → Arena → Outcome Handle}
    (hb : ∀ d, Builds (build d)) (dict : Handle) (members : List (String × Document))
    (s : a.Sound ledger []) :
    (buildMembers build dict a members).Meets (fun _ b => b.Sound ledger [])
      (fun b => b.Sound ledger []) := by
  induction members generalizing a with
  | nil => exact s
  | cons m rest ih =>
    obtain ⟨key, d⟩ := m
    refine (hb d a _ s).andThen fun h b h1 => ?_
    exact (insertEntry_meets h1).andThen fun _ c h2 => ih h2

theorem children_wholeNumber (n : Int) : (wholeNumber n).children = [] := by
  unfold wholeNumber
  split <;> rfl

theorem kind_wholeNumber (n : Int) : (wholeNumber n).kind ≠ .dictItems := by
  unfold wholeNumber
  split <;> exact Kind.noConfusion

/-- **Building a document keeps the invariant**, by induction on the levels that are left. -/
theorem buildTree_meets (levels : Nat) (d : Document) : Builds (buildTree levels d) := by
  induction levels generalizing d with
  | zero => exact fun _ _ s => s
  | succ levels ih =>
    intro a ledger s
    cases d with
    | null => exact s
    | bool flag => exact build_leaf_meets s rfl Kind.noConfusion
    | integer n => exact build_leaf_meets s (children_wholeNumber n) (kind_wholeNumber n)
    | float x => exact build_leaf_meets s rfl Kind.noConfusion
    | string text => exact build_leaf_meets s rfl Kind.noConfusion
    | array items =>
      refine (buildItems_meets ih items [] s).andThen fun hs b h => ?_
      exact buildSequence_meets h (fun _ => rfl) fun _ => Kind.noConfusion
    | object members =>
      refine (build_leaf_meets s rfl Kind.noConfusion).andThen fun dict b h => ?_
      refine ((buildMembers_meets ih dict members h).onError fun _ k => k.release).andThen ?_
      intro _ c k
      exact k

/-- What can be read from a stream holds no references. -/
theorem children_of_readPayload {s t : ByteStream} {p : Payload} (h : s.readPayload = (.ok p, t)) :
    p.children = [] ∧ p.kind ≠ .dictItems := by
  unfold ByteStream.readPayload at h
  split at h
  · cases h
  · split at h
    · cases h
      exact ⟨rfl, Kind.noConfusion⟩
    · cases h
  · split at h
    · cases h
      exact ⟨rfl, Kind.noConfusion⟩
    · cases h
  · cases h

theorem readValue_meets {t : ByteStream} (s : a.Sound ledger moving) :
    (a.readValue t).1.Meets (fun h b => b.Sound (h :: ledger) moving)
      (fun b => b.Sound ledger moving) := by
  unfold readValue
  split
  · exact s
  · rename_i p u hr
    obtain ⟨hc, hk⟩ := children_of_readPayload hr
    have h := build_leaf_meets s hc hk
    simp only
    split <;> exact h

end Arena

end ValueHeap
