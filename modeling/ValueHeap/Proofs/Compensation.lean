import ValueHeap.Proofs.Effects

/-!
# What a refused call gives back

A call that fails gives back the references it was handed and leaves everything else as it was. That
payloads and generations stay is part of what every call does; here it is shown that nothing is
charged, counted or put among the empty slots either, and from the invariant how many references
every value loses.

* `SameBooks` is what does not belong to any one slot; `perform_refuses` is about all calls but
  those that build several values or move an iterator first;
* **`Coherent.given_back`**: where a ledger loses some handles and no payload changes, every count
  falls by the number of these handles that name the value;
* `buildSequence_eq_error`, `takeOver_eq_error`: which of several errors is reported.
-/

namespace ValueHeap

/-- A refusal is not charged. -/
theorem Tracker.charge_refused {t : Tracker} {size : Nat} {why : Refusal}
    (h : (t.charge size).1 = .refused why) : (t.charge size).2 = t := by
  cases t with
  | unlimited => rfl
  | lenient limits usage =>
    unfold charge at h ⊢
    dsimp only at h ⊢
    split at h
    · split at h
      · cases h
      · rfl
    · rfl
  | strict limits usage =>
    unfold charge strictUsage at h ⊢
    dsimp only at h ⊢
    split at h
    · split at h
      · split at h
        · split at h <;> cases h
        · cases h
      · rfl
    · rfl

namespace Arena

open Outcome

variable {a b c : Arena} {ledger : List Handle}

/-! ## 1. Accounts and empty slots -/

/-- The list of empty slots, the accounts and the number of containers built are the same. -/
structure SameBooks (a b : Arena) : Prop where
  vacant : b.vacant = a.vacant
  tracker : b.tracker = a.tracker
  containersBuilt : b.containersBuilt = a.containersBuilt

namespace SameBooks

theorem refl (a : Arena) : SameBooks a a := ⟨rfl, rfl, rfl⟩

theorem trans (h : SameBooks a b) (k : SameBooks b c) : SameBooks a c :=
  ⟨k.vacant.trans h.vacant, k.tracker.trans h.tracker, k.containersBuilt.trans h.containersBuilt⟩

end SameBooks

/-- References that are given back are no matter of the books. -/
theorem sameBooks_giveBack (a : Arena) (i : Slot) : SameBooks a (a.giveBack i) := by
  unfold giveBack
  split
  · unfold unlink
    split <;> exact ⟨rfl, rfl, rfl⟩
  · exact .refl a

theorem sameBooks_release (a : Arena) (h : Handle) : SameBooks a (a.release h) := by
  unfold release
  split
  · exact sameBooks_giveBack a h.slot
  · exact .refl a

/-- What keeps the books at each step keeps them in the end. -/
theorem sameBooks_foldl {α : Type} {f : Arena → α → Arena} (hf : ∀ a x, SameBooks a (f a x))
    (l : List α) (a : Arena) : SameBooks a (l.foldl f a) := by
  induction l generalizing a with
  | nil => exact .refl a
  | cons x l ih => exact (hf a x).trans (ih (f a x))

theorem sameBooks_releaseAll (a : Arena) (hs : List Handle) : SameBooks a (a.releaseAll hs) :=
  sameBooks_foldl sameBooks_release hs a

theorem sameBooks_giveBackAll (a : Arena) (is : List Slot) : SameBooks a (a.giveBackAll is) :=
  sameBooks_foldl sameBooks_giveBack is a

/-! ## 2. Refused operations -/

/-- An error leaves the books of `a` as they were. -/
def Outcome.Refuses {α : Type} (r : Outcome α) (a : Arena) (good : α → Arena → Prop) : Prop :=
  r.Ends good (SameBooks a) fun _ _ => True

/-- **A slot that is refused changes nothing.** -/
theorem allocate_refuses (a : Arena) (p : Payload) (n : Nat) :
    (a.allocate p n).Refuses a fun _ _ => True := by
  unfold allocate
  dsimp only
  split
  · rename_i why h
    exact ⟨rfl, Tracker.charge_refused h, rfl⟩
  · trivial
  · trivial

theorem build_refuses (a : Arena) (p : Payload) : (a.build p).Refuses a fun _ _ => True :=
  Ends.andThen (allocate_refuses a p 1) fun _ _ _ => trivial

/-- Giving back what the value would have held keeps the books. -/
theorem buildHolding_refuses (h : SameBooks a b) (p : Payload) :
    (b.buildHolding p).Refuses a fun _ _ => True :=
  Ends.onError (Ends.imp (build_refuses b p) (fun _ _ k => k) (fun _ k => h.trans k)
    fun _ _ k => k) fun c k => k.trans (sameBooks_giveBackAll c _)

/-- Whether an item is bad or the slot is refused, all items are given back. -/
theorem buildSequence_refuses (a : Arena) (make : List Slot → Payload) (items : List Handle) :
    (a.buildSequence make items).Refuses a fun _ _ => True := by
  unfold buildSequence
  split
  · exact sameBooks_releaseAll a items
  · exact buildHolding_refuses (.refl a) _

/-- One more reference changes no books, and is never refused. -/
theorem retain_refuses (a : Arena) (i : Slot) (bad : Arena → Prop) :
    (a.retain i).Ends (fun _ b => SameBooks a b) bad fun _ _ => True := by
  unfold retain retain?
  split <;> rename_i h
  · split at h
    · cases h
      exact ⟨rfl, rfl, rfl⟩
    · cases h
  · trivial

/-- No handle is refused: if there is no value it is a fault. -/
theorem handOut_refuses (a : Arena) (i : Slot) (bad : Arena → Prop) :
    (a.handOut i).Ends (fun _ _ => True) bad fun _ _ => True :=
  Ends.andThen (retain_refuses a i bad) fun _ _ _ => trivial

theorem handOutFound_refuses (a : Arena) (found : Option Slot) :
    (a.handOutFound found).Refuses a fun _ _ => True := by
  cases found with
  | none => trivial
  | some i => exact Ends.andThen (handOut_refuses a i _) fun _ _ _ => trivial

theorem handOutPairs_refuses (pairs : List (String × Slot)) (b : Arena) (bad : Arena → Prop) :
    (b.handOutPairs pairs).Ends (fun _ _ => True) bad fun _ _ => True := by
  induction pairs generalizing b with
  | nil => trivial
  | cons p pairs ih =>
    exact Ends.andThen (handOut_refuses b p.2 bad) fun _ c _ =>
      Ends.andThen (ih c) fun _ _ _ => trivial

/-- What cannot be stored is given back. -/
theorem takeOver_refuses {α : Type} (a : Arena) (item : Handle) (container : Except HeapError α)
    (store : α → Arena) : (a.takeOver item container store).Refuses a fun _ _ => True := by
  unfold takeOver
  split
  · exact sameBooks_release a item
  · split
    · exact sameBooks_release a item
    · trivial

theorem buildRange_refuses (a : Arena) (start stop step : Int32) :
    (a.buildRange start stop step).Refuses a fun _ _ => True := by
  unfold buildRange
  split
  · exact build_refuses a _
  · exact SameBooks.refl a

theorem buildView_refuses (a : Arena) (dict : Handle) :
    (a.buildView dict).Refuses a fun _ _ => True := by
  unfold buildView
  split
  · exact SameBooks.refl a
  · exact Ends.andThen (retain_refuses a _ _) fun _ b h => buildHolding_refuses h _

theorem buildBoundName_refuses (a : Arena) (owner : Handle) (name : String) :
    (a.buildBoundName owner name).Refuses a fun _ _ => True := by
  unfold buildBoundName
  split
  · exact SameBooks.refl a
  · exact Ends.andThen (retain_refuses a _ _) fun _ b h => buildHolding_refuses h _

theorem readValue_refuses (a : Arena) (s : ByteStream) :
    (a.readValue s).1.Refuses a fun _ _ => True := by
  unfold readValue
  split
  · exact SameBooks.refl a
  · dsimp only
    split <;> exact build_refuses a _

theorem clone_refuses (a : Arena) (h : Handle) : (a.clone h).Refuses a fun _ _ => True := by
  unfold clone
  split
  · trivial
  · exact handOut_refuses a _ _

theorem assign_refuses (a : Arena) (h : Handle) (s : Scalar) :
    (a.assign h s).Refuses a fun _ _ => True := by
  unfold assign
  split
  · exact SameBooks.refl a
  · trivial

theorem stepIterator_refuses (a : Arena) (iterator : Handle) :
    (a.stepIterator iterator).Refuses a fun _ _ => True := by
  unfold stepIterator
  split
  · exact SameBooks.refl a
  · split <;> trivial

theorem item_refuses (a : Arena) (sequence : Handle) (index : Nat) :
    (a.item sequence index).Refuses a fun _ _ => True := by
  unfold item
  split
  · exact SameBooks.refl a
  · exact handOutFound_refuses a _

theorem entry_refuses (a : Arena) (dict : Handle) (key : String) :
    (a.entry dict key).Refuses a fun _ _ => True := by
  unfold entry
  split
  · exact SameBooks.refl a
  · exact handOutFound_refuses a _

theorem member_refuses (a : Arena) (table : Handle) (name : String) :
    (a.member table name).Refuses a fun _ _ => True := by
  unfold member
  split
  · exact SameBooks.refl a
  · exact handOutFound_refuses a _

theorem ownerOf_refuses (a : Arena) (bound : Handle) :
    (a.ownerOf bound).Refuses a fun _ _ => True := by
  unfold ownerOf
  split
  · exact SameBooks.refl a
  · exact handOut_refuses a _ _

theorem entriesOf_refuses (a : Arena) (view : Handle) :
    (a.entriesOf view).Refuses a fun _ _ => True := by
  unfold entriesOf
  split
  · exact SameBooks.refl a
  · split
    · trivial
    · exact handOutPairs_refuses _ a _
    · trivial

theorem refuses_ofAnswer {α : Type} (x : Except HeapError α) (a : Arena) :
    (ofAnswer x a).Refuses a fun _ _ => True := by
  cases x with
  | error e => exact .refl a
  | ok x => trivial

theorem refuses_ofAsk {α : Type} (x : Except Fault α) (a : Arena) :
    (ofAsk x a).Refuses a fun _ _ => True := by
  cases x <;> trivial

theorem exportDocument_refuses (a : Arena) (h : Handle) :
    Outcome.Refuses ⟨a.exportDocument h, a⟩ a fun _ _ => True := by
  unfold Outcome.Refuses Outcome.Ends
  rcases a.exportDocument h with (e | f) | d
  · exact SameBooks.refl a
  · trivial
  · trivial

/-- What was freed is settled without errors. -/
theorem settle_refuses {slots : Nat} {staying : List Slot} (orphaned : List Slot) (a : Arena)
    (bad : Arena → Prop) :
    (a.settle slots staying orphaned).Ends (fun _ _ => True) bad fun _ _ => True := by
  induction orphaned generalizing a with
  | nil => trivial
  | cons c orphaned ih =>
    unfold settle
    split
    · trivial
    · split
      · exact ih (a.unlink c)
      · exact ih a

/-- A sweep is never refused. -/
theorem sweep_refuses (a : Arena) (roots : List Handle) (bad : Arena → Prop) :
    (a.sweep roots).Ends (fun _ _ => True) bad fun _ _ => True := by
  unfold sweep
  exact Ends.andThen (settle_refuses _ _ bad) fun _ _ _ => trivial

/-- **A refused call leaves the books as they were**, if it builds or changes at most one value. -/
theorem perform_refuses (a : Arena) (c : Call) (hd : ∀ d, c ≠ .importDocument d)
    (hh : ∀ h, c ≠ .copy h) (hi : ∀ h, c ≠ .nextValue h) :
    (a.perform c).Refuses a fun _ _ => True := by
  cases c with
  | buildScalar | buildAlias | buildDictionary | buildFunction | buildBuiltin | buildModule
  | buildHostObject => exact Ends.map (build_refuses a _)
  | buildRange start stop step => exact Ends.map (buildRange_refuses a start stop step)
  | buildList items | buildTuple items => exact Ends.map (buildSequence_refuses a _ items)
  | buildView dict => exact Ends.map (buildView_refuses a dict)
  | buildBoundName owner name => exact Ends.map (buildBoundName_refuses a owner name)
  | importDocument d => exact absurd rfl (hd d)
  | readValue s => exact Ends.map (readValue_refuses a s)
  | copy h => exact absurd rfl (hh h)
  | clone h => exact Ends.map (clone_refuses a h)
  | assign h s => exact Ends.map (assign_refuses a h s)
  | append _ x | insertEntry _ _ x | bindMember _ _ x => exact Ends.map (takeOver_refuses a x _ _)
  | stepIterator iterator => exact Ends.map (stepIterator_refuses a iterator)
  | item sequence index => exact Ends.map (item_refuses a sequence index)
  | entry dict key => exact Ends.map (entry_refuses a dict key)
  | member table name => exact Ends.map (member_refuses a table name)
  | ownerOf bound => exact Ends.map (ownerOf_refuses a bound)
  | entriesOf view => exact Ends.map (entriesOf_refuses a view)
  | nextValue iterator => exact absurd rfl (hi iterator)
  | sweep roots => exact Ends.map (sweep_refuses a roots _)
  | payloadAs | hasKey | hasMember | refcount | writeValue => exact Ends.map (refuses_ofAnswer _ a)
  | exportDocument h => exact Ends.map (exportDocument_refuses a h)
  | kindOf | iterable | callable | generates | truth | equalValues | greater | atLeast =>
    exact Ends.map (refuses_ofAsk _ a)
  | release | reclaim | resolves | live | shouldCollect | snapshot => trivial

/-- A refused call leaves all payloads and generations as they were. -/
theorem still_of_refused (v : a.VacantExact) {c : Call} (hd : ∀ d, c ≠ .importDocument d)
    (hh : ∀ h, c ≠ .copy h) (hi : ∀ h, c ≠ .nextValue h) {e : HeapError}
    (hb : a.perform c = .error e b) : Still a b := by
  have hr := perform_effect v c
  rw [hb] at hr
  cases c with
  | importDocument d => exact absurd rfl (hd d)
  | copy h => exact absurd rfl (hh h)
  | nextValue h => exact absurd rfl (hi h)
  | reclaim => cases hb
  | sweep roots =>
    have hs : (a.perform (.sweep roots)).Ends (fun _ _ => True) (fun _ => False) fun _ _ => True :=
      Ends.map (sweep_refuses a roots _)
    rw [hb] at hs
    exact hs.elim
  | _ => exact hr

/-! ## 3. Counts -/

/-- The handles to the value in a slot are those that name a value there. -/
theorem count_handleOf {i : Slot} (hi : (a.occupant? i).isSome) (hs : List Handle) :
    hs.count (a.handleOf i) = hs.countP fun h => a.resolves h && h.slot == i := by
  unfold List.count
  refine List.countP_congr fun h _ => ?_
  rw [beq_iff_eq, Bool.and_eq_true, beq_iff_eq, resolves_iff_handleOf]
  constructor
  · intro e
    subst e
    exact ⟨⟨hi, rfl⟩, rfl⟩
  · intro h
    obtain ⟨⟨_, h⟩, rfl⟩ := h
    exact h

/-- **Each value loses the references that are given back.** -/
theorem Coherent.given_back {gone : List Handle} (ca : a.Coherent (gone ++ ledger) [])
    (cb : b.Coherent ledger []) (h : Still a b) {i n : Nat} (hn : a.count? i = some n) :
    ∃ m, b.count? i = some m ∧ m + gone.countP (fun h => a.resolves h && h.slot == i) = n := by
  obtain ⟨o, ho, rfl⟩ := Option.map_eq_some_iff.mp hn
  have hi : (a.occupant? i).isSome := by rw [ho]; rfl
  obtain ⟨p, hp⟩ := Option.isSome_iff_exists.mp ((h.occupied i).trans hi)
  refine ⟨p.count, congrArg (Option.map Occupant.count) hp, ?_⟩
  have h1 := ca.counted i o ho
  have h2 := cb.counted i p hp
  rw [handleOf_eq h.id (h.refills? i),
    entriesOn_congr (fun j => childrenAt_congr (h.payload? j)) i] at h2
  rw [List.count_append, count_handleOf hi gone] at h1
  omega

/-! ## 4. Which error is reported -/

/-- **The first bad handle decides the error**; all before it name values. -/
theorem firstError?_eq_some {items : List Handle} {e : HeapError} :
    a.firstError? items = some e ↔ ∃ pre h post, items = pre ++ h :: post ∧
      (∀ g ∈ pre, a.resolves g) ∧ a.lookup h = .error e := by
  unfold firstError?
  rw [List.findSome?_eq_some_iff]
  constructor
  · intro hf
    obtain ⟨pre, h, post, rfl, he, hp⟩ := hf
    refine ⟨pre, h, post, rfl, fun g hg => resolves_iff.mpr ?_, ?_⟩
    · have hg := hp g hg
      cases hl : a.lookup g with
      | ok o => exact ⟨o, rfl⟩
      | error f =>
        rw [hl] at hg
        cases hg
    · cases hl : a.lookup h with
      | ok o =>
        rw [hl] at he
        cases he
      | error f =>
        rw [hl] at he
        exact congrArg _ (Option.some.inj he)
  · intro hf
    obtain ⟨pre, h, post, rfl, hp, he⟩ := hf
    refine ⟨pre, h, post, rfl, by rw [he], fun g hg => ?_⟩
    obtain ⟨o, ho⟩ := resolves_iff.mp (hp g hg)
    rw [ho]

theorem not_resolves_of_lookup {h : Handle} {e : HeapError} (he : a.lookup h = .error e) :
    ¬ a.resolves h := fun hr => by
  obtain ⟨o, ho⟩ := resolves_iff.mp hr
  rw [he] at ho
  cases ho

/-- Cleaning up does not change the error. -/
theorem onError_eq_error {α : Type} {r : Outcome α} {clean : Arena → Arena} {e : HeapError} :
    (∃ b, r.onError clean = .error e b) ↔ ∃ b, r = .error e b := by
  obtain ⟨(f | f) | x, c⟩ := r <;> simp [Outcome.onError, Outcome.error]

/-- A leaf is refused exactly if the tracker refuses its size. -/
theorem build_eq_error {p : Payload} {e : HeapError} : (∃ b, a.build p = .error e b) ↔
    ∃ why, e = .resource why ∧ (a.tracker.charge p.footprint).1 = .refused why := by
  unfold build allocate
  dsimp only
  split
  · rename_i why h
    simp [h, Outcome.error, Outcome.andThen, eq_comm]
  · rename_i h
    simp [h, Outcome.error, Outcome.andThen, Outcome.fault, eq_comm]
  · rename_i h
    simp [h, Outcome.error, Outcome.andThen, Outcome.ok, eq_comm]

/-- **The first handle that names no value decides**, and only if all do the tracker. -/
theorem buildSequence_eq_error {make : List Slot → Payload} {items : List Handle} {e : HeapError} :
    (∃ b, a.buildSequence make items = .error e b) ↔
      (∃ pre h post, items = pre ++ h :: post ∧ (∀ g ∈ pre, a.resolves g) ∧
        a.lookup h = .error e) ∨
      (∀ h ∈ items, a.resolves h) ∧ ∃ why, e = .resource why ∧
        (a.tracker.charge (make (items.map (·.slot))).footprint).1 = .refused why := by
  rw [← firstError?_eq_some]
  unfold buildSequence
  cases hf : a.firstError? items with
  | some f =>
    have hn : ¬ ∀ h ∈ items, a.resolves h := by
      obtain ⟨pre, h, post, rfl, _, he⟩ := firstError?_eq_some.mp hf
      exact fun hall => not_resolves_of_lookup he (hall h (by simp))
    simp [hn, Outcome.error]
  | none =>
    have hall := firstError?_eq_none hf
    rw [← build_eq_error]
    simp only [reduceCtorEq, false_or, buildHolding, onError_eq_error]
    exact ⟨fun h => ⟨hall, h⟩, fun h => h.2⟩

/-- **The item decides before the container.** -/
theorem takeOver_eq_error {α : Type} {item : Handle} {container : Except HeapError α}
    {store : α → Arena} {e : HeapError} : a.takeOver item container store = .error e b ↔
      b = a.release item ∧ (a.lookup item = .error e ∨ a.resolves item ∧ container = .error e) := by
  unfold takeOver Arena.resolves
  cases a.lookup item with
  | error f => simp [Outcome.error, Except.isOk, Except.toBool, eq_comm, and_comm]
  | ok o =>
    cases container with
    | error f => simp [Outcome.error, Except.isOk, Except.toBool, eq_comm, and_comm]
    | ok x => simp [Outcome.error, Outcome.ok]

end Arena

end ValueHeap
