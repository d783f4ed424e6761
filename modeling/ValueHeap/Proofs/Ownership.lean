import ValueHeap.Proofs.Operations
import ValueHeap.Proofs.Reclaim

/-!
# Whose handles an operation answers with

No operation but a reset changes the identity of an arena, and every handle that an operation
answers with is one of the arena itself. So the handles outstanding at one arena tell nothing about
the counts of another.

* `Outcome.Owns` is the statement, `Owns.andThen` and `Owns.onError` its rules;
* one lemma for each operation that answers with handles.
-/

namespace ValueHeap

namespace Arena

namespace Outcome

variable {α β : Type}

/-- The operation keeps the identity, and the handles in its answer are of that arena. -/
def Owns (r : Outcome α) (id : ArenaId) (handles : α → List Handle) : Prop :=
  r.Ends (fun x a => a.id = id ∧ ∀ h ∈ handles x, h.arena = id) (fun a => a.id = id) fun _ _ => True

theorem owns_ok {x : α} {a : Arena} {id : ArenaId} {handles : α → List Handle} (ha : a.id = id)
    (hx : ∀ h ∈ handles x, h.arena = id) : (ok x a).Owns id handles := ⟨ha, hx⟩

/-- An answer without handles. -/
theorem owns_none {x : α} {a : Arena} {id : ArenaId} (ha : a.id = id) :
    (ok x a).Owns id fun _ => [] := owns_ok ha fun h hh => by cases hh

theorem owns_error {e : HeapError} {a : Arena} {id : ArenaId} {handles : α → List Handle}
    (ha : a.id = id) : (error e a : Outcome α).Owns id handles := ha

/-- After a fault nothing is promised. -/
theorem owns_fault {f : Fault} {a : Arena} {id : ArenaId} {handles : α → List Handle} :
    (fault f a : Outcome α).Owns id handles := trivial

/-- **Operations in sequence**: the second one may count on what the first one answers. -/
theorem Owns.andThen {r : Outcome α} {next : α → Arena → Outcome β} {id : ArenaId}
    {mid : α → List Handle} {handles : β → List Handle} (h : r.Owns id mid)
    (k : ∀ x a, a.id = id → (∀ h ∈ mid x, h.arena = id) → (next x a).Owns id handles) :
    (r.andThen next).Owns id handles :=
  Ends.andThen h fun x a hx => k x a hx.1 hx.2

/-- Cleaning up after an error keeps the identity if the cleaning does. -/
theorem Owns.onError {r : Outcome α} {clean : Arena → Arena} {id : ArenaId}
    {handles : α → List Handle} (h : r.Owns id handles) (k : ∀ a, (clean a).id = a.id) :
    (r.onError clean).Owns id handles :=
  Ends.onError h fun a ha => (k a).trans ha

end Outcome

open Outcome

variable {a : Arena} {id : ArenaId}

/-! ## 1. References -/

/-- A reference that is given back leaves the identity, and so does whatever gives some back. -/
@[simp] theorem id_giveBack (a : Arena) (i : Slot) : (a.giveBack i).id = a.id :=
  (sameSlots_giveBack a i).id.trans (id_unlink a i)

@[simp] theorem id_release (a : Arena) (h : Handle) : (a.release h).id = a.id := by
  unfold release
  split
  · exact id_giveBack a _
  · rfl

@[simp] theorem id_releaseAll (a : Arena) (hs : List Handle) : (a.releaseAll hs).id = a.id := by
  induction hs generalizing a with
  | nil => rfl
  | cons h hs ih => exact (ih (a.release h)).trans (id_release a h)

@[simp] theorem id_giveBackAll (a : Arena) (is : List Slot) : (a.giveBackAll is).id = a.id := by
  induction is generalizing a with
  | nil => rfl
  | cons i is ih => exact (ih (a.giveBack i)).trans (id_giveBack a i)

@[simp] theorem id_giveBackReplaced (a : Arena) (previous : Option Slot) :
    (a.giveBackReplaced previous).id = a.id := by
  cases previous with
  | none => rfl
  | some i => exact id_giveBack a i

/-- The references of a value that has been emptied are taken without a change of identity. -/
@[simp] theorem id_unlinkAll (children pending : List Slot) (a : Arena) :
    (a.unlinkAll children pending).1.id = a.id := by
  induction children generalizing a pending with
  | nil => rfl
  | cons c children ih =>
    unfold unlinkAll
    exact (ih _ (a.unlink c)).trans (id_unlink a c)

/-- The identity stays through all rounds, by the recursion of the cascade. -/
@[simp] theorem id_cascade (a : Arena) (freed : Nat) (pending : List Slot) :
    (a.cascade freed pending).2.id = a.id := by
  fun_induction cascade a freed pending with
  | case1 => rfl
  | case2 a freed i pending hn ih => exact ih
  | case3 a freed i pending p b hf ih =>
    obtain ⟨_, _, _, hs⟩ := free?_eq_some hf
    rw [ih, id_unlinkAll, hs.id]
    rfl

/-- A new reference is in no answer until a handle is made of it. -/
theorem retain_owns (i : Slot) (ha : a.id = id) : (a.retain i).Owns id fun _ => [] := by
  unfold retain retain?
  cases a.occupant? i with
  | none => exact owns_fault
  | some o => exact owns_none ha

/-- **Every handle of an operation is issued here or in `build`**, by the arena at hand. -/
theorem handOut_owns (i : Slot) (ha : a.id = id) : (a.handOut i).Owns id fun h => [h] := by
  refine (retain_owns i ha).andThen fun _ b hb _ => owns_ok hb fun h hh => ?_
  rw [List.mem_singleton.mp hh]
  exact hb

/-! ## 2. Building -/

/-- A slot is filled, refused or the program ends; the arena is the same one. -/
theorem allocate_owns (p : Payload) (n : Nat) (ha : a.id = id) :
    (a.allocate p n).Owns id fun _ => [] := by
  rcases a.allocate_cases p n with ⟨b, e, hb⟩ | ⟨why, b, e, hb⟩ | ⟨b, e, hb⟩
  · rw [e]
    exact owns_none (hb.id.trans ((id_fill a _).trans ha))
  · rw [e]
    exact owns_error (hb.id.trans ha)
  · rw [e]
    exact owns_fault

/-- A new value is named by a handle of its arena. -/
theorem build_owns (p : Payload) (ha : a.id = id) : (a.build p).Owns id fun h => [h] := by
  refine (allocate_owns p 1 ha).andThen fun i b hb _ => owns_ok hb fun h hh => ?_
  rw [List.mem_singleton.mp hh]
  exact hb

theorem buildRange_owns (start stop step : Int32) (ha : a.id = id) :
    (a.buildRange start stop step).Owns id fun h => [h] := by
  unfold buildRange
  cases Progression.new? start stop step with
  | none => exact owns_error ha
  | some walk => exact build_owns _ ha

/-- References that are given back when the slot is refused do not matter here. -/
theorem buildHolding_owns (p : Payload) (ha : a.id = id) :
    (a.buildHolding p).Owns id fun h => [h] :=
  (build_owns p ha).onError fun b => id_giveBackAll b _

/-- The items may be handles of any arena; the answer is one of this. -/
theorem buildSequence_owns (make : List Slot → Payload) (items : List Handle) (ha : a.id = id) :
    (a.buildSequence make items).Owns id fun h => [h] := by
  unfold buildSequence
  cases a.firstError? items with
  | some e => exact owns_error ((id_releaseAll a items).trans ha)
  | none => exact buildHolding_owns _ ha

theorem buildView_owns (dict : Handle) (ha : a.id = id) :
    (a.buildView dict).Owns id fun h => [h] := by
  unfold buildView
  cases a.readDictionary dict with
  | error e => exact owns_error ha
  | ok entries =>
    exact (retain_owns dict.slot ha).andThen fun _ b hb _ => buildHolding_owns _ hb

theorem buildBoundName_owns (owner : Handle) (name : String) (ha : a.id = id) :
    (a.buildBoundName owner name).Owns id fun h => [h] := by
  unfold buildBoundName
  cases a.lookup owner with
  | error e => exact owns_error ha
  | ok o => exact (retain_owns owner.slot ha).andThen fun _ b hb _ => buildHolding_owns _ hb

/-! ## 3. Containers and iterators -/

/-- Storing an item answers with no handle, wherever the item came from. -/
theorem takeOver_owns {α : Type} {item : Handle} {container : Except HeapError α}
    {store : α → Arena} (ha : a.id = id) (hs : ∀ x, (store x).id = a.id) :
    (a.takeOver item container store).Owns id fun _ => [] := by
  unfold takeOver
  cases a.lookup item with
  | error e => exact owns_error ((id_release a item).trans ha)
  | ok o =>
    cases container with
    | error e => exact owns_error ((id_release a item).trans ha)
    | ok x => exact owns_none ((hs x).trans ha)

theorem append_owns (list item : Handle) (ha : a.id = id) :
    (a.append list item).Owns id fun _ => [] := takeOver_owns ha fun _ => rfl

theorem insertEntry_owns (dict : Handle) (key : String) (item : Handle) (ha : a.id = id) :
    (a.insertEntry dict key item).Owns id fun _ => [] :=
  takeOver_owns ha fun _ => id_giveBackReplaced _ _

theorem bindMember_owns (table : Handle) (name : String) (item : Handle) (ha : a.id = id) :
    (a.bindMember table name item).Owns id fun _ => [] :=
  takeOver_owns ha fun _ => id_giveBackReplaced _ _

theorem assign_owns (h : Handle) (s : Scalar) (ha : a.id = id) :
    (a.assign h s).Owns id fun _ => [] := by
  unfold assign
  cases a.payloadAs s.payload.kind h with
  | error e => exact owns_error ha
  | ok p => exact owns_none ha

/-- Where nothing is found there is nothing to own. -/
theorem handOutFound_owns (found : Option Slot) (ha : a.id = id) :
    (a.handOutFound found).Owns id Option.toList := by
  cases found with
  | none => exact owns_ok ha fun h hh => by cases hh
  | some i => exact (handOut_owns i ha).andThen fun h b hb hh => owns_ok hb hh

theorem item_owns (sequence : Handle) (index : Nat) (ha : a.id = id) :
    (a.item sequence index).Owns id Option.toList := by
  unfold item
  cases a.readSequence sequence with
  | error e => exact owns_error ha
  | ok items => exact handOutFound_owns _ ha

theorem entry_owns (dict : Handle) (key : String) (ha : a.id = id) :
    (a.entry dict key).Owns id Option.toList := by
  unfold entry
  cases a.readDictionary dict with
  | error e => exact owns_error ha
  | ok entries => exact handOutFound_owns _ ha

theorem member_owns (table : Handle) (name : String) (ha : a.id = id) :
    (a.member table name).Owns id Option.toList := by
  unfold member
  cases a.readModule table with
  | error e => exact owns_error ha
  | ok m => exact handOutFound_owns _ ha

theorem ownerOf_owns (bound : Handle) (ha : a.id = id) :
    (a.ownerOf bound).Owns id fun h => [h] := by
  unfold ownerOf
  cases a.readAttr bound with
  | error e => exact owns_error ha
  | ok b => exact handOut_owns _ ha

/-- All handles of a listing are issued by the same arena, one after the other. -/
theorem handOutPairs_owns (pairs : List (String × Slot)) (ha : a.id = id) :
    (a.handOutPairs pairs).Owns id fun hs => hs.map (·.2) := by
  induction pairs generalizing a with
  | nil => exact owns_ok ha fun h hh => by cases hh
  | cons p rest ih =>
    refine (handOut_owns p.2 ha).andThen fun h b hb hh => ?_
    refine (ih hb).andThen fun hs c hc hhs => owns_ok hc fun k hk => ?_
    rcases List.mem_cons.mp hk with e | hk
    · exact hh k (List.mem_singleton.mpr e)
    · exact hhs k hk

/-- Only a dictionary that is there is listed; anything else is a fault. -/
theorem entriesOf_owns (view : Handle) (ha : a.id = id) :
    (a.entriesOf view).Owns id fun hs => hs.map (·.2) := by
  unfold entriesOf
  cases a.readDictItems view with
  | error e => exact owns_error ha
  | ok d =>
    simp only
    split
    · exact owns_fault
    · exact handOutPairs_owns _ ha
    · exact owns_fault

theorem stepIterator_owns (iterator : Handle) (ha : a.id = id) :
    (a.stepIterator iterator).Owns id fun _ => [] := by
  unfold stepIterator
  cases a.readIterator iterator with
  | error e => exact owns_error ha
  | ok walk =>
    simp only
    cases walk.next? with
    | none => exact owns_none ha
    | some q => exact owns_none ha

/-- The element of an iterator is a new value. -/
theorem nextValue_owns (iterator : Handle) (ha : a.id = id) :
    (a.nextValue iterator).Owns id Option.toList := by
  refine (stepIterator_owns iterator ha).andThen fun next b hb _ => ?_
  cases next with
  | none => exact owns_ok hb fun h hh => by cases hh
  | some value => exact (build_owns _ hb).andThen fun h c hc hh => owns_ok hc hh

/-! ## 4. Documents and streams -/

/-- Items that have been built are owned, and stay so while the others are built. -/
theorem buildItems_owns {build : Document → Arena → Outcome Handle}
    (hb : ∀ d (b : Arena), b.id = id → (build d b).Owns id fun h => [h]) (docs : List Document)
    (built : List Handle) (ha : a.id = id) (hh : ∀ h ∈ built, h.arena = id) :
    (buildItems build a docs built).Owns id fun hs => hs := by
  induction docs generalizing a built with
  | nil => exact owns_ok ha hh
  | cons d rest ih =>
    refine ((hb d a ha).onError fun b => id_releaseAll b built).andThen fun h b hb' hh' => ?_
    refine ih (built ++ [h]) hb' fun k hk => ?_
    rcases List.mem_append.mp hk with hk | hk
    · exact hh k hk
    · exact hh' k hk

theorem buildMembers_owns {build : Document → Arena → Outcome Handle}
    (hb : ∀ d (b : Arena), b.id = id → (build d b).Owns id fun h => [h]) (dict : Handle)
    (members : List (String × Document)) (ha : a.id = id) :
    (buildMembers build dict a members).Owns id fun _ => [] := by
  induction members generalizing a with
  | nil => exact owns_none ha
  | cons m rest ih =>
    obtain ⟨key, d⟩ := m
    refine (hb d a ha).andThen fun h b hb' _ => ?_
    exact (insertEntry_owns dict key h hb').andThen fun _ c hc _ => ih hc

/-- **A document is built of values of one arena**, by induction on the levels that are left. -/
theorem buildTree_owns (levels : Nat) (d : Document) (a : Arena) (ha : a.id = id) :
    (buildTree levels d a).Owns id fun h => [h] := by
  induction levels generalizing d a with
  | zero => exact owns_error ha
  | succ levels ih =>
    cases d with
    | null => exact owns_error ha
    | bool flag => exact build_owns _ ha
    | integer n => exact build_owns _ ha
    | float x => exact build_owns _ ha
    | string text => exact build_owns _ ha
    | array items =>
      refine (buildItems_owns ih items [] ha fun h hh => by cases hh).andThen fun hs b hb _ => ?_
      exact buildSequence_owns _ hs hb
    | object members =>
      refine (build_owns _ ha).andThen fun dict b hb hh => ?_
      refine ((buildMembers_owns ih dict members hb).onError fun c => id_release c dict).andThen ?_
      exact fun _ c hc _ => owns_ok hc hh

theorem readValue_owns (t : ByteStream) (ha : a.id = id) :
    (a.readValue t).1.Owns id fun h => [h] := by
  unfold readValue
  split
  · exact owns_error ha
  · simp only
    split <;> exact build_owns _ ha

end Arena

end ValueHeap
