import ValueHeap.Proofs.Ownership
import ValueHeap.Proofs.Sweep
import ValueHeap.Proofs.Copy
import ValueHeap.Document.Export
import ValueHeap.Snapshot

/-!
# Calls: the operations of one arena as data

A `Call` is any operation on one arena, with its arguments. What is proved of `perform` therefore
holds whatever a program calls, in whatever order.

* `Call.consumed`, `Answer.issued`: the handles that a call takes over and those that it answers
  with; `Call.asks?`: the handles that a call takes for granted;
* **`perform_settles`**: every call moves the ledger along by these handles and keeps the invariant;
* **`fault_iff_badHandle`**: a call has no fault but one, a handle taken for granted that names no
  value.
-/

namespace ValueHeap

namespace Arena

/-! ## 1. Calls and answers -/

/-- An operation on one arena. -/
inductive Call
  -- building values
  | buildScalar (s : Scalar)
  | buildAlias (name asName : String)
  | buildDictionary
  | buildFunction (name : String) (params : List String) (isGenerator : Bool)
  | buildBuiltin (name : String)
  | buildModule (name : String)
  | buildHostObject (typeName : String) (number : UInt64)
  | buildRange (start stop step : Int32)
  | buildList (items : List Handle)
  | buildTuple (items : List Handle)
  | buildView (dict : Handle)
  | buildBoundName (owner : Handle) (name : String)
  | importDocument (d : Document)
  | readValue (s : ByteStream)
  | copy (h : Handle)
  -- references
  | clone (h : Handle)
  | release (h : Handle)
  -- changing values
  | assign (h : Handle) (s : Scalar)
  | append (list item : Handle)
  | insertEntry (dict : Handle) (key : String) (item : Handle)
  | bindMember (table : Handle) (name : String) (item : Handle)
  | stepIterator (iterator : Handle)
  -- handing out what values hold
  | item (sequence : Handle) (index : Nat)
  | entry (dict : Handle) (key : String)
  | member (table : Handle) (name : String)
  | ownerOf (bound : Handle)
  | entriesOf (view : Handle)
  | nextValue (iterator : Handle)
  -- collecting
  | reclaim
  | sweep (roots : List Handle)
  -- questions
  | payloadAs (wanted : Kind) (h : Handle)
  | hasKey (dict : Handle) (key : String)
  | hasMember (table : Handle) (name : String)
  | refcount (h : Handle)
  | resolves (h : Handle)
  | exportDocument (h : Handle)
  | writeValue (h : Handle) (s : ByteStream)
  | live
  | shouldCollect
  | snapshot
  -- questions that take a good handle for granted
  | kindOf (h : Handle)
  | iterable (h : Handle)
  | callable (h : Handle)
  | generates (h : Handle)
  | truth (h : Handle)
  | equalValues (x y : Handle)
  | greater (x y : Handle)
  | atLeast (x y : Handle)

/-- What a call answers. -/
inductive Answer
  | done
  | handle (h : Handle)
  | found (h : Option Handle)
  | entries (hs : List (String × Handle))
  | number (n : Nat)
  | flag (b : Bool)
  | element (n : Option Int32)
  | payload (p : Payload)
  | document (d : Document)
  | stream (s : ByteStream)
  | snapshot (s : Snapshot)
  | kind (k : Kind)

/-- The handles in an answer. -/
def Answer.issued : Answer → List Handle
  | handle h => [h]
  | found h => h.toList
  | entries hs => hs.map (·.2)
  | _ => []

namespace Call

/-- The handles that a call takes over. -/
def consumed : Call → List Handle
  | buildList items | buildTuple items => items
  | release h => [h]
  | append _ h | insertEntry _ _ h | bindMember _ _ h => [h]
  | _ => []

/-- The question a call asks, and the handles it takes for granted, in the order in which they are
    looked at. -/
def asks? : Call → Option (Question × List Handle)
  | clone h => some (.clone, [h])
  | kindOf h => some (.kindOf, [h])
  | iterable h => some (.iterable, [h])
  | callable h => some (.callable, [h])
  | generates h => some (.generates, [h])
  | truth h => some (.truth, [h])
  | equalValues x y => some (.equalValues, [x, y])
  | greater x y => some (.greater, [x, y])
  | atLeast x y => some (.atLeast, [x, y])
  | _ => none

end Call

namespace Outcome

/-- The outcome with its answer written otherwise. -/
def map {α β : Type} (f : α → β) (r : Outcome α) : Outcome β := ⟨r.answer.map f, r.arena⟩

/-- The outcome of a question that takes a good handle for granted. -/
def ofAsk {α : Type} (x : Except Fault α) (a : Arena) : Outcome α :=
  match x with
  | .ok x => ok x a
  | .error f => fault f a

theorem Ends.map {α β : Type} {f : α → β} {r : Outcome α} {good : β → Arena → Prop}
    {bad : Arena → Prop} {fatal : Fault → Arena → Prop}
    (h : r.Ends (fun x a => good (f x) a) bad fatal) : (r.map f).Ends good bad fatal := by
  obtain ⟨answer, a⟩ := r
  rcases answer with (e | g) | x <;> exact h

end Outcome

/-- Performs a call. -/
def perform (a : Arena) : Call → Outcome Answer
  | .buildScalar s => (a.buildScalar s).map .handle
  | .buildAlias name asName => (a.buildAlias name asName).map .handle
  | .buildDictionary => a.buildDictionary.map .handle
  | .buildFunction name params isGenerator => (a.buildFunction name params isGenerator).map .handle
  | .buildBuiltin name => (a.buildBuiltin name).map .handle
  | .buildModule name => (a.buildModule name).map .handle
  | .buildHostObject typeName number => (a.buildHostObject typeName number).map .handle
  | .buildRange start stop step => (a.buildRange start stop step).map .handle
  | .buildList items => (a.buildList items).map .handle
  | .buildTuple items => (a.buildTuple items).map .handle
  | .buildView dict => (a.buildView dict).map .handle
  | .buildBoundName owner name => (a.buildBoundName owner name).map .handle
  | .importDocument d => (a.importDocument d).map .handle
  | .readValue s => (a.readValue s).1.map .handle
  | .copy h => (a.copy h).map .handle
  | .clone h => (a.clone h).map .handle
  | .release h => .ok .done (a.release h)
  | .assign h s => (a.assign h s).map fun _ => .done
  | .append list item => (a.append list item).map fun _ => .done
  | .insertEntry dict key item => (a.insertEntry dict key item).map fun _ => .done
  | .bindMember table name item => (a.bindMember table name item).map fun _ => .done
  | .stepIterator iterator => (a.stepIterator iterator).map .element
  | .item sequence index => (a.item sequence index).map .found
  | .entry dict key => (a.entry dict key).map .found
  | .member table name => (a.member table name).map .found
  | .ownerOf bound => (a.ownerOf bound).map .handle
  | .entriesOf view => (a.entriesOf view).map .entries
  | .nextValue iterator => (a.nextValue iterator).map .found
  | .reclaim => .ok (.number a.reclaim.1) a.reclaim.2
  | .sweep roots => (a.sweep roots).map .number
  | .payloadAs wanted h => (Outcome.ofAnswer (a.payloadAs wanted h) a).map .payload
  | .hasKey dict key => (Outcome.ofAnswer (a.hasKey dict key) a).map .flag
  | .hasMember table name => (Outcome.ofAnswer (a.hasMember table name) a).map .flag
  | .refcount h => (Outcome.ofAnswer (a.refcount h) a).map .number
  | .resolves h => .ok (.flag (a.resolves h)) a
  | .exportDocument h => (⟨a.exportDocument h, a⟩ : Outcome Document).map .document
  | .writeValue h s => (Outcome.ofAnswer (a.writeValue h s) a).map .stream
  | .live => .ok (.number a.live) a
  | .shouldCollect => .ok (.flag a.shouldCollect) a
  | .snapshot => .ok (.snapshot a.snapshot) a
  | .kindOf h => (Outcome.ofAsk (a.kindOf h) a).map .kind
  | .iterable h => (Outcome.ofAsk (a.iterable h) a).map .flag
  | .callable h => (Outcome.ofAsk (a.callable h) a).map .flag
  | .generates h => (Outcome.ofAsk (a.generates h) a).map .flag
  | .truth h => (Outcome.ofAsk (a.truth h) a).map .flag
  | .equalValues x y => (Outcome.ofAsk (a.equalValues x y) a).map .flag
  | .greater x y => (Outcome.ofAsk (a.greater x y) a).map .flag
  | .atLeast x y => (Outcome.ofAsk (a.atLeast x y) a).map .flag

/-- The fault of asking about a handle, if it names no value. -/
def refused? (a : Arena) (question : Question) (h : Handle) : Option Fault :=
  match a.lookup h with
  | .ok _ => none
  | .error e => some (.badHandle question e)

/-- The fault of a call that takes a handle for granted which names no value; the first such
    handle decides. -/
def badHandle? (a : Arena) (c : Call) : Option Fault :=
  match c.asks? with
  | some (question, hs) => hs.findSome? (a.refused? question)
  | none => none

open Outcome

variable {a : Arena} {ledger : List Handle}

/-! ## 2. Reading never faults -/

theorem exportAll_ne_fault {α β : Type} {f : α → Except Failure β} {l : List α} {g : Fault}
    (h : ∀ x ∈ l, f x ≠ .error (.fault g)) : exportAll f l ≠ .error (.fault g) := by
  induction l with
  | nil => exact fun e => by cases e
  | cons x rest ih =>
    have hx := h x List.mem_cons_self
    have hrest := ih fun y hy => h y (List.mem_cons_of_mem _ hy)
    unfold exportAll
    cases hf : f x with
    | error e =>
      rw [hf] at hx
      exact fun k => hx (congrArg Except.error (Except.error.inj k))
    | ok y =>
      simp only
      cases hr : exportAll f rest with
      | error e =>
        rw [hr] at hrest
        exact fun k => hrest (congrArg Except.error (Except.error.inj k))
      | ok ys => exact fun e => by cases e

theorem map_ne_fault {α β : Type} {f : α → β} {x : Except Failure α} {g : Fault}
    (h : x ≠ .error (.fault g)) : x.map f ≠ .error (.fault g) := by
  cases x with
  | error e => exact fun k => h (congrArg Except.error (Except.error.inj k))
  | ok y => exact fun k => by cases k

/-- **Reading a value as a document meets no dangling reference.** -/
theorem Coherent.exportSlot_ne_fault {moving : List Slot} (co : a.Coherent ledger moving)
    (g : Fault) (levels : Nat) (i : Slot) (hi : (a.occupant? i).isSome) :
    a.exportSlot levels i ≠ .error (.fault g) := by
  induction levels generalizing i with
  | zero => exact fun e => by cases e
  | succ levels ih =>
    obtain ⟨o, ho⟩ := Option.isSome_iff_exists.mp hi
    have hch : ∀ k ∈ o.payload.children, (a.occupant? k).isSome := fun k hk =>
      co.closed k i (by rwa [childrenAt_of_occupant? ho])
    unfold exportSlot
    rw [follow_of_occupant? ho]
    cases hp : o.payload with
    | list items =>
      rw [hp] at hch
      exact map_ne_fault (exportAll_ne_fault fun k hk => ih k (hch k hk))
    | tuple items =>
      rw [hp] at hch
      exact map_ne_fault (exportAll_ne_fault fun k hk => ih k (hch k hk))
    | dictionary entries =>
      rw [hp] at hch
      refine map_ne_fault (exportAll_ne_fault fun q hq => map_ne_fault (ih q.2 (hch q.2 ?_)))
      exact List.mem_map_of_mem hq
    | float x =>
      simp only
      split <;> exact fun e => by cases e
    | _ => exact fun e => by cases e

theorem Coherent.exportDocument_ne_fault {moving : List Slot} (co : a.Coherent ledger moving)
    (g : Fault) (h : Handle) : a.exportDocument h ≠ .error (.fault g) := by
  unfold exportDocument
  cases hl : a.lookup h with
  | error e => exact fun e => by cases e
  | ok o => exact co.exportSlot_ne_fault g _ _ (by rw [occupant?_of_lookup hl]; rfl)

/-! ## 3. Every call keeps the invariant -/

/-- The faults of a call: a handle taken for granted names no value, and nothing has happened, or
    a counter of the tracker left its range. -/
def Fatal (a : Arena) (c : Call) (f : Fault) (b : Arena) : Prop :=
  (b.Unwrapped → f = .counterOverflow) ∨ (a.badHandle? c = some f ∧ b = a)

/-- What a call leaves: the handles of its answer are outstanding, those it took over are not. -/
def Settles (a : Arena) (c : Call) (ledger : List Handle) (r : Outcome Answer) : Prop :=
  r.Ends (fun x b => b.Sound (x.issued ++ ledger) []) (fun b => b.Sound ledger []) (a.Fatal c)

theorem settles_of_meets {α : Type} {c : Call} {f : α → Answer} {r : Outcome α}
    (h : r.Meets (fun x b => b.Sound ((f x).issued ++ ledger) []) fun b => b.Sound ledger []) :
    a.Settles c ledger (r.map f) :=
  Ends.map (Ends.imp h (fun _ _ k => k) (fun _ k => k) fun _ _ k => .inl k)

/-- A reading leaves the arena as it is. -/
theorem settles_ofAnswer {α : Type} {c : Call} {f : α → Answer} (x : Except HeapError α)
    (s : a.Sound ledger []) (hf : ∀ y, (f y).issued = []) :
    a.Settles c ledger ((ofAnswer x a).map f) := by
  refine settles_of_meets ?_
  cases x with
  | error e => exact s
  | ok y =>
    show a.Sound ((f y).issued ++ ledger) []
    rw [hf]
    exact s

/-- So does a question; it faults if the handle names no value. -/
theorem settles_ask {α : Type} {c : Call} {question : Question} {h : Handle} (g : Payload → α)
    {f : α → Answer} (s : a.Sound ledger []) (hf : ∀ y, (f y).issued = [])
    (hc : c.asks? = some (question, [h])) :
    a.Settles c ledger ((ofAsk ((a.ask question h).map g) a).map f) := by
  refine Ends.map ?_
  unfold ask
  cases hl : a.lookup h with
  | ok o =>
    show a.Sound ((f (g o.payload)).issued ++ ledger) []
    rw [hf]
    exact s
  | error e =>
    refine .inr ⟨?_, rfl⟩
    unfold badHandle? refused?
    rw [hc]
    simp only [List.findSome?_cons, hl]

theorem settles_askTwo {c : Call} {question : Question} {x y : Handle}
    (test : Payload → Payload → Bool) (s : a.Sound ledger [])
    (hc : c.asks? = some (question, [x, y])) :
    a.Settles c ledger ((ofAsk (a.askTwo question test x y) a).map .flag) := by
  refine Ends.map ?_
  unfold askTwo ask
  cases hx : a.lookup x with
  | ok p =>
    cases hy : a.lookup y with
    | ok q => exact s
    | error e =>
      refine .inr ⟨?_, rfl⟩
      unfold badHandle? refused?
      rw [hc]
      simp only [List.findSome?_cons, hx, hy]
  | error e =>
    refine .inr ⟨?_, rfl⟩
    unfold badHandle? refused?
    rw [hc]
    simp only [List.findSome?_cons, hx]

theorem clone_settles (h : Handle) (s : a.Sound ledger []) :
    a.Settles (.clone h) ledger ((a.clone h).map .handle) := by
  unfold clone
  cases hl : a.lookup h with
  | error e =>
    refine .inr ⟨?_, rfl⟩
    unfold badHandle? refused? Call.asks?
    simp only [List.findSome?_cons, hl]
  | ok o =>
    refine settles_of_meets ((handOut_meets s fun _ => ?_).imp (fun _ _ k => k.1) fun _ k => k)
    rw [occupant?_of_lookup hl]
    rfl

theorem exportDocument_settles (co : a.Coherent ledger []) (h : Handle) :
    a.Settles (.exportDocument h) ledger
      ((⟨a.exportDocument h, a⟩ : Outcome Document).map .document) := by
  refine Ends.map ?_
  have hn := fun g => co.exportDocument_ne_fault g h
  unfold Outcome.Ends
  cases he : a.exportDocument h with
  | ok d => exact fun _ => co
  | error e =>
    cases e with
    | error e => exact fun _ => co
    | fault g => exact absurd he (hn g)

theorem sweep_meets {roots : List Handle} (co : a.Coherent ledger []) :
    (a.sweep roots).Meets (fun _ b => b.Sound ledger []) (fun b => b.Sound ledger []) := by
  obtain ⟨n, b, hok, w⟩ := co.sweep_swept roots
  rw [hok]
  exact fun _ => w.coherent co

/-- **Every call keeps the invariant**, with the handles that it takes over and answers with. -/
theorem perform_settles (c : Call) (co : a.Coherent (c.consumed ++ ledger) []) :
    a.Settles c ledger (a.perform c) := by
  have s : a.Sound (c.consumed ++ ledger) [] := fun _ => co
  cases c with
  | buildScalar v => exact settles_of_meets (build_leaf_meets s (scalar_leaf v).1 (scalar_leaf v).2)
  | buildAlias name asName => exact settles_of_meets (build_leaf_meets s rfl Kind.noConfusion)
  | buildDictionary => exact settles_of_meets (build_leaf_meets s rfl Kind.noConfusion)
  | buildFunction name params isGenerator =>
    exact settles_of_meets (build_leaf_meets s rfl Kind.noConfusion)
  | buildBuiltin name => exact settles_of_meets (build_leaf_meets s rfl Kind.noConfusion)
  | buildModule name => exact settles_of_meets (build_leaf_meets s rfl Kind.noConfusion)
  | buildHostObject typeName number =>
    exact settles_of_meets (build_leaf_meets s rfl Kind.noConfusion)
  | buildRange start stop step => exact settles_of_meets (buildRange_meets s)
  | buildList items =>
    exact settles_of_meets (buildSequence_meets s (fun _ => rfl) fun _ => Kind.noConfusion)
  | buildTuple items =>
    exact settles_of_meets (buildSequence_meets s (fun _ => rfl) fun _ => Kind.noConfusion)
  | buildView dict => exact settles_of_meets (buildView_meets s)
  | buildBoundName owner name => exact settles_of_meets (buildBoundName_meets s)
  | importDocument d => exact settles_of_meets (buildTree_meets _ d a _ s)
  | readValue t => exact settles_of_meets (readValue_meets s)
  | copy h => exact settles_of_meets (copy_sound co)
  | clone h => exact clone_settles h s
  | release h => exact s.release
  | assign h v => exact settles_of_meets (assign_meets s)
  | append list item => exact settles_of_meets (append_meets s)
  | insertEntry dict key item => exact settles_of_meets (insertEntry_meets s)
  | bindMember table name item => exact settles_of_meets (bindMember_meets s)
  | stepIterator iterator => exact settles_of_meets (stepIterator_meets s)
  | item sequence index => exact settles_of_meets (item_meets s)
  | entry dict key => exact settles_of_meets (entry_meets s)
  | member table name => exact settles_of_meets (member_meets s)
  | ownerOf bound => exact settles_of_meets (ownerOf_meets s)
  | entriesOf view => exact settles_of_meets (entriesOf_meets s)
  | nextValue iterator => exact settles_of_meets (nextValue_meets s)
  | reclaim => exact fun _ => reclaim_coherent co
  | sweep roots => exact settles_of_meets (sweep_meets co)
  | payloadAs wanted h => exact settles_ofAnswer _ s fun _ => rfl
  | hasKey dict key => exact settles_ofAnswer _ s fun _ => rfl
  | hasMember table name => exact settles_ofAnswer _ s fun _ => rfl
  | refcount h => exact settles_ofAnswer _ s fun _ => rfl
  | resolves h => exact s
  | exportDocument h => exact exportDocument_settles co h
  | writeValue h t => exact settles_ofAnswer _ s fun _ => rfl
  | live => exact s
  | shouldCollect => exact s
  | snapshot => exact s
  | kindOf h => exact settles_ask _ s (fun _ => rfl) rfl
  | iterable h => exact settles_ask _ s (fun _ => rfl) rfl
  | callable h => exact settles_ask _ s (fun _ => rfl) rfl
  | generates h => exact settles_ask _ s (fun _ => rfl) rfl
  | truth h => exact settles_ask _ s (fun _ => rfl) rfl
  | equalValues x y => exact settles_askTwo _ s rfl
  | greater x y => exact settles_askTwo _ s rfl
  | atLeast x y => exact settles_askTwo _ s rfl

/-! ## 4. Faults -/

/-- A call that takes handles over looks at all of them, and faults for none. -/
theorem consuming_fatal (c : Call) (hc : c.consumed ≠ []) :
    (a.perform c).Ends (fun _ _ => True) (fun _ => True) fun f _ => f = .counterOverflow := by
  have allocated : ∀ p n, (a.allocate p n).Ends (fun _ _ => True) (fun _ => True)
      fun f _ => f = .counterOverflow := by
    intro p n
    rcases a.allocate_cases p n with ⟨b, e, _⟩ | ⟨why, b, e, _⟩ | ⟨b, e, _⟩ <;> rw [e]
    · trivial
    · trivial
    · rfl
  have sequence : ∀ make items, (a.buildSequence make items).Ends (fun _ _ => True) (fun _ => True)
      fun f _ => f = .counterOverflow := by
    intro make items
    unfold buildSequence
    cases a.firstError? items with
    | some e => trivial
    | none =>
      exact Ends.onError (Ends.andThen (allocated _ _) fun _ _ _ => trivial) fun _ _ => trivial
  have taken : ∀ {α : Type} (item : Handle) (container : Except HeapError α) (store : α → Arena),
      (a.takeOver item container store).Ends (fun _ _ => True) (fun _ => True)
        fun f _ => f = .counterOverflow := by
    intro α item container store
    unfold takeOver
    cases a.lookup item with
    | error e => trivial
    | ok o => cases container <;> trivial
  cases c with
  | buildList items => exact Ends.map (sequence _ items)
  | buildTuple items => exact Ends.map (sequence _ items)
  | release h => trivial
  | append list item => exact Ends.map (taken item _ _)
  | insertEntry dict key item => exact Ends.map (taken item _ _)
  | bindMember table name item => exact Ends.map (taken item _ _)
  | _ => exact absurd rfl hc

section BadHandles

variable {question : Question} {h x y : Handle} {f : Fault}

theorem fault_one {α : Type} {g : Payload → α} {k : α → Answer}
    (e : [h].findSome? (a.refused? question) = some f) :
    (ofAsk ((a.ask question h).map g) a).map k = .fault f a := by
  rw [List.findSome?_cons, refused?] at e
  unfold ask
  cases hl : a.lookup h with
  | ok o =>
    rw [hl] at e
    cases e
  | error e' =>
    rw [hl] at e
    cases e
    rfl

theorem fault_two {test : Payload → Payload → Bool} {k : Bool → Answer}
    (e : [x, y].findSome? (a.refused? question) = some f) :
    (ofAsk (a.askTwo question test x y) a).map k = .fault f a := by
  rw [List.findSome?_cons, refused?] at e
  unfold askTwo
  rw [ask]
  cases hx : a.lookup x with
  | ok o =>
    rw [hx] at e
    exact fault_one (g := test o.payload) e
  | error e' =>
    rw [hx] at e
    cases e
    rfl

theorem fault_clone (e : [h].findSome? (a.refused? .clone) = some f) :
    (a.clone h).map Answer.handle = .fault f a := by
  rw [List.findSome?_cons, refused?] at e
  unfold clone
  cases hl : a.lookup h with
  | ok o =>
    rw [hl] at e
    cases e
  | error e' =>
    rw [hl] at e
    cases e
    rfl

/-- A call with a bad handle faults, and tells which. -/
theorem fault_of_badHandle {c : Call} (h : a.badHandle? c = some f) : a.perform c = .fault f a := by
  cases c with
  | clone h' => exact fault_clone h
  | kindOf h' => exact fault_one h
  | iterable h' => exact fault_one h
  | callable h' => exact fault_one h
  | generates h' => exact fault_one h
  | truth h' => exact fault_one h
  | equalValues x y => exact fault_two h
  | greater x y => exact fault_two h
  | atLeast x y => exact fault_two h
  | _ => cases h

end BadHandles

/-- **The faults of a call**: unless a counter of the tracker leaves its range, a call faults
    exactly if a handle that it takes for granted names no value, and the fault says so. This holds
    for any handles, outstanding or not. -/
theorem fault_iff_badHandle (co : a.Coherent ledger []) (c : Call)
    (hu : (a.perform c).arena.Unwrapped) {f : Fault} (hf : f ≠ .counterOverflow) :
    (a.perform c).answer = .error (.fault f) ↔ a.badHandle? c = some f := by
  constructor
  · intro h
    by_cases hc : c.consumed = []
    · have hs : a.Settles c ledger (a.perform c) := perform_settles c (by rw [hc]; exact co)
      unfold Settles Outcome.Ends at hs
      rw [h] at hs
      rcases hs with k | k
      · exact absurd (k hu) hf
      · exact k.1
    · have hs := consuming_fatal (a := a) c hc
      unfold Outcome.Ends at hs
      rw [h] at hs
      exact absurd hs hf
  · intro h
    rw [fault_of_badHandle h]
    rfl

/-! ## 5. Whose handles a call answers with -/

theorem owns_ofAnswer {α : Type} {f : α → Answer} (x : Except HeapError α)
    (hf : ∀ y, (f y).issued = []) : ((ofAnswer x a).map f).Owns a.id Answer.issued := by
  refine Ends.map ?_
  cases x with
  | error e => exact rfl
  | ok y => exact ⟨rfl, fun h hh => by rw [hf] at hh; cases hh⟩

theorem owns_ofAsk {α : Type} {f : α → Answer} (x : Except Fault α)
    (hf : ∀ y, (f y).issued = []) : ((ofAsk x a).map f).Owns a.id Answer.issued := by
  refine Ends.map ?_
  cases x with
  | error e => trivial
  | ok y => exact ⟨rfl, fun h hh => by rw [hf] at hh; cases hh⟩

theorem owns_map {α : Type} {r : Outcome α} {id : ArenaId} {f : α → Answer}
    (h : r.Owns id fun x => (f x).issued) : (r.map f).Owns id Answer.issued := Ends.map h

theorem owns_copy (co : a.Coherent ledger []) (h : Handle) :
    (a.copy h).Owns a.id fun g => [g] := by
  refine Ends.imp (copyTo_meets (h := h) co co.vacant false) ?_ (fun _ k => k.id)
    fun _ _ _ => trivial
  intro g b hk
  obtain ⟨_, f, k⟩ := hk
  refine ⟨k.id, fun x hx => ?_⟩
  rw [List.mem_singleton.mp hx, k.handle]
  exact k.id

/-- **A call keeps the identity of the arena and answers with handles of it.** -/
theorem perform_owns (co : a.Coherent ledger []) (c : Call) :
    (a.perform c).Owns a.id Answer.issued := by
  cases c with
  | buildScalar v => exact owns_map (build_owns _ rfl)
  | buildAlias name asName => exact owns_map (build_owns _ rfl)
  | buildDictionary => exact owns_map (build_owns _ rfl)
  | buildFunction name params isGenerator => exact owns_map (build_owns _ rfl)
  | buildBuiltin name => exact owns_map (build_owns _ rfl)
  | buildModule name => exact owns_map (build_owns _ rfl)
  | buildHostObject typeName number => exact owns_map (build_owns _ rfl)
  | buildRange start stop step => exact owns_map (buildRange_owns start stop step rfl)
  | buildList items => exact owns_map (buildSequence_owns _ items rfl)
  | buildTuple items => exact owns_map (buildSequence_owns _ items rfl)
  | buildView dict => exact owns_map (buildView_owns dict rfl)
  | buildBoundName owner name => exact owns_map (buildBoundName_owns owner name rfl)
  | importDocument d => exact owns_map (buildTree_owns _ d a rfl)
  | readValue t => exact owns_map (readValue_owns t rfl)
  | copy h => exact owns_map (owns_copy co h)
  | clone h =>
    refine owns_map ?_
    unfold clone
    cases a.lookup h with
    | error e => exact owns_fault
    | ok o => exact handOut_owns _ rfl
  | release h => exact owns_none (id_release a h)
  | assign h v => exact owns_map (assign_owns h v rfl)
  | append list item => exact owns_map (append_owns list item rfl)
  | insertEntry dict key item => exact owns_map (insertEntry_owns dict key item rfl)
  | bindMember table name item => exact owns_map (bindMember_owns table name item rfl)
  | stepIterator iterator => exact owns_map (stepIterator_owns iterator rfl)
  | item sequence index => exact owns_map (item_owns sequence index rfl)
  | entry dict key => exact owns_map (entry_owns dict key rfl)
  | member table name => exact owns_map (member_owns table name rfl)
  | ownerOf bound => exact owns_map (ownerOf_owns bound rfl)
  | entriesOf view => exact owns_map (entriesOf_owns view rfl)
  | nextValue iterator => exact owns_map (nextValue_owns iterator rfl)
  | reclaim => exact owns_none (id_cascade a 0 _)
  | sweep roots =>
    obtain ⟨n, b, hok, w⟩ := co.sweep_swept roots
    refine owns_map ?_
    rw [hok]
    exact owns_none w.id
  | payloadAs wanted h => exact owns_ofAnswer _ fun _ => rfl
  | hasKey dict key => exact owns_ofAnswer _ fun _ => rfl
  | hasMember table name => exact owns_ofAnswer _ fun _ => rfl
  | refcount h => exact owns_ofAnswer _ fun _ => rfl
  | resolves h => exact owns_none rfl
  | exportDocument h =>
    refine owns_map ?_
    unfold Owns Outcome.Ends
    cases a.exportDocument h with
    | ok d => exact ⟨rfl, fun k hk => by cases hk⟩
    | error e =>
      cases e with
      | error e => exact rfl
      | fault g => trivial
  | writeValue h t => exact owns_ofAnswer _ fun _ => rfl
  | live => exact owns_none rfl
  | shouldCollect => exact owns_none rfl
  | snapshot => exact owns_none rfl
  | kindOf h => exact owns_ofAsk _ fun _ => rfl
  | iterable h => exact owns_ofAsk _ fun _ => rfl
  | callable h => exact owns_ofAsk _ fun _ => rfl
  | generates h => exact owns_ofAsk _ fun _ => rfl
  | truth h => exact owns_ofAsk _ fun _ => rfl
  | equalValues x y => exact owns_ofAsk _ fun _ => rfl
  | greater x y => exact owns_ofAsk _ fun _ => rfl
  | atLeast x y => exact owns_ofAsk _ fun _ => rfl

end Arena

end ValueHeap
