import ValueHeap.Arena.Factory

/-!
# Changing and reading what containers hold

An update takes over the reference of the handle it stores, and has given it back when it fails.
A reading answers with new handles. The value to be stored is looked at before the container.
-/

namespace ValueHeap

namespace Arena

/-! ## 1. Scalars -/

/-- Overwrites a scalar by another of its kind. -/
def assign (a : Arena) (h : Handle) (s : Scalar) : Outcome Unit :=
  match a.payloadAs s.payload.kind h with
  | .error e => .error e a
  | .ok _ => .ok () (a.setPayload h.slot s.payload)

/-! ## 2. Storing -/

/-- Stores `item` in a container that was read as `container`. -/
def takeOver {α : Type} (a : Arena) (item : Handle) (container : Except HeapError α)
    (store : α → Arena) : Outcome Unit :=
  match a.lookup item with
  | .error e => .error e (a.release item)
  | .ok _ =>
    match container with
    | .error e => .error e (a.release item)
    | .ok x => .ok () (store x)

def append (a : Arena) (list item : Handle) : Outcome Unit :=
  a.takeOver item (a.readList list) fun items =>
    a.setPayload list.slot (.list (items ++ [item.slot]))

/-- Gives back the reference to a value that has been replaced, if there was one. -/
def giveBackReplaced (a : Arena) : Option Slot → Arena
  | some previous => a.giveBack previous
  | none => a

/-- Puts a value under a key of a dictionary; the value it replaces loses that reference. -/
def insertEntry (a : Arena) (dict : Handle) (key : String) (item : Handle) : Outcome Unit :=
  a.takeOver item (a.readDictionary dict) fun entries =>
    (a.setPayload dict.slot (.dictionary (entries.insert key item.slot))).giveBackReplaced
      (entries.get? key)

/-- Binds a name in a module; the value it replaces loses that reference. -/
def bindMember (a : Arena) (table : Handle) (name : String) (item : Handle) : Outcome Unit :=
  a.takeOver item (a.readModule table) fun m =>
    (a.setPayload table.slot
      (.moduleTable { m with members := m.members.insert name item.slot })).giveBackReplaced
      (m.members.get? name)

/-! ## 3. Reading -/

/-- A new handle to the value in a slot, where a slot was found. -/
def handOutFound (a : Arena) : Option Slot → Outcome (Option Handle)
  | some i => (a.handOut i).andThen fun h b => .ok (some h) b
  | none => .ok none a

/-- The items of a list or a tuple. -/
def readSequence (a : Arena) (h : Handle) : Except HeapError (List Slot) :=
  match a.lookup h with
  | .error e => .error e
  | .ok ⟨_, .list items⟩ => .ok items
  | .ok ⟨_, .tuple items⟩ => .ok items
  | .ok o => .error (.wrongKind .list o.payload.kind)

def item (a : Arena) (sequence : Handle) (index : Nat) : Outcome (Option Handle) :=
  match a.readSequence sequence with
  | .error e => .error e a
  | .ok items => a.handOutFound items[index]?

def entry (a : Arena) (dict : Handle) (key : String) : Outcome (Option Handle) :=
  match a.readDictionary dict with
  | .error e => .error e a
  | .ok entries => a.handOutFound (entries.get? key)

def member (a : Arena) (table : Handle) (name : String) : Outcome (Option Handle) :=
  match a.readModule table with
  | .error e => .error e a
  | .ok m => a.handOutFound (m.members.get? name)

/-- A new handle to the value a bound name belongs to. -/
def ownerOf (a : Arena) (bound : Handle) : Outcome Handle :=
  match a.readAttr bound with
  | .error e => .error e a
  | .ok b => a.handOut b.owner

/-- New handles to the values of some entries, in order. -/
def handOutPairs (a : Arena) : List (String × Slot) → Outcome (List (String × Handle))
  | [] => .ok [] a
  | (key, i) :: rest =>
    (a.handOut i).andThen fun h b =>
      (handOutPairs b rest).andThen fun hs c => .ok ((key, h) :: hs) c

/-- The entries behind a view, as they are now, in the order of the dictionary. -/
def entriesOf (a : Arena) (view : Handle) : Outcome (List (String × Handle)) :=
  match a.readDictItems view with
  | .error e => .error e a
  | .ok dict =>
    match a.follow dict with
    | .error f => .fault f a
    | .ok (.dictionary entries) => a.handOutPairs entries.pairs
    | .ok _ => .fault .viewOfNoDictionary a

/-! ## 4. Iterators -/

/-- The next element of an iterator, as a number; the iterator has then moved on. -/
def stepIterator (a : Arena) (iterator : Handle) : Outcome (Option Int32) :=
  match a.readIterator iterator with
  | .error e => .error e a
  | .ok walk =>
    match walk.next? with
    | none => .ok none a
    | some (value, moved) => .ok (some value) (a.setPayload iterator.slot (.iterator moved))

/-- The next element of an iterator, as a new value. The iterator has moved on even when the
    tracker refuses the value. -/
def nextValue (a : Arena) (iterator : Handle) : Outcome (Option Handle) :=
  (a.stepIterator iterator).andThen fun next b =>
    match next with
    | none => .ok none b
    | some value => (b.buildInteger value).andThen fun h c => .ok (some h) c

end Arena

end ValueHeap
