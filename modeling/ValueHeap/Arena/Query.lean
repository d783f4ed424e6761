import ValueHeap.Arena.Allocation

/-!
# Questions about the values behind handles

Reading never changes the arena. A reading that may be refused answers with a `HeapError`; a
question that takes a good handle for granted answers with a `Fault` when the handle is not.
-/

namespace ValueHeap

namespace Arena

/-! ## 1. Payloads of a wanted kind -/

/-- The payload behind a handle, if it is of the wanted kind. -/
def payloadAs (a : Arena) (wanted : Kind) (h : Handle) : Except HeapError Payload :=
  match a.lookup h with
  | .error e => .error e
  | .ok o =>
    if o.payload.kind = wanted then .ok o.payload
    else .error (.wrongKind wanted o.payload.kind)

/-- What `pick` finds in the payload behind a handle; `wanted` is the kind in which it finds it. -/
def read {α : Type} (a : Arena) (wanted : Kind) (pick : Payload → Option α) (h : Handle) :
    Except HeapError α :=
  match a.lookup h with
  | .error e => .error e
  | .ok o =>
    match pick o.payload with
    | some x => .ok x
    | none => .error (.wrongKind wanted o.payload.kind)

def readList (a : Arena) (h : Handle) : Except HeapError (List Slot) :=
  a.read .list Payload.asList? h

def readDictionary (a : Arena) (h : Handle) : Except HeapError Entries :=
  a.read .dictionary Payload.asDictionary? h

def readDictItems (a : Arena) (h : Handle) : Except HeapError Slot :=
  a.read .dictItems Payload.asDictItems? h

def readModule (a : Arena) (h : Handle) : Except HeapError ModuleTable :=
  a.read .moduleTable Payload.asModule? h

def readAttr (a : Arena) (h : Handle) : Except HeapError BoundName :=
  a.read .attr Payload.asAttr? h

def readIterator (a : Arena) (h : Handle) : Except HeapError Progression :=
  a.read .iterator Payload.asIterator? h

/-- Whether a dictionary has the key. -/
def hasKey (a : Arena) (dict : Handle) (key : String) : Except HeapError Bool :=
  (a.readDictionary dict).map (·.contains key)

/-- Whether a module has the member. -/
def hasMember (a : Arena) (table : Handle) (name : String) : Except HeapError Bool :=
  (a.readModule table).map (·.members.contains name)

/-- Whether two values of one kind, perhaps of two arenas, are the same data. The first handle is
    read first. -/
def sameData (a : Arena) (x : Handle) (b : Arena) (y : Handle) (kind : Kind) :
    Except HeapError Bool :=
  match a.payloadAs kind x with
  | .error e => .error e
  | .ok p => (b.payloadAs kind y).map (p.sameData ·)

/-! ## 2. Questions that take a good handle for granted -/

/-- The payload a question is about. -/
def ask (a : Arena) (question : Question) (h : Handle) : Except Fault Payload :=
  match a.lookup h with
  | .ok o => .ok o.payload
  | .error e => .error (.badHandle question e)

def kindOf (a : Arena) (h : Handle) : Except Fault Kind :=
  (a.ask .kindOf h).map (·.kind)

def iterable (a : Arena) (h : Handle) : Except Fault Bool :=
  (a.ask .iterable h).map (·.iterable)

def callable (a : Arena) (h : Handle) : Except Fault Bool :=
  (a.ask .callable h).map (·.callable)

def generates (a : Arena) (h : Handle) : Except Fault Bool :=
  (a.ask .generates h).map (·.generates)

def truth (a : Arena) (h : Handle) : Except Fault Bool :=
  (a.ask .truth h).map (·.truth)

/-- A question about two values; the first handle is looked at first. -/
def askTwo (a : Arena) (question : Question) (test : Payload → Payload → Bool) (x y : Handle) :
    Except Fault Bool :=
  match a.ask question x with
  | .error f => .error f
  | .ok p => (a.ask question y).map (test p)

def equalValues (a : Arena) (x y : Handle) : Except Fault Bool :=
  a.askTwo .equalValues Payload.valueEq x y

def greater (a : Arena) (x y : Handle) : Except Fault Bool :=
  a.askTwo .greater Payload.greater x y

def atLeast (a : Arena) (x y : Handle) : Except Fault Bool :=
  a.askTwo .atLeast Payload.atLeast x y

/-! ## 3. Following references inside the arena -/

/-- The payload in a slot that a value of this arena refers to. -/
def follow (a : Arena) (i : Slot) : Except Fault Payload :=
  match a.cells[i]? with
  | none => .error .missingSlot
  | some ⟨_, none⟩ => .error .emptySlot
  | some ⟨_, some o⟩ => .ok o.payload

/-- Whether enough containers have been built since the last garbage collection to suggest one. -/
def shouldCollect (a : Arena) : Bool := decide (a.tracker.interval ≤ a.containersBuilt.toNat)

theorem follow_of_occupant? {a : Arena} {i : Slot} {o : Occupant} (h : a.occupant? i = some o) :
    a.follow i = .ok o.payload := by
  unfold occupant? at h
  unfold follow
  cases hc : a.cells[i]? with
  | none => simp [hc] at h
  | some c =>
    obtain ⟨g, oc⟩ := c
    rw [hc] at h
    have ho : oc = some o := by simpa using h
    subst ho
    rfl

end Arena

end ValueHeap
