import ValueHeap.Arena.Query

/-!
# Building values

Each factory answers with the first handle to the value it builds. A factory that is handed
handles takes over their references; when it fails, it has given them back.
-/

namespace ValueHeap

namespace Arena

/-! ## 1. New references -/

/-- Adds a reference to the value in a slot. -/
def retain (a : Arena) (i : Slot) : Outcome Unit :=
  match a.retain? i with
  | some b => .ok () b
  | none => .fault .sharedEmptySlot a

/-- A new handle to the value in a slot. -/
def handOut (a : Arena) (i : Slot) : Outcome Handle :=
  (a.retain i).andThen fun _ b => .ok (b.handleOf i) b

/-- One more handle to a value that has one. -/
def clone (a : Arena) (h : Handle) : Outcome Handle :=
  match a.lookup h with
  | .error e => .fault (.badHandle .clone e) a
  | .ok _ => a.handOut h.slot

/-! ## 2. Values without children -/

/-- Builds a value with one reference, its handle. -/
def build (a : Arena) (p : Payload) : Outcome Handle :=
  (a.allocate p 1).andThen fun i b => .ok (b.handleOf i) b

/-- A value that can be overwritten by another of its kind. -/
inductive Scalar
  | bool (flag : Bool)
  | string (text : String)
  | integer (value : Int32)
  | float (value : Double)

def Scalar.payload : Scalar → Payload
  | bool flag => .bool flag
  | string text => .string text
  | integer value => .integer value
  | float value => .float value

def buildScalar (a : Arena) (s : Scalar) : Outcome Handle := a.build s.payload

def buildInteger (a : Arena) (value : Int32) : Outcome Handle := a.build (.integer value)

def buildAlias (a : Arena) (name asName : String) : Outcome Handle :=
  a.build (.importAlias ⟨name, asName⟩)

/-- An empty dictionary. -/
def buildDictionary (a : Arena) : Outcome Handle := a.build (.dictionary .empty)

def buildFunction (a : Arena) (name : String) (params : List String) (isGenerator : Bool) :
    Outcome Handle :=
  a.build (.function ⟨name, params, isGenerator⟩)

def buildBuiltin (a : Arena) (name : String) : Outcome Handle := a.build (.builtin name)

/-- A module without members. -/
def buildModule (a : Arena) (name : String) : Outcome Handle :=
  a.build (.moduleTable ⟨name, .empty⟩)

def buildHostObject (a : Arena) (typeName : String) (number : UInt64) : Outcome Handle :=
  a.build (.hostObject ⟨typeName, number⟩)

/-- An iterator at its start. A step that is not positive is refused before anything is built. -/
def buildRange (a : Arena) (start stop step : Int32) : Outcome Handle :=
  match Progression.new? start stop step with
  | some walk => a.build (.iterator walk)
  | none => .error (.badStep step) a

/-! ## 3. Values with children -/

/-- Builds a value whose children are already counted; if it is refused, they are given back. -/
def buildHolding (a : Arena) (p : Payload) : Outcome Handle :=
  (a.build p).onError (·.giveBackAll p.children)

/-- The error of the first handle that names no value. -/
def firstError? (a : Arena) (items : List Handle) : Option HeapError :=
  items.findSome? fun h =>
    match a.lookup h with
    | .ok _ => none
    | .error e => some e

/-- Builds a sequence of the given values. All of the handles have to name values; if one does
    not, those that do are released. -/
def buildSequence (a : Arena) (make : List Slot → Payload) (items : List Handle) :
    Outcome Handle :=
  match a.firstError? items with
  | some e => .error e (a.releaseAll items)
  | none => a.buildHolding (make (items.map (·.slot)))

def buildList (a : Arena) (items : List Handle) : Outcome Handle := a.buildSequence .list items

def buildTuple (a : Arena) (items : List Handle) : Outcome Handle := a.buildSequence .tuple items

/-- A view over the entries of a dictionary. It holds a reference of its own. -/
def buildView (a : Arena) (dict : Handle) : Outcome Handle :=
  match a.readDictionary dict with
  | .error e => .error e a
  | .ok _ => (a.retain dict.slot).andThen fun _ b => b.buildHolding (.dictItems dict.slot)

/-- A name bound to its owner. It holds a reference of its own. -/
def buildBoundName (a : Arena) (owner : Handle) (name : String) : Outcome Handle :=
  match a.lookup owner with
  | .error e => .error e a
  | .ok _ => (a.retain owner.slot).andThen fun _ b => b.buildHolding (.attr ⟨owner.slot, name⟩)

end Arena

end ValueHeap
