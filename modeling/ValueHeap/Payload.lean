import ValueHeap.Kind
import ValueHeap.Double
import ValueHeap.Progression
import ValueHeap.Entries

/-!
# Payloads: what a slot holds

One constructor per kind. A payload refers to other values by their slots, its *children*; the
list of children names a slot once per reference.

* `children_mapSlots`: renaming the slots renames the children and nothing else;
* `children_restarted`, `kind_restarted`, `kind_mapSlots`: a copy keeps kind and children.
-/

namespace ValueHeap

/-- An object the embedding host owns: the name of its type and the host's own number for it. -/
structure HostObject where
  typeName : String
  number : UInt64
  deriving DecidableEq

/-- A name bound to the value that owns it. -/
structure BoundName where
  owner : Slot
  name : String
  deriving DecidableEq

/-- The name of a module and the name it is imported under. -/
structure ImportAlias where
  name : String
  asName : String
  deriving DecidableEq

/-- A module and its members. -/
structure ModuleTable where
  name : String
  members : Entries

/-- The signature of a function; a generator answers with an iterator. -/
structure Signature where
  name : String
  params : List String
  isGenerator : Bool
  deriving DecidableEq

/-- What a slot holds. -/
inductive Payload
  | bool (flag : Bool)
  | string (text : String)
  | integer (value : Int32)
  | float (value : Double)
  /-- A view over the entries of the dictionary in that slot. -/
  | dictItems (dict : Slot)
  | hostObject (object : HostObject)
  | attr (bound : BoundName)
  | builtin (name : String)
  | list (items : List Slot)
  | dictionary (entries : Entries)
  | iterator (walk : Progression)
  | tuple (items : List Slot)
  | importAlias (names : ImportAlias)
  | moduleTable (table : ModuleTable)
  | function (signature : Signature)

namespace Payload

def kind : Payload → Kind
  | bool _ => .bool
  | string _ => .string
  | integer _ => .integer
  | float _ => .float
  | dictItems _ => .dictItems
  | hostObject _ => .hostObject
  | attr _ => .attr
  | builtin _ => .builtin
  | list _ => .list
  | dictionary _ => .dictionary
  | iterator _ => .iterator
  | tuple _ => .tuple
  | importAlias _ => .importAlias
  | moduleTable _ => .moduleTable
  | function _ => .function

/-! ## 1. Children -/

/-- The slots a payload refers to, in order, once per reference. -/
def children : Payload → List Slot
  | dictItems dict => [dict]
  | attr bound => [bound.owner]
  | list items => items
  | tuple items => items
  | dictionary entries => entries.slots
  | moduleTable table => table.members.slots
  | _ => []

/-- The payload with every child renamed, positions and keys kept. -/
def mapSlots (f : Slot → Slot) : Payload → Payload
  | dictItems dict => dictItems (f dict)
  | attr bound => attr { bound with owner := f bound.owner }
  | list items => list (items.map f)
  | tuple items => tuple (items.map f)
  | dictionary entries => dictionary (entries.mapSlots f)
  | moduleTable table => moduleTable { table with members := table.members.mapSlots f }
  | other => other

/-- The payload as a copy starts with it: an iterator is back at its start. -/
def restarted : Payload → Payload
  | iterator walk => iterator walk.restarted
  | other => other

@[simp] theorem children_mapSlots (f : Slot → Slot) (p : Payload) :
    (p.mapSlots f).children = p.children.map f := by
  cases p <;> simp [mapSlots, children]

@[simp] theorem kind_mapSlots (f : Slot → Slot) (p : Payload) : (p.mapSlots f).kind = p.kind := by
  cases p <;> rfl

@[simp] theorem children_restarted (p : Payload) : p.restarted.children = p.children := by
  cases p <;> rfl

@[simp] theorem kind_restarted (p : Payload) : p.restarted.kind = p.kind := by
  cases p <;> rfl

/-- Only a container has children. -/
theorem children_eq_nil {p : Payload} (h : p.kind.holdsReferences = false) : p.children = [] := by
  cases p <;> simp_all [kind, children, Kind.holdsReferences]

/-! ## 2. Size -/

/-- The sizes the memory estimate is made of, in bytes. -/
structure Footprint where
  value : Nat
  child : Nat
  entry : Nat

/-- Every value takes 96 bytes, an item of a sequence 8 more, a named entry 32 more. -/
def footprintUnits : Footprint := ⟨96, 8, 32⟩

/-- The estimated size of a payload. Names and texts count by their UTF-8 bytes; the names of a
    module's members are not counted. -/
def footprint (p : Payload) : Nat :=
  footprintUnits.value +
    match p with
    | string text => text.utf8ByteSize
    | importAlias names => names.name.utf8ByteSize + names.asName.utf8ByteSize
    | list items => footprintUnits.child * items.length
    | tuple items => footprintUnits.child * items.length
    | dictionary entries =>
      entries.keys.foldl (fun n k => n + (k.utf8ByteSize + footprintUnits.entry)) 0
    | moduleTable table => table.name.utf8ByteSize + footprintUnits.entry * table.members.size
    | function signature =>
      signature.name.utf8ByteSize + signature.params.foldl (fun n p => n + p.utf8ByteSize) 0
    | builtin name => name.utf8ByteSize
    | attr bound => bound.name.utf8ByteSize
    | hostObject object => object.typeName.utf8ByteSize
    | bool _ | integer _ | float _ | iterator _ | dictItems _ => 0

/-- Starting again takes no more room. -/
@[simp] theorem footprint_restarted (p : Payload) : p.restarted.footprint = p.footprint := by
  cases p <;> rfl

/-! ## 3. Questions about one value -/

/-- Truth: a flag is itself, an integer is true unless zero, every other value is true. -/
def truth : Payload → Bool
  | bool flag => flag
  | integer value => value != 0
  | _ => true

def iterable : Payload → Bool
  | list _ | tuple _ | dictionary _ | dictItems _ | iterator _ => true
  | _ => false

def callable : Payload → Bool
  | function _ | builtin _ | attr _ => true
  | _ => false

def generates : Payload → Bool
  | iterator _ => true
  | function signature => signature.isGenerator
  | _ => false

/-! ## 4. Questions about two values -/

/-- Value equality, defined on texts and on integers; all else is unequal, even to itself. -/
def valueEq : Payload → Payload → Bool
  | string s, string t => s == t
  | integer m, integer n => m == n
  | _, _ => false

/-- Strict order, defined on integers only. -/
def greater : Payload → Payload → Bool
  | integer m, integer n => decide (n < m)
  | _, _ => false

/-- Order or equality, defined on integers only. -/
def atLeast : Payload → Payload → Bool
  | integer m, integer n => decide (n ≤ m)
  | _, _ => false

/-- Whether two payloads are the same data: children compare by their slots, entries in whatever
    order, floats numerically. -/
def sameData : Payload → Payload → Bool
  | bool b, bool c => b == c
  | string s, string t => s == t
  | integer m, integer n => m == n
  | float x, float y => x.ieeeEq y
  | dictItems d, dictItems e => d == e
  | hostObject x, hostObject y => x == y
  | attr x, attr y => x == y
  | builtin x, builtin y => x == y
  | list xs, list ys => xs == ys
  | dictionary e, dictionary f => e.sameEntries f
  | iterator r, iterator q => r == q
  | tuple xs, tuple ys => xs == ys
  | importAlias x, importAlias y => x == y
  | moduleTable x, moduleTable y => x.name == y.name && x.members.sameEntries y.members
  | function x, function y => x == y
  | _, _ => false

/-! ## 5. Payloads of one kind -/

def asList? : Payload → Option (List Slot)
  | list items => some items
  | _ => none

def asDictionary? : Payload → Option Entries
  | dictionary entries => some entries
  | _ => none

def asDictItems? : Payload → Option Slot
  | dictItems dict => some dict
  | _ => none

def asModule? : Payload → Option ModuleTable
  | moduleTable table => some table
  | _ => none

def asAttr? : Payload → Option BoundName
  | attr bound => some bound
  | _ => none

def asIterator? : Payload → Option Progression
  | iterator walk => some walk
  | _ => none

end Payload

end ValueHeap
