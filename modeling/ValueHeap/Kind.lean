/-!
# The kinds of value

Fifteen kinds, listed in the order of their wire tags.

* `Kind.tag` and `Kind.ofTag?` read a kind as a byte and back: `ofTag?_tag`, `tag_of_ofTag?`;
* `Kind.name` is the name every message and report uses, and `Kind.ofName?` reads it back; two
  kinds never share a name (`name_inj`);
* `Kind.byName` lists all kinds in the order of their names, the order of every report
  (`sorted_byName`).
-/

namespace ValueHeap

/-- What a value is. The order of the constructors is the order of the wire tags. -/
inductive Kind
  | bool
  | string
  | integer
  | float
  /-- A view over the entries of a dictionary. -/
  | dictItems
  /-- An object owned by the embedding host. -/
  | hostObject
  /-- A name bound to the value that owns it. -/
  | attr
  | builtin
  | list
  | dictionary
  | iterator
  | tuple
  /-- A name a module is imported under. -/
  | importAlias
  | moduleTable
  | function
  deriving DecidableEq, Repr, Inhabited

namespace Kind

/-- Every kind, in the order of the wire tags. -/
def all : List Kind :=
  [bool, string, integer, float, dictItems, hostObject, attr, builtin,
    list, dictionary, iterator, tuple, importAlias, moduleTable, function]

/-- The byte that announces a value of this kind in a stream. -/
def tag : Kind → UInt8
  | bool => 0
  | string => 1
  | integer => 2
  | float => 3
  | dictItems => 4
  | hostObject => 5
  | attr => 6
  | builtin => 7
  | list => 8
  | dictionary => 9
  | iterator => 10
  | tuple => 11
  | importAlias => 12
  | moduleTable => 13
  | function => 14

/-- The kind a tag byte announces. -/
def ofTag? (byte : UInt8) : Option Kind :=
  all.find? (fun k => k.tag == byte)

/-- The name of the kind in messages and reports. -/
def name : Kind → String
  | bool => "Bool"
  | string => "String"
  | integer => "Integer"
  | float => "Float"
  | dictItems => "DictItems"
  | hostObject => "CppObject"
  | attr => "Attribute"
  | builtin => "Builtin"
  | list => "List"
  | dictionary => "Dictionary"
  | iterator => "Iterator"
  | tuple => "Tuple"
  | importAlias => "Alias"
  | moduleTable => "Module"
  | function => "Function"

/-- The kind of that name; the match is exact. -/
def ofName? (text : String) : Option Kind :=
  all.find? (fun k => k.name == text)

/-- Every kind, in the order of the names. -/
def byName : List Kind :=
  [importAlias, attr, bool, builtin, hostObject, dictItems, dictionary, float,
    function, integer, iterator, list, moduleTable, string, tuple]

/-- Only integers and truth values have a layout in a stream. -/
def hasLayout : Kind → Bool
  | integer | bool => true
  | _ => false

/-- The kinds whose values refer to other values. They alone can close a cycle, so they alone
    count towards the next suggested garbage collection. -/
def holdsReferences : Kind → Bool
  | list | tuple | dictionary | dictItems | moduleTable | attr => true
  | _ => false

theorem mem_all (k : Kind) : k ∈ all := by
  cases k <;> decide

theorem mem_byName (k : Kind) : k ∈ byName := by
  cases k <;> decide

theorem sorted_byName : (byName.map name).Pairwise (· < ·) := by decide

@[simp] theorem ofTag?_tag (k : Kind) : ofTag? k.tag = some k := by
  cases k <;> rfl

theorem tag_of_ofTag? {byte : UInt8} {k : Kind} (h : ofTag? byte = some k) : k.tag = byte := by
  simpa using List.find?_some h

@[simp] theorem ofName?_name (k : Kind) : ofName? k.name = some k := by
  cases k <;> rfl

theorem name_of_ofName? {text : String} {k : Kind} (h : ofName? text = some k) : k.name = text := by
  simpa using List.find?_some h

theorem name_inj {k l : Kind} (h : k.name = l.name) : k = l := by
  have e : ofName? k.name = ofName? l.name := congrArg ofName? h
  simpa using e

end Kind

end ValueHeap
