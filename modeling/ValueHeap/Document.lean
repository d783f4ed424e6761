import ValueHeap.Double

/-!
# Documents

A document is a tree of nulls, flags, numbers, texts, arrays and objects, the data that programs
exchange. A number is either whole or floating-point, and the two are told apart even where they
are equal. The members of an object have distinct names and keep their order.
-/

namespace ValueHeap

inductive Document
  | null
  | bool (flag : Bool)
  | integer (value : Int)
  | float (value : Double)
  | string (text : String)
  | array (items : List Document)
  | object (members : List (String × Document))

instance : Inhabited Document := ⟨.null⟩

namespace Document

/-- How deep a document may be nested; the root is at depth zero. -/
def depthLimit : Nat := 100

/-- The levels a document may have. -/
def levels : Nat := depthLimit + 1

/-- The member of that name. -/
def member? (name : String) (members : List (String × Document)) : Option Document :=
  members.lookup name

end Document

end ValueHeap
