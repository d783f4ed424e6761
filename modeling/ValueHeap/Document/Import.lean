import ValueHeap.Document
import ValueHeap.Arena.Contents

/-!
# Building values from documents

A document is built in preorder, except that an array is built after its items. The recursion is
on the levels that are left; a node below the last level is refused whatever it is. When a part
of the document is refused, the parts built before it are released and left for collection.
-/

namespace ValueHeap

namespace Arena

/-- Builds the given documents in order; answers the handles in `built` and those built here. On
    an error all of them are released. -/
def buildItems (build : Document → Arena → Outcome Handle) (a : Arena) :
    List Document → List Handle → Outcome (List Handle)
  | [], built => .ok built a
  | d :: rest, built =>
    ((build d a).onError (·.releaseAll built)).andThen fun h b =>
      buildItems build b rest (built ++ [h])

/-- Builds the given members in order, each put into the dictionary as soon as it is built. -/
def buildMembers (build : Document → Arena → Outcome Handle) (dict : Handle) (a : Arena) :
    List (String × Document) → Outcome Unit
  | [] => .ok () a
  | (key, d) :: rest =>
    (build d a).andThen fun h b =>
      (b.insertEntry dict key h).andThen fun _ c => buildMembers build dict c rest

/-- A whole number that fits 32 bits is an integer; any other number is a float, the nearest. -/
def wholeNumber (n : Int) : Payload :=
  if Int32.minValue.toInt ≤ n ∧ n ≤ Int32.maxValue.toInt then .integer (Int32.ofInt n)
  else .float (Double.ofInt n)

/-- Builds a document of at most so many levels. -/
def buildTree : (levels : Nat) → Document → Arena → Outcome Handle
  | 0, _, a => .error .tooDeep a
  | _ + 1, .null, a => .error (.unrepresentable .null) a
  | _ + 1, .bool flag, a => a.build (.bool flag)
  | _ + 1, .integer n, a => a.build (wholeNumber n)
  | _ + 1, .float x, a => a.build (.float x)
  | _ + 1, .string text, a => a.build (.string text)
  | levels + 1, .array items, a =>
    (buildItems (buildTree levels) a items []).andThen fun hs b => b.buildList hs
  | levels + 1, .object members, a =>
    a.buildDictionary.andThen fun dict b =>
      ((buildMembers (buildTree levels) dict b members).onError (·.release dict)).andThen
        fun _ c => .ok dict c

/-- Builds the value that a document describes. -/
def importDocument (a : Arena) (d : Document) : Outcome Handle :=
  buildTree Document.levels d a

end Arena

end ValueHeap
