import ValueHeap.Document
import ValueHeap.Arena.Query

/-!
# Reading values as documents

Flags, integers, finite floats, texts, lists, tuples and dictionaries have a document; a value
that is referred to twice occurs twice in it. The recursion is on the levels that are left, so a
cycle ends as a value that is nested too deep. The first obstacle in preorder is the error.
-/

namespace ValueHeap

namespace Arena

/-- What `f` makes of each item, up to the first failure. -/
def exportAll {α β : Type} (f : α → Except Failure β) : List α → Except Failure (List β)
  | [] => .ok []
  | x :: rest =>
    match f x with
    | .error e => .error e
    | .ok y =>
      match exportAll f rest with
      | .error e => .error e
      | .ok ys => .ok (y :: ys)

/-- The document of the value in a slot, of at most so many levels. -/
def exportSlot (a : Arena) : (levels : Nat) → Slot → Except Failure Document
  | 0, _ => .error (.error .tooDeep)
  | levels + 1, i =>
    match a.follow i with
    | .error f => .error (.fault f)
    | .ok (.bool flag) => .ok (.bool flag)
    | .ok (.integer n) => .ok (.integer n.toInt)
    | .ok (.float x) =>
      if x.isFinite then .ok (.float x) else .error (.error (.unrepresentable .nonFinite))
    | .ok (.string text) => .ok (.string text)
    | .ok (.list items) => (exportAll (exportSlot a levels) items).map .array
    | .ok (.tuple items) => (exportAll (exportSlot a levels) items).map .array
    | .ok (.dictionary entries) =>
      (exportAll (fun p : String × Slot => (exportSlot a levels p.2).map fun d => (p.1, d))
        entries.pairs).map .object
    | .ok p => .error (.error (.unrepresentable (.kind p.kind)))

/-- The document of the value behind a handle. -/
def exportDocument (a : Arena) (h : Handle) : Except Failure Document :=
  match a.lookup h with
  | .error e => .error (.error e)
  | .ok _ => a.exportSlot Document.levels h.slot

end Arena

end ValueHeap
