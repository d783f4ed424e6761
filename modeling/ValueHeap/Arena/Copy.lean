import ValueHeap.Arena.Collection

/-!
# Deep copies

A copy is planned and then built. The plan lists the values that can be reached from the root,
each once and the root first. Building it fills one slot for each of them and then renames their
children to the new slots, so sharing and cycles come out as they were. A refused slot empties
those already filled.
-/

namespace ValueHeap

namespace Arena

/-- The fault of following a reference, if it is one. -/
def dangling? (a : Arena) (i : Slot) : Option Fault :=
  match a.follow i with
  | .ok _ => none
  | .error f => some f

/-- The values that a copy of the value in a slot is made of, with the slots they come from. -/
def copyParts (a : Arena) (root : Slot) : Except Fault (List (Slot × Payload)) :=
  let slots := reach a.childrenAt a.liveSlots [root]
  match (slots.flatMap a.childrenAt).findSome? a.dangling? with
  | some f => .error f
  | none => .ok (slots.filterMap fun i => (a.payload? i).map fun p => (i, p.restarted))

/-- Fills a slot for each value of a plan; answers the new slots with those they stand for. A
    refusal empties the slots in `built` and those filled here. -/
def fillSlots (a : Arena) :
    List (Slot × Payload) → List (Slot × Slot) → Outcome (List (Slot × Slot))
  | [], built => .ok built a
  | (source, p) :: rest, built =>
    ((a.allocate p 0).onError fun b => (b.freeAll (built.map (·.2))).2).andThen fun i b =>
      fillSlots b rest (built ++ [(source, i)])

/-- The new slot that stands for an old one. -/
def renamed (built : List (Slot × Slot)) (i : Slot) : Slot := (built.lookup i).getD i

/-- Adds a reference to each of the given slots, in order. -/
def retainAll (a : Arena) : List Slot → Outcome Unit
  | [] => .ok () a
  | i :: rest => (a.retain i).andThen fun _ b => retainAll b rest

/-- Renames the children of each of the given slots, and counts the new references. -/
def rewire (a : Arena) (rename : Slot → Slot) : List Slot → Outcome Unit
  | [] => .ok () a
  | i :: rest =>
    match a.follow i with
    | .error f => .fault f a
    | .ok p =>
      ((a.setPayload i (p.mapSlots rename)).retainAll (p.mapSlots rename).children).andThen
        fun _ b => rewire b rename rest

/-- Renames the children in the filled slots, counts the new references, and answers a handle to
    the copy of the root. -/
def wireUp (a : Arena) (built : List (Slot × Slot)) (crossing : Bool) : Outcome Handle :=
  (a.rewire (renamed built) (built.map (·.2))).andThen fun _ b =>
    match built with
    | [] => .fault (.slotOutOfRange 0 0) b
    | (_, root) :: _ =>
      (b.retain root).andThen fun _ c =>
        let noted := c.note (.duplicate built.length crossing)
        .ok (noted.handleOf root) noted

/-- Builds a planned copy; answers a handle to the copy of the root. -/
def buildCopy (a : Arena) (plan : List (Slot × Payload)) (crossing : Bool) : Outcome Handle :=
  (a.fillSlots plan []).andThen fun built b => b.wireUp built crossing

/-- Copies a value of this arena into a target; the outcome is about the target. -/
def copyTo (a : Arena) (h : Handle) (target : Arena) (crossing : Bool) : Outcome Handle :=
  match a.lookup h with
  | .error e => .error e target
  | .ok _ =>
    match a.copyParts h.slot with
    | .error f => .fault f target
    | .ok plan => target.buildCopy plan crossing

/-- Copies a value within its arena. -/
def copy (a : Arena) (h : Handle) : Outcome Handle := a.copyTo h a false

/-- Copies a value of this arena into another. -/
def copyInto (a : Arena) (h : Handle) (target : Arena) : Outcome Handle := a.copyTo h target true

end Arena

end ValueHeap
