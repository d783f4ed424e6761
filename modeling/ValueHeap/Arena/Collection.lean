import ValueHeap.Arena.Factory
import ValueHeap.Reach

/-!
# The two collections

`reclaim` empties the slots whose count is zero, and with them whatever they alone
held. `sweep` empties whatever cannot be reached from a list of roots, whatever its
count, and takes the references held by what is gone from what stays.

The cascade of the first ends because each round either empties a slot or shortens the list of
slots to look at.
-/

namespace ValueHeap

namespace Arena

/-! ## 1. What is no longer referred to -/

/-- The occupied slots without a reference, in order. -/
def unreferenced (a : Arena) : List Slot :=
  (List.range a.cells.size).filter (fun i => a.count? i == some 0)

/-- Takes one reference from each child. Those left without any are put before what is pending. -/
def unlinkAll (a : Arena) : List Slot → List Slot → Arena × List Slot
  | [], pending => (a, pending)
  | c :: children, pending =>
    let b := a.unlink c
    unlinkAll b children (if b.count? c = some 0 then c :: pending else pending)

theorem live_unlinkAll : ∀ (children pending : List Slot) (a : Arena),
    (a.unlinkAll children pending).1.live = a.live
  | [], _, _ => rfl
  | c :: children, pending, a => by
      simp only [unlinkAll]
      rw [live_unlinkAll children _ (a.unlink c), live_unlink]

/-- Empties the pending slots and, after each, the children it alone held. -/
def cascade (a : Arena) (freed : Nat) : (pending : List Slot) → Nat × Arena
  | [] => (freed, a)
  | i :: pending =>
    match h : a.free? i with
    | none => cascade a freed pending
    | some (p, b) =>
      cascade (b.unlinkAll p.children pending).1 (freed + 1) (b.unlinkAll p.children pending).2
termination_by pending => (a.live, pending.length)
decreasing_by
  · exact Prod.Lex.right _ (by simp)
  · refine Prod.Lex.left _ _ ?_
    rw [live_unlinkAll]
    have := live_free? h
    omega

/-- Empties every slot whose count is zero or becomes zero on the way; answers how many. Values
    that only a cycle keeps alive stay. -/
def reclaim (a : Arena) : Nat × Arena :=
  let (freed, b) := a.cascade 0 a.unreferenced.reverse
  (freed, b.note (.collect freed b.live))

/-! ## 2. What cannot be reached -/

/-- The slots reached from the roots that name a value. -/
def reachable (a : Arena) (roots : List Handle) : List Slot :=
  reach a.childrenAt a.liveSlots ((roots.filter a.resolves).map (·.slot))

/-- Empties the given slots in order; answers what they held. -/
def freeAll (a : Arena) : List Slot → List Payload × Arena
  | [] => ([], a)
  | i :: rest =>
    match a.free? i with
    | none => freeAll a rest
    | some (p, b) =>
      let (ps, c) := freeAll b rest
      (p :: ps, c)

/-- Takes the references of freed values from the slots that stay. `slots` is the number of slots:
    a reference beyond it is a fault. -/
def settle (a : Arena) (slots : Nat) (staying : List Slot) : List Slot → Outcome Unit
  | [] => .ok () a
  | c :: orphaned =>
    if slots ≤ c then .fault (.slotOutOfRange slots c) a
    else if c ∈ staying then settle (a.unlink c) slots staying orphaned
    else settle a slots staying orphaned

/-- Empties every slot that cannot be reached from the roots; answers how many. Roots that name no
    value are ignored. The count of containers built starts anew. -/
def sweep (a : Arena) (roots : List Handle) : Outcome Nat :=
  let staying := a.reachable roots
  let (gone, swept) :=
    a.freeAll ((List.range a.cells.size).filter (fun i => !staying.contains i))
  (swept.settle a.cells.size staying (gone.flatMap Payload.children)).andThen fun _ b =>
    .ok gone.length ({ b with containersBuilt := 0 }.note (.collect gone.length b.live))

/-! ## 3. Starting over -/

/-- Drops every slot. The arena takes a new identity, so every earlier handle is foreign to it;
    its tracer stays. -/
def reset (a : Arena) (id : ArenaId) (tracker : Tracker) : Arena := empty id tracker a.tracer

end Arena

end ValueHeap
