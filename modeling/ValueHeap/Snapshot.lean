import ValueHeap.Arena.Basic

/-!
# Snapshots of an arena

A snapshot counts the slots of an arena, and the live values of each kind. A kind is listed in a
snapshot when it has a count; the list is in the order of the names.
-/

namespace ValueHeap

/-- The number of live values per kind; a kind without values has no number. -/
abbrev Census := Kind → Option Nat

/-- The state of an arena's slots at one moment. -/
structure Snapshot where
  live : Nat
  /-- Live values to which there is no reference. -/
  unreferenced : Nat
  /-- Empty slots. -/
  free : Nat
  /-- All slots. -/
  total : Nat
  census : Census
  /-- The tracker's accounts, where it reports them. -/
  usage : Option Usage

/-- The kinds with a number, in the order of their names, each with its number. -/
def listed {α : Type} (f : Kind → Option α) : List (Kind × α) :=
  Kind.byName.filterMap fun k => (f k).map fun n => (k, n)

namespace Arena

/-- The number of live values of a kind. -/
def liveOfKind (a : Arena) (k : Kind) : Nat :=
  a.cells.countP fun c => c.occupant.any fun o => o.payload.kind == k

def census (a : Arena) : Census := fun k =>
  if a.liveOfKind k = 0 then none else some (a.liveOfKind k)

def snapshot (a : Arena) : Snapshot where
  live := a.live
  unreferenced := a.cells.countP fun c => c.occupant.any fun o => o.count == 0
  free := a.vacant.length
  total := a.cells.size
  census := a.census
  usage := a.tracker.reported?

end Arena

end ValueHeap
