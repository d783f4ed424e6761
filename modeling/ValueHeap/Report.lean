import ValueHeap.Snapshot
import ValueHeap.SortedMap

/-!
# Reports of an arena, and what changed between two

A report is a snapshot as a host keeps it: the kinds go by their names, and nothing ties it to an
arena any more, so that any numbers may stand under any names. `Report.changeTo` tells what changed
from one report to a later one, in two passes: the names of the earlier report, then those that only
the later one has. Changes are signed machine words, so a number beyond their range wraps.
-/

namespace ValueHeap

/-- An arena's slots at one moment, as a host keeps them. -/
structure Report where
  live : Nat
  /-- Live values to which there is no reference. -/
  unreferenced : Nat
  /-- Empty slots. -/
  free : Nat
  /-- All slots. -/
  total : Nat
  /-- The number of live values under each name. -/
  kinds : SortedMap Nat
  /-- The tracker's number of allocations, where it reports one. -/
  allocations : Option Nat
  /-- The tracker's memory, where it reports it. -/
  memory : Option Nat

/-- What changed from one report to another. -/
structure Change where
  live : Int64
  unreferenced : Int64
  total : Int64
  /-- The change under each name that either report has. -/
  kinds : SortedMap Int64
  /-- The names that only the later report has. -/
  added : List String
  /-- The names that only the earlier report has. -/
  removed : List String

/-! ## 1. Making a report -/

/-- The listed kinds by their names are in order. -/
theorem sorted_listed {α : Type} (f : Kind → Option α) :
    (((listed f).map fun p => (p.1.name, p.2)).map (·.1)).Pairwise (· < ·) := by
  have hsub : ((listed f).map fun p => p.1.name).Sublist (Kind.byName.map Kind.name) := by
    unfold listed
    generalize Kind.byName = ks
    induction ks with
    | nil => exact .slnil
    | cons k ks ih =>
      cases h : f k with
      | none => simpa [h] using ih.cons k.name
      | some n => simpa [h] using ih.cons_cons k.name
  rw [List.map_map]
  exact Kind.sorted_byName.sublist hsub

/-- The report of a snapshot. -/
def Snapshot.report (s : Snapshot) : Report where
  live := s.live
  unreferenced := s.unreferenced
  free := s.free
  total := s.total
  kinds := ⟨(listed s.census).map fun p => (p.1.name, p.2), sorted_listed s.census⟩
  allocations := s.usage.map fun u => u.allocations
  memory := s.usage.map fun u => u.memory

/-! ## 2. Comparing two -/

/-- The signed difference of two numbers. -/
def delta (before after : Nat) : Int64 := Int64.ofNat after - Int64.ofNat before

/-- The pairs of `m` under names that `n` does not have. -/
def SortedMap.without (m n : SortedMap Nat) : List (String × Nat) :=
  m.pairs.filter fun p => !n.contains p.1

/-- The changes under all names: first those of `before`, where a name that `after` lacks counts
    zero there, then the others of `after`. -/
def kindChanges (before after : SortedMap Nat) : SortedMap Int64 :=
  (SortedMap.empty.insertAll
    (before.pairs.map fun p => (p.1, delta p.2 ((after.get? p.1).getD 0)))).insertAll
    ((after.without before).map fun p => (p.1, delta 0 p.2))

/-- What changed from `before` to `after`. -/
def Report.changeTo (before after : Report) : Change where
  live := delta before.live after.live
  unreferenced := delta before.unreferenced after.unreferenced
  total := delta before.total after.total
  kinds := kindChanges before.kinds after.kinds
  added := (after.kinds.without before.kinds).map (·.1)
  removed := (before.kinds.without after.kinds).map (·.1)

namespace Change

/-- Whether nothing changed. -/
def isEmpty (c : Change) : Bool :=
  c.live == 0 && c.unreferenced == 0 && c.total == 0 && c.added.isEmpty && c.removed.isEmpty &&
    c.kinds.pairs.all (fun p => p.2 == 0)

/-- A number with its sign, zero with a plus. -/
def signed (n : Int64) : String := if 0 ≤ n then "+" ++ toString n else toString n

/-- The change in words: a headline, a line for each name whose number changed, and a line each for
    the names that came and went. -/
def text (c : Change) : String :=
  if c.isEmpty then "ArenaDiff: no changes"
  else
    let headline := "ArenaDiff: " ++ signed c.live ++ " live objects, " ++ signed c.unreferenced ++
      " unreferenced, " ++ signed c.total ++ " slots"
    let changed := c.kinds.pairs.filter (fun p => p.2 != 0)
    let lines := changed.map (fun p => "\n  " ++ p.1 ++ ": " ++ signed p.2)
    let names := fun ns : List String => ", ".intercalate ns
    let came := if c.added.isEmpty then "" else "\n  New types: " ++ names c.added
    let went := if c.removed.isEmpty then "" else "\n  Removed types: " ++ names c.removed
    headline ++ String.join lines ++ came ++ went

end Change

end ValueHeap
