import ValueHeap.Proofs.Documents
import ValueHeap.Proofs.Strokes

/-!
# By how much values grow

A payload may be replaced by a larger or a smaller one. An update does so when it answers; an import
does so with the dictionaries that it fills, one name after the other.

* `Payload.footprint_insert`: only a new name makes a dictionary larger;
* `Arena.growthAt`, `Arena.shrinkageAt`: what the new payload of a slot adds and takes away;
* `Arena.growth`, `Arena.shrinkage`: by how much a call lets values grow and shrink.
-/

namespace ValueHeap

open Arena

@[simp] theorem Entries.size_mapSlots (f : Slot → Slot) (e : Entries) :
    (e.mapSlots f).size = e.size := List.length_map _

/-- Renaming the children leaves the size. -/
@[simp] theorem Payload.footprint_mapSlots (f : Slot → Slot) (p : Payload) :
    (p.mapSlots f).footprint = p.footprint := by
  cases p <;> simp [mapSlots, footprint]

/-! ## 1. The size of documents -/

/-- What a name adds to the size of a dictionary in which it is entered. -/
def nameSize (name : String) : Nat := name.utf8ByteSize + Payload.footprintUnits.entry

/-- What some names add together. -/
def namesSize (names : List String) : Nat := (names.map nameSize).sum

theorem namesSize_cons (name : String) (names : List String) :
    namesSize (name :: names) = nameSize name + namesSize names := List.sum_cons

theorem namesSize_append (names more : List String) :
    namesSize (names ++ more) = namesSize names + namesSize more := by
  rw [namesSize, List.map_append, List.sum_append]
  rfl

/-- The names of the members of all objects in a document. -/
def Document.names : Document → List String
  | null | bool _ | integer _ | float _ | string _ => []
  | array items => items.flatMap names
  | object members => members.flatMap fun m => m.1 :: names m.2
decreasing_by
  · decreasing_tactic
  · simpa using Document.sizeOf_member ‹_ ∈ members›

namespace Payload

/-- The size of a dictionary is that of its names. -/
theorem footprint_dictionary (entries : Entries) :
    (dictionary entries).footprint = footprintUnits.value + namesSize entries.keys := by
  rw [namesSize, List.sum_eq_foldl, List.foldl_map]
  rfl

/-- A new name makes a dictionary larger, a known one leaves its size. -/
theorem footprint_insert (entries : Entries) (key : String) (slot : Slot) :
    (dictionary (entries.insert key slot)).footprint =
      (dictionary entries).footprint + if key ∈ entries.keys then 0 else nameSize key := by
  rw [footprint_dictionary, footprint_dictionary, Entries.keys_insert]
  split
  · rfl
  · rw [namesSize_append, namesSize_cons, Nat.add_assoc]
    rfl

end Payload

/-! ## 2. The size of values that change -/

namespace Arena

variable {a : Arena}

/-- The size of what a slot holds; an empty slot has none. -/
def sizeAt (a : Arena) (i : Slot) : Nat :=
  match a.payload? i with
  | some p => p.footprint
  | none => 0

theorem sizeAt_of_payload? {i : Slot} {p : Payload} (h : a.payload? i = some p) :
    a.sizeAt i = p.footprint := by
  unfold sizeAt
  rw [h]

/-- By how much the new payload of a value is larger than the old one. -/
def growthAt (a : Arena) : Option (Slot × Payload) → Nat
  | some (i, q) => q.footprint - a.sizeAt i
  | none => 0

/-- By how much the new payload of a value is smaller than the old one. -/
def shrinkageAt (a : Arena) : Option (Slot × Payload) → Nat
  | some (i, q) => a.sizeAt i - q.footprint
  | none => 0

/-- By how much a call lets values grow: an update by the payload that it replaces, a document by
    its names. -/
def growth (a : Arena) : Call → Nat
  | .importDocument d => namesSize d.names
  | c => if (a.perform c).answer.isOk then a.growthAt (c.written? a) else 0

/-- By how much a call lets values shrink. -/
def shrinkage (a : Arena) : Call → Nat
  | .importDocument _ => 0
  | c => if (a.perform c).answer.isOk then a.shrinkageAt (c.written? a) else 0

end Arena

end ValueHeap
