import ValueHeap.Handle

/-!
# Entries of dictionaries and modules

A finite map from names to slots that remembers the order in which the names were first inserted.
No name occurs twice, by the type.

* `Entries.get?_insert`: an insertion is seen under its own key and nowhere else;
* `Entries.keys_insert`: a known key keeps its place, a new one goes to the end.
-/

namespace ValueHeap

/-! ## 1. Lists of pairs -/

/-- The list with `slot` under `key`: in the place of the pair that has the key, else at the end. -/
def putPair (key : String) (slot : Slot) : List (String × Slot) → List (String × Slot)
  | [] => [(key, slot)]
  | (k, s) :: rest => if k = key then (k, slot) :: rest else (k, s) :: putPair key slot rest

theorem map_fst_putPair (key : String) (slot : Slot) :
    ∀ l : List (String × Slot), (putPair key slot l).map (·.1) =
      if key ∈ l.map (·.1) then l.map (·.1) else l.map (·.1) ++ [key]
  | [] => by simp [putPair]
  | (k, s) :: rest => by
      have ih := map_fst_putPair key slot rest
      by_cases h : k = key
      · simp [putPair, h]
      · have h' : ¬ key = k := fun e => h e.symm
        by_cases hm : key ∈ rest.map (·.1)
        · simp only [hm, ↓reduceIte] at ih
          simp only [putPair, h, ↓reduceIte, List.map_cons, ih, List.mem_cons, hm, or_true]
        · simp only [hm, ↓reduceIte] at ih
          simp only [putPair, h, ↓reduceIte, List.map_cons, ih, List.mem_cons, h', hm, or_self,
            List.cons_append]

theorem nodup_putPair (key : String) (slot : Slot) (l : List (String × Slot))
    (h : (l.map (·.1)).Nodup) : ((putPair key slot l).map (·.1)).Nodup := by
  rw [map_fst_putPair]
  by_cases hm : key ∈ l.map (·.1)
  · rwa [if_pos hm]
  · rw [if_neg hm, List.nodup_append]
    refine ⟨h, by simp, ?_⟩
    intro x hx y hy e
    have hy' : y = key := by simpa using hy
    exact hm (hy' ▸ e ▸ hx)

/-- The first pair with the key decides. -/
theorem lookup_pair {α : Type} (k j : String) (s : α) (rest : List (String × α)) :
    ((j, s) :: rest).lookup k = if k = j then some s else rest.lookup k := by
  by_cases h : k = j
  · rw [if_pos h, h, List.lookup_cons_self]
  · have e : (k == j) = false := beq_eq_false_iff_ne.mpr h
    rw [if_neg h, List.lookup_cons, e]

theorem lookup_putPair (key : String) (slot : Slot) (k : String) :
    ∀ l : List (String × Slot), (putPair key slot l).lookup k =
      if k = key then some slot else l.lookup k
  | [] => lookup_pair k key slot []
  | (j, s) :: rest => by
      have ih := lookup_putPair key slot k rest
      by_cases hj : j = key
      · simp only [putPair, hj, ↓reduceIte, lookup_pair]
        split <;> rfl
      · simp only [putPair, hj, ↓reduceIte, lookup_pair, ih]
        by_cases hk : k = j
        · simp [hk, hj]
        · simp [hk]

/-! ## 2. The map -/

/-- Names with their slots, in the order of first insertion. -/
structure Entries where
  pairs : List (String × Slot)
  keys_nodup : (pairs.map (·.1)).Nodup

namespace Entries

def empty : Entries := ⟨[], by simp⟩

/-- The slot under a key. -/
def get? (e : Entries) (key : String) : Option Slot := e.pairs.lookup key

def contains (e : Entries) (key : String) : Bool := (e.get? key).isSome

/-- The map with `slot` under `key`. A known key keeps its place. -/
def insert (e : Entries) (key : String) (slot : Slot) : Entries :=
  ⟨putPair key slot e.pairs, nodup_putPair key slot e.pairs e.keys_nodup⟩

def keys (e : Entries) : List String := e.pairs.map (·.1)

/-- The slots, in the order of their keys; a slot under two keys occurs twice. -/
def slots (e : Entries) : List Slot := e.pairs.map (·.2)

def size (e : Entries) : Nat := e.pairs.length

/-- The same keys, each slot renamed. -/
def mapSlots (f : Slot → Slot) (e : Entries) : Entries :=
  ⟨e.pairs.map (fun p => (p.1, f p.2)), by
    have h : (e.pairs.map (fun p => (p.1, f p.2))).map (·.1) = e.pairs.map (·.1) := by simp
    exact h ▸ e.keys_nodup⟩

/-- Whether two maps hold the same slots under the same keys, in whatever order. -/
def sameEntries (e f : Entries) : Bool :=
  e.size == f.size && e.pairs.all (fun p => f.get? p.1 == some p.2)

theorem get?_insert (e : Entries) (key : String) (slot : Slot) (k : String) :
    (e.insert key slot).get? k = if k = key then some slot else e.get? k :=
  lookup_putPair key slot k e.pairs

theorem keys_insert (e : Entries) (key : String) (slot : Slot) :
    (e.insert key slot).keys = if key ∈ e.keys then e.keys else e.keys ++ [key] :=
  map_fst_putPair key slot e.pairs

@[simp] theorem keys_mapSlots (f : Slot → Slot) (e : Entries) : (e.mapSlots f).keys = e.keys := by
  simp [keys, mapSlots]

@[simp] theorem slots_mapSlots (f : Slot → Slot) (e : Entries) :
    (e.mapSlots f).slots = e.slots.map f := by
  simp [slots, mapSlots]

end Entries

end ValueHeap
