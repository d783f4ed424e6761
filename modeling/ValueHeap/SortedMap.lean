import ValueHeap.Entries

/-!
# Finite maps in the order of their names

A finite map from names, kept as a list of pairs in the order of the names. The order is strict, by
the type, so no name occurs twice.

* `SortedMap.get?_insert`: an insertion is seen under its own name and nowhere else;
* `SortedMap.get?_insertAll`: so are many of them;
* `SortedMap.ext_get?`: a map is what is found in it.
-/

namespace ValueHeap

/-! ## 1. Lists of pairs -/

section Pairs

variable {α β : Type}

/-- The list with `value` under `key`, at its place in the order: in the place of the pair that has
    the key, if one has. -/
def insertPair (key : String) (value : α) : List (String × α) → List (String × α)
  | [] => [(key, value)]
  | (k, v) :: rest =>
    if key < k then (key, value) :: (k, v) :: rest
    else if key = k then (key, value) :: rest
    else (k, v) :: insertPair key value rest

/-- A name is found where it occurs. -/
theorem lookup_isSome_iff (name : String) (l : List (String × α)) :
    (l.lookup name).isSome ↔ name ∈ l.map (·.1) := by
  induction l with
  | nil => simp
  | cons p rest ih =>
    rw [lookup_pair, List.map_cons, List.mem_cons, ← ih]
    by_cases h : name = p.1 <;> simp [h]

theorem lookup_insertPair (key : String) (value : α) (name : String) (l : List (String × α)) :
    (insertPair key value l).lookup name = if name = key then some value else l.lookup name := by
  induction l with
  | nil => exact lookup_pair name key value []
  | cons p rest ih =>
    unfold insertPair
    split
    · exact lookup_pair name key value (p :: rest)
    · split
      · rename_i e
        rw [lookup_pair, lookup_pair, e]
        split <;> rfl
      · rename_i hne
        rw [lookup_pair, lookup_pair, ih]
        by_cases hp : name = p.1
        · rw [if_pos hp, if_pos hp, if_neg fun e => hne (e.symm.trans hp)]
        · rw [if_neg hp, if_neg hp]

theorem sorted_insertPair (key : String) (value : α) (l : List (String × α))
    (h : (l.map (·.1)).Pairwise (· < ·)) :
    ((insertPair key value l).map (·.1)).Pairwise (· < ·) := by
  induction l with
  | nil => exact List.pairwise_singleton _ _
  | cons p rest ih =>
    obtain ⟨hfirst, hrest⟩ := List.pairwise_cons.mp h
    unfold insertPair
    split
    · rename_i hlt
      refine List.pairwise_cons.mpr ⟨fun name hn => ?_, h⟩
      rcases List.mem_cons.mp hn with rfl | hn
      · exact hlt
      · exact String.lt_trans hlt (hfirst name hn)
    · rename_i hnlt
      split
      · rename_i e
        exact e ▸ h
      · rename_i hne
        refine List.pairwise_cons.mpr ⟨fun name hn => ?_, ih hrest⟩
        rw [← lookup_isSome_iff, lookup_insertPair] at hn
        by_cases e : name = key
        · -- the key is neither before the first name nor equal to it
          have hle : p.1 ≤ key := String.not_lt.mp hnlt
          rw [e]
          exact String.not_le.mp fun hge => hne (String.le_antisymm hge hle)
        · rw [if_neg e] at hn
          exact hfirst name ((lookup_isSome_iff name rest).mp hn)

/-- In a sorted list, no later pair has the name of the first. -/
theorem lookup_first {p : String × α} {rest : List (String × α)}
    (h : ((p :: rest).map (·.1)).Pairwise (· < ·)) : rest.lookup p.1 = none := by
  rw [← Option.not_isSome_iff_eq_none, lookup_isSome_iff]
  exact fun hm => String.lt_irrefl _ ((List.pairwise_cons.mp h).1 _ hm)

/-- In a sorted list, the pairs are those that are found. -/
theorem mem_iff_lookup {l : List (String × α)} (h : (l.map (·.1)).Pairwise (· < ·))
    (p : String × α) : p ∈ l ↔ l.lookup p.1 = some p.2 := by
  induction l with
  | nil => simp
  | cons q rest ih =>
    rw [List.mem_cons, ih h.of_cons, lookup_pair]
    by_cases e : p.1 = q.1
    · rw [if_pos e, e, lookup_first h]
      constructor
      · rintro (rfl | hp)
        · rfl
        · cases hp
      · intro hp
        exact .inl (Prod.ext e (Option.some.inj hp).symm)
    · rw [if_neg e]
      exact or_iff_right fun hp => e (congrArg Prod.fst hp)

/-- Under each name, another value. -/
theorem lookup_mapValues (f : String → α → β) (name : String) (l : List (String × α)) :
    (l.map fun p => (p.1, f p.1 p.2)).lookup name = (l.lookup name).map (f name) := by
  induction l with
  | nil => rfl
  | cons p rest ih =>
    rw [List.map_cons, lookup_pair, lookup_pair, ih]
    by_cases h : name = p.1
    · rw [if_pos h, if_pos h, h]
      rfl
    · rw [if_neg h, if_neg h]

/-- Other values under the same names leave the order. -/
theorem sorted_mapValues (f : String → α → β) {l : List (String × α)}
    (h : (l.map (·.1)).Pairwise (· < ·)) :
    ((l.map fun p => (p.1, f p.1 p.2)).map (·.1)).Pairwise (· < ·) := by
  rwa [List.map_map]

/-- Only the pairs with certain names. -/
theorem lookup_filter (keep : String → Bool) (name : String) (l : List (String × α)) :
    (l.filter fun p => keep p.1).lookup name = if keep name then l.lookup name else none := by
  induction l with
  | nil => exact (ite_self _).symm
  | cons p rest ih =>
    rw [List.filter_cons, lookup_pair]
    by_cases hk : keep p.1
    · rw [if_pos hk, lookup_pair, ih]
      by_cases h : name = p.1
      · rw [if_pos h, if_pos h, h, if_pos hk]
      · rw [if_neg h, if_neg h]
    · rw [if_neg hk, ih]
      by_cases h : name = p.1
      · rw [h, if_neg hk, if_neg hk]
      · rw [if_neg h]

end Pairs

/-! ## 2. The map -/

/-- Values under names, in the order of the names. -/
structure SortedMap (α : Type) where
  pairs : List (String × α)
  sorted : (pairs.map (·.1)).Pairwise (· < ·)

namespace SortedMap

variable {α β : Type}

def empty : SortedMap α := ⟨[], .nil⟩

/-- The value under a name. -/
def get? (m : SortedMap α) (name : String) : Option α := m.pairs.lookup name

def contains (m : SortedMap α) (name : String) : Bool := (m.get? name).isSome

def names (m : SortedMap α) : List String := m.pairs.map (·.1)

/-- The map with `value` under `key`. -/
def insert (m : SortedMap α) (key : String) (value : α) : SortedMap α :=
  ⟨insertPair key value m.pairs, sorted_insertPair key value m.pairs m.sorted⟩

/-- The map with all the pairs inserted, one after another. -/
def insertAll (m : SortedMap α) : List (String × α) → SortedMap α
  | [] => m
  | p :: rest => (m.insert p.1 p.2).insertAll rest

/-- The same names, each with another value. -/
def mapValues (f : α → β) (m : SortedMap α) : SortedMap β :=
  ⟨m.pairs.map fun p => (p.1, f p.2), sorted_mapValues (fun _ => f) m.sorted⟩

@[simp] theorem get?_empty (name : String) : (empty : SortedMap α).get? name = none := rfl

theorem get?_insert (m : SortedMap α) (key : String) (value : α) (name : String) :
    (m.insert key value).get? name = if name = key then some value else m.get? name :=
  lookup_insertPair key value name m.pairs

@[simp] theorem get?_mapValues (f : α → β) (m : SortedMap α) (name : String) :
    (m.mapValues f).get? name = (m.get? name).map f :=
  lookup_mapValues (fun _ => f) name m.pairs

theorem mem_names_iff {m : SortedMap α} {name : String} :
    name ∈ m.names ↔ (m.get? name).isSome :=
  (lookup_isSome_iff name m.pairs).symm

theorem mem_pairs_iff {m : SortedMap α} {p : String × α} :
    p ∈ m.pairs ↔ m.get? p.1 = some p.2 := mem_iff_lookup m.sorted p

/-- **Pairs that are inserted are found under their names**, all else is as it was. -/
theorem get?_insertAll (m : SortedMap α) (l : List (String × α))
    (h : (l.map (·.1)).Pairwise (· < ·)) (name : String) :
    (m.insertAll l).get? name = (l.lookup name).or (m.get? name) := by
  induction l generalizing m with
  | nil => rfl
  | cons p rest ih =>
    rw [insertAll, ih _ h.of_cons, get?_insert, lookup_pair]
    by_cases e : name = p.1
    · rw [if_pos e, if_pos e, e, lookup_first h]
      rfl
    · rw [if_neg e, if_neg e]

/-- **A map is what is found in it.** -/
theorem ext_get? {m n : SortedMap α} (h : ∀ name, m.get? name = n.get? name) : m = n := by
  have hm := List.pairwise_map.mp m.sorted
  have hn := List.pairwise_map.mp n.sorted
  have distinct : ∀ p q : String × α, p.1 < q.1 → p ≠ q := fun p _ hlt e =>
    String.lt_irrefl p.1 (e ▸ hlt)
  have hperm : m.pairs.Perm n.pairs := by
    refine (List.perm_ext_iff_of_nodup (hm.imp (distinct _ _)) (hn.imp (distinct _ _))).mpr
      fun p => ?_
    rw [mem_pairs_iff, mem_pairs_iff, h]
  have heq : m.pairs = n.pairs :=
    hperm.eq_of_pairwise (fun _ _ _ _ hlt hgt => absurd hgt (String.lt_asymm hlt)) hm hn
  cases m
  cases heq
  rfl

end SortedMap

end ValueHeap
