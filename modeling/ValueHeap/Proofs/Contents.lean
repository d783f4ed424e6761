import Mathlib.Logic.Function.Iterate
import ValueHeap.Proofs.Lifetimes

/-!
# What values hold, by values

A payload refers to slots, and a slot is filled with one value after another. `Contents` is a
payload that refers to values instead, so its meaning does not change when slots are filled again.

* `Payload.contents`: a payload as contents; what renaming its slots does (`contents_mapSlots`);
* `Update` is what a call does to one value, and **`Contents.after`** what a history of updates
  makes of contents, in closed form: `latest` keeps one entry for each key;
* `Contents.after_snoc`: the closed form by single updates.
-/

namespace ValueHeap

/-! ## 1. The latest entries -/

/-- The list with `x` under `key`: in the place of the entry that has the key, else at the end. -/
def put {α : Type} (key : String) (x : α) : List (String × α) → List (String × α)
  | [] => [(key, x)]
  | e :: rest => if e.1 = key then (e.1, x) :: rest else e :: put key x rest

/-- One entry for each key, in the order of the first insertions, with the value that was inserted
    last. -/
def latest {α : Type} (l : List (String × α)) : List (String × α) :=
  (l.map (·.1)).eraseDups.filterMap fun key => (l.reverse.lookup key).map fun x => (key, x)

section Latest

variable {α : Type} {key : String} {x : α}

theorem put_new {l : List (String × α)} (h : key ∉ l.map (·.1)) :
    put key x l = l ++ [(key, x)] := by
  induction l with
  | nil => rfl
  | cons e rest ih =>
    obtain ⟨he, hrest⟩ := not_or.mp fun hm => h (List.mem_cons.mpr hm)
    rw [put, if_neg (Ne.symm he), ih hrest, List.cons_append]

/-- Where every key has its entry once, one of them is replaced in its place. -/
theorem put_filterMap {f g : String → Option α} {ks : List String} (hd : ks.Nodup)
    (hk : key ∈ ks) (hf : (f key).isSome) (hg : g key = some x)
    (hfg : ∀ k, k ≠ key → g k = f k) :
    put key x (ks.filterMap fun k => (f k).map fun y => (k, y)) =
      ks.filterMap fun k => (g k).map fun y => (k, y) := by
  induction ks with
  | nil => cases hk
  | cons k ks ih =>
    obtain ⟨hnot, hd⟩ := List.nodup_cons.mp hd
    by_cases e : k = key
    · subst e
      obtain ⟨y, hy⟩ := Option.isSome_iff_exists.mp hf
      have hrest : ks.filterMap (fun k => (g k).map fun y => (k, y)) =
          ks.filterMap fun k => (f k).map fun y => (k, y) :=
        List.filterMap_congr fun j hj => by rw [hfg j fun h => hnot (h ▸ hj)]
      rw [List.filterMap_cons_some (by rw [hy, Option.map_some]),
        List.filterMap_cons_some (by rw [hg, Option.map_some]), put, if_pos rfl, hrest]
    · have hk' : key ∈ ks := (List.mem_cons.mp hk).resolve_left (Ne.symm e)
      cases hy : f k with
      | none =>
        rw [List.filterMap_cons_none (by rw [hy, Option.map_none]),
          List.filterMap_cons_none (by rw [hfg k e, hy, Option.map_none]), ih hd hk']
      | some y =>
        rw [List.filterMap_cons_some (by rw [hy, Option.map_some]),
          List.filterMap_cons_some (by rw [hfg k e, hy, Option.map_some]), put, if_neg e,
          ih hd hk']

theorem nodup_eraseDups (ks : List String) : ks.eraseDups.Nodup := by
  induction h : ks.length using Nat.strong_induction_on generalizing ks with
  | _ n ih =>
    cases ks with
    | nil => exact List.nodup_nil
    | cons k ks =>
      rw [List.eraseDups_cons, List.nodup_cons, List.mem_eraseDups, List.mem_filter]
      have hle := List.length_filter_le (fun b => !b == k) ks
      rw [List.length_cons] at h
      exact ⟨fun hm => by simp at hm, ih _ (by omega) _ rfl⟩

theorem eraseDups_snoc (ks : List String) (key : String) :
    (ks ++ [key]).eraseDups = if key ∈ ks then ks.eraseDups else ks.eraseDups ++ [key] := by
  rw [List.eraseDups_append, List.cons_removeAll]
  by_cases h : key ∈ ks
  · rw [if_pos h, List.contains_iff_mem.mpr h]
    exact List.append_nil _
  · rw [if_neg h, if_pos (Bool.eq_false_iff.mpr fun e => h (List.contains_iff_mem.mp e))]
    rfl

theorem mem_keys_iff {l : List (String × α)} :
    key ∈ l.map (·.1) ↔ (l.reverse.lookup key).isSome := by
  simp only [List.lookup_isSome_iff, List.mem_reverse, List.mem_map, beq_iff_eq]
  exact exists_congr fun e => and_congr_right fun _ => eq_comm

/-- One more insertion. -/
theorem latest_snoc (l : List (String × α)) :
    latest (l ++ [(key, x)]) = put key x (latest l) := by
  have hlook : ∀ k, (l ++ [(key, x)]).reverse.lookup k =
      if k = key then some x else l.reverse.lookup k := by
    intro k
    rw [List.reverse_append, List.reverse_singleton, List.singleton_append, List.lookup_cons]
    by_cases h : k = key
    · rw [if_pos h, h, beq_self_eq_true]
    · rw [if_neg h, beq_eq_false_iff_ne.mpr h]
  have hother : ∀ k, k ≠ key →
      (l ++ [(key, x)]).reverse.lookup k = l.reverse.lookup k := fun k h =>
    (hlook k).trans (if_neg h)
  have hkey := (hlook key).trans (if_pos rfl)
  unfold latest
  rw [List.map_append, List.map_singleton, eraseDups_snoc]
  by_cases hk : key ∈ l.map (·.1)
  · rw [if_pos hk]
    exact (put_filterMap (nodup_eraseDups _) (List.mem_eraseDups.mpr hk) (mem_keys_iff.mp hk) hkey
      hother).symm
  · have hold : ((l.map (·.1)).eraseDups.filterMap fun k =>
        ((l ++ [(key, x)]).reverse.lookup k).map fun y => (k, y)) = latest l :=
      List.filterMap_congr fun k hm => by
        rw [hother k fun h => hk (h ▸ List.mem_eraseDups.mp hm)]
    have hnew : key ∉ (latest l).map (·.1) := by
      intro hm
      obtain ⟨e, he, rfl⟩ := List.mem_map.mp hm
      obtain ⟨k, hk', hke⟩ := List.mem_filterMap.mp he
      obtain ⟨_, _, rfl⟩ := Option.map_eq_some_iff.mp hke
      exact hk (List.mem_eraseDups.mp hk')
    rw [if_neg hk, List.filterMap_append, hold, List.filterMap_cons_some (by rw [hkey]; rfl)]
    exact (put_new hnew).symm

/-- A list of entries with distinct keys is its own latest. -/
theorem latest_eq_self {l : List (String × α)} (h : (l.map (·.1)).Nodup) : latest l = l := by
  induction l using List.reverseRecOn with
  | nil => rfl
  | append_singleton l e ih =>
    obtain ⟨key, x⟩ := e
    rw [List.map_append, List.nodup_append] at h
    rw [latest_snoc, ih h.1]
    exact put_new fun hm => h.2.2 key hm key List.mem_cons_self rfl

/-- An insertion into a map of slots, seen through `f`. -/
theorem map_putPair (f : Slot → α) (slot : Slot) (l : List (String × Slot)) :
    (putPair key slot l).map (fun p => (p.1, f p.2)) =
      put key (f slot) (l.map fun p => (p.1, f p.2)) := by
  induction l with
  | nil => rfl
  | cons p rest ih =>
    rw [putPair, List.map_cons, put]
    split
    · rfl
    · rw [List.map_cons, ih]

theorem lookup_map (f : Slot → α) (l : List (String × Slot)) :
    (l.map fun p => (p.1, f p.2)).lookup key = (l.lookup key).map f := by
  induction l with
  | nil => rfl
  | cons p rest ih =>
    rw [List.map_cons, List.lookup_cons, List.lookup_cons, ih]
    split <;> rfl

end Latest

/-! ## 2. Contents -/

/-- What a value holds: a payload that refers to values, not to slots. -/
inductive Contents
  /-- A payload without references, that of an iterator apart. -/
  | plain (p : Payload)
  | iterator (walk : Progression)
  | view (dict : ObjectId)
  | bound (owner : ObjectId) (name : String)
  | list (items : List ObjectId)
  | tuple (items : List ObjectId)
  | dictionary (entries : List (String × ObjectId))
  | moduleTable (name : String) (members : List (String × ObjectId))

/-- A payload with each slot as the value that `f` tells. -/
def Payload.contents (f : Slot → ObjectId) : Payload → Contents
  | dictItems dict => .view (f dict)
  | attr b => .bound (f b.owner) b.name
  | list items => .list (items.map f)
  | tuple items => .tuple (items.map f)
  | dictionary entries => .dictionary (entries.pairs.map fun p => (p.1, f p.2))
  | moduleTable m => .moduleTable m.name (m.members.pairs.map fun p => (p.1, f p.2))
  | iterator walk => .iterator walk
  | p => .plain p

namespace Contents

def kind : Contents → Kind
  | plain p => p.kind
  | iterator _ => .iterator
  | view _ => .dictItems
  | bound _ _ => .attr
  | list _ => .list
  | tuple _ => .tuple
  | dictionary _ => .dictionary
  | moduleTable _ _ => .moduleTable

/-- The values referred to, in order, once per reference. -/
def entries : Contents → List ObjectId
  | plain _ | iterator _ => []
  | view dict => [dict]
  | bound owner _ => [owner]
  | list items | tuple items => items
  | dictionary entries | moduleTable _ entries => entries.map (·.2)

/-- The contents with every value renamed, positions and keys kept. -/
def rename (f : ObjectId → ObjectId) : Contents → Contents
  | plain p => plain p
  | iterator walk => iterator walk
  | view dict => view (f dict)
  | bound owner name => bound (f owner) name
  | list items => list (items.map f)
  | tuple items => tuple (items.map f)
  | dictionary entries => dictionary (entries.map fun e => (e.1, f e.2))
  | moduleTable name members => moduleTable name (members.map fun e => (e.1, f e.2))

/-- The contents as a copy starts with them: an iterator is back at its start. -/
def restarted : Contents → Contents
  | iterator walk => iterator walk.restarted
  | c => c

end Contents

section Payloads

variable {f g : Slot → ObjectId} {p : Payload}

@[simp] theorem kind_contents (f : Slot → ObjectId) (p : Payload) :
    (p.contents f).kind = p.kind := by
  cases p <;> rfl

@[simp] theorem entries_contents (f : Slot → ObjectId) (p : Payload) :
    (p.contents f).entries = p.children.map f := by
  cases p <;> simp [Payload.contents, Contents.entries, Payload.children, Entries.slots]

theorem contents_congr (h : ∀ j ∈ p.children, f j = g j) : p.contents f = p.contents g := by
  have pairs : ∀ {e : Entries}, (∀ j ∈ e.slots, f j = g j) →
      e.pairs.map (fun q => (q.1, f q.2)) = e.pairs.map fun q => (q.1, g q.2) := fun h =>
    List.map_congr_left fun q hq => by rw [h q.2 (List.mem_map_of_mem hq)]
  cases p with
  | dictItems d => exact congrArg Contents.view (h d List.mem_cons_self)
  | attr b => exact congrArg (Contents.bound · b.name) (h b.owner List.mem_cons_self)
  | list items => exact congrArg Contents.list (List.map_congr_left h)
  | tuple items => exact congrArg Contents.tuple (List.map_congr_left h)
  | dictionary entries => exact congrArg Contents.dictionary (pairs h)
  | moduleTable m => exact congrArg (Contents.moduleTable m.name) (pairs h)
  | _ => rfl

/-- Renaming the slots of a payload renames the values it refers to. -/
theorem contents_mapSlots (f : Slot → ObjectId) (r : Slot → Slot) (p : Payload) :
    (p.mapSlots r).contents f = p.contents fun j => f (r j) := by
  cases p <;> simp [Payload.mapSlots, Payload.contents, Entries.mapSlots, Function.comp_def]

theorem contents_rename (f : Slot → ObjectId) (r : ObjectId → ObjectId) (p : Payload) :
    (p.contents f).rename r = p.contents fun j => r (f j) := by
  cases p <;> simp [Payload.contents, Contents.rename, Function.comp_def]

theorem contents_restarted (f : Slot → ObjectId) (p : Payload) :
    p.restarted.contents f = (p.contents f).restarted := by
  cases p <;> rfl

end Payloads

/-! ## 3. Histories -/

/-- What a call does to a value that is there. -/
inductive Update
  | assigned (s : Arena.Scalar)
  | appended (x : ObjectId)
  | inserted (key : String) (x : ObjectId)
  /-- An iterator is asked for its next element. -/
  | stepped

namespace Update

def assigned? : Update → Option Arena.Scalar
  | assigned s => some s
  | _ => none

def appended? : Update → Option ObjectId
  | appended x => some x
  | _ => none

def inserted? : Update → Option (String × ObjectId)
  | inserted key x => some (key, x)
  | _ => none

def isStep : Update → Bool
  | stepped => true
  | _ => false

end Update

/-- The walk one step on; a walk that has ended stays. -/
def Progression.moved (walk : Progression) : Progression :=
  match walk.next? with
  | some (_, moved) => moved
  | none => walk

namespace Contents

/-- **What a history of updates makes of contents.** A list has the items that were appended after
    its own; a dictionary or module has one entry for each name, in the order of the first
    insertions, with what was inserted last; a scalar is what was assigned last; an iterator has
    moved on by one for each step; and nothing else changes. -/
def after (us : List Update) : Contents → Contents
  | list items => list (items ++ us.filterMap Update.appended?)
  | dictionary entries => dictionary (latest (entries ++ us.filterMap Update.inserted?))
  | moduleTable name members =>
    moduleTable name (latest (members ++ us.filterMap Update.inserted?))
  | iterator walk => iterator (Progression.moved^[us.countP Update.isStep] walk)
  | plain p => plain (((us.filterMap Update.assigned?).getLast?.map Arena.Scalar.payload).getD p)
  | c => c

/-- One update. -/
def apply (c : Contents) (u : Update) : Contents :=
  match u, c with
  | .appended x, list items => list (items ++ [x])
  | .inserted key x, dictionary entries => dictionary (put key x entries)
  | .inserted key x, moduleTable name members => moduleTable name (put key x members)
  | .stepped, iterator walk => iterator walk.moved
  | .assigned s, plain _ => plain s.payload
  | _, c => c

theorem latest_inserted (l : List (String × ObjectId)) (us : List Update) (u : Update) :
    latest (l ++ (us ++ [u]).filterMap Update.inserted?) =
      match u with
      | .inserted key x => put key x (latest (l ++ us.filterMap Update.inserted?))
      | _ => latest (l ++ us.filterMap Update.inserted?) := by
  rw [List.filterMap_append, ← List.append_assoc]
  cases u with
  | inserted key x => exact latest_snoc _
  | _ => exact congrArg latest (List.append_nil _)

/-- A history with one more update at its end. -/
theorem after_snoc (us : List Update) (u : Update) (c : Contents) :
    c.after (us ++ [u]) = (c.after us).apply u := by
  cases c with
  | plain p => cases u <;> simp [after, apply, Update.assigned?]
  | iterator walk => cases u <;> simp [after, apply, Update.isStep, Function.iterate_succ_apply']
  | list items => cases u <;> simp [after, apply, Update.appended?]
  | dictionary entries => cases u <;> simp only [after, apply, latest_inserted]
  | moduleTable name members => cases u <;> simp only [after, apply, latest_inserted]
  | _ => cases u <;> rfl

theorem after_nil (f : Slot → ObjectId) (p : Payload) :
    (p.contents f).after [] = p.contents f := by
  have entries : ∀ e : Entries, latest (e.pairs.map (fun q => (q.1, f q.2)) ++ []) =
      e.pairs.map fun q => (q.1, f q.2) := fun e => by
    rw [List.append_nil]
    refine latest_eq_self ?_
    rw [List.map_map]
    exact e.keys_nodup
  cases p with
  | list items => exact congrArg list (List.append_nil _)
  | dictionary e => exact congrArg dictionary (entries e)
  | moduleTable m => exact congrArg (moduleTable m.name) (entries m.members)
  | _ => rfl

/-- At most one update. -/
def updated (c : Contents) : Option Update → Contents
  | some u => c.apply u
  | none => c

theorem after_append (us : List Update) (u : Option Update) (c : Contents) :
    c.after (us ++ u.toList) = (c.after us).updated u := by
  cases u with
  | none => rw [Option.toList_none, List.append_nil, updated]
  | some u => exact after_snoc us u c

end Contents

end ValueHeap
