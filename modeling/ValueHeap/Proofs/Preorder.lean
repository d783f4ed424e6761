import Mathlib.Data.List.Lex
import Mathlib.Logic.Relation

/-!
# The first obstacle in preorder

A tree is given by its root and by the children of every node, so it may be infinite. A node of it
is named by a path, the positions of the children that lead to it; the lexicographic order of the
paths is the preorder of the nodes. Some nodes are obstacles: those at a certain depth, whatever
they are, and others by what they are.

* `Walk.nodeAt?`, `Walk.obstacle?`: the node at a path, and what is wrong with it;
* `Walk.IsFirst`: the obstacle that comes first in preorder;
* `Walk.find?` searches a tree down to the depth that is an obstacle;
* **`find?_eq_some_iff`**, **`find?_eq_none_iff`**: it finds the first obstacle, if there is one;
* **`find?_isSome_of_cycle`**: below the root there is no way round in a circle without an obstacle.
-/

namespace ValueHeap

/-- How a tree is walked: the children of a node, what is wrong with it, and what is wrong with a
    node that is too deep. -/
structure Walk (ν ε : Type) where
  children : ν → List ν
  flaw? : ν → Option ε
  tooDeep : ε

namespace Walk

variable {ν ε : Type} (s : Walk ν ε)

/-! ## 1. Nodes and obstacles -/

/-- The node to which a path leads. -/
def nodeAt? (x : ν) : List Nat → Option ν
  | [] => some x
  | n :: path => (s.children x)[n]?.bind fun y => nodeAt? y path

/-- What is wrong with the node to which a path leads; at depth `limit` every node is too deep. -/
def obstacle? (limit : Nat) (x : ν) (path : List Nat) : Option ε :=
  (s.nodeAt? x path).bind fun y => if path.length = limit then some s.tooDeep else s.flaw? y

/-- The obstacle `e` at this path comes before all others in preorder. -/
structure IsFirst (limit : Nat) (x : ν) (path : List Nat) (e : ε) : Prop where
  obstacle : s.obstacle? limit x path = some e
  least : ∀ other f, s.obstacle? limit x other = some f → ¬ List.Lex (· < ·) other path

variable {s} {limit : Nat} {x y : ν} {e f : ε} {n : Nat} {path other : List Nat}

theorem nodeAt?_append (x : ν) (path other : List Nat) :
    s.nodeAt? x (path ++ other) = (s.nodeAt? x path).bind fun y => s.nodeAt? y other := by
  induction path generalizing x with
  | nil => rfl
  | cons n path ih =>
    rw [List.cons_append, nodeAt?, nodeAt?, Option.bind_assoc]
    exact congrArg _ (funext ih)

/-- A path that is long enough passes a node that is too deep. -/
theorem exists_obstacle (h : s.nodeAt? x path = some y) (hl : limit ≤ path.length) :
    s.obstacle? limit x (path.take limit) = some s.tooDeep := by
  rw [← path.take_append_drop limit, nodeAt?_append] at h
  obtain ⟨z, hz, _⟩ := Option.bind_eq_some_iff.mp h
  rw [obstacle?, hz, Option.bind_some, if_pos (List.length_take_of_le hl)]

/-- Below the root, the obstacles are those of the children. -/
theorem obstacle?_cons : s.obstacle? (limit + 1) x (n :: path) =
    (s.children x)[n]?.bind fun y => s.obstacle? limit y path := by
  unfold obstacle?
  rw [nodeAt?, Option.bind_assoc]
  simp only [List.length_cons, Nat.add_right_cancel_iff]

/-- Without an obstacle no node is too deep and none is wrong in itself. -/
theorem obstacle?_eq_none_iff : (∀ path, s.obstacle? limit x path = none) ↔
    ∀ path y, s.nodeAt? x path = some y → path.length < limit ∧ s.flaw? y = none := by
  constructor
  · intro h path y hy
    have hl : path.length < limit := by
      by_contra hl
      have ho := exists_obstacle hy (Nat.le_of_not_lt hl)
      rw [h] at ho
      cases ho
    have ho := h path
    rw [obstacle?, hy, Option.bind_some, if_neg (Nat.ne_of_lt hl)] at ho
    exact ⟨hl, ho⟩
  · intro h path
    unfold obstacle?
    cases hy : s.nodeAt? x path with
    | none => rfl
    | some y =>
      obtain ⟨hl, hf⟩ := h path y hy
      rw [Option.bind_some, if_neg (Nat.ne_of_lt hl), hf]

/-- The first obstacle is a node that is just too deep, or one that is wrong in itself above. -/
theorem IsFirst.cases (h : s.IsFirst limit x path e) : (path.length = limit ∧ e = s.tooDeep) ∨
    path.length < limit ∧ ∃ y, s.nodeAt? x path = some y ∧ s.flaw? y = some e := by
  obtain ⟨y, hy, ho⟩ := Option.bind_eq_some_iff.mp h.obstacle
  by_cases hl : path.length = limit
  · rw [if_pos hl] at ho
    exact .inl ⟨hl, (Option.some.inj ho).symm⟩
  · rw [if_neg hl] at ho
    refine .inr ⟨?_, y, hy, ho⟩
    by_contra hlt
    -- the node that is too deep on the way comes first
    refine h.least _ _ (exists_obstacle hy (Nat.le_of_not_lt hlt)) ?_
    conv => arg 3; rw [← path.take_append_drop limit]
    cases hd : path.drop limit with
    | nil =>
      have hlen := congrArg List.length hd
      rw [List.length_drop, List.length_nil] at hlen
      omega
    | cons n rest =>
      have hlex := List.Lex.append_left (· < ·) (.nil : List.Lex (· < ·) [] (n :: rest))
        (path.take limit)
      rwa [List.append_nil] at hlex

theorem IsFirst.unique (h : s.IsFirst limit x path e) (k : s.IsFirst limit x other f) : e = f := by
  have hp : path = other := Std.Trichotomous.trichotomous (r := List.Lex (· < ·)) path other
    (k.least _ _ h.obstacle) (h.least _ _ k.obstacle)
  have ho := h.obstacle
  rw [hp, k.obstacle] at ho
  exact (Option.some.inj ho).symm

/-! ## 2. The search -/

/-- The first obstacle that is met when the nodes are visited in preorder. -/
def find? (s : Walk ν ε) : (limit : Nat) → ν → Option ε
  | 0, _ => some s.tooDeep
  | limit + 1, x => (s.flaw? x).or ((s.children x).findSome? (s.find? limit))

/-- Where nothing is found, no node is an obstacle. -/
theorem obstacle?_of_find?_eq_none (h : s.find? limit x = none) (path : List Nat) :
    s.obstacle? limit x path = none := by
  induction limit generalizing x path with
  | zero => cases h
  | succ limit ih =>
    obtain ⟨hx, hc⟩ := Option.or_eq_none_iff.mp h
    cases path with
    | nil => exact hx
    | cons n path =>
      rw [obstacle?_cons]
      cases hy : (s.children x)[n]? with
      | none => rfl
      | some y => exact ih (List.findSome?_eq_none_iff.mp hc y (List.mem_of_getElem? hy)) path

/-- What is found is the first obstacle. -/
theorem isFirst_of_find?_eq_some (h : s.find? limit x = some e) :
    ∃ path, s.IsFirst limit x path e := by
  induction limit generalizing x with
  | zero => exact ⟨[], ⟨h, fun _ _ _ => List.not_lex_nil⟩⟩
  | succ limit ih =>
    rw [find?, Option.or_eq_some_iff] at h
    rcases h with hx | ⟨hx, hc⟩
    · exact ⟨[], ⟨hx, fun _ _ _ => List.not_lex_nil⟩⟩
    · obtain ⟨before, y, after, hall, hy, hbefore⟩ := List.findSome?_eq_some_iff.mp hc
      obtain ⟨path, hp⟩ := ih hy
      have hget : (s.children x)[before.length]? = some y := by
        rw [hall, List.getElem?_append_right (Nat.le_refl _), Nat.sub_self, List.getElem?_cons_zero]
      refine ⟨before.length :: path, ⟨?_, fun other f ho => ?_⟩⟩
      · rw [obstacle?_cons, hget]
        exact hp.obstacle
      · cases other with
        | nil =>
          -- the root is no obstacle
          rw [show s.obstacle? (limit + 1) x [] = s.flaw? x from rfl, hx] at ho
          cases ho
        | cons m other =>
          rw [obstacle?_cons] at ho
          obtain ⟨z, hz, ho⟩ := Option.bind_eq_some_iff.mp ho
          intro hlex
          cases hlex with
          | rel hlt =>
            -- no child before this one has an obstacle
            rw [hall, List.getElem?_append_left hlt] at hz
            rw [obstacle?_of_find?_eq_none (hbefore z (List.mem_of_getElem? hz))] at ho
            cases ho
          | cons hlex =>
            cases hget.symm.trans hz
            exact hp.least other f ho hlex

/-- **Nothing is found exactly if no node is an obstacle.** -/
theorem find?_eq_none_iff : s.find? limit x = none ↔ ∀ path, s.obstacle? limit x path = none := by
  refine ⟨obstacle?_of_find?_eq_none, fun h => ?_⟩
  cases hf : s.find? limit x with
  | none => rfl
  | some e =>
    obtain ⟨path, hp⟩ := isFirst_of_find?_eq_some hf
    have ho := hp.obstacle
    rw [h path] at ho
    cases ho

/-- **What is found is the first obstacle in preorder.** -/
theorem find?_eq_some_iff : s.find? limit x = some e ↔ ∃ path, s.IsFirst limit x path e := by
  refine ⟨isFirst_of_find?_eq_some, fun h => ?_⟩
  obtain ⟨path, hp⟩ := h
  cases hf : s.find? limit x with
  | none =>
    have ho := hp.obstacle
    rw [find?_eq_none_iff.mp hf path] at ho
    cases ho
  | some f =>
    obtain ⟨other, hq⟩ := isFirst_of_find?_eq_some hf
    rw [hq.unique hp]

/-! ## 3. Cycles -/

/-- A node is a child of another one. -/
def Steps (s : Walk ν ε) (x y : ν) : Prop := y ∈ s.children x

theorem exists_path (h : Relation.ReflTransGen s.Steps x y) :
    ∃ path, s.nodeAt? x path = some y := by
  induction h using Relation.ReflTransGen.head_induction_on with
  | refl => exact ⟨[], rfl⟩
  | head hstep _ ih =>
    obtain ⟨path, hpath⟩ := ih
    obtain ⟨n, hn⟩ := List.mem_iff_getElem?.mp hstep
    exact ⟨n :: path, by rw [nodeAt?, hn, Option.bind_some, hpath]⟩

/-- Round a cycle there are paths as long as one likes. -/
theorem exists_long_path (h : Relation.TransGen s.Steps x x) (n : Nat) :
    ∃ path, s.nodeAt? x path = some x ∧ n ≤ path.length := by
  obtain ⟨y, hstep, hback⟩ := Relation.TransGen.head'_iff.mp h
  obtain ⟨m, hm⟩ := List.mem_iff_getElem?.mp hstep
  obtain ⟨round, hround⟩ := exists_path hback
  induction n with
  | zero => exact ⟨[], rfl, Nat.le_refl 0⟩
  | succ n ih =>
    obtain ⟨path, hpath, hn⟩ := ih
    refine ⟨m :: (round ++ path), ?_, ?_⟩
    · rw [nodeAt?, hm, Option.bind_some, nodeAt?_append, hround, Option.bind_some, hpath]
    · rw [List.length_cons, List.length_append]
      omega

/-- **A cycle that can be reached is an obstacle**: it leads too deep. -/
theorem find?_isSome_of_cycle (limit : Nat) (h : Relation.ReflTransGen s.Steps x y)
    (hc : Relation.TransGen s.Steps y y) : (s.find? limit x).isSome := by
  obtain ⟨path, hpath⟩ := exists_path h
  obtain ⟨round, hround, hl⟩ := exists_long_path hc limit
  have hall : s.nodeAt? x (path ++ round) = some y := by
    rw [nodeAt?_append, hpath, Option.bind_some, hround]
  have hlong : limit ≤ (path ++ round).length := by
    rw [List.length_append]
    omega
  have ho := exists_obstacle hall hlong
  by_contra hn
  rw [find?_eq_none_iff.mp (Option.not_isSome_iff_eq_none.mp hn)] at ho
  cases ho

end Walk

end ValueHeap
