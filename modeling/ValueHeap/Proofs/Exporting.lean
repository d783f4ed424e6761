import ValueHeap.Proofs.Preorder
import ValueHeap.Proofs.Guarantees

/-!
# Which values have a document

A value unfolds into a tree along the items of lists and tuples and the entries of dictionaries.
What is shared occurs in it as often as it is reached, and a cycle makes it infinite. Reading the
value as a document goes through this tree in preorder: it fails at the first node that is too deep
or has no document of its own, and else the document is the tree.

* `unfolding`: the tree, with what is wrong at its nodes; `Unfolds`: the document that the tree is;
* `failure?_exportSlot`: the error of reading a value is what a search through its tree finds;
* **`World.Reachable.export_exact`**: so it is the first obstacle in preorder.
-/

namespace ValueHeap

/-! ## 1. Unfoldings -/

namespace Payload

/-- The children that are part of the document of a value. -/
def items : Payload → List Slot
  | list items => items
  | tuple items => items
  | dictionary entries => entries.slots
  | _ => []

/-- Why a value has no document, whatever its children are. -/
def unexportable? : Payload → Option Unrepresentable
  | bool _ | integer _ | string _ | list _ | tuple _ | dictionary _ => none
  | float x => if x.isFinite then none else some .nonFinite
  | p => some (.kind p.kind)

theorem mem_children_of_mem_items {p : Payload} {j : Slot} (h : j ∈ p.items) : j ∈ p.children := by
  cases p with
  | list | tuple | dictionary => exact h
  | _ => cases h

end Payload

namespace Arena

variable {a : Arena} {ledger : List Handle} {moving : List Slot} {levels : Nat} {i : Slot}

/-- The tree into which the values of an arena unfold. -/
def unfolding (a : Arena) : Walk Slot HeapError where
  children i := ((a.payload? i).map Payload.items).getD []
  flaw? i := (a.payload? i).bind fun p => p.unexportable?.map .unrepresentable
  tooDeep := .tooDeep

/-- The document is that of the value in the slot, node by node. -/
inductive Unfolds (a : Arena) : Slot → Document → Prop
  | bool {i : Slot} {flag : Bool} : a.payload? i = some (.bool flag) → Unfolds a i (.bool flag)
  | integer {i : Slot} {n : Int32} : a.payload? i = some (.integer n) →
      Unfolds a i (.integer n.toInt)
  | float {i : Slot} {x : Double} : a.payload? i = some (.float x) → Unfolds a i (.float x)
  | string {i : Slot} {text : String} : a.payload? i = some (.string text) →
      Unfolds a i (.string text)
  | list {i : Slot} {items : List Slot} {docs : List Document} :
      a.payload? i = some (.list items) → List.Forall₂ (Unfolds a) items docs →
      Unfolds a i (.array docs)
  | tuple {i : Slot} {items : List Slot} {docs : List Document} :
      a.payload? i = some (.tuple items) → List.Forall₂ (Unfolds a) items docs →
      Unfolds a i (.array docs)
  | dictionary {i : Slot} {entries : Entries} {members : List (String × Document)} :
      a.payload? i = some (.dictionary entries) → members.map (·.1) = entries.keys →
      List.Forall₂ (Unfolds a) entries.slots (members.map (·.2)) → Unfolds a i (.object members)

/-! ## 2. The error of reading a value -/

/-- Why there is no result. -/
def failure? {α : Type} : Except Failure α → Option Failure
  | .ok _ => none
  | .error e => some e

theorem failure?_eq_some {α : Type} {x : Except Failure α} {e : Failure} :
    failure? x = some e ↔ x = .error e := by
  cases x with
  | error f => simp [failure?]
  | ok y => simp [failure?]

theorem failure?_eq_none {α : Type} {x : Except Failure α} :
    failure? x = none ↔ ∃ y, x = .ok y := by
  cases x with
  | error f => simp [failure?]
  | ok y => simp [failure?]

theorem failure?_map {α β : Type} (f : α → β) (x : Except Failure α) :
    failure? (x.map f) = failure? x := by
  cases x <;> rfl

/-- Items are read in order, up to the first failure. -/
theorem failure?_exportAll {α β : Type} {f : α → Except Failure β} {g : α → Option HeapError}
    {l : List α} (h : ∀ x ∈ l, failure? (f x) = (g x).map .error) :
    failure? (exportAll f l) = (l.findSome? g).map .error := by
  induction l with
  | nil => rfl
  | cons x rest ih =>
    have hx := h x List.mem_cons_self
    have hrest := ih fun y hy => h y (List.mem_cons_of_mem _ hy)
    unfold exportAll
    rw [List.findSome?_cons]
    cases hg : g x with
    | some e =>
      rw [hg] at hx
      rw [failure?_eq_some.mp hx]
      rfl
    | none =>
      rw [hg] at hx
      obtain ⟨y, hy⟩ := failure?_eq_none.mp hx
      rw [hy, ← hrest]
      cases exportAll f rest <;> rfl

/-- **The error of reading a value is what a search through its tree finds.** -/
theorem Coherent.failure?_exportSlot (co : a.Coherent ledger moving)
    (hi : (a.occupant? i).isSome) :
    failure? (a.exportSlot levels i) = (a.unfolding.find? levels i).map .error := by
  induction levels generalizing i with
  | zero => rfl
  | succ levels ih =>
    obtain ⟨o, ho⟩ := Option.isSome_iff_exists.mp hi
    have hp := payload?_of_occupant? ho
    have hchild : ∀ j ∈ o.payload.items,
        failure? (a.exportSlot levels j) = (a.unfolding.find? levels j).map .error := fun j hj =>
      ih (co.closed j i (by
        rw [childrenAt_of_occupant? ho]
        exact Payload.mem_children_of_mem_items hj))
    rw [exportSlot, follow_eq_ok hp, Walk.find?]
    simp only [unfolding, hp, Option.map_some, Option.getD_some, Option.bind_some]
    cases hq : o.payload with
    | list items =>
      rw [hq] at hchild
      exact (failure?_map _ _).trans (failure?_exportAll hchild)
    | tuple items =>
      rw [hq] at hchild
      exact (failure?_map _ _).trans (failure?_exportAll hchild)
    | dictionary entries =>
      rw [hq] at hchild
      refine (failure?_map _ _).trans ((failure?_exportAll fun q hm => ?_).trans
        (congrArg _ List.findSome?_map.symm))
      exact (failure?_map _ _).trans (hchild q.2 (List.mem_map_of_mem hm))
    | float x =>
      by_cases hx : x.isFinite
      · simp [hx, failure?, Payload.unexportable?, Payload.items]
      · simp [hx, failure?, Payload.unexportable?]
    | _ => rfl

/-! ## 3. The document of a value -/

/-- The document that is read is that of the value. -/
theorem unfolds_of_exportSlot {d : Document} (h : a.exportSlot levels i = .ok d) :
    a.Unfolds i d := by
  induction levels generalizing i d with
  | zero => cases h
  | succ levels ih =>
    obtain ⟨p, hp, hr⟩ := exportSlot_succ.mp h
    cases hr with
    | bool flag => exact .bool hp
    | integer n => exact .integer hp
    | float hx => exact .float hp
    | string text => exact .string hp
    | list hl => exact .list hp (hl.imp fun _ _ k => ih k)
    | tuple hl => exact .tuple hp (hl.imp fun _ _ k => ih k)
    | dictionary hl =>
      refine .dictionary hp hl.keys.symm ?_
      exact List.forall₂_map_left_iff.mpr (List.forall₂_map_right_iff.mpr
        (hl.imp fun _ _ k => ih k.2))

theorem forall₂_eq {R S : Slot → Document → Prop} (h : ∀ j d e, R j d → S j e → e = d)
    {l : List Slot} {docs others : List Document} (hd : List.Forall₂ R l docs)
    (he : List.Forall₂ S l others) : others = docs := by
  induction hd generalizing others with
  | nil =>
    cases he
    rfl
  | cons hx _ ih =>
    cases he with
    | cons hy hrest => rw [h _ _ _ hx hy, ih hrest]

/-- A value has at most one document. -/
theorem Unfolds.eq {d e : Document} (h : a.exportSlot levels i = .ok d) (m : a.Unfolds i e) :
    e = d := by
  induction levels generalizing i d e with
  | zero => cases h
  | succ levels ih =>
    obtain ⟨p, hp, hr⟩ := exportSlot_succ.mp h
    have one : ∀ j x y, a.exportSlot levels j = .ok x → a.Unfolds j y → y = x := fun j x y hx hy =>
      ih hx hy
    cases m with
    | bool hq | integer hq | float hq | string hq =>
      cases hp.symm.trans hq
      cases hr
      rfl
    | list hq hm =>
      cases hp.symm.trans hq
      cases hr with | list hl => rw [forall₂_eq one hl hm]
    | tuple hq hm =>
      cases hp.symm.trans hq
      cases hr with | tuple hl => rw [forall₂_eq one hl hm]
    | @dictionary _ _ members hq hkeys hm =>
      cases hp.symm.trans hq
      cases hr with
      | @dictionary _ docs hl =>
        have hdocs : List.Forall₂ (fun j x => a.exportSlot levels j = .ok x) _ (docs.map (·.2)) :=
          List.forall₂_map_left_iff.mpr (List.forall₂_map_right_iff.mpr (hl.imp fun _ _ k => k.2))
        have hsnd := forall₂_eq one hdocs hm
        have hfst : members.map (·.1) = docs.map (·.1) := hkeys.trans hl.keys
        rw [← List.zip_unzip members, ← List.zip_unzip docs, List.unzip_eq_map, List.unzip_eq_map,
          hfst, hsnd]

end Arena

/-! ## 4. In every world a program can reach -/

namespace World

open Arena Document

variable {w : World} {k : Nat} {a : Arena} {h : Handle}

/-- **Reading a value as a document fails with the first obstacle in preorder, and else answers with
    the document of the value.** -/
theorem Reachable.export_exact (hw : w.Reachable) (ha : w.arena? k = some a) (hh : a.resolves h) :
    -- an error is that of the first obstacle
    (∀ e, a.exportDocument h = .error (.error e) ↔
      ∃ path, a.unfolding.IsFirst levels h.slot path e) ∧
    -- this is a node that is just too deep, whatever it is, or a value without a document above
    (∀ path e, a.unfolding.IsFirst levels h.slot path e → (path.length = levels ∧ e = .tooDeep) ∨
      path.length ≤ depthLimit ∧ ∃ i p u, a.unfolding.nodeAt? h.slot path = some i ∧
        a.payload? i = some p ∧ p.unexportable? = some u ∧ e = .unrepresentable u) ∧
    -- without an obstacle there is a document, and it is that of the value
    ((∃ d, a.exportDocument h = .ok d) ↔
      ∀ path i, a.unfolding.nodeAt? h.slot path = some i →
        path.length ≤ depthLimit ∧ a.unfolding.flaw? i = none) ∧
    (∀ d, a.exportDocument h = .ok d → ∀ e, a.Unfolds h.slot e ↔ e = d) ∧
    -- there is no other end
    (∀ f, a.exportDocument h ≠ .error (.fault f)) ∧
    -- a cycle is an obstacle
    (∀ i, Relation.ReflTransGen a.unfolding.Steps h.slot i →
      Relation.TransGen a.unfolding.Steps i i → ∃ e, a.exportDocument h = .error (.error e)) := by
  have co := hw.sound.coherent k a ha
  obtain ⟨o, ho⟩ := resolves_iff.mp hh
  have he : a.exportDocument h = a.exportSlot levels h.slot := by
    unfold exportDocument
    rw [ho]
  have hfind : failure? (a.exportDocument h) = (a.unfolding.find? levels h.slot).map .error := by
    rw [he]
    exact co.failure?_exportSlot (by rw [occupant?_of_lookup ho]; rfl)
  have herror : ∀ e, a.exportDocument h = .error (.error e) ↔
      a.unfolding.find? levels h.slot = some e := fun e => by
    rw [← failure?_eq_some, hfind, Option.map_eq_some_iff]
    simp only [Failure.error.injEq, exists_eq_right]
  refine ⟨fun e => (herror e).trans Walk.find?_eq_some_iff, fun path e hp => ?_, ?_,
    fun d hd e => ?_, fun f => co.exportDocument_ne_fault f h, fun i hi hc => ?_⟩
  · rcases hp.cases with hdeep | ⟨hlt, i, hi, hf⟩
    · exact .inl hdeep
    · obtain ⟨p, hpay, hf⟩ := Option.bind_eq_some_iff.mp hf
      obtain ⟨u, hu, rfl⟩ := Option.map_eq_some_iff.mp hf
      exact .inr ⟨Nat.le_of_lt_succ hlt, i, p, u, hi, hpay, hu, rfl⟩
  · rw [← failure?_eq_none, hfind, Option.map_eq_none_iff, Walk.find?_eq_none_iff,
      Walk.obstacle?_eq_none_iff]
    simp only [levels, Nat.lt_succ_iff]
  · rw [he] at hd
    refine ⟨fun hm => hm.eq hd, ?_⟩
    intro heq
    rw [heq]
    exact unfolds_of_exportSlot hd
  · obtain ⟨e, hfound⟩ := Option.isSome_iff_exists.mp (Walk.find?_isSome_of_cycle levels hi hc)
    exact ⟨e, (herror e).mpr hfound⟩

/-- In `releasing` the list reads as its document, and the dictionary that holds itself leads too
    deep. -/
theorem export_exact_releasing : releasingArena.resolves ⟨⟨1⟩, 2, 0⟩ ∧
    releasingArena.Unfolds 2 (.array [.integer 7, .string "a"]) ∧
    releasingArena.resolves ⟨⟨1⟩, 3, 0⟩ ∧
    (∃ e, releasingArena.exportDocument ⟨⟨1⟩, 3, 0⟩ = .error (.error e)) ∧
    ∃ path, releasingArena.unfolding.IsFirst levels 3 path .tooDeep := by
  have hlist : releasingArena.resolves ⟨⟨1⟩, 2, 0⟩ := by decide +kernel
  have hdict : releasingArena.resolves ⟨⟨1⟩, 3, 0⟩ := by decide +kernel
  obtain ⟨_, _, _, hdoc, _⟩ := releasing_reachable.export_exact arena?_releasing hlist
  obtain ⟨hfirst, _, _, _, _, hcycle⟩ := releasing_reachable.export_exact arena?_releasing hdict
  have hself : releasingArena.unfolding.Steps 3 3 := by
    show 3 ∈ ((releasingArena.payload? 3).map Payload.items).getD []
    decide +kernel
  exact ⟨hlist, (hdoc _ rfl _).mpr rfl, hdict, hcycle 3 .refl (.single hself),
    (hfirst .tooDeep).mp (failure?_eq_some.mp (by decide +kernel))⟩

end World

end ValueHeap
