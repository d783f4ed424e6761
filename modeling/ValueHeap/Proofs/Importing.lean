import ValueHeap.Proofs.Preorder
import ValueHeap.Proofs.Refusals

/-!
# Which documents can be built

Building a document is a sequence of stages: the slots that are filled, an array after its items and
an object before its members, and in between the nodes that are obstacles. It stops at the first
stage that is an obstacle or a slot that the tracker does not accept.

* `Document.stages`: the stages of a document; `Tracker.serve`: how far a tracker takes them;
* `buildTree_books`: building a document ends as the tracker takes its stages;
* `findSome?_stages`: the first obstacle among them is the first in preorder;
* **`World.Reachable.import_exact`**: which documents are built, and why others are not.
-/

namespace ValueHeap

/-! ## 1. Stages -/

/-- What building a document comes to. -/
inductive Stage
  /-- A slot of that size is to be filled. -/
  | slot (size : Nat)
  /-- A node that cannot be built. -/
  | obstacle (e : HeapError)

namespace Stage

/-- What ends the work at this stage. -/
def stop? (t : Tracker) : Stage → Option Failure
  | slot size =>
    match (t.charge size).1 with
    | .accepted => none
    | .refused why => some (.error (.resource why))
    | .overflowed => some (.fault .counterOverflow)
  | obstacle e => some (.error e)

/-- The tracker after the stage. -/
def passed (t : Tracker) : Stage → Tracker
  | slot size => (t.charge size).2
  | obstacle _ => t

def obstacle? : Stage → Option HeapError
  | slot _ => none
  | obstacle e => some e

/-- The sizes of the slots before the first obstacle. -/
def requests : List Stage → List Nat
  | slot size :: rest => size :: requests rest
  | _ => []

end Stage

/-- Takes the stages in order, up to the first that ends the work. -/
def Tracker.serve (t : Tracker) : List Stage → Except Failure Tracker
  | [] => .ok t
  | stage :: rest =>
    match stage.stop? t with
    | some f => .error f
    | none => (stage.passed t).serve rest

namespace Document

/-- The stages of building a document of at most so many levels. -/
def stages : (levels : Nat) → Document → List Stage
  | 0, _ => [.obstacle .tooDeep]
  | _ + 1, null => [.obstacle (.unrepresentable .null)]
  | _ + 1, bool flag => [.slot (Payload.bool flag).footprint]
  | _ + 1, integer n => [.slot (Arena.wholeNumber n).footprint]
  | _ + 1, float x => [.slot (Payload.float x).footprint]
  | _ + 1, string text => [.slot (Payload.string text).footprint]
  | levels + 1, array items => items.flatMap (stages levels) ++
      [.slot (Payload.footprintUnits.value + Payload.footprintUnits.child * items.length)]
  | levels + 1, object members =>
    .slot (Payload.dictionary .empty).footprint :: members.flatMap fun m => stages levels m.2

/-- The parts of a document, in order. -/
def parts : Document → List Document
  | array items => items
  | object members => members.map (·.2)
  | _ => []

/-- A document as a tree, with what cannot be built in it. -/
def tree : Walk Document HeapError where
  children := parts
  flaw? d :=
    match d with
    | null => some (.unrepresentable .null)
    | _ => none
  tooDeep := .tooDeep

end Document

/-! ## 2. How far a tracker takes them -/

section Serving

variable {t u : Tracker} {s s' : List Stage} {f : Failure}

theorem Tracker.serve_append : t.serve (s ++ s') = (t.serve s).bind (·.serve s') := by
  induction s generalizing t with
  | nil => rfl
  | cons stage rest ih =>
    rw [List.cons_append, serve, serve]
    cases stage.stop? t with
    | some f => rfl
    | none => exact ih

/-- The work ends at a stage that all before it led to. -/
theorem Tracker.serve_eq_error : t.serve s = .error f ↔ ∃ done stage rest u,
    s = done ++ stage :: rest ∧ t.serve done = .ok u ∧ stage.stop? u = some f := by
  constructor
  · intro h
    induction s generalizing t with
    | nil => cases h
    | cons stage rest ih =>
      rw [serve] at h
      cases hs : stage.stop? t with
      | some g =>
        rw [hs] at h
        cases h
        exact ⟨[], stage, rest, t, rfl, rfl, hs⟩
      | none =>
        rw [hs] at h
        obtain ⟨done, last, after, u, hrest, hdone, hlast⟩ := ih h
        refine ⟨stage :: done, last, after, u, by rw [hrest, List.cons_append], ?_, hlast⟩
        rw [serve, hs]
        exact hdone
  · intro h
    obtain ⟨done, stage, rest, u, hs, hdone, hstop⟩ := h
    rw [hs, serve_append, hdone]
    show u.serve (stage :: rest) = .error f
    rw [serve, hstop]

/-- Where no slot is refused, the first obstacle ends the work. -/
theorem Tracker.serve_of_acceptsAll (h : t.acceptsAll (Stage.requests s)) :
    (∀ e, s.findSome? Stage.obstacle? = some e → t.serve s = .error (.error e)) ∧
      (s.findSome? Stage.obstacle? = none → ∃ u, t.serve s = .ok u) := by
  induction s generalizing t with
  | nil => exact ⟨fun e he => (Option.some_ne_none e he.symm).elim, fun _ => ⟨t, rfl⟩⟩
  | cons stage rest ih =>
    cases stage with
    | obstacle e =>
      refine ⟨fun g hg => ?_, fun hn => (Option.some_ne_none e hn).elim⟩
      cases Option.some.inj hg
      rfl
    | slot size =>
      rw [Stage.requests, acceptsAll] at h
      rw [serve, Stage.stop?, Stage.passed]
      cases hc : t.charge size with
      | mk verdict u =>
        rw [hc] at h
        cases verdict with
        | accepted => exact ih h
        | refused why => cases h
        | overflowed => cases h

/-- A stage that is reached is the first obstacle, if it is one. -/
theorem Tracker.findSome?_of_serve_ok (h : t.serve s = .ok u) :
    s.findSome? Stage.obstacle? = none := by
  induction s generalizing t with
  | nil => rfl
  | cons stage rest ih =>
    cases stage with
    | obstacle e => cases h
    | slot size =>
      rw [serve] at h
      split at h
      · cases h
      · exact ih h

end Serving

theorem findSome?_flatMap {α β γ : Type} {f : α → List β} {g : β → Option γ} {r : α → Option γ}
    {l : List α} (h : ∀ x ∈ l, (f x).findSome? g = r x) :
    (l.flatMap f).findSome? g = l.findSome? r := by
  induction l with
  | nil => rfl
  | cons x rest ih =>
    rw [List.flatMap_cons, List.findSome?_append, List.findSome?_cons, h x List.mem_cons_self,
      ih fun y hy => h y (List.mem_cons_of_mem x hy)]
    cases r x <;> rfl

/-- **The first obstacle among the stages is the first in preorder.** -/
theorem Document.findSome?_stages (levels : Nat) (d : Document) :
    (d.stages levels).findSome? Stage.obstacle? = tree.find? levels d := by
  induction levels generalizing d with
  | zero => rfl
  | succ levels ih =>
    cases d with
    | array items =>
      rw [stages, List.findSome?_append, findSome?_flatMap fun d _ => ih d]
      exact Option.or_none
    | object members =>
      rw [stages, List.findSome?_cons, findSome?_flatMap fun m _ => ih m.2]
      exact List.findSome?_map.symm
    | _ => rfl

/-! ## 3. Building by stages -/

namespace Arena

open Outcome Document

variable {α β : Type} {a b : Arena} {s s' : List Stage} {t : Tracker}

/-- The tracker that an operation leaves, or why it has no answer. -/
def Outcome.books (r : Outcome α) : Except Failure Tracker := r.answer.map fun _ => r.arena.tracker

theorem books_andThen {r : Outcome α} {next : α → Arena → Outcome β} (h : r.books = t.serve s)
    (k : ∀ x b, r = .ok x b → (next x b).books = b.tracker.serve s') :
    (r.andThen next).books = t.serve (s ++ s') := by
  obtain ⟨e | x, b⟩ := r
  · rw [Tracker.serve_append, ← h]
    rfl
  · rw [Tracker.serve_append, ← h]
    exact k x b rfl

theorem books_onError {r : Outcome α} {clean : Arena → Arena} :
    (r.onError clean).books = r.books := by
  obtain ⟨(e | f) | x, b⟩ := r <;> rfl

theorem books_eq_error {r : Outcome α} {f : Failure} :
    r.books = .error f ↔ r.answer = .error f := by
  unfold Outcome.books
  cases r.answer with
  | error e => simp [Except.map]
  | ok x => simp [Except.map]

theorem books_eq_ok {r : Outcome α} : (∃ u, r.books = .ok u) ↔ ∃ x b, r = .ok x b := by
  obtain ⟨e | x, b⟩ := r
  · simp [Outcome.books, Except.map, Outcome.ok]
  · simp [Outcome.books, Except.map, Outcome.ok]

theorem build_books (a : Arena) (p : Payload) :
    (a.build p).books = a.tracker.serve [.slot p.footprint] := by
  unfold build allocate
  rw [Tracker.serve, Stage.stop?, Stage.passed]
  cases hc : a.tracker.charge p.footprint with
  | mk verdict u =>
    cases verdict with
    | accepted => exact congrArg Except.ok (tracker_fill _ _)
    | refused why => rfl
    | overflowed => rfl

theorem buildList_books {hs : List Handle} (hr : ∀ h ∈ hs, a.resolves h) :
    (a.buildList hs).books = a.tracker.serve
      [.slot (Payload.footprintUnits.value + Payload.footprintUnits.child * hs.length)] := by
  unfold buildList buildSequence
  rw [firstError?_of_resolves hr]
  have hsize : (Payload.list (hs.map (·.slot))).footprint =
      Payload.footprintUnits.value + Payload.footprintUnits.child * hs.length := by
    rw [Payload.footprint, List.length_map]
  rw [← hsize]
  exact books_onError.trans (build_books a _)

section Parts

variable {build : Document → Arena → Outcome Handle} {levels : Nat}

/-- Building the document ends as the tracker takes its stages. -/
def Staged (build : Document → Arena → Outcome Handle) (levels : Nat) (d : Document) : Prop :=
  ∀ a, a.VacantExact → (build d a).books = a.tracker.serve (d.stages levels)

theorem buildItems_books (hg : ∀ d b, b.VacantExact → Growing (build d b) b)
    (docs : List Document) (built : List Handle) (v : a.VacantExact)
    (hb : ∀ d ∈ docs, Staged build levels d) :
    (buildItems build a docs built).books = a.tracker.serve (docs.flatMap (stages levels)) := by
  induction docs generalizing a built with
  | nil => rfl
  | cons d rest ih =>
    rw [List.flatMap_cons]
    refine books_andThen (books_onError.trans (hb d List.mem_cons_self a v)) fun h b e => ?_
    obtain ⟨w, _, _⟩ := (hg d a v).of_ok (onError_eq_ok.mp e)
    exact ih _ w.vacant fun x hx => hb x (List.mem_cons_of_mem _ hx)

theorem length_of_buildItems (docs : List Document) {built hs : List Handle}
    (e : buildItems build a docs built = .ok hs b) : hs.length = built.length + docs.length := by
  induction docs generalizing a built with
  | nil =>
    cases e
    rfl
  | cons d rest ih =>
    obtain ⟨h, c, _, e2⟩ := andThen_eq_ok.mp e
    rw [ih e2, List.length_append, List.length_singleton, List.length_cons]
    omega

theorem buildMembers_books (hg : ∀ d b, b.VacantExact → Growing (build d b) b) (dict : Handle)
    (members : List (String × Document)) (v : a.VacantExact) (hd : a.NamesDictionary dict)
    (hb : ∀ m ∈ members, Staged build levels m.2) :
    (buildMembers build dict a members).books =
      a.tracker.serve (members.flatMap fun m => stages levels m.2) := by
  induction members generalizing a with
  | nil => rfl
  | cons m rest ih =>
    obtain ⟨key, d⟩ := m
    rw [List.flatMap_cons]
    refine books_andThen (hb (key, d) List.mem_cons_self a v) fun h b e => ?_
    obtain ⟨w, _, hr⟩ := (hg d a v).of_ok e
    -- putting the member into the dictionary asks for no slot, and cannot fail
    obtain ⟨c, hput, ht, vc, hdc⟩ := insertEntry_accepted key w.vacant (hd.grows w.toGrows) hr
    rw [hput, andThen_ok, ih vc hdc fun m hm => hb m (List.mem_cons_of_mem _ hm), ht]

end Parts

/-- **Building a document ends as the tracker takes its stages.** -/
theorem buildTree_books (levels : Nat) (d : Document) : Staged (buildTree levels) levels d := by
  induction levels generalizing d with
  | zero => exact fun a _ => rfl
  | succ levels ih =>
    intro a v
    have hg : ∀ d b, b.VacantExact → Growing (buildTree levels d b) b := fun d _ vb =>
      buildTree_growing levels d vb
    cases d with
    | null => rfl
    | bool | integer | float | string => exact build_books a _
    | array items =>
      refine books_andThen (buildItems_books hg items [] v fun d _ => ih d) fun hs b e => ?_
      have hall := buildItems_grafts hg items [] (.refl v) (List.forall_mem_nil _)
      rw [e] at hall
      have hlen := length_of_buildItems items e
      rw [List.length_nil, Nat.zero_add] at hlen
      rw [← hlen]
      exact buildList_books fun x hx => (hall.2 x hx).2
    | object members =>
      refine books_andThen (s := [_]) (build_books a _) fun dict b e => ?_
      have k := build_leaves v (.dictionary .empty)
      rw [show a.build (.dictionary .empty) = _ from e] at k
      have hp : b.payload? dict.slot = some (.dictionary .empty) := k.1.payload?_new
      have hdict : b.NamesDictionary dict := ⟨k.2, by rw [kind?, hp]; rfl⟩
      have hall := buildMembers_books hg dict members k.1.vacant hdict fun m _ => ih m.2
      have hlast : (((buildMembers (buildTree levels) dict b members).onError
          (·.release dict)).andThen fun _ c => Outcome.ok dict c).books =
          b.tracker.serve ((members.flatMap fun m => stages levels m.2) ++ []) :=
        books_andThen (books_onError.trans hall) fun _ _ _ => rfl
      rwa [List.append_nil] at hlast

end Arena

/-! ## 4. In every world a program can reach -/

namespace World

open Arena Document

variable {w : World} {k : Nat} {a : Arena}

/-- **A document is built unless it has a null, is nested too deep, or needs a slot that the tracker
    refuses; of these, the one that is met first is the error.** -/
theorem Reachable.import_exact (hw : w.Reachable) (ha : w.arena? k = some a) (d : Document) :
    -- where the slots before the first obstacle are accepted, only obstacles are in the way
    (a.tracker.acceptsAll (Stage.requests (d.stages levels)) →
      ((∃ h b, a.importDocument d = .ok h b) ↔
        ∀ path e, tree.nodeAt? d path = some e → path.length ≤ depthLimit ∧ e ≠ .null) ∧
      ∀ e, (a.importDocument d).answer = .error (.error e) ↔
        ∃ path, tree.IsFirst levels d path e) ∧
    -- the first obstacle is a node that is just too deep, whatever it is, or a null above
    (∀ path e, tree.IsFirst levels d path e → (path.length = levels ∧ e = .tooDeep) ∨
      path.length ≤ depthLimit ∧ tree.nodeAt? d path = some .null ∧ e = .unrepresentable .null) ∧
    -- in any case it ends at the first stage that is an obstacle or a slot that is not accepted
    (∀ f, (a.importDocument d).answer = .error f ↔ ∃ done stage rest t,
      d.stages levels = done ++ stage :: rest ∧ a.tracker.serve done = .ok t ∧
        stage.stop? t = some f) ∧
    -- and if it ends at an obstacle, that is the first in preorder
    ∀ done e rest t, d.stages levels = done ++ .obstacle e :: rest → a.tracker.serve done = .ok t →
      ∃ path, tree.IsFirst levels d path e := by
  have v := (hw.sound.coherent k a ha).vacant
  have hbooks : (a.importDocument d).books = a.tracker.serve (d.stages levels) :=
    buildTree_books levels d a v
  have hflaw : ∀ e : Document, tree.flaw? e = none ↔ e ≠ .null := fun e => by
    cases e <;> simp [tree]
  refine ⟨fun ht => ⟨?_, fun e => ?_⟩, fun path e hp => ?_, fun f => ?_,
    fun done e rest t hs hdone => ?_⟩
  · obtain ⟨hsome, hnone⟩ := Tracker.serve_of_acceptsAll ht
    rw [← books_eq_ok, hbooks]
    have hclear : (∀ path e, tree.nodeAt? d path = some e → path.length ≤ depthLimit ∧ e ≠ .null) ↔
        (d.stages levels).findSome? Stage.obstacle? = none := by
      rw [findSome?_stages, Walk.find?_eq_none_iff, Walk.obstacle?_eq_none_iff]
      simp only [hflaw, levels, Nat.lt_succ_iff]
    rw [hclear]
    refine ⟨fun h => ?_, hnone⟩
    obtain ⟨u, hu⟩ := h
    exact Tracker.findSome?_of_serve_ok hu
  · obtain ⟨hsome, hnone⟩ := Tracker.serve_of_acceptsAll ht
    rw [← books_eq_error, hbooks, ← Walk.find?_eq_some_iff, ← findSome?_stages]
    refine ⟨fun h => ?_, hsome e⟩
    cases ho : (d.stages levels).findSome? Stage.obstacle? with
    | none =>
      obtain ⟨u, hu⟩ := hnone ho
      rw [hu] at h
      cases h
    | some g =>
      rw [hsome g ho] at h
      cases h
      rfl
  · rcases hp.cases with hdeep | ⟨hl, x, hx, hf⟩
    · exact .inl hdeep
    · cases x with
      | null =>
        cases hf
        exact .inr ⟨Nat.le_of_lt_succ hl, hx, rfl⟩
      | _ => cases hf
  · rw [← books_eq_error, hbooks, Tracker.serve_eq_error]
  · refine Walk.find?_eq_some_iff.mp ?_
    rw [← findSome?_stages, hs, List.findSome?_append, Tracker.findSome?_of_serve_ok hdone]
    rfl

/-- In `limiting` one more slot is accepted: a null after one integer is met first, after two the
    refusal is. -/
theorem import_exact_limiting :
    limitingArena.tracker.acceptsAll (Stage.requests
      ((Document.array [.integer 7, .null]).stages levels)) ∧
    (limitingArena.importDocument (.array [.integer 7, .null])).answer =
      .error (.error (.unrepresentable .null)) ∧
    (limitingArena.importDocument (.array [.integer 7, .integer 8, .null])).answer =
      .error (.error (.resource (.allocations 3 4))) := by
  obtain ⟨hnull, _⟩ := limiting_reachable.import_exact arena?_limiting (.array [.integer 7, .null])
  obtain ⟨_, _, hstop, _⟩ := limiting_reachable.import_exact arena?_limiting
    (.array [.integer 7, .integer 8, .null])
  have ht : limitingArena.tracker.acceptsAll (Stage.requests
      ((Document.array [.integer 7, .null]).stages levels)) := by decide +kernel
  refine ⟨ht, ((hnull ht).2 _).mpr (Walk.find?_eq_some_iff.mp rfl), ?_⟩
  exact (hstop _).mpr ⟨[.slot 96], .slot 96, _, _, rfl, rfl, by decide +kernel⟩

end World

end ValueHeap
