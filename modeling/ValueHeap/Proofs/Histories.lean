import ValueHeap.Proofs.Objects

/-!
# What a run makes of a value

The updates of a value are collected along a run; whatever else happens, to other values, to other
arenas or in collections, takes no part in what the value holds at the end.

* `World.updates`: what a run does to one value;
* `after_contents`: one action; **`contents_run`**: a whole run.
-/

namespace ValueHeap

open Arena

namespace World

variable {w : World} {k : Nat} {a b : Arena} {o : ObjectId} {x : Contents}

/-! ## 1. Histories -/

/-- What an action does to a value of the arena at `k`. -/
def updated? (w : World) (k : Nat) (o : ObjectId) : Action → Option Update
  | .call l c =>
    match w.arena? l with
    | some a => if l = k then a.updated? c o else none
    | none => none
  | _ => none

/-- What a run does to a value of the arena at `k`, in order. -/
def updates (w : World) (k : Nat) (o : ObjectId) : List Action → List Update
  | [] => []
  | act :: rest => (w.updated? k o act).toList ++ (w.after act).updates k o rest

theorem updates_snoc (acts : List Action) (act : Action) :
    w.updates k o (acts ++ [act]) =
      w.updates k o acts ++ ((w.run acts).1.updated? k o act).toList := by
  induction acts generalizing w with
  | nil => exact List.append_nil _
  | cons first rest ih =>
    rw [List.cons_append, updates, ih, updates, List.append_assoc]
    rfl

theorem permitted_append (acts later : List Action) :
    (w.run (acts ++ later)).2 = ((w.run acts).2 && ((w.run acts).1.run later).2) := by
  induction acts generalizing w with
  | nil => rfl
  | cons act rest ih =>
    show (decide (w.Permits act) && ((w.after act).run (rest ++ later)).2) = _
    rw [ih, ← Bool.and_assoc]
    rfl

theorem noReset_append {acts later : List Action} :
    NoReset k (acts ++ later) ↔ NoReset k acts ∧ NoReset k later := by
  simp only [NoReset, List.mem_append, not_or, forall_and]

theorem Sound.orderly (s : w.Sound) : w.Orderly :=
  ⟨fun k a ha => (s.coherent k a ha).vacant, s.distinct, s.taken⟩

/-- A program that can go on has taken fewer than `2 ^ 32` identities. -/
theorem Reachable.taken_lt (hw : w.Reachable) : w.realm.taken < 2 ^ 32 := by
  induction hw with
  | start => decide
  | @step w act _ hp ih =>
    rw [taken_after]
    cases act with
    | addArena tracker tracer => exact hp
    | resetArena l tracker => exact hp
    | _ => exact ih

/-- An arena that is not reset evolves. -/
theorem Reachable.evolves (hw : w.Reachable) {acts : List Action} (hp : (w.run acts).2 = true)
    (hr : NoReset k acts) (ha : w.arena? k = some a) (hb : (w.run acts).1.arena? k = some b) :
    Evolves a b := by
  rcases run_cases hw.sound.orderly acts (hw.run acts hp).taken_lt ha hb with ⟨_, h⟩ | ⟨hn, _⟩
  · exact h
  · exact absurd hr hn

/-! ## 2. One action -/

/-- Nothing but a call on its arena updates a value. -/
theorem updated?_of_not_call {act : Action} (h : ∀ c, act ≠ .call k c) :
    w.updated? k o act = none := by
  unfold updated?
  split
  · rename_i l c
    split
    · exact if_neg fun e => h c (by rw [e])
    · rfl
  · rfl

/-- **What an action makes of what a value holds**, if the value is there before and after. -/
theorem after_contents (s : w.Sound) {act : Action} (hr : NoReset k [act])
    (ha : w.arena? k = some a) (hb : (w.after act).arena? k = some b)
    (hx : a.contents? o = some x) (ho : b.Alive o) :
    b.contents? o = some (x.updated (w.updated? k o act)) ∧
      (x.updated (w.updated? k o act)).kind = x.kind := by
  have co := s.coherent k a ha
  cases after_turn hb with
  | kept h _ hc =>
    cases ha.symm.trans h
    rw [updated?_of_not_call hc]
    exact ⟨hx, rfl⟩
  | called c h =>
    cases ha.symm.trans h
    have hu : w.updated? k o (.call k c) = a.updated? c o := by simp only [updated?, ha, if_pos]
    rw [hu]
    exact perform_contents co.vacant co.closed c hx ho
  | copied h _ ht =>
    cases ha.symm.trans ht
    exact ⟨(copyInto_grows h co.vacant).carries.contents? co.closed hx ho, rfl⟩
  | renewed _ _ h => exact absurd h ((noReset_single ha act).mp hr)

/-! ## 3. Runs -/

/-- **What a run makes of what a value holds** is what its own updates make of it. -/
theorem contents_run (hw : w.Reachable) (acts : List Action) (hp : (w.run acts).2 = true)
    (hr : NoReset k acts) (ha : w.arena? k = some a) (hb : (w.run acts).1.arena? k = some b)
    (hx : a.contents? o = some x) (ho : b.Alive o) :
    b.contents? o = some (x.after (w.updates k o acts)) ∧
      (x.after (w.updates k o acts)).kind = x.kind := by
  induction acts using List.reverseRecOn generalizing b with
  | nil =>
    cases ha.symm.trans hb
    obtain ⟨_, p, _, rfl⟩ := contents?_eq_some.mp hx
    rw [updates, Contents.after_nil]
    exact ⟨hx, rfl⟩
  | append_singleton acts act ih =>
    rw [permitted_append, Bool.and_eq_true] at hp
    obtain ⟨hr1, hr2⟩ := noReset_append.mp hr
    rw [run_append] at hb
    have hu : (w.run acts).1.Reachable := hw.run acts hp.1
    obtain ⟨c, hc⟩ := Option.isSome_iff_exists.mp
      (arena?_run_isSome acts (by rw [ha]; rfl : (w.arena? k).isSome))
    -- a value that is there at both ends is there in between
    have hal : c.Alive o := (hw.evolves hp.1 hr1 ha hc).alive_between
      (hu.evolves hp.2 hr2 hc hb) (contents?_eq_some.mp hx).1 ho
    obtain ⟨h1, h2⟩ := ih hp.1 hr1 hc hal
    rw [updates_snoc, Contents.after_append]
    obtain ⟨h3, h4⟩ := after_contents hu.sound hr2 hc hb h1 ho
    exact ⟨h3, h4.trans h2⟩

/-- A value that is there at the end of a run was there all the time. -/
theorem survives_run (hw : w.Reachable) (acts : List Action) (hp : (w.run acts).2 = true)
    (hr : NoReset k acts) (ha : w.arena? k = some a) (hb : (w.run acts).1.arena? k = some b)
    (hx : a.Alive o) (ho : b.Alive o) : w.Survives k o acts := by
  rintro part ⟨later, rfl⟩
  rw [permitted_append, Bool.and_eq_true] at hp
  obtain ⟨hr1, hr2⟩ := noReset_append.mp hr
  rw [run_append] at hb
  obtain ⟨c, hc⟩ := Option.isSome_iff_exists.mp
    (arena?_run_isSome part (by rw [ha]; rfl : (w.arena? k).isSome))
  exact ⟨c, hc, (hw.evolves hp.1 hr1 ha hc).alive_between
    ((hw.run part hp.1).evolves hp.2 hr2 hc hb) hx ho⟩

end World

end ValueHeap
