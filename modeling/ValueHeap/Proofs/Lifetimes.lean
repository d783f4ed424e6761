import ValueHeap.Proofs.Effects

/-!
# How long a handle names its value

A value is identified by its slot and the number of times that slot had been filled again. The
identity of the arena, the occupancy of the slot and its generation together tell whether a handle
still names the value that it was issued for. Nothing here asks that an action be permitted: the
run may hand over any handles, and an operation may end in a fault.

* `ObjectId` and `Alive`: a value and its lifetime in an arena;
* `World.Orderly` is what a realm keeps up on its own: no two arenas share an identity;
* `World.after_turn`: what an action can leave at an index, by cases;
* `World.run_cases`: after a run the arena at an index is the one that was there, evolved, or it has
  an identity that was not taken before;
* **`World.resolves_iff_survives`**: a handle names a value as long as its value survives.
-/

namespace ValueHeap

/-- A value of an arena, told from any other that the arena has ever held: its slot, and how often
    that had been filled again. -/
structure ObjectId where
  slot : Slot
  refill : Nat
  deriving DecidableEq

namespace Arena

variable {a b c : Arena}

/-! ## 1. Values over time -/

/-- The value that a slot was last filled with. -/
def object (a : Arena) (i : Slot) : ObjectId := ⟨i, (a.refills? i).getD 0⟩

/-- The value is in its slot. -/
def Alive (a : Arena) (o : ObjectId) : Prop := (a.occupant? o.slot).isSome ∧ a.object o.slot = o

instance (a : Arena) (o : ObjectId) : Decidable (a.Alive o) :=
  inferInstanceAs (Decidable (_ ∧ _))

theorem alive_object {i : Slot} (h : (a.occupant? i).isSome) : a.Alive (a.object i) := ⟨h, rfl⟩

/-- How often a slot of `b` has been filled again since `a`. -/
def refillsSince (a b : Arena) (i : Slot) : Nat := (b.refills? i).getD 0 - (a.refills? i).getD 0

theorem refills?_of_object {i : Slot} (hi : (b.occupant? i).isSome)
    (ha : (a.occupant? i).isSome) (h : b.object i = a.object i) : b.refills? i = a.refills? i := by
  obtain ⟨r, hr⟩ := refills?_of_occupant? hi
  obtain ⟨s, hs⟩ := refills?_of_occupant? ha
  have e : (b.refills? i).getD 0 = (a.refills? i).getD 0 := congrArg ObjectId.refill h
  rw [hr, hs] at e ⊢
  exact congrArg some e

theorem object_congr {i : Slot} (h : b.refills? i = a.refills? i) : b.object i = a.object i := by
  unfold object
  rw [h]

/-- **A value that is there at both ends is there in between**: a slot does not go back to an
    earlier filling. -/
theorem Evolves.alive_between (h : Evolves a b) (k : Evolves b c) {o : ObjectId} (ha : a.Alive o)
    (hc : c.Alive o) : b.Alive o := by
  have e := refills?_of_object hc.1 ha.1 (hc.2.trans ha.2.symm)
  have hb : b.refills? o.slot = a.refills? o.slot := by
    obtain ⟨r, hr⟩ := refills?_of_occupant? hc.1
    exact (h.between k e).resolve_right fun hn => by rw [hr] at hn; cases hn
  exact ⟨k.settled _ (e.trans hb.symm) hc.1, (object_congr hb).trans ha.2⟩

/-- A handle names a value of a later arena, in whose slot no generation has started over since,
    exactly if its value is there. -/
theorem Evolves.resolves_iff (h : Evolves a b) {x : Handle} (hx : a.resolves x)
    (hw : a.refillsSince b x.slot < 2 ^ 32) :
    b.resolves x ↔ b.Alive (a.object x.slot) := by
  obtain ⟨hl, he⟩ := resolves_iff_handleOf.mp hx
  obtain ⟨r, hr⟩ := refills?_of_occupant? hl
  obtain ⟨s, hs, hrs⟩ := h.grown _ r hr
  unfold refillsSince at hw
  rw [hr, hs, Option.getD_some, Option.getD_some] at hw
  have same : x = b.handleOf x.slot ↔ r = s := by
    constructor
    · intro e
      have hg := congrArg (fun y => y.generation.toNat) (he.symm.trans e)
      simp only [handleOf, generation?_eq, hr, hs, Option.map_some, Option.getD_some,
        UInt32.toNat_ofNat'] at hg
      omega
    · rintro rfl
      rw [handleOf_eq h.id (hs.trans hr.symm)]
      exact he
  have object : b.object x.slot = a.object x.slot ↔ r = s := by
    unfold Arena.object
    rw [hr, hs, Option.getD_some, Option.getD_some, ObjectId.mk.injEq]
    exact ⟨fun e => e.2.symm, fun e => ⟨rfl, e.symm⟩⟩
  rw [resolves_iff_handleOf, same, ← object]
  exact Iff.rfl

/-- What a handle names that names nothing. -/
theorem lookup_of_not_resolves {x : Handle} (h : ¬ a.resolves x) :
    a.lookup x = .error (if x.arena = a.id then .stale else .foreign a.id x.arena) := by
  by_cases hid : x.arena = a.id
  · rw [if_pos hid]
    exact lookup_eq_stale hid h
  · rw [if_neg hid]
    unfold lookup
    rw [if_pos hid]

end Arena

open Arena

namespace World

variable {w : World} {k : Nat} {a b : Arena}

/-! ## 2. The identities of arenas -/

/-- What a realm keeps up on its own, whatever a program does. -/
structure Orderly (w : World) : Prop where
  vacant : ∀ k a, w.arena? k = some a → a.VacantExact
  distinct : ∀ k l a b, w.arena? k = some a → w.arena? l = some b → a.id = b.id → k = l
  taken : ∀ k a, w.arena? k = some a → a.id.number.toNat ≤ w.realm.taken

theorem orderly_start : Orderly start where
  vacant k a h := by simp [start, arena?, Realm.empty] at h
  distinct k l a b h := by simp [start, arena?, Realm.empty] at h
  taken k a h := by simp [start, arena?, Realm.empty] at h

/-- The index at which an action puts an arena with a new identity. -/
def renewed? (w : World) : Action → Option Nat
  | .addArena _ _ => some w.realm.arenas.size
  | .resetArena k _ => some k
  | _ => none

theorem taken_after (w : World) (act : Action) : (w.after act).realm.taken =
    w.realm.taken + if (w.renewed? act).isSome then 1 else 0 := by
  cases act with
  | addArena tracker tracer => rfl
  | resetArena k tracker => rfl
  | call k c =>
    simp only [World.after]
    cases w.arena? k <;> rfl
  | copyInto k l h =>
    simp only [World.after]
    cases w.arena? k <;> cases w.arena? l <;> rfl
  | forget h => rfl

theorem vacantExact_empty (id : ArenaId) (tracker : Tracker) (tracer : Tracer) :
    (Arena.empty id tracker tracer).VacantExact :=
  ⟨List.nodup_nil, fun i => by simp [Arena.empty]⟩

/-- What an action makes of the arena at `k`. -/
inductive Turn (w : World) (k : Nat) : Action → Arena → Prop
  | kept {act : Action} {a : Arena} : w.arena? k = some a → w.renewed? act ≠ some k →
      (∀ c, act ≠ .call k c) → Turn w k act a
  | called {a : Arena} (c : Call) : w.arena? k = some a → Turn w k (.call k c) (a.perform c).arena
  | copied {m : Nat} {s a : Arena} (h : Handle) : w.arena? m = some s → w.arena? k = some a →
      Turn w k (.copyInto m k h) (s.copyInto h a).arena
  | renewed {act : Action} (tracker : Tracker) (tracer : Tracer) : w.renewed? act = some k →
      Turn w k act (.empty w.realm.nextId tracker tracer)

/-- **What an action leaves at an index**: the arena there as it was, what a call on it or a copy
    into it left, or an empty arena with the next identity. -/
theorem after_turn {act : Action} (hb : (w.after act).arena? k = some b) : w.Turn k act b := by
  have some_ne : ∀ {m : Nat}, m ≠ k → (some m : Option Nat) ≠ some k := fun h e =>
    h (Option.some.inj e)
  have none_ne : (none : Option Nat) ≠ some k := (Option.some_ne_none k).symm
  cases act with
  | addArena tracker tracer =>
    rw [arena?_addArena] at hb
    by_cases e : k = w.realm.arenas.size
    · rw [if_pos e] at hb
      cases hb
      exact .renewed tracker tracer (congrArg some e.symm)
    · rw [if_neg e] at hb
      exact .kept hb (some_ne (Ne.symm e)) fun _ e => by cases e
  | resetArena l tracker =>
    rw [arena?_resetArena] at hb
    by_cases e : l = k
    · rw [if_pos e] at hb
      obtain ⟨a, _, rfl⟩ := Option.map_eq_some_iff.mp hb
      exact .renewed tracker a.tracer (congrArg some e)
    · rw [if_neg e] at hb
      exact .kept hb (some_ne e) fun _ e => by cases e
  | call l c =>
    cases ha : w.arena? l with
    | none =>
      simp only [World.after, ha] at hb
      refine .kept hb none_ne fun c' e => ?_
      cases e
      rw [ha] at hb
      cases hb
    | some a =>
      rw [after_call ha] at hb
      rcases arena?_book_cases ha hb with ⟨rfl, rfl⟩ | ⟨hne, hb'⟩
      · exact .called c ha
      · exact .kept hb' none_ne fun c' e => hne (by cases e; rfl)
  | copyInto m l h =>
    cases hs : w.arena? m with
    | none =>
      simp only [World.after, hs] at hb
      exact .kept hb none_ne fun _ e => by cases e
    | some s =>
      cases ht : w.arena? l with
      | none =>
        simp only [World.after, hs, ht] at hb
        exact .kept hb none_ne fun _ e => by cases e
      | some t =>
        rw [after_copyInto hs ht] at hb
        rcases arena?_book_cases ht hb with ⟨rfl, rfl⟩ | ⟨_, hb'⟩
        · exact .copied h hs ht
        · exact .kept hb' none_ne fun _ e => by cases e
  | forget h => exact .kept hb none_ne fun _ e => by cases e

/-- A copy only adds to its target. -/
theorem copyInto_grows {s t : Arena} (h : Handle) (v : t.VacantExact) :
    Grows t (s.copyInto h t).arena :=
  Outcome.always_iff.mp (Outcome.Ends.weaken (copyTo_grows s h v true) fun _ _ k => k.1)

/-- **After an action** the arena at an index has evolved, or it is empty and has the next
    identity. -/
theorem after_cases (o : w.Orderly) {act : Action} (hb : (w.after act).arena? k = some b) :
    (w.renewed? act ≠ some k ∧ ∃ a, w.arena? k = some a ∧ Evolves a b) ∨
    (w.renewed? act = some k ∧ b.id = w.realm.nextId ∧ b.VacantExact) := by
  cases after_turn hb with
  | kept ha hn _ => exact .inl ⟨hn, b, ha, .refl (o.vacant k b ha)⟩
  | called c ha =>
    exact .inl ⟨(Option.some_ne_none k).symm, _, ha, perform_evolves (o.vacant k _ ha) c⟩
  | copied h _ ha =>
    exact .inl ⟨(Option.some_ne_none k).symm, _, ha, (copyInto_grows h (o.vacant k _ ha)).toEvolves⟩
  | renewed tracker tracer hn => exact .inr ⟨hn, rfl, vacantExact_empty _ _ _⟩

theorem Orderly.after (o : w.Orderly) {act : Action} (h : (w.after act).realm.taken < 2 ^ 32) :
    (w.after act).Orderly := by
  have ht := taken_after w act
  have fresh : ∀ {k : Nat} {b : Arena}, w.renewed? act = some k → b.id = w.realm.nextId →
      b.id.number.toNat = w.realm.taken + 1 ∧ (w.after act).realm.taken = w.realm.taken + 1 := by
    intro k b hn hid
    have ht' : (w.after act).realm.taken = w.realm.taken + 1 := by rw [ht, hn]; rfl
    rw [hid]
    exact ⟨toNat_nextId (by omega), ht'⟩
  refine ⟨fun k b hb => ?_, fun k l b d hb hd e => ?_, fun k b hb => ?_⟩
  · rcases after_cases o hb with ⟨_, a, _, he⟩ | ⟨_, _, v⟩
    · exact he.vacant
    · exact v
  · rcases after_cases o hb with ⟨_, a, ha, he⟩ | ⟨hk, hid, _⟩
    · have h1 := o.taken k a ha
      rcases after_cases o hd with ⟨_, c, hc, hf⟩ | ⟨hl, hid, _⟩
      · exact o.distinct k l a c ha hc (he.id.symm.trans (e.trans hf.id))
      · have h2 := (fresh hl hid).1
        rw [← e, he.id] at h2
        omega
    · rcases after_cases o hd with ⟨_, c, hc, hf⟩ | ⟨hl, _, _⟩
      · have h1 := o.taken l c hc
        have h2 := (fresh hk hid).1
        rw [e, hf.id] at h2
        omega
      · rw [hk] at hl
        exact Option.some.inj hl
  · rcases after_cases o hb with ⟨_, a, ha, he⟩ | ⟨hk, hid, _⟩
    · have h1 := o.taken k a ha
      rw [he.id]
      omega
    · obtain ⟨h1, h2⟩ := fresh hk hid
      omega

/-- An arena is never taken away. -/
theorem arena?_after_isSome {act : Action} (h : (w.arena? k).isSome) :
    ((w.after act).arena? k).isSome := by
  have book : ∀ {l t id consumed r}, w.arena? l = some t →
      ((w.book l id consumed r).arena? k).isSome := by
    intro l t id consumed r ht
    rw [arena?_book w ht]
    split
    · rfl
    · exact h
  cases act with
  | addArena tracker tracer =>
    rw [arena?_addArena]
    split
    · rfl
    · exact h
  | resetArena l tracker =>
    rw [arena?_resetArena]
    split
    · rwa [Option.isSome_map]
    · exact h
  | call l c =>
    cases ha : w.arena? l with
    | none => simpa only [World.after, ha] using h
    | some a =>
      rw [after_call ha]
      exact book ha
  | copyInto m l x =>
    cases hs : w.arena? m with
    | none => simpa only [World.after, hs] using h
    | some s =>
      cases ht : w.arena? l with
      | none => simpa only [World.after, hs, ht] using h
      | some t =>
        rw [after_copyInto hs ht]
        exact book ht
  | forget x => exact h

/-! ## 3. Runs -/

theorem run_append (w : World) (acts later : List Action) :
    (w.run (acts ++ later)).1 = ((w.run acts).1.run later).1 := by
  induction acts generalizing w with
  | nil => rfl
  | cons act rest ih => exact ih (w.after act)

theorem arena?_run_isSome (acts : List Action) (h : (w.arena? k).isSome) :
    ((w.run acts).1.arena? k).isSome := by
  induction acts generalizing w with
  | nil => exact h
  | cons act rest ih => exact ih (arena?_after_isSome h)

theorem taken_le_after (w : World) (act : Action) :
    w.realm.taken ≤ (w.after act).realm.taken := by
  rw [taken_after]
  exact Nat.le_add_right _ _

theorem taken_le_run (w : World) (acts : List Action) :
    w.realm.taken ≤ (w.run acts).1.realm.taken := by
  induction acts generalizing w with
  | nil => exact Nat.le_refl _
  | cons act rest ih => exact (taken_le_after w act).trans (ih (w.after act))

theorem Orderly.run (o : w.Orderly) (acts : List Action)
    (h : (w.run acts).1.realm.taken < 2 ^ 32) : (w.run acts).1.Orderly := by
  induction acts generalizing w with
  | nil => exact o
  | cons act rest ih =>
    exact ih (o.after (Nat.lt_of_le_of_lt (taken_le_run (w.after act) rest) h)) h

/-- The actions do not reset the arena at `k`. -/
def NoReset (k : Nat) (acts : List Action) : Prop := ∀ tracker, .resetArena k tracker ∉ acts

/-- An arena that is there is renewed by a reset only. -/
theorem noReset_single (ha : w.arena? k = some a) (act : Action) :
    NoReset k [act] ↔ w.renewed? act ≠ some k := by
  have hlt : k < w.realm.arenas.size := (Array.getElem?_eq_some_iff.mp ha).1
  unfold NoReset
  cases act with
  | resetArena l tracker =>
    simp only [renewed?, ne_eq, Option.some.injEq, List.mem_singleton, Action.resetArena.injEq]
    constructor
    · intro h e
      exact h tracker ⟨e.symm, rfl⟩
    · exact fun h t e => h e.1.symm
  | addArena tracker tracer =>
    simp only [renewed?, ne_eq, Option.some.injEq, List.mem_singleton, reduceCtorEq,
      not_false_eq_true, implies_true, true_iff]
    omega
  | _ => simp [renewed?]

theorem noReset_cons {act : Action} {acts : List Action} :
    NoReset k (act :: acts) ↔ NoReset k [act] ∧ NoReset k acts := by
  simp only [NoReset, List.mem_cons, List.not_mem_nil, or_false, not_or, forall_and]

/-- **After a run** the arena that was at an index has evolved, unless it was reset: then the arena
    there has an identity that was not taken before. -/
theorem run_cases (o : w.Orderly) (acts : List Action) (h : (w.run acts).1.realm.taken < 2 ^ 32)
    (ha : w.arena? k = some a) (hb : (w.run acts).1.arena? k = some b) :
    (NoReset k acts ∧ Evolves a b) ∨ (¬ NoReset k acts ∧ w.realm.taken < b.id.number.toNat) := by
  induction acts generalizing w a with
  | nil =>
    cases ha.symm.trans hb
    exact .inl ⟨fun _ => List.not_mem_nil, .refl (o.vacant k _ ha)⟩
  | cons act rest ih =>
    have hle := taken_le_run (w.after act) rest
    have h' : (w.after act).realm.taken < 2 ^ 32 := Nat.lt_of_le_of_lt hle h
    have ht := taken_le_after w act
    have hthere : ((w.after act).arena? k).isSome := arena?_after_isSome (by rw [ha]; rfl)
    obtain ⟨c, hc⟩ := Option.isSome_iff_exists.mp hthere
    rw [noReset_cons, noReset_single ha]
    rcases after_cases o hc with ⟨hn, a', ha', he⟩ | ⟨hn, hid, v⟩
    · cases ha.symm.trans ha'
      rcases ih (o.after h') h hc hb with ⟨hr, hf⟩ | ⟨hr, hf⟩
      · exact .inl ⟨⟨hn, hr⟩, he.trans hf⟩
      · exact .inr ⟨fun x => hr x.2, by omega⟩
    · refine .inr ⟨fun x => x.1 hn, ?_⟩
      have ht' : (w.after act).realm.taken = w.realm.taken + 1 := by rw [taken_after, hn]; rfl
      have hnum : c.id.number.toNat = w.realm.taken + 1 := by
        rw [hid]
        exact toNat_nextId (by omega)
      rcases ih (o.after h') h hc hb with ⟨_, hf⟩ | ⟨_, hf⟩
      · rw [hf.id]
        omega
      · omega

/-- An arena that was not there has an identity that was not taken before. -/
theorem run_new (o : w.Orderly) (acts : List Action) (h : (w.run acts).1.realm.taken < 2 ^ 32)
    (ha : w.arena? k = none) (hb : (w.run acts).1.arena? k = some b) :
    w.realm.taken < b.id.number.toNat := by
  induction acts generalizing w with
  | nil =>
    rw [show w.arena? k = some b from hb] at ha
    cases ha
  | cons act rest ih =>
    have hle := taken_le_run (w.after act) rest
    have h' : (w.after act).realm.taken < 2 ^ 32 := Nat.lt_of_le_of_lt hle h
    have ht := taken_le_after w act
    cases hc : (w.after act).arena? k with
    | none =>
      have := ih (o.after h') h hc hb
      omega
    | some c =>
      rcases after_cases o hc with ⟨_, a, ha', _⟩ | ⟨hn, hid, _⟩
      · rw [ha] at ha'
        cases ha'
      · have ht' : (w.after act).realm.taken = w.realm.taken + 1 := by rw [taken_after, hn]; rfl
        have hnum : c.id.number.toNat = w.realm.taken + 1 := by
          rw [hid]
          exact toNat_nextId (by omega)
        rcases run_cases (o.after h') rest h hc hb with ⟨_, hf⟩ | ⟨_, hf⟩
        · rw [hf.id]
          omega
        · omega

/-! ## 4. Lifetimes -/

/-- The value stays in its slot of the arena at `k`: after no part of the actions is it gone. -/
def Survives (w : World) (k : Nat) (o : ObjectId) (acts : List Action) : Prop :=
  ∀ part, part <+: acts → ∃ b, (w.run part).1.arena? k = some b ∧ b.Alive o

/-- The handles that an action has the arena at `k` issue. -/
def issues (w : World) (act : Action) (k : Nat) : List Handle :=
  match act with
  | .call l c =>
    match w.arena? l with
    | some a => if l = k then (a.perform c).issued else []
    | none => []
  | .copyInto m l h =>
    match w.arena? m, w.arena? l with
    | some a, some t => if l = k then ((a.copyInto h t).map .handle).issued else []
    | _, _ => []
  | _ => []

/-- **A handle that is issued names a value** of the arena that issues it. -/
theorem resolves_of_issues (o : w.Orderly) {act : Action} {h : Handle} (hh : h ∈ w.issues act k)
    (ha : (w.after act).arena? k = some a) : a.resolves h := by
  unfold issues at hh
  split at hh
  · rename_i l c
    cases hl : w.arena? l with
    | none =>
      rw [hl] at hh
      cases hh
    | some b =>
      simp only [hl] at hh
      split at hh
      · rename_i e
        subst e
        rw [after_call hl, arena?_book w hl, if_pos rfl] at ha
        cases ha
        exact perform_issued (o.vacant l b hl) c h hh
      · cases hh
  · rename_i m l x
    cases hm : w.arena? m with
    | none =>
      simp only [hm] at hh
      cases hh
    | some s =>
      cases hl : w.arena? l with
      | none =>
        simp only [hm, hl] at hh
        cases hh
      | some t =>
        simp only [hm, hl] at hh
        split at hh
        · rename_i e
          subst e
          rw [after_copyInto hm hl, arena?_book w hl, if_pos rfl] at ha
          cases ha
          have hg : (s.copyInto x t).Ends _ _ _ := copyTo_grows s x (o.vacant l t hl) true
          unfold Outcome.Ends at hg
          unfold Outcome.issued Outcome.map at hh
          cases hx : (s.copyInto x t).answer with
          | ok g =>
            rw [hx] at hg hh
            rw [List.mem_singleton.mp hh]
            exact hg.2
          | error e =>
            rw [hx] at hh
            cases hh
        · cases hh
  · cases hh

section Lifetime

variable {acts : List Action} {h : Handle}

/-- The identity that a handle carries is that of the arena it was issued by, until a reset. -/
theorem arena_eq_iff (o : w.Orderly) (hlt : (w.run acts).1.realm.taken < 2 ^ 32)
    (ha : w.arena? k = some a) (hres : a.resolves h) {l : Nat}
    (hb : (w.run acts).1.arena? l = some b) : h.arena = b.id ↔ l = k ∧ NoReset k acts := by
  have hid : h.arena = a.id := congrArg Handle.arena (resolves_iff_handleOf.mp hres).2
  have htaken := o.taken k a ha
  rw [hid]
  constructor
  · intro e
    cases hl : w.arena? l with
    | none =>
      have := run_new o acts hlt hl hb
      rw [← e] at this
      omega
    | some c =>
      rcases run_cases o acts hlt hl hb with ⟨hr, he⟩ | ⟨_, hn⟩
      · have e' := o.distinct k l a c ha hl (e.trans he.id)
        exact ⟨e'.symm, e' ▸ hr⟩
      · rw [← e] at hn
        omega
  · rintro ⟨rfl, hr⟩
    rcases run_cases o acts hlt ha hb with ⟨_, he⟩ | ⟨hn, _⟩
    · exact he.id.symm
    · exact absurd hr hn

/-- **A handle names a value as long as the value survives.** -/
theorem resolves_iff_survives (o : w.Orderly) (hlt : (w.run acts).1.realm.taken < 2 ^ 32)
    (ha : w.arena? k = some a) (hres : a.resolves h) (hr : NoReset k acts)
    (hb : (w.run acts).1.arena? k = some b) (hwrap : a.refillsSince b h.slot < 2 ^ 32) :
    b.resolves h ↔ w.Survives k (a.object h.slot) acts := by
  have he : Evolves a b := by
    rcases run_cases o acts hlt ha hb with ⟨_, he⟩ | ⟨hn, _⟩
    · exact he
    · exact absurd hr hn
  rw [he.resolves_iff hres hwrap]
  constructor
  · rintro hal part ⟨later, rfl⟩
    have hpart : NoReset k part := fun t ht => hr t (List.mem_append_left _ ht)
    have hlater : NoReset k later := fun t ht => hr t (List.mem_append_right _ ht)
    rw [run_append] at hlt hb
    have hlt' := Nat.lt_of_le_of_lt (taken_le_run _ later) hlt
    obtain ⟨c, hc⟩ := Option.isSome_iff_exists.mp
      (arena?_run_isSome part (by rw [ha]; rfl : (w.arena? k).isSome))
    have h1 := (run_cases o part hlt' ha hc).resolve_right fun x => x.1 hpart
    have h2 := (run_cases (o.run part hlt') later hlt hc hb).resolve_right fun x => x.1 hlater
    have hl := (resolves_iff_handleOf.mp hres).1
    exact ⟨c, hc, h1.2.alive_between h2.2 (alive_object hl) hal⟩
  · intro hs
    obtain ⟨c, hc, hal⟩ := hs acts (List.prefix_refl acts)
    cases hb.symm.trans hc
    exact hal

end Lifetime

end World

end ValueHeap
