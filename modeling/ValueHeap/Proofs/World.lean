import ValueHeap.Proofs.Calls
import ValueHeap.Realm

/-!
# Runs: what a program can do with its arenas

A `World` is the arenas of a program together with the handles it has. An `Action` makes an arena,
resets one, performs a call, copies from one arena into another, or forgets a handle. The program
hands a handle over at most once; a handle that it forgets, or hands to an arena that did not issue
it, is lost, and its reference is never given back.

A run goes on as long as no counter of a tracker leaves its range, since that ends the program, no
slot has been filled again `2 ^ 32` times, and no `2 ^ 32` identities have been taken.

* `World.Sound` is the invariant: each arena is coherent with all handles that are held or lost;
* `Sound.after`: every permitted action keeps it; **`Reachable.sound`**: so it holds of every run;
* `reachable_run`: a run that is permitted can be checked by computing it.
-/

namespace ValueHeap

open Arena

namespace Arena.Outcome

variable {α β : Type}

/-- The fault that ended an operation, if one did. -/
def fault? (r : Outcome α) : Option Fault :=
  match r.answer with
  | .error (.fault f) => some f
  | _ => none

theorem fault?_eq_some {r : Outcome α} {f : Fault} :
    r.fault? = some f ↔ r.answer = .error (.fault f) := by
  unfold fault?
  rcases r.answer with (e | g) | x <;> simp

theorem fault?_map (f : α → β) (r : Outcome α) : (r.map f).fault? = r.fault? := by
  obtain ⟨(e | g) | x, a⟩ := r <;> rfl

/-- The operation left no counter and no generation beyond its range. -/
structure InRange (r : Outcome α) : Prop where
  counters : r.fault? ≠ some .counterOverflow
  generations : r.arena.Unwrapped

instance (r : Outcome α) : Decidable r.InRange :=
  decidable_of_iff (r.fault? ≠ some .counterOverflow ∧ r.arena.Unwrapped)
    ⟨fun h => ⟨h.1, h.2⟩, fun h => ⟨h.1, h.2⟩⟩

/-- An operation without a fault that fills no slot again is within range. -/
theorem inRange_of_refills {r : Outcome α} (hf : r.fault? = none) {n : Nat}
    (hc : r.arena.cells.toList.map (·.refills) = List.replicate n 0) : r.InRange := by
  refine ⟨by rw [hf]; exact (Option.some_ne_none _).symm, fun c hm => ?_⟩
  have hm := List.mem_map_of_mem (f := Cell.refills) (Array.mem_toList_iff.mpr hm)
  rw [hc] at hm
  rw [List.eq_of_mem_replicate hm]
  decide

/-- The handles that an operation answers with. -/
def issued (r : Outcome Answer) : List Handle :=
  match r.answer with
  | .ok x => x.issued
  | .error _ => []

end Arena.Outcome

/-! ## 1. Worlds and actions -/

/-- The arenas of a program, and the handles that were issued to it and not given back. -/
structure World where
  realm : Realm
  /-- The handles the program can still hand over. -/
  held : List Handle
  /-- The handles that were forgotten or handed to an arena that did not issue them. -/
  lost : List Handle

/-- What a program does next. -/
inductive Action
  | addArena (tracker : Tracker) (tracer : Tracer)
  | resetArena (k : Nat) (tracker : Tracker)
  | call (k : Nat) (c : Call)
  /-- Copies from the arena at `k` into another one, that at `l`. -/
  | copyInto (k l : Nat) (h : Handle)
  | forget (h : Handle)

namespace World

/-- The world at the start of a program. -/
def start : World := ⟨.empty, [], []⟩

/-- The arena at an index. -/
def arena? (w : World) (k : Nat) : Option Arena := w.realm.arenas[k]?

/-- All handles that were issued and not given back. -/
def outstanding (w : World) : List Handle := w.held ++ w.lost

/-- The world after an operation on the arena at `k`, whose identity is `id`: the handles it took
    over are no longer held, and those of other arenas are lost. -/
def book (w : World) (k : Nat) (id : ArenaId) (consumed : List Handle) (r : Outcome Answer) :
    World where
  realm := w.realm.setArena k r.arena
  held := r.issued ++ w.held.diff consumed
  lost := consumed.filter (fun h => h.arena != id) ++ w.lost

/-- The world after an action. -/
def after (w : World) : Action → World
  | .addArena tracker tracer => { w with realm := w.realm.addArena tracker tracer }
  | .resetArena k tracker => { w with realm := w.realm.resetArena k tracker }
  | .call k c =>
    match w.arena? k with
    | some a => w.book k a.id c.consumed (a.perform c)
    | none => w
  | .copyInto k l h =>
    match w.arena? k, w.arena? l with
    | some a, some t => w.book l t.id [] ((a.copyInto h t).map .handle)
    | _, _ => w
  | .forget h => { w with held := w.held.erase h, lost := h :: w.lost }

/-- The actions a program can take: on arenas that there are, handing over handles that it holds,
    within the range of counters, generations and identities. -/
def Permits (w : World) : Action → Prop
  | .addArena _ _ => w.realm.taken + 1 < 2 ^ 32
  | .resetArena _ _ => w.realm.taken + 1 < 2 ^ 32
  | .call k c =>
    match w.arena? k with
    | some a => c.consumed.Subperm w.held ∧ (a.perform c).InRange
    | none => False
  | .copyInto k l h =>
    match w.arena? k, w.arena? l with
    | some a, some t => k ≠ l ∧ (a.copyInto h t).InRange
    | _, _ => False
  | .forget h => h ∈ w.held

instance (w : World) (act : Action) : Decidable (w.Permits act) :=
  match act with
  | .addArena _ _ => inferInstanceAs (Decidable (w.realm.taken + 1 < 2 ^ 32))
  | .resetArena _ _ => inferInstanceAs (Decidable (w.realm.taken + 1 < 2 ^ 32))
  | .call k c =>
    match h : w.arena? k with
    | some a =>
      decidable_of_iff (c.consumed.Subperm w.held ∧ (a.perform c).InRange) (by simp [Permits, h])
    | none => .isFalse (by simp [Permits, h])
  | .copyInto k l h =>
    match hk : w.arena? k, hl : w.arena? l with
    | some a, some t =>
      decidable_of_iff (k ≠ l ∧ (a.copyInto h t).InRange) (by simp [Permits, hk, hl])
    | none, _ => .isFalse (by simp [Permits, hk])
    | some _, none => .isFalse (by simp [Permits, hk, hl])
  | .forget h => inferInstanceAs (Decidable (h ∈ w.held))

/-- The worlds that a program can reach. -/
inductive Reachable : World → Prop
  | start : Reachable .start
  | step {w : World} {act : Action} : Reachable w → w.Permits act → Reachable (w.after act)

/-- The world after some actions, and whether each of them was permitted. -/
def run (w : World) : List Action → World × Bool
  | [] => (w, true)
  | act :: rest =>
    let (u, permitted) := (w.after act).run rest
    (u, decide (w.Permits act) && permitted)

theorem Reachable.run {w : World} (hw : w.Reachable) (acts : List Action)
    (h : (w.run acts).2 = true) : (w.run acts).1.Reachable := by
  induction acts generalizing w with
  | nil => exact hw
  | cons act rest ih =>
    obtain ⟨h1, h2⟩ := Bool.and_eq_true_iff.mp h
    exact ih (hw.step (of_decide_eq_true h1)) h2

/-- **A run that is permitted leads to a reachable world.** -/
theorem reachable_run (acts : List Action) (h : (start.run acts).2 = true) :
    (start.run acts).1.Reachable := Reachable.start.run acts h

/-! ## 2. The invariant -/

/-- **The invariant of a world.** -/
structure Sound (w : World) : Prop where
  coherent : ∀ k a, w.arena? k = some a → a.Coherent w.outstanding []
  unwrapped : ∀ k a, w.arena? k = some a → a.Unwrapped
  /-- No two arenas share an identity. -/
  distinct : ∀ k l a b, w.arena? k = some a → w.arena? l = some b → a.id = b.id → k = l
  /-- The identities of arenas and handles have been taken. -/
  taken : ∀ k a, w.arena? k = some a → a.id.number.toNat ≤ w.realm.taken
  known : ∀ h ∈ w.outstanding, h.arena.number.toNat ≤ w.realm.taken

theorem sound_start : Sound start where
  coherent k a h := by simp [start, arena?, Realm.empty] at h
  unwrapped k a h := by simp [start, arena?, Realm.empty] at h
  distinct k l a b h := by simp [start, arena?, Realm.empty] at h
  taken k a h := by simp [start, arena?, Realm.empty] at h
  known h hm := by cases hm

variable {w : World} {k : Nat} {a b : Arena}

/-! ## 3. New identities -/

theorem toNat_nextId {r : Realm} (h : r.taken + 1 < 2 ^ 32) :
    r.nextId.number.toNat = r.taken + 1 := Nat.mod_eq_of_lt h

/-- The next identity is that of no arena and no handle. -/
theorem Sound.nextId_fresh (s : w.Sound) (h : w.realm.taken + 1 < 2 ^ 32) :
    (∀ k a, w.arena? k = some a → a.id ≠ w.realm.nextId) ∧
      ∀ g ∈ w.outstanding, g.arena ≠ w.realm.nextId := by
  have hn := toNat_nextId h
  constructor
  · intro k a ha e
    have ht := s.taken k a ha
    rw [e, hn] at ht
    omega
  · intro g hg e
    have ht := s.known g hg
    rw [e, hn] at ht
    omega

theorem arena?_addArena (w : World) (tracker : Tracker) (tracer : Tracer) (k : Nat) :
    (w.after (.addArena tracker tracer)).arena? k = if k = w.realm.arenas.size then
      some (.empty w.realm.nextId tracker tracer) else w.arena? k :=
  Array.getElem?_push

theorem unwrapped_empty (id : ArenaId) (tracker : Tracker) (tracer : Tracer) :
    (Arena.empty id tracker tracer).Unwrapped := fun c hc => by
  simp [Arena.empty] at hc

theorem arena?_resetArena (w : World) (l : Nat) (tracker : Tracker) (k : Nat) :
    (w.after (.resetArena l tracker)).arena? k = if l = k then
      (w.arena? k).map (·.reset w.realm.nextId tracker) else w.arena? k :=
  Array.getElem?_modify

/-- **A new arena in one place keeps the invariant**: nothing in it, and a new identity. -/
theorem Sound.renew (s : w.Sound) (h : w.realm.taken + 1 < 2 ^ 32) {u : World} (m : Nat)
    (hout : u.outstanding = w.outstanding) (htaken : u.realm.taken = w.realm.taken + 1)
    (hcases : ∀ k a, u.arena? k = some a →
      (k = m ∧ ∃ tracker tracer, a = .empty w.realm.nextId tracker tracer) ∨
        (k ≠ m ∧ w.arena? k = some a)) : u.Sound := by
  obtain ⟨hids, hhandles⟩ := s.nextId_fresh h
  refine ⟨fun k a ha => ?_, fun k a ha => ?_, fun k l a b ha hb e => ?_, fun k a ha => ?_,
    fun g hg => ?_⟩
  · rw [hout]
    rcases hcases k a ha with ⟨_, _, _, rfl⟩ | ⟨_, ha'⟩
    · exact .empty _ _ _ hhandles
    · exact s.coherent k a ha'
  · rcases hcases k a ha with ⟨_, _, _, rfl⟩ | ⟨_, ha'⟩
    · exact unwrapped_empty _ _ _
    · exact s.unwrapped k a ha'
  · rcases hcases k a ha with ⟨hk, _, _, rfl⟩ | ⟨_, ha'⟩
    · rcases hcases l b hb with ⟨hl, _⟩ | ⟨_, hb'⟩
      · rw [hk, hl]
      · exact absurd e.symm (hids l b hb')
    · rcases hcases l b hb with ⟨_, _, _, rfl⟩ | ⟨_, hb'⟩
      · exact absurd e (hids k a ha')
      · exact s.distinct k l a b ha' hb' e
  · rw [htaken]
    rcases hcases k a ha with ⟨_, _, _, rfl⟩ | ⟨_, ha'⟩
    · exact (toNat_nextId h).le
    · exact Nat.le_succ_of_le (s.taken k a ha')
  · rw [htaken]
    exact Nat.le_succ_of_le (s.known g (hout ▸ hg))

theorem Sound.addArena (s : w.Sound) {tracker : Tracker} {tracer : Tracer}
    (h : w.realm.taken + 1 < 2 ^ 32) : (w.after (.addArena tracker tracer)).Sound := by
  refine s.renew h w.realm.arenas.size rfl rfl fun k a ha => ?_
  rw [arena?_addArena] at ha
  by_cases hk : k = w.realm.arenas.size
  · rw [if_pos hk] at ha
    exact .inl ⟨hk, tracker, tracer, (Option.some.inj ha).symm⟩
  · rw [if_neg hk] at ha
    exact .inr ⟨hk, ha⟩

theorem Sound.resetArena (s : w.Sound) {l : Nat} {tracker : Tracker}
    (h : w.realm.taken + 1 < 2 ^ 32) : (w.after (.resetArena l tracker)).Sound := by
  refine s.renew h l rfl rfl fun k a ha => ?_
  rw [arena?_resetArena] at ha
  by_cases hk : l = k
  · rw [if_pos hk] at ha
    obtain ⟨b, _, rfl⟩ := Option.map_eq_some_iff.mp ha
    exact .inl ⟨hk.symm, tracker, b.tracer, rfl⟩
  · rw [if_neg hk] at ha
    exact .inr ⟨Ne.symm hk, ha⟩

/-! ## 4. Handles that move -/

theorem Sound.congr_outstanding {u : World} (s : w.Sound) (hr : u.realm = w.realm)
    (h : u.outstanding.Perm w.outstanding) : u.Sound := by
  have hget : ∀ k, u.arena? k = w.arena? k := fun k => by
    unfold arena?
    rw [hr]
  refine ⟨fun k a ha => ?_, fun k a ha => ?_, fun k l a b ha hb => ?_, fun k a ha => ?_,
    fun g hg => ?_⟩
  · rw [hget] at ha
    exact (s.coherent k a ha).perm_ledger h
  · rw [hget] at ha
    exact s.unwrapped k a ha
  · rw [hget] at ha hb
    exact s.distinct k l a b ha hb
  · rw [hget] at ha
    rw [hr]
    exact s.taken k a ha
  · rw [hr]
    exact s.known g (h.mem_iff.mp hg)

theorem Sound.forget (s : w.Sound) {h : Handle} (hm : h ∈ w.held) :
    (w.after (.forget h)).Sound := by
  refine s.congr_outstanding rfl ?_
  show (w.held.erase h ++ h :: w.lost).Perm (w.held ++ w.lost)
  exact List.perm_middle.trans ((List.perm_cons_erase hm).symm.append_right w.lost)

theorem arena?_book (w : World) {k : Nat} {a : Arena} (ha : w.arena? k = some a) (id : ArenaId)
    (consumed : List Handle) (r : Outcome Answer) (l : Nat) :
    (w.book k id consumed r).arena? l = if l = k then some r.arena else w.arena? l := by
  have hlt : k < w.realm.arenas.size := (Array.getElem?_eq_some_iff.mp ha).1
  unfold arena? book Realm.setArena
  rw [Array.getElem?_setIfInBounds]
  by_cases h : l = k
  · rw [if_pos h.symm, if_pos hlt, if_pos h]
  · rw [if_neg (Ne.symm h), if_neg h]

/-- What is held is what is taken over and what is kept. -/
theorem perm_consumed {consumed held : List Handle} (h : consumed.Subperm held) :
    (consumed ++ held.diff consumed).Perm held :=
  List.subperm_append_diff_self_of_count_le fun x _ => h.count_le x

/-- After an operation the arena it was on is what it left, and the others are as they were. -/
theorem arena?_book_cases (ha : w.arena? k = some a) {id : ArenaId} {consumed : List Handle}
    {r : Outcome Answer} {l : Nat} {b : Arena} (hb : (w.book k id consumed r).arena? l = some b) :
    (l = k ∧ b = r.arena) ∨ (l ≠ k ∧ w.arena? l = some b) := by
  rw [arena?_book w ha] at hb
  by_cases h : l = k
  · rw [if_pos h] at hb
    exact .inl ⟨h, (Option.some.inj hb).symm⟩
  · rw [if_neg h] at hb
    exact .inr ⟨h, hb⟩

theorem outstanding_book (w : World) (k : Nat) (id : ArenaId) (consumed : List Handle)
    (r : Outcome Answer) : (w.book k id consumed r).outstanding =
      (r.issued ++ w.held.diff consumed) ++ (consumed.filter (fun h => h.arena != id) ++ w.lost) :=
  rfl

/-- Of the arena's own handles, those that were handed over are given back. -/
theorem count_book_own {id : ArenaId} {consumed : List Handle} {r : Outcome Answer} {h : Handle}
    (hh : h.arena = id) : (w.book k id consumed r).outstanding.count h =
      (r.issued ++ (w.held.diff consumed ++ w.lost)).count h := by
  have h0 : (consumed.filter fun h => h.arena != id).count h = 0 := by
    refine List.count_eq_zero.mpr fun hm => ?_
    have hne := (List.mem_filter.mp hm).2
    simp [hh] at hne
  rw [outstanding_book]
  simp only [List.count_append, h0]
  omega

/-- The handles of other arenas are all outstanding still: those handed over are lost. -/
theorem count_book_other {id : ArenaId} {consumed : List Handle} {r : Outcome Answer} {h : Handle}
    (hc : consumed.Subperm w.held) (hown : ∀ h ∈ r.issued, h.arena = id) (hh : h.arena ≠ id) :
    (w.book k id consumed r).outstanding.count h = w.outstanding.count h := by
  have h0 : r.issued.count h = 0 := List.count_eq_zero.mpr fun hm => hh (hown h hm)
  have h1 : (consumed.filter fun h => h.arena != id).count h = consumed.count h :=
    List.count_filter (by simp [hh])
  have h2 : consumed.count h + (w.held.diff consumed).count h = w.held.count h := by
    rw [← List.count_append]
    exact (perm_consumed hc).count_eq h
  rw [outstanding_book]
  unfold outstanding
  simp only [List.count_append, h0, h1]
  omega

/-- Every handle that is outstanding was issued now or was outstanding before. -/
theorem mem_outstanding_book {id : ArenaId} {consumed : List Handle} {r : Outcome Answer}
    {g : Handle} (hc : consumed.Subperm w.held)
    (hg : g ∈ (w.book k id consumed r).outstanding) : g ∈ r.issued ∨ g ∈ w.outstanding := by
  rw [outstanding_book] at hg
  rcases List.mem_append.mp hg with hg | hg
  · rcases List.mem_append.mp hg with hg | hg
    · exact .inl hg
    · exact .inr (List.mem_append_left _ ((List.diff_subset w.held consumed) hg))
  · rcases List.mem_append.mp hg with hg | hg
    · exact .inr (List.mem_append_left _ (hc.subset (List.mem_filter.mp hg).1))
    · exact .inr (List.mem_append_right _ hg)

/-- **An operation that settles its handles keeps the invariant of the world.** -/
theorem Sound.book (s : w.Sound) (ha : w.arena? k = some a) {consumed : List Handle}
    {r : Outcome Answer} (hc : consumed.Subperm w.held)
    (hcoh : r.arena.Coherent (r.issued ++ (w.held.diff consumed ++ w.lost)) [])
    (hid : r.arena.id = a.id) (hown : ∀ h ∈ r.issued, h.arena = a.id) (hu : r.arena.Unwrapped) :
    (w.book k a.id consumed r).Sound := by
  -- every arena has the identity that the one in its place had
  have hids : ∀ l b, (w.book k a.id consumed r).arena? l = some b →
      ∃ b', w.arena? l = some b' ∧ b.id = b'.id := by
    intro l b hb
    rcases arena?_book_cases ha hb with ⟨rfl, rfl⟩ | ⟨_, hb'⟩
    · exact ⟨a, ha, hid⟩
    · exact ⟨b, hb', rfl⟩
  refine ⟨fun l b hb => ?_, fun l b hb => ?_, fun l m b d hb hd e => ?_, fun l b hb => ?_,
    fun g hg => ?_⟩
  · rcases arena?_book_cases ha hb with ⟨_, rfl⟩ | ⟨hl, hb'⟩
    · exact hcoh.congr_ledger fun h hh => count_book_own (hh.trans hid)
    · -- no handle of another arena was issued or given back
      refine (s.coherent l b hb').congr_ledger fun h hh => count_book_other hc hown fun e => ?_
      exact hl (s.distinct l k b a hb' ha (hh.symm.trans e))
  · rcases arena?_book_cases ha hb with ⟨_, rfl⟩ | ⟨_, hb'⟩
    · exact hu
    · exact s.unwrapped l b hb'
  · obtain ⟨b', hb', eb⟩ := hids l b hb
    obtain ⟨d', hd', ed⟩ := hids m d hd
    exact s.distinct l m b' d' hb' hd' (eb.symm.trans (e.trans ed))
  · obtain ⟨b', hb', eb⟩ := hids l b hb
    rw [eb]
    exact s.taken l b' hb'
  · rcases mem_outstanding_book hc hg with hg | hg
    · rw [hown g hg]
      exact s.taken k a ha
    · exact s.known g hg

/-! ## 5. Calls and copies -/

theorem consumed_of_badHandle {c : Call} {f : Fault} (h : a.badHandle? c = some f) :
    c.consumed = [] := by
  cases c <;> first | rfl | cases h

/-- What a call within range leaves is coherent with the handles it answers with. -/
theorem perform_coherent {ledger : List Handle} (c : Call)
    (co : a.Coherent (c.consumed ++ ledger) []) (hr : (a.perform c).InRange) :
    (a.perform c).arena.Coherent ((a.perform c).issued ++ ledger) [] := by
  have hs := perform_settles c co
  have hu := hr.generations
  have hf := hr.counters
  unfold Settles Outcome.Ends at hs
  unfold Outcome.fault? at hf
  unfold Outcome.issued
  cases hx : (a.perform c).answer with
  | ok x =>
    rw [hx] at hs
    exact hs hu
  | error e =>
    rw [hx] at hs hf
    cases e with
    | error e => exact hs hu
    | fault f =>
      rcases hs with k | ⟨hbad, hb⟩
      · exact absurd (congrArg some (k hu)) hf
      · rw [consumed_of_badHandle hbad] at co
        rw [hb]
        exact co

/-- A call within range keeps the identity, and answers with handles of the arena. -/
theorem perform_own {ledger : List Handle} (co : a.Coherent ledger []) (c : Call)
    (hu : (a.perform c).InRange) : (a.perform c).arena.id = a.id ∧
      ∀ h ∈ (a.perform c).issued, h.arena = a.id := by
  have ho := perform_owns co c
  have hfault := fun f => fault_iff_badHandle co c hu.generations (f := f)
  have hf := hu.counters
  unfold Outcome.Owns Outcome.Ends at ho
  unfold Outcome.fault? at hf
  unfold Outcome.issued
  cases hx : (a.perform c).answer with
  | ok x =>
    rw [hx] at ho
    exact ho
  | error e =>
    rw [hx] at ho hf hfault
    refine ⟨?_, fun h hh => by cases hh⟩
    cases e with
    | error e => exact ho
    | fault f =>
      have hne : f ≠ .counterOverflow := fun e => hf (congrArg some e)
      rw [fault_of_badHandle ((hfault f hne).mp rfl)]
      rfl

theorem permits_call {c : Call} : w.Permits (.call k c) ↔
    ∃ a, w.arena? k = some a ∧ c.consumed.Subperm w.held ∧ (a.perform c).InRange := by
  simp only [Permits]
  cases w.arena? k <;> simp

theorem after_call (ha : w.arena? k = some a) (c : Call) :
    w.after (.call k c) = w.book k a.id c.consumed (a.perform c) := by
  simp only [World.after, ha]

theorem permits_copyInto {l : Nat} {h : Handle} : w.Permits (.copyInto k l h) ↔
    ∃ a t, w.arena? k = some a ∧ w.arena? l = some t ∧ k ≠ l ∧ (a.copyInto h t).InRange := by
  simp only [Permits]
  cases w.arena? k <;> cases w.arena? l <;> simp

theorem after_copyInto {l : Nat} {t : Arena} (ha : w.arena? k = some a) (ht : w.arena? l = some t)
    (h : Handle) : w.after (.copyInto k l h) =
      w.book l t.id [] ((a.copyInto h t).map .handle) := by
  simp only [World.after, ha, ht]

theorem Sound.call (s : w.Sound) {c : Call} (hp : w.Permits (.call k c)) :
    (w.after (.call k c)).Sound := by
  obtain ⟨a, ha, hc, hr⟩ := permits_call.mp hp
  have co := s.coherent k a ha
  have hperm : (c.consumed ++ (w.held.diff c.consumed ++ w.lost)).Perm w.outstanding := by
    rw [← List.append_assoc]
    exact (perm_consumed hc).append_right w.lost
  obtain ⟨hid, hown⟩ := perform_own co c hr
  rw [after_call ha]
  exact s.book ha hc (perform_coherent c (co.perm_ledger hperm) hr) hid hown hr.generations

/-- What a copy within range leaves: the handle it answers with, if any, is outstanding. -/
theorem copyInto_coherent {t : Arena} {h : Handle} {la lt : List Handle} (ca : a.Coherent la [])
    (ct : t.Coherent lt []) (hr : (a.copyInto h t).InRange) :
    (a.copyInto h t).arena.Coherent (((a.copyInto h t).map .handle).issued ++ lt) [] ∧
      (a.copyInto h t).arena.id = t.id ∧
      ∀ g ∈ ((a.copyInto h t).map .handle).issued, g.arena = t.id := by
  have hm : (a.copyInto h t).Meets _ _ := copyTo_meets (h := h) ca ct.vacant true
  have hu := hr.generations
  have hf := hr.counters
  unfold Outcome.Meets Outcome.Ends at hm
  unfold Outcome.fault? at hf
  unfold Outcome.issued Outcome.map
  cases hx : (a.copyInto h t).answer with
  | ok g =>
    rw [hx] at hm
    obtain ⟨hlive, f, hcopy⟩ := hm
    refine ⟨hcopy.coherent ca hlive ct hu, hcopy.id, fun x hx' => ?_⟩
    rw [List.mem_singleton.mp hx', hcopy.handle]
    exact hcopy.id
  | error e =>
    rw [hx] at hm hf
    cases e with
    | error e => exact ⟨hm.coherent ct, hm.id, fun x hx' => by cases hx'⟩
    | fault f => exact absurd (congrArg some (hm hu)) hf

theorem Sound.copyInto (s : w.Sound) {l : Nat} {h : Handle} (hp : w.Permits (.copyInto k l h)) :
    (w.after (.copyInto k l h)).Sound := by
  obtain ⟨a, t, ha, ht, _, hr⟩ := permits_copyInto.mp hp
  obtain ⟨hcoh, hid, hown⟩ := copyInto_coherent (s.coherent k a ha) (s.coherent l t ht) hr
  rw [after_copyInto ha ht]
  exact s.book ht List.nil_subperm hcoh hid hown hr.generations

/-! ## 6. Runs -/

/-- **Every permitted action keeps the invariant.** -/
theorem Sound.after (s : w.Sound) {act : Action} (hp : w.Permits act) : (w.after act).Sound := by
  cases act with
  | addArena tracker tracer => exact s.addArena hp
  | resetArena k tracker => exact s.resetArena hp
  | call k c => exact s.call hp
  | copyInto k l h => exact s.copyInto hp
  | forget h => exact s.forget hp

/-- **The invariant holds in every world that a program can reach.** -/
theorem Reachable.sound (hw : w.Reachable) : w.Sound := by
  induction hw with
  | start => exact sound_start
  | step _ hp ih => exact ih.after hp

end World

end ValueHeap
