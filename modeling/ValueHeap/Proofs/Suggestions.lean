import Mathlib.Algebra.Order.BigOperators.Group.List
import Mathlib.Algebra.Order.Ring.Nat
import ValueHeap.Proofs.Enforcement

/-!
# When a garbage collection is suggested

Every slot that is filled with a container counts towards the next suggestion, also one that a
roll-back empties again; only a garbage collection, or a new arena, starts the count anew. So the
suggestion can be read off the journal since then.

The count is kept in 64 bits and starts over after `2 ^ 64` containers. Before that it is exact; and
an arena fills so many slots only if it has many of them, since every slot is filled `2 ^ 32` times
at most before its generations start over.

* `Drawn.containersBuilt`: the count follows the journal; `sweep_recounts`: where it starts anew;
* `Drawn.fillings`: what slots are filled, their generations tell; `fillings_le`;
* `Drawn.gcInterval?`: what the tracker says of collections is never changed;
* `World.containers_told`: what a single call tells;
* **`World.suggested_exactly`**.
-/

namespace ValueHeap

open Arena

/-- A slot is filled with a container. -/
def Event.FillsContainer : Event → Bool
  | allocate _ kind => kind.holdsReferences
  | _ => false

/-- The tracer is told of every container that is put into a slot. -/
theorem countP_containers_heard (log : List Stroke) :
    (heard log).countP Event.FillsContainer = (log.map Stroke.containers).sum := by
  induction log with
  | nil => rfl
  | cons s log ih =>
    have hone : s.events.countP Event.FillsContainer = s.containers := by
      cases s with
      | filled i p n => exact List.countP_singleton
      | _ => rfl
    rw [heard_cons, List.countP_append, hone, ih, List.map_cons, List.sum_cons]

/-- A container is put into a slot that is filled. -/
theorem countP_containers_le (es : List Event) :
    es.countP Event.FillsContainer ≤ es.countP Event.Fills := by
  refine List.countP_mono_left fun e _ h => ?_
  cases e with
  | allocate => rfl
  | _ => exact absurd h Bool.false_ne_true

namespace Tracker

variable {t : Tracker} {size : Nat}

/-- What the tracker says of how often to collect, if anything. -/
def gcInterval? : Tracker → Option Nat
  | unlimited => none
  | lenient limits _ | strict limits _ => limits.gcInterval

/-- Where nothing is said, a collection is suggested after a hundred thousand containers. -/
theorem interval_eq (t : Tracker) : t.interval = t.gcInterval?.getD 100000 := by
  cases t <;> rfl

theorem gcInterval?_charge : (t.charge size).2.gcInterval? = t.gcInterval? := by
  unfold charge
  split
  · rfl
  · split
    · split <;> rfl
    · rfl
  · split
    · split <;> rfl
    · rfl

theorem gcInterval?_refund : (t.refund size).gcInterval? = t.gcInterval? := by
  unfold refund
  split
  · rfl
  · split <;> rfl
  · rfl

end Tracker

namespace Arena

variable {a b : Arena} {s : Stroke} {log : List Stroke} {n : Nat}

open Outcome

/-! ## 1. The interval -/

/-- **No stroke changes how often the tracker says to collect.** -/
theorem Drawn.gcInterval? (h : Drawn a log b) : b.tracker.gcInterval? = a.tracker.gcInterval? := by
  induction h with
  | nil => rfl
  | @cons a m b s log hs _ ih =>
    rw [ih, hs.tracker]
    cases s with
    | filled => exact Tracker.gcInterval?_charge
    | emptied => exact Tracker.gcInterval?_refund
    | _ => rfl

/-! ## 2. The count and the journal -/

theorem containersBuilt_unlink (a : Arena) (i : Slot) :
    (a.unlink i).containersBuilt = a.containersBuilt := by
  unfold unlink
  split <;> rfl

theorem containersBuilt_filled {p : Payload} (h : a.allocate p n = .ok a.nextSlot b) :
    b.containersBuilt = a.containersBuilt + UInt64.ofNat p.containers := by
  have hone : UInt64.ofNat p.containers = if p.kind.holdsReferences then 1 else 0 := by
    unfold Payload.containers
    split <;> rfl
  rw [hone]
  unfold allocate at h
  dsimp only at h
  split at h <;> cases h
  unfold fill
  split <;> rfl

/-- **A stroke counts the container that it puts into a slot**, unless it starts the count anew. -/
theorem Stroked.containersBuilt (h : Stroked a s b) (hs : s.Steady) :
    b.containersBuilt = a.containersBuilt + UInt64.ofNat s.containers := by
  have same : b.containersBuilt = a.containersBuilt → s.containers = 0 →
      b.containersBuilt = a.containersBuilt + UInt64.ofNat s.containers := fun h e => by
    rw [h, e]
    exact (UInt64.add_zero _).symm
  cases h with
  | unlinked _ => exact same (containersBuilt_unlink a _) rfl
  | returned _ => exact same (sameBooks_giveBack a _).containersBuilt rfl
  | filled he => exact containersBuilt_filled he
  | emptied hf =>
    unfold free? at hf
    split at hf <;> cases hf
    exact same rfl rfl
  | recounted => exact hs.elim
  | retained | rewritten | collected | duplicated => exact same rfl rfl

/-- **The count follows the journal**, in 64 bits. -/
theorem Drawn.containersBuilt (h : Drawn a log b) (hlog : ∀ s ∈ log, s.Steady) :
    b.containersBuilt =
      a.containersBuilt + UInt64.ofNat ((heard log).countP Event.FillsContainer) := by
  rw [countP_containers_heard]
  induction h with
  | nil => exact (UInt64.add_zero _).symm
  | cons hs _ ih =>
    obtain ⟨hsteady, hlog⟩ := List.forall_mem_cons.mp hlog
    rw [ih hlog, hs.containersBuilt hsteady, List.map_cons, List.sum_cons, UInt64.ofNat_add,
      UInt64.add_assoc]

/-- **A garbage collection starts the count anew**, when it is finished. -/
theorem sweep_recounts (a : Arena) (roots : List Handle) :
    (a.sweep roots).Ends (fun _ b => b.containersBuilt = 0) (fun _ => False) fun _ _ => True := by
  have settled : ∀ (orphaned : List Slot) (b : Arena) (slots : Nat) (staying : List Slot),
      (b.settle slots staying orphaned).Ends (fun _ _ => True) (fun _ => False)
        fun _ _ => True := by
    intro orphaned
    induction orphaned with
    | nil => exact fun _ _ _ => trivial
    | cons c orphaned ih =>
      intro b slots staying
      unfold settle
      split
      · trivial
      · split
        · exact ih _ _ _
        · exact ih _ _ _
  unfold sweep
  exact Ends.andThen (settled _ _ _ _) fun _ b _ =>
    (rfl : ({ b with containersBuilt := 0 } : Arena).containersBuilt = 0)

/-! ## 3. How many slots have been filled -/

/-- How many times the slots of an arena have been filled, by their generations. -/
def fillings (a : Arena) : Nat := (a.cells.toList.map fun c => c.refills + 1).sum

theorem fillings_congr (h : ∀ j, b.refills? j = a.refills? j) : b.fillings = a.fillings := by
  refine congrArg List.sum (List.ext_getElem? fun j => ?_)
  have hj := congrArg (Option.map (· + 1)) (h j)
  rw [refills?, refills?, Option.map_map, Option.map_map] at hj
  rw [List.getElem?_map, List.getElem?_map, Array.getElem?_toList, Array.getElem?_toList]
  exact hj

/-- One element of a list is counted once more. -/
theorem sum_map_modify {α : Type} {f : α → α} {g : α → Nat} (hf : ∀ x, g (f x) = g x + 1)
    {l : List α} {i : Nat} (h : i < l.length) :
    ((l.modify i f).map g).sum = (l.map g).sum + 1 := by
  induction l generalizing i with
  | nil => exact absurd h (Nat.not_lt_zero i)
  | cons x l ih =>
    cases i with
    | zero =>
      rw [List.modify_zero_cons, List.map_cons, List.map_cons, List.sum_cons, List.sum_cons, hf]
      omega
    | succ i =>
      rw [List.modify_succ_cons, List.map_cons, List.map_cons, List.sum_cons, List.sum_cons,
        ih (Nat.lt_of_succ_lt_succ h), Nat.add_assoc]

theorem fillings_fill (v : a.VacantExact) (o : Occupant) :
    (a.fill o).fillings = a.fillings + 1 := by
  unfold fill
  cases hv : a.vacant with
  | nil =>
    simp only [fillings, Array.toList_push, List.map_append, List.sum_append]
    rfl
  | cons i rest =>
    have hi : i < a.cells.toList.length := v.lt_size i (by rw [hv]; exact List.mem_cons_self)
    simp only [fillings, Array.toList_modify]
    exact sum_map_modify (g := fun c : Cell => c.refills + 1) (fun _ => rfl) hi

/-- **The generations of the slots tell how many of them a stroke fills.** -/
theorem Stroked.fillings (h : Stroked a s b) (v : a.VacantExact) :
    b.fillings = a.fillings + s.fillings := by
  cases h with
  | retained _ => exact fillings_congr (refills?_update a _ _)
  | unlinked _ => exact fillings_congr (refills?_unlink a _)
  | returned _ => exact fillings_congr (still_giveBack v _).refills?
  | rewritten hp hk => exact fillings_congr (rewrites_setPayload v hp hk).refills?
  | filled he =>
    rw [fillings_congr (sameSlots_of_filled he).refills?]
    exact fillings_fill v _
  | emptied hf => exact fillings_congr (shrinks_free? v hf).refills?
  | collected | duplicated | recounted => rfl

theorem Drawn.fillings (h : Drawn a log b) (v : a.VacantExact) :
    b.fillings = a.fillings + (heard log).countP Event.Fills := by
  rw [countP_fills_heard]
  induction h with
  | nil => rfl
  | cons hs _ ih =>
    rw [ih (hs.vacant v), hs.fillings v, List.map_cons, List.sum_cons, Nat.add_assoc]

/-- Until its generations start over, a slot can be filled `2 ^ 32` times. -/
theorem fillings_le (h : a.Unwrapped) : a.fillings ≤ a.cells.size * 2 ^ 32 := by
  have hle : ∀ n ∈ a.cells.toList.map fun c => c.refills + 1, n ≤ 2 ^ 32 := by
    intro n hn
    obtain ⟨c, hc, rfl⟩ := List.mem_map.mp hn
    exact h c (Array.mem_toList_iff.mp hc)
  have hsum := List.sum_le_card_nsmul _ _ hle
  rwa [List.length_map, Array.length_toList] at hsum

end Arena

/-! ## 4. Runs -/

/-- The tracker that an arena is made or reset with. -/
def Action.tracker? : Action → Option Tracker
  | .addArena tracker _ | .resetArena _ tracker => some tracker
  | _ => none

namespace World

variable {w : World} {k : Nat} {a b : Arena} {act : Action} {acts : List Action}

/-- An arena that is made or reset has the tracker that comes with the action. -/
theorem tracker_renewed (h : w.renewed? act = some k) (hb : (w.after act).arena? k = some b) :
    act.tracker? = some b.tracker := by
  cases act with
  | addArena tracker tracer =>
    obtain rfl : w.realm.arenas.size = k := Option.some.inj h
    have hlast : (w.after (.addArena tracker tracer)).arena? w.realm.arenas.size =
        some (.empty w.realm.nextId tracker tracer) := Array.getElem?_push_size
    cases hlast.symm.trans hb
    rfl
  | resetArena l tracker =>
    obtain rfl : l = k := Option.some.inj h
    have hreset : (w.after (.resetArena l tracker)).arena? l =
        (w.arena? l).map fun a => a.reset w.realm.nextId tracker := by
      simp [World.after, arena?, Realm.resetArena, Array.getElem?_modify]
    obtain ⟨a, _, rfl⟩ := Option.map_eq_some_iff.mp (hreset.symm.trans hb)
    rfl
  | call | copyInto | forget => cases h

/-- **What a single call tells**: one container if it is a factory of containers that answers, and
    none otherwise. So nothing is counted for what is refused, for scalars and iterators, for
    updates, for references that are added or given back, or for collecting. -/
theorem containers_told (ha : w.arena? k = some a) {c : Call} (hm : ¬ c.MakesMany) :
    (w.tells k (.call k c)).countP Event.FillsContainer =
      if c.MakesContainer = true ∧ (a.perform c).answer.isOk = true then 1 else 0 := by
  obtain ⟨_, log, _, hk, _, _, e⟩ := perform_relays a (.recording #[]) c
  rw [tells_call ha, listening, e, transcript_hearing, countP_containers_heard]
  exact hk.containers hm

/-- A garbage collection that is permitted is finished. -/
theorem containersBuilt_swept (hw : w.Reachable) {act : Action} (hp : w.Permits act)
    (hs : act.Sweeps k) (hb : (w.after act).arena? k = some b) : b.containersBuilt = 0 := by
  obtain ⟨roots, rfl⟩ := hs
  obtain ⟨a, ha, _, hr⟩ := permits_call.mp hp
  cases (arena?_after_call ha (.sweep roots)).symm.trans hb
  have hends : (a.perform (.sweep roots)).Ends (fun _ b => b.containersBuilt = 0)
      (fun _ => False) fun _ _ => True := Outcome.Ends.map (sweep_recounts a roots)
  have co := hw.sound.coherent k a ha
  unfold Outcome.Ends at hends
  cases hx : (a.perform (.sweep roots)).answer with
  | ok x =>
    rw [hx] at hends
    exact hends
  | error e =>
    rw [hx] at hends
    cases e with
    | error e => exact hends.elim
    | fault f =>
      -- a collection takes no handle for granted, so its only fault would be out of range
      have hne : f ≠ .counterOverflow := fun e => hr.counters (by
        unfold Outcome.fault?
        rw [hx, e])
      have hbad := (fault_iff_badHandle co (.sweep roots) hr.generations hne).mp hx
      cases hbad

/-- **A garbage collection is suggested exactly on the container budget.** In every run from the
    start of a program that is permitted: -/
theorem suggested_exactly (hp : (start.run acts).2 = true)
    (hb : (start.run acts).1.arena? k = some b) :
    -- the interval is that of the tracker with which the arena was made or last reset, or the
    -- default
    (∃ past act later tracker, acts = past ++ act :: later ∧
      (start.run past).1.renewed? act = some k ∧ NoReset k later ∧ act.tracker? = some tracker ∧
      b.tracker.interval = tracker.gcInterval?.getD 100000) ∧
    -- there is a latest action that made or reset the arena or was a garbage collection of it,
    ∃ past act later built, acts = past ++ act :: later ∧
      ((start.run past).1.renewed? act = some k ∨ act.Sweeps k) ∧
      NoReset k later ∧ (∀ x ∈ later, ¬ x.Sweeps k) ∧
      -- since then so many slots have been filled with containers
      built = (((start.run past).1.after act).journal k later).countP Event.FillsContainer ∧
      -- and a collection is suggested exactly if they are as many as the interval says,
      (built < 2 ^ 64 → (b.shouldCollect = true ↔ b.tracker.interval ≤ built)) ∧
      -- within the range of the count, which an arena with fewer than `2 ^ 32` slots does not leave
      (b.cells.size < 2 ^ 32 → built < 2 ^ 64) ∧
      -- and at whose end the count starts over;
      (b.shouldCollect = true ↔ b.tracker.interval ≤ built % 2 ^ 64) ∧
      -- of these a call that builds one value at most has filled one, if it built a container
      ∀ before c rest, later = before ++ .call k c :: rest → ¬ c.MakesMany →
        ∃ u a, (((start.run past).1.after act).run before).1 = u ∧ u.arena? k = some a ∧
          (u.tells k (.call k c)).countP Event.FillsContainer =
            if c.MakesContainer = true ∧ (a.perform c).answer.isOk = true then 1 else 0 := by
  have hover : start.overflowsIn k acts = false := overflowsIn_of_permitted hp
  constructor
  · obtain ⟨past, act, later, c, rfl, hact, hc, hr, _⟩ := exists_latest (fun _ => False) hb
    have hnew : (start.run past).1.renewed? act = some k := hact.resolve_right fun h => h
    obtain ⟨log, hdrawn, _⟩ := run_drawn hr (overflowsIn_since hover) hc (run_since hb)
    refine ⟨past, act, later, c.tracker, rfl, hnew, hr, tracker_renewed hnew hc, ?_⟩
    rw [Tracker.interval_eq, hdrawn.gcInterval?]
  · have hunwrapped : b.Unwrapped := (reachable_run acts hp).sound.unwrapped k b hb
    obtain ⟨past, act, later, c, rfl, hact, hc, hr, hall⟩ := exists_latest (Action.Sweeps k) hb
    have hp' := hp
    rw [permitted_append, Bool.and_eq_true] at hp'
    obtain ⟨hpast, hrest⟩ := hp'
    obtain ⟨hpact, _⟩ := Bool.and_eq_true_iff.mp hrest
    have hperm : (start.run past).1.Permits act := of_decide_eq_true hpact
    have hreach : (start.run past).1.Reachable := reachable_run past hpast
    have hnew : c.containersBuilt = 0 := by
      rcases hact with h | h
      · obtain ⟨_, _, rfl⟩ := arena?_renewed h hc
        rfl
      · exact containersBuilt_swept hreach hperm h hc
    obtain ⟨log, hdrawn, hheard, hsteady⟩ :=
      run_drawn hr (overflowsIn_since hover) hc (run_since hb)
    have hcount := hdrawn.containersBuilt (hsteady hall)
    have hfilled := hdrawn.fillings ((hreach.step hperm).sound.coherent k c hc).vacant
    rw [hnew, UInt64.zero_add, hheard] at hcount
    rw [hheard] at hfilled
    have hwrap : b.shouldCollect = true ↔ b.tracker.interval ≤
        (((start.run past).1.after act).journal k later).countP Event.FillsContainer % 2 ^ 64 := by
      unfold shouldCollect
      rw [hcount, UInt64.toNat_ofNat', decide_eq_true_iff]
    refine ⟨past, act, later, _, rfl, hact, hr, hall, rfl, fun hlt => ?_, fun hsize => ?_,
      hwrap, ?_⟩
    · rwa [Nat.mod_eq_of_lt hlt] at hwrap
    · have hle := fillings_le hunwrapped
      have hcontainers := countP_containers_le (((start.run past).1.after act).journal k later)
      omega
    · rintro before c' rest rfl hm
      have hsome : (((start.run past).1.after act).arena? k).isSome := by
        rw [hc]
        rfl
      obtain ⟨a, ha⟩ := Option.isSome_iff_exists.mp (arena?_run_isSome before hsome)
      exact ⟨_, a, rfl, ha, containers_told ha hm⟩

/-- In an arena that may fill four slots and suggests a collection after two containers, a
    dictionary is built and swept; then a list of an integer is built, and a copy of it is rolled
    back. -/
def prompting : List Action :=
  [.addArena (.strict ⟨some 4, none, some 2⟩ .zero) .silent,
    .call 0 .buildDictionary,
    .call 0 (.sweep []),
    .call 0 (.buildScalar (.integer 7)),
    .call 0 (.buildList [⟨⟨1⟩, 0, 1⟩]),
    .call 0 (.copy ⟨⟨1⟩, 1, 0⟩)]

/-- After `prompting` a collection is suggested: of the two containers that were built since the
    sweep one is gone already. -/
theorem suggested_exactly_prompting : (start.run prompting).2 = true ∧
    ∃ b, (start.run prompting).1.arena? 0 = some b ∧ b.shouldCollect = true ∧ b.live = 2 ∧
      ∃ past act later, prompting = past ++ act :: later ∧
        ((start.run past).1.renewed? act = some 0 ∨ act.Sweeps 0) ∧
        2 ≤ (((start.run past).1.after act).journal 0 later).countP Event.FillsContainer := by
  have hp : (start.run prompting).2 = true := by cbv
  have hend : ((start.run prompting).1.arena? 0).map
      (fun b => (b.shouldCollect, b.live, b.tracker.interval, b.cells.size)) =
        some (true, 2, 2, 3) := by cbv
  obtain ⟨b, hb, he⟩ := Option.map_eq_some_iff.mp hend
  obtain ⟨hsuggested, he⟩ := Prod.mk.inj he
  obtain ⟨hlive, he⟩ := Prod.mk.inj he
  obtain ⟨hinterval, hsize⟩ := Prod.mk.inj he
  obtain ⟨_, past, act, later, _, hacts, hact, _, _, rfl, hiff, hrange, _⟩ :=
    suggested_exactly hp hb
  have hcount := (hiff (hrange (by rw [hsize]; decide))).mp hsuggested
  rw [hinterval] at hcount
  exact ⟨hp, b, hb, hsuggested, hlive, past, act, later, hacts, hact, hcount⟩

end World

end ValueHeap
