import Mathlib.Data.List.Permutation
import Mathlib.Data.Multiset.Powerset
import ValueHeap.Proofs.Histories
import ValueHeap.Proofs.Series.Calls

/-!
# Journals: what happens to an arena over a run

The journal of an arena is what a recorder would hear of a run, whatever tracer the arena has. It
holds every slot that is filled and every slot that is emptied, in order, also within operations
that fail in the end, and a roll-back like anything else.

* `World.tells`: what an action tells; `World.journal`: what a run tells;
* `World.overflows`: whether a counter leaves its range, which ends a program;
* `World.Does`: the strokes that an action can be made of;
* **`World.after_drawn`**, **`World.run_drawn`**: an arena changes only by strokes, and the journal
  tells of all of them.
-/

namespace ValueHeap

open Arena

theorem Tracer.noteAll_recording (told es : List Event) :
    (recording told.toArray).noteAll es = recording (told ++ es).toArray := by
  induction es generalizing told with
  | nil => rw [List.append_nil]; rfl
  | cons e es ih =>
    have h : (recording told.toArray).note e = recording (told ++ [e]).toArray := by
      rw [note, List.push_toArray]
    rw [noteAll, List.foldl_cons, h]
    exact (ih (told ++ [e])).trans (by rw [List.append_assoc]; rfl)

namespace Arena

/-- The events that the tracer has recorded. -/
def transcript (a : Arena) : List Event :=
  match a.tracer.events? with
  | some events => events.toList
  | none => []

/-- The arena with a new recorder. -/
def listening (a : Arena) : Arena := a.hearing (.recording #[])

/-- **What a new recorder hears is what the strokes tell.** -/
theorem transcript_hearing (a : Arena) (log : List Stroke) :
    (a.hearing ((Tracer.recording #[]).noteAll (heard log))).transcript = heard log := by
  rw [show (Tracer.recording #[]).noteAll (heard log) = .recording (heard log).toArray from
    Tracer.noteAll_recording [] _]
  rfl

end Arena

/-- The action is a garbage collection of the arena at `k`. -/
def Action.Sweeps (k : Nat) (act : Action) : Prop := ∃ roots, act = .call k (.sweep roots)

/-- Nothing but a call on the arena at `k` or a copy into it has to do with the arena. -/
def Action.Elsewhere (k : Nat) (act : Action) : Prop :=
  (∀ c, act ≠ .call k c) ∧ ∀ m h, act ≠ .copyInto m k h

namespace World

variable {w : World} {k : Nat} {a b : Arena} {act : Action} {acts later : List Action}

/-! ## 1. What a run tells -/

/-- What an action tells a recorder of the arena at `k`. -/
def tells (w : World) (k : Nat) : Action → List Event
  | .call l c =>
    match w.arena? l with
    | some a => if l = k then (a.listening.perform c).arena.transcript else []
    | none => []
  | .copyInto m l h =>
    match w.arena? m, w.arena? l with
    | some a, some t => if l = k then (a.copyInto h t.listening).arena.transcript else []
    | _, _ => []
  | _ => []

/-- **The journal of the arena at `k`**: what a run tells a recorder of it, in order. -/
def journal (w : World) (k : Nat) : List Action → List Event
  | [] => []
  | act :: rest => w.tells k act ++ (w.after act).journal k rest

theorem journal_append (acts later : List Action) :
    w.journal k (acts ++ later) = w.journal k acts ++ (w.run acts).1.journal k later := by
  induction acts generalizing w with
  | nil => rfl
  | cons act rest ih =>
    rw [List.cons_append, journal, ih, journal, List.append_assoc]
    rfl

/-- A counter of the tracker of the arena at `k` leaves its range. -/
def overflows (w : World) (k : Nat) : Action → Bool
  | .call l c =>
    match w.arena? l with
    | some a => l == k && (a.perform c).fault? == some .counterOverflow
    | none => false
  | .copyInto m l h =>
    match w.arena? m, w.arena? l with
    | some a, some t => l == k && (a.copyInto h t).fault? == some .counterOverflow
    | _, _ => false
  | _ => false

/-- A counter of the tracker leaves its range somewhere in the run. -/
def overflowsIn (w : World) (k : Nat) : List Action → Bool
  | [] => false
  | act :: rest => w.overflows k act || (w.after act).overflowsIn k rest

theorem overflowsIn_cons : w.overflowsIn k (act :: acts) = false ↔
    w.overflows k act = false ∧ (w.after act).overflowsIn k acts = false :=
  Bool.or_eq_false_iff

theorem overflowsIn_append : w.overflowsIn k (acts ++ later) = false ↔
    w.overflowsIn k acts = false ∧ (w.run acts).1.overflowsIn k later = false := by
  induction acts generalizing w with
  | nil => exact ⟨fun h => ⟨rfl, h⟩, fun h => h.2⟩
  | cons act rest ih =>
    rw [List.cons_append, overflowsIn_cons, overflowsIn_cons, ih, and_assoc]
    rfl

/-- No counter leaves its range in what a program is permitted to do. -/
theorem Permits.not_overflows (h : w.Permits act) : w.overflows k act = false := by
  cases act with
  | call l c =>
    obtain ⟨a, ha, _, hr⟩ := permits_call.mp h
    simp [overflows, ha, hr.counters]
  | copyInto m l x =>
    obtain ⟨a, t, ha, ht, _, hr⟩ := permits_copyInto.mp h
    simp [overflows, ha, ht, hr.counters]
  | _ => rfl

theorem overflowsIn_of_permitted (h : (w.run acts).2 = true) : w.overflowsIn k acts = false := by
  induction acts generalizing w with
  | nil => rfl
  | cons act rest ih =>
    obtain ⟨h1, h2⟩ := Bool.and_eq_true_iff.mp h
    exact overflowsIn_cons.mpr ⟨Permits.not_overflows (of_decide_eq_true h1), ih h2⟩

/-! ## 2. One action -/

theorem tells_elsewhere (h : act.Elsewhere k) : w.tells k act = [] := by
  unfold tells
  split
  · rename_i l c
    split
    · exact if_neg fun e => h.1 c (by rw [e])
    · rfl
  · rename_i m l x
    split
    · exact if_neg fun e => h.2 m x (by rw [e])
    · rfl
  · rfl

/-- What happens elsewhere leaves an arena as it is, unless it is reset. -/
theorem after_elsewhere (h : act.Elsewhere k) (hr : NoReset k [act]) (ha : w.arena? k = some a)
    (hb : (w.after act).arena? k = some b) : b = a := by
  cases after_turn hb with
  | kept hb' _ _ => exact Option.some.inj (hb'.symm.trans ha)
  | called c _ => exact absurd rfl (h.1 c)
  | copied x _ _ => exact absurd rfl (h.2 _ x)
  | renewed _ _ hk => exact absurd hk ((noReset_single ha act).mp hr)

theorem tells_call (ha : w.arena? k = some a) (c : Call) :
    w.tells k (.call k c) = (a.listening.perform c).arena.transcript := by
  simp only [tells, ha, ↓reduceIte]

theorem arena?_after_call (ha : w.arena? k = some a) (c : Call) :
    (w.after (.call k c)).arena? k = some (a.perform c).arena := by
  rw [after_call ha, arena?_book w ha, if_pos rfl]

/-- **What an action is made of** at the arena at `k`: a call on it is made of what the call says,
    and anything else of no more than a copy into it. -/
def Does (w : World) (k : Nat) (act : Action) (log : List Stroke) : Prop :=
  (∃ c a, act = .call k c ∧ w.arena? k = some a ∧ Performs a c (a.perform c).answer log) ∨
    Copying log

/-- Strokes lead from `a` to `b`, and the tracer is told of them. Only a counter that leaves its
    range leaves something in the tracker that no stroke accounts for. -/
def Drawing (w : World) (k : Nat) (act : Action) (a b : Arena) (log : List Stroke) : Prop :=
  ∃ tracker, Drawn a log { b with tracker := tracker } ∧
    (w.overflows k act = false → tracker = b.tracker) ∧ heard log = w.tells k act

theorem Drawing.drawn {log : List Stroke} (h : w.Drawing k act a b log)
    (hn : w.overflows k act = false) : Drawn a log b := by
  obtain ⟨_, hd, ht, _⟩ := h
  cases ht hn
  exact hd

/-- **An arena changes only by strokes, and an action tells of all of them.** -/
theorem after_drawn (hr : NoReset k [act]) (ha : w.arena? k = some a)
    (hb : (w.after act).arena? k = some b) :
    ∃ log, w.Does k act log ∧ w.Drawing k act a b log := by
  by_cases hcall : ∃ c, act = .call k c
  · obtain ⟨c, rfl⟩ := hcall
    cases (arena?_after_call ha c).symm.trans hb
    obtain ⟨_, log, u, hk, hd, hu, e⟩ := perform_relays a (.recording #[]) c
    refine ⟨log, .inl ⟨c, a, rfl, ha, hk⟩, u, hd, fun hn => hu ?_, ?_⟩
    · simpa [overflows, ha] using hn
    · rw [tells_call ha, listening, e, transcript_hearing]
  by_cases hcopy : ∃ m h, act = .copyInto m k h
  · obtain ⟨m, h, rfl⟩ := hcopy
    cases hs : w.arena? m with
    | none =>
      simp only [World.after, hs] at hb
      cases ha.symm.trans hb
      refine ⟨[], .inr copying_nil, _, .nil, fun _ => rfl, ?_⟩
      simp only [tells, hs]
      rfl
    | some s =>
      rw [after_copyInto hs ha, arena?_book w ha, if_pos rfl] at hb
      cases hb
      obtain ⟨_, log, u, hk, hd, hu, e⟩ := copyTo_relays s h a (.recording #[]) true
      refine ⟨log, .inr hk, u, hd, fun hn => ?_, ?_⟩
      · have hfault : (s.copyInto h a).fault? ≠ some .counterOverflow := by
          simpa [overflows, hs, ha] using hn
        exact hu hfault
      · simp only [tells, hs, ha, ↓reduceIte]
        exact ((congrArg transcript e).trans (transcript_hearing _ _)).symm
  have he : act.Elsewhere k := ⟨fun c e => hcall ⟨c, e⟩, fun m h e => hcopy ⟨m, h, e⟩⟩
  rw [after_elsewhere he hr ha hb]
  exact ⟨[], .inr copying_nil, _, .nil, fun _ => rfl, (tells_elsewhere he).symm⟩

/-- Only a garbage collection starts the count of containers anew. -/
theorem Does.steady {log : List Stroke} (h : w.Does k act log) (hs : ¬ act.Sweeps k) :
    ∀ s ∈ log, s.Steady := by
  rcases h with ⟨c, a, rfl, _, hk⟩ | hk
  · refine hk.steady ?_
    cases c with
    | sweep roots => exact absurd ⟨roots, rfl⟩ hs
    | _ => trivial
  · exact hk.steady

/-! ## 3. Runs -/

/-- **The journal tells of all that a run does to an arena**, short of a reset. -/
theorem run_drawn (hr : NoReset k acts) (hn : w.overflowsIn k acts = false)
    (ha : w.arena? k = some a) (hb : (w.run acts).1.arena? k = some b) :
    ∃ log, Drawn a log b ∧ heard log = w.journal k acts ∧
      ((∀ act ∈ acts, ¬ act.Sweeps k) → ∀ s ∈ log, s.Steady) := by
  induction acts generalizing w a with
  | nil =>
    cases ha.symm.trans hb
    exact ⟨[], .nil, rfl, fun _ => List.forall_mem_nil _⟩
  | cons act rest ih =>
    obtain ⟨hr1, hr2⟩ := noReset_cons.mp hr
    obtain ⟨hn1, hn2⟩ := overflowsIn_cons.mp hn
    obtain ⟨c, hc⟩ := Option.isSome_iff_exists.mp
      (arena?_after_isSome (by rw [ha]; rfl : (w.arena? k).isSome))
    obtain ⟨log, hk, hd⟩ := after_drawn hr1 ha hc
    obtain ⟨more, hm, he, hs⟩ := ih hr2 hn2 hc hb
    refine ⟨log ++ more, (hd.drawn hn1).trans hm, ?_, fun hall => ?_⟩
    · obtain ⟨_, _, _, e⟩ := hd
      rw [heard_append, e, he, journal]
    · exact List.forall_mem_append.mpr ⟨hk.steady (hall act List.mem_cons_self),
        hs fun x hx => hall x (List.mem_cons_of_mem act hx)⟩

/-! ## 4. Since when -/

/-- An arena that is new, or has been reset, is empty. -/
theorem arena?_renewed (h : w.renewed? act = some k) (hb : (w.after act).arena? k = some b) :
    ∃ tracker tracer, b = .empty w.realm.nextId tracker tracer := by
  cases after_turn hb with
  | kept _ hn _ => exact absurd h hn
  | called c _ => cases h
  | copied x _ _ => cases h
  | renewed tracker tracer _ => exact ⟨tracker, tracer, rfl⟩

/-- An arena that is there and was not renewed was there before. -/
theorem arena?_before (hn : w.renewed? act ≠ some k) (hb : (w.after act).arena? k = some b) :
    ∃ a, w.arena? k = some a := by
  cases after_turn hb with
  | kept ha _ _ => exact ⟨b, ha⟩
  | called c ha => exact ⟨_, ha⟩
  | copied x _ ha => exact ⟨_, ha⟩
  | renewed _ _ h => exact absurd h hn

/-- **The latest action since which something counts**: the one that made or reset the arena, or one
    with `Q` after it. -/
theorem exists_latest (Q : Action → Prop) (hb : (start.run acts).1.arena? k = some b) :
    ∃ past act later c, acts = past ++ act :: later ∧
      ((start.run past).1.renewed? act = some k ∨ Q act) ∧
      ((start.run past).1.after act).arena? k = some c ∧
      NoReset k later ∧ ∀ x ∈ later, ¬ Q x := by
  induction acts using List.reverseRecOn generalizing b with
  | nil =>
    have hnone : start.arena? k = none := rfl
    cases hnone.symm.trans hb
  | append_singleton acts act ih =>
    rw [run_append] at hb
    by_cases h : (start.run acts).1.renewed? act = some k ∨ Q act
    · exact ⟨acts, act, [], b, rfl, h, hb, fun _ => List.not_mem_nil, List.forall_mem_nil _⟩
    · obtain ⟨hn, hq⟩ := not_or.mp h
      obtain ⟨a, ha⟩ := arena?_before hn hb
      obtain ⟨past, act', later, c, rfl, h', hc, hr, hall⟩ := ih ha
      exact ⟨past, act', later ++ [act], c, by rw [List.append_assoc]; rfl, h', hc,
        noReset_append.mpr ⟨hr, (noReset_single ha act).mpr hn⟩,
        List.forall_mem_append.mpr ⟨hall, List.forall_mem_singleton.mpr hq⟩⟩

/-- The run up to the end is the one since then, after that before. -/
theorem run_since {past : List Action} (hb : (w.run (past ++ act :: later)).1.arena? k = some b) :
    (((w.run past).1.after act).run later).1.arena? k = some b := by
  rwa [run_append] at hb

theorem overflowsIn_since {past : List Action}
    (hn : w.overflowsIn k (past ++ act :: later) = false) :
    ((w.run past).1.after act).overflowsIn k later = false :=
  (overflowsIn_cons.mp (overflowsIn_append.mp hn).2).2

end World

end ValueHeap
