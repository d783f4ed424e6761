import ValueHeap.Proofs.Solvency
import ValueHeap.Proofs.Traces

/-!
# The trace of a run

Every operation tells the tracer of all that it does to the slots. So the events of a run, followed
from nothing, lead to the live slots of the arena with the kinds of their values.

* `Traced`: what the events between two moments have to do with the slots;
* **`World.after_traced`**, **`World.run_traced`**: so are the events of an action and of a run;
* **`World.trace_replays`**.
-/

namespace ValueHeap

open Arena

namespace Arena

variable {a b c : Arena} {es fs : List Event}

/-- **The events lead from `a` to `b`**: they are what the tracer was told since, each of them fits
    the slots that are live by then, and collections and copies are in their places. -/
structure Traced (a : Arena) (es : List Event) (b : Arena) : Prop where
  vacant : b.VacantExact
  tracer : b.tracer = a.tracer.noteAll es
  replays : ∀ roster, a.Lists roster →
    ∃ roster', Event.replayAll? roster es = some roster' ∧ b.Lists roster'
  punctuated : Punctuated es

theorem traced_refl (v : a.VacantExact) : Traced a [] a where
  vacant := v
  tracer := rfl
  replays roster l := ⟨roster, rfl, l⟩
  punctuated := .of_plain (List.forall_mem_nil _)

theorem Traced.trans (h : Traced a es b) (k : Traced b fs c) : Traced a (es ++ fs) c where
  vacant := k.vacant
  tracer := by rw [k.tracer, h.tracer, Tracer.noteAll_append]
  replays roster l := by
    obtain ⟨middle, hm, lm⟩ := h.replays roster l
    obtain ⟨roster', hr, lr⟩ := k.replays middle lm
    exact ⟨roster', by rw [Event.replayAll?_append, hm, Option.bind_some, hr], lr⟩
  punctuated := h.punctuated.append k.punctuated

theorem Traced.recording {told : List Event} (h : Traced a es b)
    (ha : a.tracer = .recording told.toArray) : b.tracer = .recording (told ++ es).toArray := by
  rw [h.tracer, ha, Tracer.noteAll_recording]

/-- Nothing is live in an empty arena. -/
theorem lists_empty (id : ArenaId) (tracker : Tracker) (tracer : Tracer) :
    (Arena.empty id tracker tracer).Lists ∅ := fun _ => Finmap.lookup_empty _

end Arena

namespace World

variable {w : World} {k : Nat} {a b : Arena} {act : Action} {acts : List Action}

theorem Does.phrase {log : List Stroke} (h : w.Does k act log) : ∃ m, Phrase m log := by
  rcases h with ⟨c, a, _, _, hk⟩ | hk
  · exact ⟨_, hk.phrase⟩
  · exact ⟨0, hk.phrase⟩

/-- What an action tells the tracer of an arena that it does not reset. -/
theorem after_traced (hr : NoReset k [act]) (ha : w.arena? k = some a) (v : a.VacantExact)
    (hb : (w.after act).arena? k = some b) : Traced a (w.tells k act) b := by
  obtain ⟨log, hk, u, hd, _, e⟩ := after_drawn hr ha hb
  obtain ⟨m, p⟩ := hk.phrase
  rw [← e]
  -- the tracker has no part in any of this
  exact ⟨.of_sameSlots (a := { b with tracker := u }) ⟨rfl, rfl, rfl⟩ (hd.vacant v), hd.tracer_eq,
    fun _ l => hd.replays v l, p.punctuated⟩

/-- **What a run tells the tracer** of an arena that it does not reset. -/
theorem run_traced (hr : NoReset k acts) (ha : w.arena? k = some a) (v : a.VacantExact)
    (hb : (w.run acts).1.arena? k = some b) : Traced a (w.journal k acts) b := by
  induction acts generalizing w a with
  | nil =>
    cases ha.symm.trans hb
    exact traced_refl v
  | cons act rest ih =>
    obtain ⟨hr1, hr2⟩ := noReset_cons.mp hr
    have hsome : ((w.after act).arena? k).isSome := arena?_after_isSome (by rw [ha]; rfl)
    obtain ⟨c, hc⟩ := Option.isSome_iff_exists.mp hsome
    have h := after_traced hr1 ha v hc
    exact h.trans (ih hr2 hc h.vacant hb)

/-- A run that is permitted takes no reference from a count of zero. -/
theorem Reachable.never_short_within (hw : w.Reachable) {past later : List Action}
    {log : List Stroke} (hp : (w.run (past ++ act :: later)).2 = true)
    (ha : (w.run past).1.arena? k = some a) (hd : (w.run past).1.Does k act log)
    (hb : Drawn a log b) : ∀ s ∈ log, s.fallsShort = false := by
  rw [permitted_append, Bool.and_eq_true] at hp
  obtain ⟨hpast, hrest⟩ := hp
  obtain ⟨hact, _⟩ := Bool.and_eq_true_iff.mp hrest
  exact (hw.run past hpast).never_short (of_decide_eq_true hact) ha hd hb

/-- **The trace replays to the arena.** Let a run start at an arena that is empty and keeps its
    events, and not reset it; its calls may be refused or end in a fault. -/
theorem trace_replays {id : ArenaId} {tracker : Tracker}
    (ha : w.arena? k = some (.empty id tracker (.recording #[]))) (hr : NoReset k acts) :
    -- followed from nothing, the events of the run fit, each the slots that are live by then, and
    -- lead to the live slots of the arena with the kinds of their values
    ∃ b events, (w.run acts).1.arena? k = some b ∧ b.tracer = .recording events.toArray ∧
      (∃ roster, Event.replayAll? ∅ events = some roster ∧ b.Lists roster) ∧
      -- collections and copies are told of right after the slots that they emptied and filled
      Punctuated events ∧
      -- and each action, which is made of strokes that tell its events,
      ∀ past act later, acts = past ++ act :: later →
        ∃ c d told es rest log u, (w.run past).1.arena? k = some c ∧
          ((w.run past).1.after act).arena? k = some d ∧
          events = told ++ es ++ rest ∧ c.tracer = .recording told.toArray ∧
          d.tracer = .recording (told ++ es).toArray ∧
          Drawn c log { d with tracker := u } ∧ heard log = es ∧
          -- tells of the references that it gives back with the counts that they leave, but for
          -- those taken from a count of zero, of which there are none if the run is permitted
          d.Accurate es (log.countP Stroke.fallsShort) ∧
          (w.Reachable → (w.run acts).2 = true → log.countP Stroke.fallsShort = 0) := by
  have hsome : (w.arena? k).isSome := by
    rw [ha]
    rfl
  have v := vacantExact_empty id tracker (.recording #[])
  obtain ⟨b, hb⟩ := Option.isSome_iff_exists.mp (arena?_run_isSome acts hsome)
  have h := run_traced hr ha v hb
  have hevents : b.tracer = .recording (w.journal k acts).toArray := h.recording rfl
  refine ⟨b, _, hb, hevents, h.replays ∅ (lists_empty _ _ _), h.punctuated, ?_⟩
  intro past act later hacts
  subst hacts
  obtain ⟨hpast, hrest⟩ := noReset_append.mp hr
  obtain ⟨hact, _⟩ := noReset_cons.mp hrest
  obtain ⟨c, hc⟩ := Option.isSome_iff_exists.mp (arena?_run_isSome past hsome)
  have hnext : (((w.run past).1.after act).arena? k).isSome :=
    arena?_after_isSome (by rw [hc]; rfl)
  obtain ⟨d, hd⟩ := Option.isSome_iff_exists.mp hnext
  have h1 := run_traced hpast ha v hc
  have h2 := after_traced hact hc h1.vacant hd
  have hc' : c.tracer = .recording (w.journal k past).toArray := h1.recording rfl
  obtain ⟨log, hk, u, hdrawn, _, e⟩ := after_drawn hact hc hd
  obtain ⟨m, p⟩ := hk.phrase
  have haccurate : d.Accurate (heard log) (log.countP Stroke.fallsShort) :=
    Phrase.accurate (b := { d with tracker := u }) p hdrawn h1.vacant
  rw [e] at haccurate
  refine ⟨c, d, _, _, ((w.run past).1.after act).journal k later, log, u, hc, hd, ?_, hc',
    h2.recording hc', hdrawn, e, haccurate, fun hw hp => List.countP_eq_zero.mpr fun s hs => ?_⟩
  · rw [journal_append, journal, List.append_assoc]
  · rw [hw.never_short_within hp hc hk hdrawn s hs]
    exact Bool.false_ne_true

/-- A world with one arena, which keeps its events. -/
def traced : World := start.after (.addArena .unlimited (.recording #[]))

/-- An integer is copied and put into a list; the list is released and reclaimed. -/
def tracing : List Action :=
  [.call 0 (.buildScalar (.integer 7)),
    .call 0 (.copy ⟨⟨1⟩, 0, 0⟩),
    .call 0 (.buildList [⟨⟨1⟩, 0, 0⟩]),
    .call 0 (.release ⟨⟨1⟩, 2, 0⟩),
    .call 0 .reclaim]

/-- What the tracer is told in `tracing`. -/
def tracingEvents : List Event :=
  [.allocate 0 .integer, .allocate 1 .integer, .duplicate 1 false, .allocate 2 .list, .release 2 0,
    .free 2 .list, .free 0 .integer, .collect 2 1]

/-- In `tracing` the events lead to the copy of the integer, which is all that is left. -/
theorem trace_replays_tracing : ∃ b roster, (traced.run tracing).1.arena? 0 = some b ∧
    b.tracer.events? = some tracingEvents.toArray ∧
    Event.replayAll? ∅ tracingEvents = some roster ∧ b.Lists roster ∧
    roster.lookup 0 = none ∧ roster.lookup 1 = some .integer ∧ Punctuated tracingEvents := by
  have hreset : NoReset 0 tracing := fun t ht => by simp [tracing] at ht
  have hempty : traced.arena? 0 = some (.empty ⟨1⟩ .unlimited (.recording #[])) := rfl
  obtain ⟨b, events, hb, htracer, ⟨roster, hroster, hl⟩, hpunctuated, _⟩ :=
    trace_replays hempty hreset
  have htold : ((traced.run tracing).1.arena? 0).map (·.tracer.events?) =
      some (some tracingEvents.toArray) := by cbv
  have hkinds : ((traced.run tracing).1.arena? 0).map (fun b => (b.kind? 0, b.kind? 1)) =
      some (none, some .integer) := by cbv
  rw [hb] at htold hkinds
  have hevents : b.tracer.events? = some tracingEvents.toArray := Option.some.inj htold
  have hsame : events = tracingEvents := by
    rw [htracer] at hevents
    exact Array.toList_inj.mpr (Option.some.inj hevents)
  subst hsame
  obtain ⟨h0, h1⟩ := Prod.mk.inj (Option.some.inj hkinds)
  exact ⟨b, roster, hb, hevents, hroster, hl, (hl 0).trans h0, (hl 1).trans h1, hpunctuated⟩

end World

end ValueHeap
