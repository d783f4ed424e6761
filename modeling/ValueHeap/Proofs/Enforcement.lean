import ValueHeap.Proofs.Accounts
import ValueHeap.Proofs.Traces

/-!
# Limits over whole runs

A strict tracker counts every slot that is filled, whatever becomes of it: a value that is freed,
one of an import that fails, one of a copy that is rolled back. It never counts less, so its limits
hold of a whole run, at every moment of it, and what it refuses leaves no trace.

* `charge_refused_iff`: what a strict tracker refuses, and why;
* `Arena.Limited`: the accounts of an arena and their limits; `Stroked.limited` is the step,
  `Drawn.limited` the run; `countP_fills_heard` reads the number of slots off the events;
* `Limited.refused_iff`: which slots are refused;
* **`World.limits_enforced`**.
-/

namespace ValueHeap

open Arena

/-! ## 1. What a strict tracker refuses -/

namespace Tracker

variable {limits : Limits} {usage : Usage} {size : Nat}

theorem checkCount_refused_iff (h : checkCount limits usage ≠ .overflowed) (why : Refusal) :
    checkCount limits usage = .refused why ↔ ∃ m, limits.maxAllocations = some m ∧
      m ≤ usage.allocations ∧ why = .allocations m (usage.allocations + 1) := by
  unfold checkCount at h ⊢
  cases hm : limits.maxAllocations with
  | none => simp
  | some m =>
    rw [hm] at h
    by_cases hle : m ≤ usage.allocations
    · by_cases hlt : usage.allocations + 1 < counterRange
      · simp [hle, hlt, eq_comm]
      · simp [hle, hlt] at h
    · simp [hle]

theorem checkMemory_refused_iff (h : checkMemory limits usage size ≠ .overflowed) (why : Refusal) :
    checkMemory limits usage size = .refused why ↔ ∃ m, limits.maxMemory = some m ∧
      m < usage.memory + size ∧ why = .memory m (usage.memory + size) := by
  unfold checkMemory at h ⊢
  cases hm : limits.maxMemory with
  | none => simp
  | some m =>
    rw [hm] at h
    by_cases hlt : usage.memory + size < counterRange
    · by_cases hle : m < usage.memory + size
      · simp [hle, hlt, eq_comm]
      · simp [hle, hlt]
    · simp [hlt] at h

theorem checkCount_accepted (h : checkCount limits usage = .accepted) :
    ∀ m, limits.maxAllocations = some m → usage.allocations < m := by
  intro m hm
  unfold checkCount at h
  rw [hm] at h
  by_contra hle
  simp only [Nat.not_lt.mp hle, ↓reduceIte] at h
  split at h <;> cases h

/-- **What a strict tracker refuses**: the count is looked at before the memory. -/
theorem charge_refused_iff (h : ((strict limits usage).charge size).1 ≠ .overflowed)
    (why : Refusal) :
    ((strict limits usage).charge size).1 = .refused why ↔
      (∃ m, limits.maxAllocations = some m ∧ m ≤ usage.allocations ∧
        why = .allocations m (usage.allocations + 1)) ∨
      (∀ m, limits.maxAllocations = some m → usage.allocations < m) ∧
        ∃ m, limits.maxMemory = some m ∧ m < usage.memory + size ∧
          why = .memory m (usage.memory + size) := by
  cases hc : checkCount limits usage with
  | overflowed => simp [charge, hc] at h
  | refused r =>
    have hne : checkCount limits usage ≠ .overflowed := by
      rw [hc]
      exact Verdict.noConfusion
    have hcount := checkCount_refused_iff hne
    obtain ⟨m, hm, hle, _⟩ := (hcount r).mp hc
    have hn : ¬ ∀ m, limits.maxAllocations = some m → usage.allocations < m := fun hall =>
      absurd (hall m hm) (Nat.not_lt.mpr hle)
    rw [← hcount why, or_iff_left fun h => hn h.1]
    simp only [charge, hc]
  | accepted =>
    have hall := checkCount_accepted hc
    have hnone : ¬ ∃ m, limits.maxAllocations = some m ∧ m ≤ usage.allocations ∧
        why = .allocations m (usage.allocations + 1) := by
      rintro ⟨m, hm, hle, _⟩
      exact absurd (hall m hm) (Nat.not_lt.mpr hle)
    rw [or_iff_right hnone, and_iff_right hall]
    cases hv : checkMemory limits usage size with
    | overflowed => simp [charge, hc, hv] at h
    | refused r =>
      rw [← checkMemory_refused_iff (by rw [hv]; exact fun e => by cases e)]
      simp only [charge, hc, hv]
    | accepted =>
      rw [← checkMemory_refused_iff (by rw [hv]; exact fun e => by cases e)]
      simp only [charge, hc, hv, strictUsage]
      -- a slot that both checks accept is counted
      split
      · split <;> simp
      · simp

end Tracker

/-- How many slots a stroke fills. -/
def Stroke.fillings : Stroke → Nat
  | filled _ _ _ => 1
  | _ => 0

/-- The tracer is told of every slot that is filled. -/
theorem countP_fills_heard (log : List Stroke) :
    (heard log).countP Event.Fills = (log.map Stroke.fillings).sum := by
  induction log with
  | nil => rfl
  | cons s log ih =>
    have hone : s.events.countP Event.Fills = s.fillings := by cases s <;> rfl
    rw [heard_cons, List.countP_append, hone, ih, List.map_cons, List.sum_cons]

namespace Arena

variable {a b : Arena} {limits : Limits} {usage : Usage} {s : Stroke} {log : List Stroke}

/-! ## 2. The accounts of an arena -/

/-- The accounts of the arena, and their limits. -/
structure Limited (a : Arena) (limits : Limits) (usage : Usage) : Prop where
  tracker : a.tracker = .strict limits usage
  allocations_le : ∀ m, limits.maxAllocations = some m → usage.allocations ≤ m
  memory_le : ∀ m, limits.maxMemory = some m → usage.memory ≤ m

theorem limited_empty (id : ArenaId) (limits : Limits) (tracer : Tracer) :
    (Arena.empty id (.strict limits .zero) tracer).Limited limits .zero :=
  ⟨rfl, fun m _ => Nat.zero_le m, fun m _ => Nat.zero_le m⟩

/-- **A stroke counts the slot that it fills**, and keeps within the limits. -/
theorem Stroked.limited (h : Stroked a s b) (l : a.Limited limits usage) :
    ∃ usage', b.Limited limits usage' ∧ usage'.allocations = usage.allocations + s.fillings := by
  have ht := h.tracker
  rw [l.tracker] at ht
  cases s with
  | filled i p n =>
    have hacc := h.accepted
    rw [l.tracker] at hacc
    obtain ⟨hc, hm⟩ := charge_strict hacc
    refine ⟨_, ⟨ht.trans hc, fun m hlim => ?_, hm⟩, rfl⟩
    -- the slot was accepted, so there was room for one more
    have hcount : Tracker.checkCount limits usage = .accepted := by
      unfold Tracker.charge at hacc
      cases hv : Tracker.checkCount limits usage <;> simp [hv] at hacc ⊢
    exact Tracker.checkCount_accepted hcount m hlim
  | emptied i p =>
    exact ⟨_, ⟨ht, l.allocations_le, fun m e => (Nat.sub_le _ _).trans (l.memory_le m e)⟩, rfl⟩
  | _ => exact ⟨usage, ⟨ht, l.allocations_le, l.memory_le⟩, rfl⟩

/-- **The accounts count the slots that are filled**, at any moment. -/
theorem Drawn.limited (h : Drawn a log b) (l : a.Limited limits usage) : ∃ usage',
    b.Limited limits usage' ∧
      usage'.allocations = usage.allocations + (log.map Stroke.fillings).sum := by
  induction h generalizing usage with
  | nil => exact ⟨usage, l, rfl⟩
  | cons hs _ ih =>
    obtain ⟨u, lu, hu⟩ := hs.limited l
    obtain ⟨v, lv, hv⟩ := ih lu
    exact ⟨v, lv, by rw [hv, hu, List.map_cons, List.sum_cons, Nat.add_assoc]⟩

/-! ## 3. Slots that are refused -/

/-- **A slot that is refused leaves no trace**: the arena is as it was. -/
theorem allocate_refused {p : Payload} {n : Nat} {e : HeapError}
    (h : a.allocate p n = .error e b) : b = a := by
  unfold allocate at h
  dsimp only at h
  split at h
  · rename_i hv
    cases h
    rw [Tracker.charge_refused hv]
  · cases h
  · cases h

theorem allocate_refused_iff {p : Payload} {n : Nat} {why : Refusal} :
    (∃ b, a.allocate p n = .error (.resource why) b) ↔
      (a.tracker.charge p.footprint).1 = .refused why := by
  unfold allocate
  dsimp only
  split
  · rename_i r h
    simp [h, Outcome.error]
  · rename_i h
    simp [h, Outcome.error, Outcome.fault]
  · rename_i h
    simp [h, Outcome.error, Outcome.ok]

/-- **Which slots are refused**: one more than the limit on their number, else those that do not fit
    into the memory. -/
theorem Limited.refused_iff (l : a.Limited limits usage) {p : Payload} {n : Nat}
    (hr : (a.allocate p n).fault? ≠ some .counterOverflow) (why : Refusal) :
    (∃ b, a.allocate p n = .error (.resource why) b) ↔
      (limits.maxAllocations = some usage.allocations ∧
        why = .allocations usage.allocations (usage.allocations + 1)) ∨
      (limits.maxAllocations ≠ some usage.allocations ∧ ∃ m, limits.maxMemory = some m ∧
        m < usage.memory + p.footprint ∧ why = .memory m (usage.memory + p.footprint)) := by
  have hv : ((Tracker.strict limits usage).charge p.footprint).1 ≠ .overflowed := by
    intro hv
    rw [← l.tracker] at hv
    refine hr ?_
    simp only [allocate, hv]
    rfl
  -- within the limits, a number that is not below its limit is the limit
  have hcount : (∃ m, limits.maxAllocations = some m ∧ m ≤ usage.allocations ∧
      why = .allocations m (usage.allocations + 1)) ↔
      limits.maxAllocations = some usage.allocations ∧
        why = .allocations usage.allocations (usage.allocations + 1) := by
    constructor
    · rintro ⟨m, hm, hle, rfl⟩
      obtain rfl := Nat.le_antisymm hle (l.allocations_le m hm)
      exact ⟨hm, rfl⟩
    · exact fun h => ⟨_, h.1, Nat.le_refl _, h.2⟩
  have hroom : (∀ m, limits.maxAllocations = some m → usage.allocations < m) ↔
      limits.maxAllocations ≠ some usage.allocations :=
    ⟨fun h e => Nat.lt_irrefl _ (h _ e), fun h m hm =>
      Nat.lt_of_le_of_ne (l.allocations_le m hm) fun e => h (e ▸ hm)⟩
  rw [allocate_refused_iff, l.tracker, Tracker.charge_refused_iff hv, hcount, hroom]

end Arena

/-! ## 4. Runs -/

namespace World

variable {w : World} {k : Nat}

/-- **Limits are enforced over whole runs.** A strict tracker with no accounts yet is put into an
    empty arena, and a run follows in which no counter leaves its range. -/
theorem limits_enforced {id : ArenaId} {limits : Limits} {tracer : Tracer}
    (ha : w.arena? k = some (.empty id (.strict limits .zero) tracer)) {acts : List Action}
    (hr : NoReset k acts) (hn : w.overflowsIn k acts = false) :
    -- after every part of the run the number reported is that of the slots that have been filled
    (∀ past later, acts = past ++ later → ∃ b usage, (w.run past).1.arena? k = some b ∧
      b.snapshot.usage = some usage ∧ b.Limited limits usage ∧
      usage.allocations = (w.journal k past).countP Event.Fills ∧
      -- which never goes down
      usage.allocations ≤ (w.journal k acts).countP Event.Fills ∧
      ∃ log, Drawn (.empty id (.strict limits .zero) tracer) log b ∧ heard log = w.journal k past) ∧
    -- at every moment, also within an action
    ∀ log c, Drawn (.empty id (.strict limits .zero) tracer) log c →
      ∃ usage, c.Limited limits usage ∧
        usage.allocations = (log.map Stroke.fillings).sum ∧
        ∀ p n, (c.allocate p n).fault? ≠ some .counterOverflow →
          -- the next slot is refused for its number, or else for its size,
          (∀ why, (∃ d, c.allocate p n = .error (.resource why) d) ↔
            (limits.maxAllocations = some usage.allocations ∧
              why = .allocations usage.allocations (usage.allocations + 1)) ∨
            (limits.maxAllocations ≠ some usage.allocations ∧ ∃ m, limits.maxMemory = some m ∧
              m < usage.memory + p.footprint ∧
              why = .memory m (usage.memory + p.footprint))) ∧
          -- and then the arena is as it was
          ∀ e d, c.allocate p n = .error e d → d = c := by
  constructor
  · rintro past later rfl
    obtain ⟨hr1, _⟩ := noReset_append.mp hr
    obtain ⟨hn1, _⟩ := overflowsIn_append.mp hn
    obtain ⟨b, hb⟩ := Option.isSome_iff_exists.mp
      (arena?_run_isSome past (by rw [ha]; rfl : (w.arena? k).isSome))
    obtain ⟨log, hdrawn, hheard, _⟩ := run_drawn hr1 hn1 ha hb
    obtain ⟨usage, l, hu⟩ := hdrawn.limited (limited_empty id limits tracer)
    have hcount : usage.allocations = (w.journal k past).countP Event.Fills := by
      rw [← hheard, countP_fills_heard]
      exact hu.trans (Nat.zero_add _)
    refine ⟨b, usage, hb, congrArg Tracker.reported? l.tracker, l, hcount, ?_, log, hdrawn, hheard⟩
    rw [hcount, journal_append, List.countP_append]
    exact Nat.le_add_right _ _
  · intro log c h
    obtain ⟨usage, l, hu⟩ := h.limited (limited_empty id limits tracer)
    exact ⟨usage, l, hu.trans (Nat.zero_add _), fun p n hf =>
      ⟨l.refused_iff hf, fun e d => allocate_refused⟩⟩

/-- A world with one arena, which may fill three slots. -/
def capped : World := start.after (.addArena (.strict ⟨some 3, some 1000, none⟩ .zero) .silent)

/-- A list of an integer is built; a copy of it is refused half-way and rolled back; the list is
    released and reclaimed. -/
def capping : List Action :=
  [.call 0 (.buildScalar (.integer 7)),
    .call 0 (.buildList [⟨⟨1⟩, 0, 0⟩]),
    .call 0 (.copy ⟨⟨1⟩, 1, 0⟩),
    .call 0 (.release ⟨⟨1⟩, 1, 0⟩),
    .call 0 .reclaim]

/-- After `capping` no slot is live, three have been filled, and the next one is refused. -/
theorem limits_enforced_capping : capped.overflowsIn 0 capping = false ∧
    ∃ b usage, (capped.run capping).1.arena? 0 = some b ∧ b.live = 0 ∧
      b.snapshot.usage = some usage ∧ usage.allocations = 3 ∧
      ∃ d, b.allocate (.bool true) 1 = .error (.resource (.allocations 3 4)) d ∧ d = b := by
  have hempty : capped.arena? 0 =
      some (.empty ⟨1⟩ (.strict ⟨some 3, some 1000, none⟩ .zero) .silent) := rfl
  have hreset : NoReset 0 capping := fun t ht => by simp [capping] at ht
  have hn : capped.overflowsIn 0 capping = false := by cbv
  have hfills : (capped.journal 0 capping).countP Event.Fills = 3 := by cbv
  have hend : ((capped.run capping).1.arena? 0).map
      (fun b => (b.live, (b.allocate (.bool true) 1).fault?)) = some (0, none) := by cbv
  obtain ⟨hrun, hmoment⟩ := limits_enforced hempty hreset hn
  obtain ⟨b, usage, hb, hu, l, hcount, _, log, hlog, _⟩ := hrun capping [] (List.append_nil _).symm
  have h3 : usage.allocations = 3 := hcount.trans hfills
  rw [hb] at hend
  obtain ⟨hlive, hfault⟩ := Prod.mk.inj (Option.some.inj hend)
  obtain ⟨usage', l', _, hall⟩ := hmoment log b hlog
  have hsame : usage' = usage := (Tracker.strict.inj (l'.tracker.symm.trans l.tracker)).2
  subst hsame
  obtain ⟨hwhy, hleft⟩ := hall (.bool true) 1 (by rw [hfault]; exact fun e => by cases e)
  obtain ⟨d, hd⟩ := (hwhy (.allocations 3 4)).mpr (.inl (by rw [h3]; exact ⟨rfl, rfl⟩))
  exact ⟨hn, b, usage', hb, hlive, hu, h3, d, hd, hleft _ _ hd⟩

end World

end ValueHeap
