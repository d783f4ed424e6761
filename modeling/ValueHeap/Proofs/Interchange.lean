import Mathlib.Data.List.Permutation
import ValueHeap.Proofs.Twins

/-!
# The two trackers that enforce limits

A lenient tracker keeps an account only where a limit needs it, a strict one keeps both. What either
refuses depends on the limits and on those accounts alone, so one does for the other: an arena under
the first and one under the second, taken through the same turns, differ in nothing but what their
trackers hold and report.

* `Tracker.Relaxes`: the same limits, and the same accounts where a limit needs them;
  `Likeness.relaxing`: such trackers stand for each other;
* `Turn`: anything that is done with an arena, resets and copies from and to others included;
  `history`: what each turn of a run leaves;
* `pass_mirrors` is what a turn keeps, **`limits_interchangeable`** what every run keeps.
-/

namespace ValueHeap

open Arena

/-! ## 1. Strict and lenient trackers -/

namespace Tracker

variable {limits : Limits} {usage kept : Usage} {t u : Tracker}

/-- The second tracker has the limits of the first and, where a limit needs them, its accounts. -/
inductive Relaxes : Tracker → Tracker → Prop
  | intro {limits : Limits} {usage kept : Usage} :
      (limits.maxAllocations.isSome → kept.allocations = usage.allocations) →
      (limits.maxMemory.isSome → kept.memory = usage.memory) →
      Relaxes (.strict limits usage) (.lenient limits kept)

theorem relaxes_fresh (limits : Limits) :
    Relaxes (.strict limits .zero) (.lenient limits .zero) := .intro (fun _ => rfl) fun _ => rfl

theorem checkCount_eq (h : limits.maxAllocations.isSome → kept.allocations = usage.allocations) :
    checkCount limits kept = checkCount limits usage := by
  unfold checkCount
  cases hl : limits.maxAllocations with
  | none => rfl
  | some limit => rw [h (by rw [hl]; rfl)]

theorem checkMemory_eq (h : limits.maxMemory.isSome → kept.memory = usage.memory) (size : Nat) :
    checkMemory limits kept size = checkMemory limits usage size := by
  unfold checkMemory
  cases hl : limits.maxMemory with
  | none => rfl
  | some limit => rw [h (by rw [hl]; rfl)]

/-- The accounts that a limit needs go up alike. -/
theorem relaxes_usage (ha : limits.maxAllocations.isSome → kept.allocations = usage.allocations)
    (hm : limits.maxMemory.isSome → kept.memory = usage.memory) (size : Nat) :
    Relaxes (.strict limits ⟨usage.allocations + 1, usage.memory + size⟩)
      (.lenient limits (lenientUsage limits kept size)) := by
  refine .intro (fun h => ?_) fun h => ?_
  · show kept.allocations + (if limits.maxAllocations.isSome then 1 else 0) = _
    rw [if_pos h, ha h]
  · show kept.memory + (if limits.maxMemory.isSome then size else 0) = _
    rw [if_pos h, hm h]

/-- **Both refuse the same, for the same reason**, unless a counter of the first leaves its
    range. -/
theorem Relaxes.charge (size : Nat) (h : Relaxes t u) (hv : (t.charge size).1 ≠ .overflowed) :
    (u.charge size).1 = (t.charge size).1 ∧ Relaxes (t.charge size).2 (u.charge size).2 := by
  obtain ⟨ha, hm⟩ := h
  unfold Tracker.charge at hv ⊢
  dsimp only at hv ⊢
  rw [checkCount_eq ha, checkMemory_eq hm]
  rename_i limits usage kept
  cases hc : checkCount limits usage with
  | refused why => exact ⟨rfl, .intro ha hm⟩
  | overflowed => exact ⟨rfl, .intro ha hm⟩
  | accepted =>
    rw [hc] at hv
    cases hk : checkMemory limits usage size with
    | refused why => exact ⟨rfl, .intro ha hm⟩
    | overflowed => exact ⟨rfl, .intro ha hm⟩
    | accepted =>
      rw [hk] at hv
      dsimp only at hv ⊢
      unfold strictUsage at hv ⊢
      split
      · split
        · exact ⟨rfl, relaxes_usage ha hm size⟩
        · rename_i h1 h2
          rw [if_pos h1, if_neg h2] at hv
          exact absurd rfl hv
      · rename_i h1
        rw [if_neg h1] at hv
        exact absurd rfl hv

/-- Both give the same back, where the second keeps that account at all. -/
theorem Relaxes.refund (size : Nat) (h : Relaxes t u) :
    Relaxes (t.refund size) (u.refund size) := by
  obtain ⟨ha, hm⟩ := h
  unfold Tracker.refund
  dsimp only
  split
  · exact .intro ha fun h => congrArg (· - size) (hm h)
  · rename_i hn
    exact .intro ha fun h => absurd h hn

end Tracker

namespace Likeness

/-- A tracker stands for itself. -/
def same : Likeness where
  like := Eq
  shows := fun usage => usage
  charge n h _ := by subst h; exact ⟨rfl, rfl⟩
  refund n h := by subst h; rfl
  interval h := by subst h; rfl
  reported h := by subst h; rfl

/-- **A lenient tracker stands for a strict one**, and reports nothing. -/
def relaxing : Likeness where
  like := Tracker.Relaxes
  shows := fun _ => none
  charge n h := h.charge n
  refund n h := h.refund n
  interval h := by cases h; rfl
  reported h := by cases h; rfl

end Likeness

/-- Identities counted from another start. -/
def Renaming.shift (d : UInt32) : Renaming where
  identity x := ⟨x.number + d⟩
  injective {x y} h := by
    obtain ⟨m⟩ := x
    obtain ⟨n⟩ := y
    have e : m + d = n + d := congrArg ArenaId.number h
    rw [(UInt32.add_left_inj d).mp e]

/-! ## 2. Runs of one arena -/

namespace Arena

/-- What is done with an arena, alone or together with another. -/
inductive Turn
  | call (c : Call)
  /-- A value is copied into another arena. -/
  | copyInto (h : Handle) (target : Arena)
  /-- A value is copied from another arena. -/
  | copyFrom (source : Arena) (h : Handle)
  /-- A value is compared with one of another arena. -/
  | compare (x : Handle) (other : Arena) (y : Handle) (kind : Kind)
  /-- Everything is dropped; the arena has another identity and another tracker. -/
  | reset (id : ArenaId) (tracker : Tracker)
  /-- The tracer is changed from outside. -/
  | retrace (change : Tracer → Tracer)

/-- What a turn leaves. -/
structure Passage where
  answer : Except Failure Answer
  /-- The arena whose run it is. -/
  own : Arena
  /-- The arena a value was copied into. -/
  target : Option Arena
  /-- The stream a value was read from. -/
  stream : Option ByteStream

/-- The fault that ended a turn, if one did. -/
def Passage.fault? (p : Passage) : Option Fault := Outcome.fault? ⟨p.answer, p.own⟩

/-- The stream that a call leaves, if it reads from one. -/
def streamAfter (a : Arena) : Call → Option ByteStream
  | .readValue s => some (a.readValue s).2
  | _ => none

/-- Takes a turn. -/
def pass (a : Arena) : Turn → Passage
  | .call c => ⟨(a.perform c).answer, (a.perform c).arena, none, a.streamAfter c⟩
  | .copyInto h target =>
    ⟨(a.copyInto h target).answer.map .handle, a, some (a.copyInto h target).arena, none⟩
  | .copyFrom source h =>
    ⟨(source.copyInto h a).answer.map .handle, (source.copyInto h a).arena, none, none⟩
  | .compare x other y kind =>
    ⟨((a.sameData x other y kind).map .flag).mapError .error, a, none, none⟩
  | .reset id tracker => ⟨.ok .done, a.reset id tracker, none, none⟩
  | .retrace change => ⟨.ok .done, { a with tracer := change a.tracer }, none, none⟩

/-- What each turn of a run leaves, one after the other. -/
def history (a : Arena) : List Turn → List Passage
  | [] => []
  | t :: turns => a.pass t :: history (a.pass t).own turns

/-! ## 3. Two runs side by side -/

/-- **The same turn of the second run**: renamed handles, twins of the other arenas, and where the
    first run installs a fresh strict tracker a fresh lenient one with the same limits. -/
inductive Turn.Matches (ρ : Renaming) (Y : Likeness) : Turn → Turn → Prop
  | call (c : Call) : Matches ρ Y (.call c) (.call (ρ.call c))
  | copyInto (h : Handle) {target target' : Arena} : Twin ρ Y target target' →
      Matches ρ Y (.copyInto h target) (.copyInto (ρ.handle h) target')
  | copyFrom {source source' : Arena} (h : Handle) : Twin ρ Y source source' →
      Matches ρ Y (.copyFrom source h) (.copyFrom source' (ρ.handle h))
  | compare (x : Handle) {other other' : Arena} (y : Handle) (kind : Kind) :
      Twin ρ Y other other' →
      Matches ρ Y (.compare x other y kind) (.compare (ρ.handle x) other' (ρ.handle y) kind)
  | reset (id : ArenaId) (limits : Limits) :
      Matches ρ Y (.reset id (.strict limits .zero))
        (.reset (ρ.identity id) (.lenient limits .zero))
  | retrace (change : Tracer → Tracer) : Matches ρ Y (.retrace change) (.retrace change)

/-- **What two runs have in common after a turn**: all but the accounts. -/
structure Passage.Mirrors (ρ : Renaming) (Y : Likeness) (p p' : Passage) : Prop where
  /-- The same answer or the same failure, but no accounts in a snapshot. -/
  answer : p'.answer = ρ.reply (ρ.answer fun _ => none) p.answer
  /-- The same slots, empty slots and events; the same accounts where a limit needs them. -/
  own : Twin ρ .relaxing p.own p'.own
  suggests : p'.own.shouldCollect = p.own.shouldCollect
  unreported : p'.own.tracker.reported? = none
  target : Option.Rel (Twin ρ Y) p.target p'.target
  stream : p'.stream = p.stream

variable {ρ : Renaming} {Y : Likeness} {a a' b b' : Arena}

theorem Twin.passage (h : Twin ρ .relaxing a a') {x x' : Except Failure Answer}
    {target target' : Option Arena} {s s' : Option ByteStream}
    (hx : x' = ρ.reply (ρ.answer fun _ => none) x) (ht : Option.Rel (Twin ρ Y) target target')
    (hs : s' = s) : Passage.Mirrors ρ Y ⟨x, a, target, s⟩ ⟨x', a', target', s'⟩ where
  answer := hx
  own := h
  suggests := h.shouldCollect
  unreported := Likeness.relaxing.reported h.tracker
  target := ht
  stream := hs

/-- Reading a value takes the same bytes from a stream. -/
theorem streamAfter_eq (h : Twin ρ Y a a') {c : Call}
    (hr : (a.perform c).fault? ≠ some .counterOverflow) :
    a'.streamAfter (ρ.call c) = a.streamAfter c := by
  cases c with
  | readValue s =>
    exact congrArg some ((readValue_mirrors h s).2 fun hf => hr ((Outcome.fault?_map ..).trans hf))
  | _ => rfl

/-- **Every turn mirrors its match**, unless a counter leaves its range. -/
theorem pass_mirrors (h : Twin ρ .relaxing a a') {t t' : Turn} (ht : Turn.Matches ρ Y t t')
    (hr : (a.pass t).fault? ≠ some .counterOverflow) :
    Passage.Mirrors ρ Y (a.pass t) (a'.pass t') := by
  cases ht with
  | call c =>
    obtain ⟨hx, hown⟩ := perform_mirrors h c hr
    exact hown.passage hx .none (streamAfter_eq h hr)
  | copyInto x k =>
    have hm : Outcome.Mirrors ρ Y (ρ.answer fun _ => none) ((a.copyInto x _).map .handle) _ :=
      (copyTo_mirrors h k x true).map fun _ => rfl
    obtain ⟨hx, hc⟩ := hm hr
    exact h.passage hx (.some hc) rfl
  | copyFrom x k =>
    have hm : Outcome.Mirrors ρ .relaxing (ρ.answer fun _ => none)
        ((Arena.copyInto _ x a).map .handle) _ := (copyTo_mirrors k h x true).map fun _ => rfl
    obtain ⟨hx, hown⟩ := hm hr
    exact hown.passage hx .none rfl
  | compare x y kind k =>
    refine h.passage ?_ .none rfl
    rw [h.sameData k]
    cases a.sameData x _ y kind <;> rfl
  | reset id limits =>
    have hf : Twin ρ .relaxing (a.reset id (.strict limits .zero))
        (a'.reset (ρ.identity id) (.lenient limits .zero)) := by
      unfold reset
      rw [h.tracer]
      exact twin_empty id (Tracker.relaxes_fresh limits) a.tracer
    exact hf.passage rfl .none rfl
  | retrace change => exact (h.retrace change).passage rfl .none rfl

theorem history_mirrors (h : Twin ρ .relaxing a a') {turns turns' : List Turn}
    (ht : List.Forall₂ (Turn.Matches ρ Y) turns turns')
    (hr : ∀ p ∈ a.history turns, p.fault? ≠ some .counterOverflow) :
    List.Forall₂ (Passage.Mirrors ρ Y) (a.history turns) (a'.history turns') := by
  induction ht generalizing a a' with
  | nil => exact .nil
  | cons hm _ ih =>
    obtain ⟨h1, h2⟩ := List.forall_mem_cons.mp hr
    have hp := pass_mirrors h hm h1
    exact .cons hp (ih hp.own h2)

/-- **The two trackers are interchangeable**: whatever the limits, and whatever is done with an
    arena as long as no counter leaves its range, an arena under a lenient tracker answers at each
    turn what the one under a strict tracker answers, and holds the same. -/
theorem limits_interchangeable (ρ : Renaming) (Y : Likeness) (limits : Limits) (id : ArenaId)
    (tracer : Tracer) {turns turns' : List Turn}
    (ht : List.Forall₂ (Turn.Matches ρ Y) turns turns')
    (hr : ∀ p ∈ (empty id (.strict limits .zero) tracer).history turns,
      p.fault? ≠ some .counterOverflow) :
    List.Forall₂ (Passage.Mirrors ρ Y) ((empty id (.strict limits .zero) tracer).history turns)
      ((empty (ρ.identity id) (.lenient limits .zero) tracer).history turns') :=
  history_mirrors (twin_empty id (Tracker.relaxes_fresh limits) tracer) ht hr

/-- Room for a list and its item. -/
def scarce : Limits := ⟨none, some 200, some 1⟩

/-- A list and its item are built and copied; then the arena is reset and looked at. -/
def crowding (first second : ArenaId) (tracker : Tracker) : List Turn :=
  [.call (.buildScalar (.integer 7)),
    .call (.buildList [⟨first, 0, 0⟩]),
    .call (.copy ⟨first, 1, 0⟩),
    .reset second tracker,
    .call .snapshot]

/-- In `crowding` the second slot of the copy is refused, alike under both trackers. -/
theorem limits_interchangeable_crowding : ∃ p p',
    ((empty ⟨1⟩ (.strict scarce .zero) .silent).history
      (crowding ⟨1⟩ ⟨2⟩ (.strict scarce .zero)))[2]? = some p ∧
    ((empty ⟨4⟩ (.lenient scarce .zero) .silent).history
      (crowding ⟨4⟩ ⟨5⟩ (.lenient scarce .zero)))[2]? = some p' ∧
    p.answer = .error (.error (.resource (.memory 200 304))) ∧ p'.answer = p.answer ∧
    p'.own.vacant = p.own.vacant := by
  have hm : List.Forall₂ (Turn.Matches (.shift 3) .same)
      (crowding ⟨1⟩ ⟨2⟩ (.strict scarce .zero)) (crowding ⟨4⟩ ⟨5⟩ (.lenient scarce .zero)) :=
    .cons (.call _) (.cons (.call _) (.cons (.call _) (.cons (.reset ⟨2⟩ scarce)
      (.cons (.call _) .nil))))
  have hfaults : ((empty ⟨1⟩ (.strict scarce .zero) .silent).history
      (crowding ⟨1⟩ ⟨2⟩ (.strict scarce .zero))).map Passage.fault? = List.replicate 5 none := by
    cbv
  have hr : ∀ p ∈ (empty ⟨1⟩ (.strict scarce .zero) .silent).history
      (crowding ⟨1⟩ ⟨2⟩ (.strict scarce .zero)), p.fault? ≠ some .counterOverflow := by
    intro p hp
    have hm := List.mem_map_of_mem (f := Passage.fault?) hp
    rw [hfaults] at hm
    rw [List.eq_of_mem_replicate hm]
    rintro ⟨⟩
  have h := limits_interchangeable (.shift 3) .same scarce ⟨1⟩ .silent hm hr
  have hanswer : ((empty ⟨1⟩ (.strict scarce .zero) .silent).history
      (crowding ⟨1⟩ ⟨2⟩ (.strict scarce .zero)))[2]?.map Passage.answer =
        some (.error (.error (.resource (.memory 200 304)))) := by
    cbv
  obtain ⟨p, hp, hx⟩ := Option.map_eq_some_iff.mp hanswer
  obtain ⟨hlt, rfl⟩ := List.getElem?_eq_some_iff.mp hp
  have hq := h.get hlt (h.length_eq ▸ hlt)
  have hx' := hq.answer.trans (congrArg (Renaming.reply (.shift 3) _) hx)
  exact ⟨_, _, hp, List.getElem?_eq_getElem _, hx, hx'.trans hx.symm, hq.own.vacant⟩

end Arena

end ValueHeap
