import Mathlib.Data.Rat.Floor
import ValueHeap.Proofs.Steps
import ValueHeap.Proofs.Indiscernibles

/-!
# What an iterator yields

A walk from `start` to `stop` in steps has as many elements as steps fit before `stop`, rounded up.
It tells them in order, as exact integers, and then tells each time that there are no more. A copy
of an iterator has all elements before it again, however far the iterator has gone, and the iterator
goes on where it was.

* `Progression.size`, `Progression.element?`: the elements, as integers; **`next?_iterate`**: a walk
  tells them; `iterate_ended`: a walk that has ended does not move;
* `World.Yields`: what an iterator tells from here on, whatever is done besides; `Yields.after`: one
  action leaves as much of it as there is;
* **`Reachable.progression_exact`**: iterators and their copies, in the same arena or in another
  one.
-/

namespace ValueHeap

open Arena

/-! ## 1. The elements of a walk -/

namespace Progression

variable {r : Progression} {i m : Nat}

/-- How many elements a walk has: as many as steps fit before `stop`, rounded up. -/
def size (start stop step : Int32) : Nat :=
  if stop ≤ start then 0 else ⌈((stop.toInt - start.toInt : Int) : ℚ) / step.toInt⌉.toNat

/-- The element in a place, as an exact integer. -/
def element? (start stop step : Int32) (i : Nat) : Option Int :=
  if i < size start stop step then some (start.toInt + i * step.toInt) else none

/-- A walk with a positive step can be made, and stands at its start. -/
theorem exists_new? (start stop : Int32) {step : Int32} (hs : 0 < step) : ∃ r,
    new? start stop step = some r ∧ r.position = r.start ∧ r.start = start ∧ r.stop = stop ∧
      r.step = step :=
  ⟨⟨start, stop, step, start, hs⟩, dif_pos hs, rfl, rfl, rfl, rfl⟩

/-- A place has an element if that lies before `stop`. -/
theorem lt_size_iff (start stop : Int32) {step : Int32} (hs : 0 < step.toInt) (i : Nat) :
    i < size start stop step ↔ start.toInt + i * step.toInt < stop.toInt := by
  unfold size
  by_cases h : stop ≤ start
  · have hle := Int32.le_iff_toInt_le.mp h
    have hmul : 0 ≤ i * step.toInt := Int.mul_nonneg (Int.natCast_nonneg i) hs.le
    rw [if_pos h]
    omega
  · have hq : (0 : ℚ) < step.toInt := by exact_mod_cast hs
    have hdiv : ((i : Int) : ℚ) < ((stop.toInt - start.toInt : Int) : ℚ) / step.toInt ↔
        i * step.toInt < stop.toInt - start.toInt := by
      rw [lt_div_iff₀ hq]
      exact_mod_cast Iff.rfl
    rw [if_neg h, Int.lt_toNat, Int.lt_ceil, hdiv]
    omega

/-- **A walk from its start tells its elements in order**, and then that there are no more. -/
theorem next?_iterate (hr : r.position = r.start) (i : Nat) :
    (moved^[i] r).next?.map (fun p => p.1.toInt) = element? r.start r.stop r.step i := by
  have hplace : r.place i = r.start.toInt + i * r.step.toInt := by rw [place, hr]
  have hlt := lt_size_iff r.start r.stop r.step_toInt_pos i
  unfold element?
  obtain ⟨hn, hle⟩ | ⟨hn, hlt', hexact⟩ := (r.reaches_iterate i).next?
  · rw [hn, if_neg (by rw [hlt]; omega), Option.map_none]
  · rw [hn, if_pos (by rw [hlt]; omega), Option.map_some, hexact, hplace]

/-- **A walk that has ended does not move.** -/
theorem iterate_ended (hr : r.position = r.start) (hi : size r.start r.stop r.step ≤ i) :
    moved^[i] r = moved^[size r.start r.stop r.step] r := by
  induction i, hi using Nat.le_induction with
  | base => rfl
  | succ i hi ih =>
    have hnone := next?_iterate hr i
    rw [element?, if_neg (Nat.not_lt.mpr hi), Option.map_eq_none_iff] at hnone
    rw [Function.iterate_succ_apply', ← ih, moved, hnone]

/-- A copy starts over, however far the walk has gone. -/
theorem restarted_iterate (hr : r.position = r.start) (m : Nat) : (moved^[m] r).restarted = r := by
  obtain ⟨hstart, hstop, hstep, _, _⟩ := r.reaches_iterate m
  unfold restarted
  generalize moved^[m] r = q at *
  cases q
  cases r
  simp_all

end Progression

/-! ## 2. Advancing -/

namespace Arena

variable {a : Arena} {iterator : Handle} {r : Progression} {m i : Nat} {y : Asked}

/-- What an answer tells of an element: what it is, or that there is none. -/
def Asked.told? : Asked → Option (Option Int)
  | given n => some (some n.toInt)
  | ended => some none
  | refused => none

/-- What may come of asking for an element, unless the call fails, tells the element. -/
theorem Asked.Fits.told (h : y.Fits r i) : y = .refused ∨
    y.told? = some ((Progression.moved^[i] r).next?.map fun p => p.1.toInt) := by
  cases h with
  | given hlt hn =>
    obtain ⟨_, hle⟩ | ⟨hnext, _, hexact⟩ := (r.reaches_iterate i).next?
    · exact absurd hlt (Int.not_lt.mpr hle)
    · rw [hnext, Option.map_some, hexact, ← hn]
      exact .inr rfl
  | ended hle =>
    obtain ⟨hnext, _⟩ | ⟨_, hlt, _⟩ := (r.reaches_iterate i).next?
    · rw [hnext]
      exact .inr rfl
    · exact absurd hlt (Int.not_lt.mpr hle)
  | refused => exact .inl rfl

/-- **Advancing an iterator tells the next element and moves it on by one.** -/
theorem stepIterator_tells (v : a.VacantExact) {walk : Progression}
    (hr : a.readIterator iterator = .ok walk) : ∃ x b, a.stepIterator iterator = .ok x b ∧
      x.map Int32.toInt = walk.next?.map (fun p => p.1.toInt) ∧
      b.readIterator iterator = .ok walk.moved := by
  by_cases h : walk.stop ≤ walk.position
  · have hn := walk.next?_eq.trans (if_pos h)
    refine ⟨none, a, stepIterator_ended hr hn, by rw [hn]; rfl, ?_⟩
    rw [Progression.moved_of_ended h, hr]
  · have hn := walk.next?_eq.trans (if_neg h)
    refine ⟨_, _, stepIterator_moved hr hn, by rw [hn]; rfl, ?_⟩
    have hp := readIterator_eq_ok hr
    have rw' := rewrites_setPayload (q := .iterator walk.moved) v hp rfl
    exact read_of_payload? ((rw'.resolves iterator).mpr (resolves_of_read hr))
      ((rw'.payload? iterator.slot).trans (if_pos rfl)) rfl

/-- A call that only advances an iterator does not fail. -/
theorem asked_stepIterator (hr : (a.stepIterator iterator).answer.isOk) :
    (a.perform (.stepIterator iterator)).asked ≠ .refused := by
  rw [perform]
  generalize a.stepIterator iterator = r at hr ⊢
  obtain ⟨e | x, b⟩ := r
  · cases hr
  · cases x <;> exact Asked.noConfusion

end Arena

/-! ## 3. Runs -/

namespace World

variable {w : World} {k l : Nat} {a : Arena} {o : ObjectId} {r : Progression} {m : Nat}
  {act : Action}

/-- **What an iterator yields from here on**, whatever is done: each time that it is asked for its
    next element it tells the one in the next place, from place `m` on, or that there is none. Only
    a call that has to build the element may fail. -/
def Yields (w : World) (k : Nat) (o : ObjectId) (elements : Nat → Option Int) (m : Nat) : Prop :=
  ∀ past act y, (w.run past).2 = true → NoReset k past → (w.run past).1.asked? k o act = some y →
    y.told? = some (elements (m + (w.asked k o past).length)) ∨
      y = .refused ∧ ∃ iterator, act = .call k (.nextValue iterator)

theorem Reachable.yields (hw : w.Reachable) (ha : w.arena? k = some a) (hr : r.position = r.start)
    (hx : a.contents? o = some (.iterator (Progression.moved^[m] r))) :
    w.Yields k o (Progression.element? r.start r.stop r.step) m := by
  intro past act y hp hn hy
  have hfits := asked_next hw hp hn ha hx hy
  rcases hfits.told with rfl | htold
  · obtain ⟨c, b, rfl, hb, hc⟩ := asked?_eq_some hy
    obtain ⟨hasked, iterator, walk, hread, _, rfl | rfl⟩ := Arena.asked?_eq_some hc
    · refine absurd hasked.symm (asked_stepIterator ?_)
      rw [stepIterator_isOk, hread]
      rfl
    · exact .inr ⟨rfl, iterator, rfl⟩
  · rw [← Function.iterate_add_apply, Progression.next?_iterate hr, Nat.add_comm] at htold
    exact .inl htold

/-- What is done besides takes nothing from an iterator. -/
theorem Yields.after {elements : Nat → Option Int} (h : w.Yields k o elements m)
    (hp : w.Permits act) (hn : NoReset k [act]) (hask : w.asked? k o act = none) :
    (w.after act).Yields k o elements m := by
  intro past next y hrun hreset hy
  have hrest := h (act :: past) next y
  rw [asked, hask, Option.toList_none, List.nil_append] at hrest
  refine hrest ?_ (noReset_append.mpr ⟨hn, hreset⟩) hy
  show (decide (w.Permits act) && ((w.after act).run past).2) = true
  rw [hrun, decide_eq_true hp]
  rfl

/-- Copying asks no iterator for an element. -/
theorem asked?_duplicate (k l : Nat) (x : Handle) (n : Nat) (o : ObjectId) :
    w.asked? n o (duplicate k l x) = none := by
  unfold duplicate
  split
  · simp only [asked?]
    cases w.arena? k with
    | none => rfl
    | some a =>
      simp only [Arena.asked?, Arena.updated?, Call.update?]
      split <;> rfl
  · rfl

/-! ## 4. Copies -/

/-- A copy that is made issues its handle. -/
theorem issues_of_copied {t b : Arena} {x x' : Handle} (ha : w.arena? k = some a)
    (ht : w.arena? l = some t) (hc : (if k = l then a.copy x else a.copyInto x t) = .ok x' b) :
    x' ∈ w.issues (duplicate k l x) l := by
  unfold duplicate
  by_cases e : k = l
  · subst e
    rw [if_pos rfl] at hc ⊢
    simp only [issues, ha, if_pos, perform, hc]
    exact List.mem_singleton_self _
  · rw [if_neg e] at hc ⊢
    simp only [issues, ha, ht, if_pos, hc]
    exact List.mem_singleton_self _

/-- A copy is made if the tracker has room for it. -/
theorem Reachable.copy_issued (hw : w.Reachable) {t : Arena} {x : Handle} (ha : w.arena? k = some a)
    (ht : w.arena? l = some t) (hx : a.resolves x)
    (hs : t.tracker.acceptsAll (a.copySizes x.slot)) :
    ∃ x', x' ∈ w.issues (duplicate k l x) l := by
  have ca := hw.sound.coherent k a ha
  have ct := hw.sound.coherent l t ht
  obtain ⟨x', b, hc⟩ : ∃ x' b, (if k = l then a.copy x else a.copyInto x t) = .ok x' b := by
    by_cases e : k = l
    · subst e
      cases ha.symm.trans ht
      obtain ⟨x', b, _, hc, _⟩ := copyTo_accepted ca ca.vacant false hx hs
      exact ⟨x', b, (if_pos rfl).trans hc⟩
    · obtain ⟨x', b, _, hc, _⟩ := copyTo_accepted ca ct.vacant true hx hs
      exact ⟨x', b, (if_neg e).trans hc⟩
  exact ⟨x', issues_of_copied ha ht hc⟩

/-- **An iterator yields exactly its arithmetic progression, and so does every copy of it.** In
    every world that a program can reach: -/
theorem Reachable.progression_exact (hw : w.Reachable) (ha : w.arena? k = some a)
    (start stop : Int32) {step : Int32} (hs : 0 < step) :
    ∃ r, Progression.new? start stop step = some r ∧
      -- a walk tells its elements and then no more, and stays where it has ended
      (∀ i, (Progression.moved^[i] r).next?.map (fun p => p.1.toInt) =
        Progression.element? start stop step i) ∧
      (∀ i, Progression.size start stop step ≤ i →
        Progression.moved^[i] r = Progression.moved^[Progression.size start stop step] r) ∧
      -- so does an iterator that has gone `m` steps, in one call
      (∀ m iterator, a.readIterator iterator = .ok (Progression.moved^[m] r) →
        ∃ x b, a.stepIterator iterator = .ok x b ∧
          x.map Int32.toInt = Progression.element? start stop step m ∧
          b.readIterator iterator = .ok (Progression.moved^[m + 1] r)) ∧
      -- and in every run
      (∀ m o, a.contents? o = some (.iterator (Progression.moved^[m] r)) →
        w.Yields k o (Progression.element? start stop step) m) ∧
      -- a copy is made if there is room,
      ∀ l t x, w.arena? l = some t → a.resolves x → w.Permits (duplicate k l x) →
        (t.tracker.acceptsAll (a.copySizes x.slot) → ∃ x', x' ∈ w.issues (duplicate k l x) l) ∧
        -- has all elements of each iterator in it, and leaves the iterator where it was
        ∀ x' ∈ w.issues (duplicate k l x) l, ∃ (b : Arena) (F : ObjectId → ObjectId),
          (w.after (duplicate k l x)).arena? l = some b ∧ b.Names x' (F (a.object x.slot)) ∧
          ∀ m o, a.PartOf x o → a.contents? o = some (.iterator (Progression.moved^[m] r)) →
            b.contents? (F o) = some (.iterator r) ∧
            (w.after (duplicate k l x)).Yields l (F o) (Progression.element? start stop step) 0 ∧
            (w.after (duplicate k l x)).Yields k o (Progression.element? start stop step) m := by
  have co := hw.sound.coherent k a ha
  obtain ⟨r, hnew, hr, rfl, rfl, rfl⟩ := Progression.exists_new? start stop hs
  refine ⟨r, hnew, Progression.next?_iterate hr, fun i => Progression.iterate_ended hr,
    fun m iterator hread => ?_, fun m o => hw.yields ha hr,
    fun l t x ht hx hp => ⟨hw.copy_issued ha ht hx, fun x' hx' => ?_⟩⟩
  · obtain ⟨x, b, hok, hx, hb⟩ := stepIterator_tells co.vacant hread
    rw [← Function.iterate_succ_apply' Progression.moved] at hb
    exact ⟨x, b, hok, hx.trans (Progression.next?_iterate hr m), hb⟩
  · obtain ⟨_, b, f, _, hb, _, _, hcopy, _⟩ := hw.copied ha ht hx'
    have hreproduces := hcopy.reproduces co (resolves_iff_handleOf.mp hx).1
    refine ⟨b, fun e => b.object (f e.slot), hb, hreproduces.names, fun m o ho hcontents => ?_⟩
    obtain ⟨y, hy, hcopied⟩ := hreproduces.contents o ho
    cases hcontents.symm.trans hy
    rw [Contents.restarted, Contents.rename, Progression.restarted_iterate hr] at hcopied
    refine ⟨hcopied, (hw.step hp).yields (m := 0) hb hr hcopied, ?_⟩
    have hn : NoReset k [duplicate k l x] := by
      intro tracker hm
      unfold duplicate at hm
      split at hm <;> cases List.mem_singleton.mp hm
    exact (hw.yields ha hr hcontents).after hp hn (asked?_duplicate k l x k o)

/-- An iterator over all 32-bit integers in the largest steps there are, which has given its first
    element. -/
def striding : List Action :=
  [.addArena .unlimited .silent, .call 0 (.buildRange (-2147483648) 2147483647 2147483647),
    .call 0 (.stepIterator ⟨⟨1⟩, 0, 0⟩)]

/-- The arena of `striding`, at the end. -/
def stridingArena : Arena where
  id := ⟨1⟩
  cells := #[⟨0, some ⟨1, .iterator ⟨-2147483648, 2147483647, 2147483647, -1, by decide⟩⟩⟩]
  vacant := []
  tracker := .unlimited
  tracer := .silent
  containersBuilt := 0

theorem arena?_striding : (start.run striding).1.arena? 0 = some stridingArena := rfl

/-- After `striding`, and a copy of its iterator. -/
def copiedStriding : World := (start.run striding).1.after (duplicate 0 0 ⟨⟨1⟩, 0, 0⟩)

/-- The iterator of `striding` has three elements. Its copy yields them all, and the iterator the
    two that are left. -/
theorem progression_exact_striding :
    [0, 1, 2, 3].map (Progression.element? (-2147483648) 2147483647 2147483647) =
        [some (-2147483648), some (-1), some 2147483646, none] ∧
      ∃ x' b e, copiedStriding.arena? 0 = some b ∧ b.Names x' e ∧
        copiedStriding.Yields 0 e
          (Progression.element? (-2147483648) 2147483647 2147483647) 0 ∧
        copiedStriding.Yields 0 ⟨0, 0⟩
          (Progression.element? (-2147483648) 2147483647 2147483647) 1 := by
  refine ⟨by decide +kernel, ?_⟩
  have hreachable : (start.run striding).1.Reachable := reachable_run striding (by decide +kernel)
  have hs : (0 : Int32) < 2147483647 := by decide
  have hp : (start.run striding).1.Permits (duplicate 0 0 ⟨⟨1⟩, 0, 0⟩) :=
    permits_call.mpr ⟨stridingArena, arena?_striding, List.nil_subperm,
      Outcome.inRange_of_refills (n := 2) (by cbv) (by cbv)⟩
  obtain ⟨r, hnew, _, _, _, _, hcopy⟩ :=
    hreachable.progression_exact arena?_striding (-2147483648) 2147483647 hs
  obtain ⟨hmade, hall⟩ := hcopy 0 _ ⟨⟨1⟩, 0, 0⟩ arena?_striding (by decide +kernel) hp
  obtain ⟨x', hx'⟩ := hmade (Tracker.acceptsAll_unlimited _)
  obtain ⟨b, F, hb, hnames, hparts⟩ := hall x' hx'
  have hmoved : Progression.moved^[1] r =
      ⟨-2147483648, 2147483647, 2147483647, -1, by decide⟩ := by
    cases hnew
    decide +kernel
  have hx : stridingArena.contents? ⟨0, 0⟩ = some (.iterator (Progression.moved^[1] r)) := by
    rw [hmoved]
    rfl
  obtain ⟨_, hyields, hsource⟩ := hparts 1 ⟨0, 0⟩ ⟨0, .refl, rfl⟩ hx
  exact ⟨x', b, _, hb, hnames, hyields, hsource⟩

end World

end ValueHeap
