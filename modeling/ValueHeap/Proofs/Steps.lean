import ValueHeap.Proofs.Histories
import ValueHeap.Proofs.Channels

/-!
# Iterators, step by step

An iterator that is asked for its next element moves on before the element is built. So an element
that the tracker refuses is lost: the iterator has moved past it, and goes on behind it when it is
asked again.

* `Progression.place`: where the elements of a walk lie, as exact integers; **`reaches_iterate`**: a
  walk gets there, whatever the limits of 32 bits;
* `nextValue_given`, `nextValue_refused`: what a call leaves;
* `World.asked`: what comes of asking an iterator for its next element, each time of a run;
  **`asked_at`**: the `i`-th time it is the `i`-th element;
* **`Reachable.elements_told`**: the elements that are given, and where the iterator is left.
-/

namespace ValueHeap

/-! ## 1. Walks -/

namespace Progression

variable {r q : Progression} {i : Nat}

/-- The element that lies `i` steps ahead, as an exact integer. -/
def place (r : Progression) (i : Nat) : Int := r.position.toInt + i * r.step.toInt

/-- The walk `q` is what `i` steps make of `r`. -/
structure Reaches (r : Progression) (i : Nat) (q : Progression) : Prop where
  start : q.start = r.start
  stop : q.stop = r.stop
  step : q.step = r.step
  exact : r.place i < r.stop.toInt → q.position.toInt = r.place i
  ended : r.stop.toInt ≤ r.place i → r.stop.toInt ≤ q.position.toInt

theorem step_toInt_pos (r : Progression) : 0 < r.step.toInt := Int32.lt_iff_toInt_lt.mp r.step_pos

/-- A step up goes to the exact sum, or to the largest integer. -/
theorem toInt_addClamped {x y : Int32} (hy : 0 < y.toInt) :
    (addClamped x y).toInt = min (2 ^ 31 - 1) (x.toInt + y.toInt) := by
  have hmax : Int32.maxValue.toInt = 2 ^ 31 - 1 := by decide
  have hmin : Int32.minValue.toInt = -2 ^ 31 := by decide
  have hx := x.le_toInt
  unfold addClamped
  rw [hmax, hmin, max_eq_right (by omega), Int32.toInt_ofInt_of_le (by omega) (by omega)]

theorem moved_of_ended (h : r.stop ≤ r.position) : r.moved = r := by
  unfold moved next?
  rw [if_pos h]

theorem moved_of_lt (h : ¬ r.stop ≤ r.position) :
    r.moved = { r with position := addClamped r.position r.step } := by
  unfold moved next?
  rw [if_neg h]

theorem next?_eq (r : Progression) :
    r.next? = if r.stop ≤ r.position then none else some (r.position, r.moved) := by
  by_cases h : r.stop ≤ r.position
  · rw [if_pos h, next?, if_pos h]
  · rw [if_neg h, next?, if_neg h, moved_of_lt h]

theorem place_succ (r : Progression) (i : Nat) : r.place (i + 1) = r.place i + r.step.toInt := by
  unfold place
  rw [Nat.cast_add, Nat.cast_one, add_mul, one_mul, add_assoc]

/-- **A walk gets where its elements lie**: the position is exact as long as there is an element,
    and once it is held at the largest integer there is none. -/
theorem reaches_iterate (r : Progression) (i : Nat) : r.Reaches i (moved^[i] r) := by
  induction i with
  | zero =>
    have h : r.place 0 = r.position.toInt := by rw [place, Nat.cast_zero, zero_mul, add_zero]
    exact ⟨rfl, rfl, rfl, fun _ => h.symm, fun k => h ▸ k⟩
  | succ i ih =>
    rw [Function.iterate_succ_apply']
    obtain ⟨hstart, hstop, hstep, hexact, hended⟩ := ih
    generalize moved^[i] r = q at *
    have hpos := r.step_toInt_pos
    have hlimit := r.stop.toInt_lt
    have hsucc := r.place_succ i
    by_cases h : q.stop ≤ q.position
    · rw [moved_of_ended h]
      have hq : r.stop.toInt ≤ q.position.toInt := hstop ▸ Int32.le_iff_toInt_le.mp h
      -- a walk that has ended was not before its end
      have hi : r.stop.toInt ≤ r.place i := by
        by_contra hlt
        have := hexact (by omega)
        omega
      exact ⟨hstart, hstop, hstep, fun _ => by omega, fun _ => hq⟩
    · rw [moved_of_lt h]
      have hi : r.place i < r.stop.toInt := by
        by_contra hle
        exact h (Int32.le_iff_toInt_le.mpr (hstop ▸ hended (by omega)))
      have hsum : (addClamped q.position q.step).toInt = min (2 ^ 31 - 1) (r.place (i + 1)) := by
        rw [toInt_addClamped q.step_toInt_pos, hexact hi, hstep, hsucc]
      refine ⟨hstart, hstop, hstep, fun hlt => ?_, fun hle => ?_⟩
      · rw [hsum, min_eq_right (by omega)]
      · rw [hsum]
        omega

/-- What there is to be had from a walk after `i` steps. -/
theorem Reaches.next? (h : r.Reaches i q) :
    (q.next? = none ∧ r.stop.toInt ≤ r.place i) ∨
      (q.next? = some (q.position, q.moved) ∧ r.place i < r.stop.toInt ∧
        q.position.toInt = r.place i) := by
  rw [next?_eq]
  by_cases hq : q.stop ≤ q.position
  · refine .inl ⟨if_pos hq, ?_⟩
    have hle : r.stop.toInt ≤ q.position.toInt := h.stop ▸ Int32.le_iff_toInt_le.mp hq
    by_contra hlt
    have := h.exact (by omega)
    omega
  · have hlt : r.place i < r.stop.toInt := by
      by_contra hle
      exact hq (Int32.le_iff_toInt_le.mpr (h.stop ▸ h.ended (by omega)))
    exact .inr ⟨if_neg hq, hlt, h.exact hlt⟩

end Progression

/-! ## 2. Asking -/

namespace Arena

variable {a b : Arena} {o : ObjectId} {iterator : Handle} {walk : Progression}

/-- What comes of asking an iterator for its next element. -/
inductive Asked
  /-- The element is given, as a number or as a new integer. -/
  | given (n : Int32)
  /-- There are no more elements. -/
  | ended
  /-- The call fails. -/
  | refused
  deriving DecidableEq

def Asked.given? : Asked → Option Int32
  | given n => some n
  | _ => none

/-- What may come of asking a walk for the element that lies `i` steps ahead. -/
inductive Asked.Fits (r : Progression) (i : Nat) : Asked → Prop
  | given {n : Int32} : r.place i < r.stop.toInt → n.toInt = r.place i → Fits r i (given n)
  | ended : r.stop.toInt ≤ r.place i → Fits r i ended
  | refused : r.place i < r.stop.toInt → Fits r i refused

/-- The integer that an answer is or names. -/
def Answer.integer? (b : Arena) : Answer → Option Int32
  | element n => n
  | found (some h) =>
    match b.payload? h.slot with
    | some (.integer n) => some n
    | _ => none
  | _ => none

/-- What an outcome says of the element that was asked for. -/
def Outcome.asked (r : Outcome Answer) : Asked :=
  match r.answer with
  | .ok y =>
    match y.integer? r.arena with
    | some n => .given n
    | none => .ended
  | .error _ => .refused

/-- What comes of a call, if it asks the value for its next element. -/
def asked? (a : Arena) (c : Call) (o : ObjectId) : Option Asked :=
  match a.updated? c o with
  | some .stepped => some (a.perform c).asked
  | _ => none

/-- Only an iterator is asked, by one of two calls. -/
theorem asked?_eq_some {c : Call} {y : Asked} (h : a.asked? c o = some y) :
    y = (a.perform c).asked ∧ ∃ iterator walk, a.readIterator iterator = .ok walk ∧
      a.object iterator.slot = o ∧ (c = .stepIterator iterator ∨ c = .nextValue iterator) := by
  unfold asked? at h
  split at h
  · rename_i hu
    refine ⟨(Option.some.inj h).symm, ?_⟩
    unfold updated? at hu
    split at hu
    · rename_i iterator u hc
      split at hu
      · rename_i hs
        cases hu
        have read : (a.stepIterator iterator).answer.isOk →
            ∃ walk, a.readIterator iterator = .ok walk := fun hok => by
          rw [stepIterator_isOk] at hok
          cases hr : a.readIterator iterator with
          | error e =>
            rw [hr] at hok
            cases hok
          | ok walk => exact ⟨walk, rfl⟩
        cases c <;> cases hc
        · obtain ⟨walk, hr⟩ := read (isOk_map ▸ hs.1)
          exact ⟨iterator, walk, hr, hs.2, .inl rfl⟩
        · obtain ⟨walk, hr⟩ := read hs.1
          exact ⟨iterator, walk, hr, hs.2, .inr rfl⟩
      · cases hu
    · cases hu
  · cases h

theorem stepIterator_ended (hr : a.readIterator iterator = .ok walk) (h : walk.next? = none) :
    a.stepIterator iterator = .ok none a := by
  simp only [stepIterator, hr, h]

theorem stepIterator_moved (hr : a.readIterator iterator = .ok walk)
    (h : walk.next? = some (walk.position, walk.moved)) : a.stepIterator iterator =
      .ok (some walk.position) (a.setPayload iterator.slot (.iterator walk.moved)) := by
  simp only [stepIterator, hr, h]

theorem nextValue_ended (hr : a.readIterator iterator = .ok walk) (h : walk.next? = none) :
    a.nextValue iterator = .ok none a := by
  rw [nextValue, stepIterator_ended hr h, Outcome.andThen_ok]

/-- The element is built when the iterator has moved on. -/
theorem nextValue_moved (hr : a.readIterator iterator = .ok walk)
    (h : walk.next? = some (walk.position, walk.moved)) : a.nextValue iterator =
      ((a.setPayload iterator.slot (.iterator walk.moved)).buildInteger walk.position).andThen
        fun g b => .ok (some g) b := by
  rw [nextValue, stepIterator_moved hr h, Outcome.andThen_ok]

theorem vacant_setPayload_of_read (v : a.VacantExact) (hr : a.readIterator iterator = .ok walk) :
    (a.setPayload iterator.slot (.iterator walk.moved)).VacantExact :=
  (rewrites_setPayload (q := .iterator walk.moved) v (readIterator_eq_ok hr) rfl).vacant

theorem nextValue_unread {e : HeapError} (hr : a.readIterator iterator = .error e) :
    a.nextValue iterator = .error e a := by
  simp only [nextValue, stepIterator, hr, Outcome.andThen_error]

/-- What the tracker refuses is not built, and nothing changes. -/
theorem build_refused {p : Payload} {why : Refusal}
    (h : (a.tracker.charge p.footprint).1 = .refused why) :
    a.build p = .error (.resource why) a := by
  simp only [build, allocate, h, Tracker.charge_refused h]
  rfl

/-- What it accepts is built. -/
theorem build_denotes (v : a.VacantExact) {p : Payload}
    (h : (a.tracker.charge p.footprint).1 = .accepted) :
    ∃ g b, a.build p = .ok g b ∧ b.Denotes g p := by
  obtain ⟨g, b, hb, hd⟩ | ⟨why, hb⟩ | ⟨b, hb⟩ := build_cases v p
  · exact ⟨g, b, hb, hd⟩
  · simp only [build, allocate, h] at hb
    cases hb
  · simp only [build, allocate, h] at hb
    cases hb

/-- **An element that the tracker accepts is given**, as a new value. -/
theorem nextValue_given (v : a.VacantExact) (hr : a.readIterator iterator = .ok walk)
    (hn : walk.next? = some (walk.position, walk.moved))
    (hc : (a.tracker.charge (Payload.integer walk.position).footprint).1 = .accepted) :
    ∃ g b, a.nextValue iterator = .ok (some g) b ∧ b.Denotes g (.integer walk.position) := by
  obtain ⟨g, b, hb, hd⟩ := build_denotes (vacant_setPayload_of_read v hr) hc
  exact ⟨g, b, by rw [nextValue_moved hr hn, buildInteger, hb, Outcome.andThen_ok], hd⟩

/-- **An element that the tracker refuses is not**: the iterator has moved on, and nothing else has
    changed. -/
theorem nextValue_refused (hr : a.readIterator iterator = .ok walk)
    (hn : walk.next? = some (walk.position, walk.moved)) {why : Refusal}
    (hc : (a.tracker.charge (Payload.integer walk.position).footprint).1 = .refused why) :
    a.nextValue iterator =
      .error (.resource why) (a.setPayload iterator.slot (.iterator walk.moved)) := by
  have hb := build_refused (a := a.setPayload iterator.slot (.iterator walk.moved)) hc
  rw [nextValue_moved hr hn, buildInteger, hb, Outcome.andThen_error]

theorem asked_found {g : Handle} {n : Int32} (h : b.payload? g.slot = some (.integer n)) :
    ((Outcome.ok (some g) b).map Answer.found).asked = .given n := by
  simp only [Outcome.map, Outcome.asked, Outcome.ok, Except.map, Answer.integer?, h]

/-- **What comes of asking an iterator**: its next element is given, or the call fails. -/
theorem asked_of_read (v : a.VacantExact) {c : Call} (hr : a.readIterator iterator = .ok walk)
    (hc : c = .stepIterator iterator ∨ c = .nextValue iterator) :
    (walk.next? = none → (a.perform c).asked = .ended) ∧
      (walk.next? = some (walk.position, walk.moved) →
        (a.perform c).asked = .given walk.position ∨ (a.perform c).asked = .refused) := by
  rcases hc with rfl | rfl
  · refine ⟨fun hn => ?_, fun hn => .inl ?_⟩
    · rw [perform, stepIterator_ended hr hn]
      rfl
    · rw [perform, stepIterator_moved hr hn]
      rfl
  · refine ⟨fun hn => ?_, fun hn => ?_⟩
    · rw [perform, nextValue_ended hr hn]
      rfl
    · rw [perform, nextValue_moved hr hn, buildInteger]
      obtain ⟨g, c, hc, hd⟩ | ⟨why, hc⟩ | ⟨c, hc⟩ :=
        build_cases (vacant_setPayload_of_read v hr) (.integer walk.position)
      · have hp : c.payload? g.slot = some (.integer walk.position) := (denotes_iff.mp hd).2
        rw [hc, Outcome.andThen_ok]
        exact .inl (asked_found hp)
      · rw [hc]
        exact .inr rfl
      · rw [hc]
        exact .inr rfl

/-- What asks an iterator moves it on by a step. -/
theorem length_asked? (a : Arena) (c : Call) (o : ObjectId) :
    (a.asked? c o).toList.length = (a.updated? c o).toList.countP Update.isStep := by
  unfold asked?
  cases a.updated? c o with
  | none => rfl
  | some u => cases u <;> rfl

end Arena

/-! ## 3. Runs -/

namespace World

open Arena

variable {w : World} {k : Nat} {a : Arena} {o : ObjectId} {walk : Progression} {act : Action}
  {acts : List Action}

/-- What comes of an action, if it asks a value of the arena at `k` for its next element. -/
def asked? (w : World) (k : Nat) (o : ObjectId) : Action → Option Asked
  | .call l c =>
    match w.arena? l with
    | some a => if l = k then a.asked? c o else none
    | none => none
  | _ => none

/-- **What comes of asking a value** of the arena at `k` for its next element, each time that a run
    does. -/
def asked (w : World) (k : Nat) (o : ObjectId) : List Action → List Asked
  | [] => []
  | act :: rest => (w.asked? k o act).toList ++ (w.after act).asked k o rest

theorem asked_snoc (acts : List Action) (act : Action) :
    w.asked k o (acts ++ [act]) =
      w.asked k o acts ++ ((w.run acts).1.asked? k o act).toList := by
  induction acts generalizing w with
  | nil => exact List.append_nil _
  | cons first rest ih =>
    rw [List.cons_append, asked, ih, asked, List.append_assoc]
    rfl

theorem asked?_eq_some {y : Asked} (h : w.asked? k o act = some y) :
    ∃ c a, act = .call k c ∧ w.arena? k = some a ∧ a.asked? c o = some y := by
  unfold asked? at h
  split at h
  · split at h
    · rename_i ha
      split at h
      · rename_i e
        subst e
        exact ⟨_, _, rfl, ha, h⟩
      · cases h
    · cases h
  · cases h

theorem length_asked (w : World) (k : Nat) (o : ObjectId) (acts : List Action) :
    (w.asked k o acts).length = (w.updates k o acts).countP Update.isStep := by
  have one : ∀ (w : World) act,
      (w.asked? k o act).toList.length = (w.updated? k o act).toList.countP Update.isStep := by
    intro w act
    cases act with
    | call l c =>
      simp only [asked?, updated?]
      cases w.arena? l with
      | none => rfl
      | some a =>
        by_cases e : l = k
        · simp only [if_pos e, length_asked?]
        · simp only [if_neg e, Option.toList_none, List.length_nil, List.countP_nil]
    | _ => rfl
  induction acts generalizing w with
  | nil => rfl
  | cons act rest ih => rw [asked, updates, List.length_append, List.countP_append, one, ih]

/-- The iterator has moved on each time that it was asked. -/
theorem contents_asked (hw : w.Reachable) (hp : (w.run acts).2 = true) (hr : NoReset k acts)
    (ha : w.arena? k = some a) {b : Arena} (hb : (w.run acts).1.arena? k = some b)
    (hx : a.contents? o = some (.iterator walk)) (ho : b.Alive o) :
    ∃ q, b.contents? o = some (.iterator q) ∧ walk.Reaches (w.asked k o acts).length q := by
  obtain ⟨h, _⟩ := contents_run hw acts hp hr ha hb hx ho
  refine ⟨_, h, ?_⟩
  rw [length_asked]
  exact walk.reaches_iterate _

/-- The next time that the iterator is asked. -/
theorem asked_next (hw : w.Reachable) (hp : (w.run acts).2 = true) (hr : NoReset k acts)
    (ha : w.arena? k = some a) (hx : a.contents? o = some (.iterator walk)) {y : Asked}
    (hy : (w.run acts).1.asked? k o act = some y) : y.Fits walk (w.asked k o acts).length := by
  obtain ⟨c, b, rfl, hb, hasked⟩ := asked?_eq_some hy
  obtain ⟨rfl, iterator, q, hread, hobject, hc⟩ := Arena.asked?_eq_some hasked
  have hq : b.contents? o = some (.iterator q) :=
    hobject ▸ contents?_object (readIterator_eq_ok hread)
  -- it can be read, so it was there all the time
  obtain ⟨q', hq', hreach⟩ := contents_asked hw hp hr ha hb hx (contents?_eq_some.mp hq).1
  cases hq.symm.trans hq'
  have co := (hw.run acts hp).sound.coherent k b hb
  obtain ⟨hnone, hsome⟩ := asked_of_read co.vacant hread hc
  obtain ⟨hn, hle⟩ | ⟨hn, hlt, hexact⟩ := hreach.next?
  · rw [hnone hn]
    exact .ended hle
  · obtain h | h := hsome hn
    · rw [h]
      exact .given hlt hexact
    · rw [h]
      exact .refused hlt

/-- **The `i`-th time an iterator is asked, it is asked for its `i`-th element**, whatever has come
    of the others and whatever has been done in between. -/
theorem asked_at (hw : w.Reachable) (hp : (w.run acts).2 = true) (hr : NoReset k acts)
    (ha : w.arena? k = some a) (hx : a.contents? o = some (.iterator walk)) {i : Nat} {y : Asked}
    (hy : (w.asked k o acts)[i]? = some y) : y.Fits walk i := by
  induction acts using List.reverseRecOn with
  | nil => cases hy
  | append_singleton acts act ih =>
    rw [permitted_append, Bool.and_eq_true] at hp
    obtain ⟨hr1, _⟩ := noReset_append.mp hr
    rw [asked_snoc, List.getElem?_append] at hy
    split at hy
    · exact ih hp.1 hr1 hy
    · rename_i hlt
      cases hact : (w.run acts).1.asked? k o act with
      | none =>
        rw [hact] at hy
        cases hy
      | some y' =>
        rw [hact, Option.toList_some, List.getElem?_singleton] at hy
        split at hy
        · cases hy
          obtain rfl : i = (w.asked k o acts).length := by omega
          exact asked_next hw hp.1 hr1 ha hx hact
        · cases hy

/-- A list each of whose entries gives something or nothing by its place. -/
theorem filterMap_of_places {α β : Type} {f : α → Option β} {l : List α} {p : Nat → Bool}
    {g : Nat → β} (h : ∀ i y, l[i]? = some y → f y = if p i then some (g i) else none) :
    l.filterMap f = ((List.range l.length).filter p).map g := by
  induction l using List.reverseRecOn with
  | nil => rfl
  | append_singleton l y ih =>
    have hy := h l.length y List.getElem?_concat_length
    have hl := ih fun i x hx => h i x ((List.getElem?_append_left
      (List.getElem?_eq_some_iff.mp hx).1).trans hx)
    rw [List.filterMap_append, hl, List.length_append, List.length_singleton, List.range_succ,
      List.filter_append, List.map_append]
    refine congrArg _ ?_
    cases hp : p l.length with
    | true => simp [hy, hp]
    | false => simp [hy, hp]

/-- **The elements that an iterator gives**, in an arena that a program has got to. -/
theorem Reachable.elements_told (hw : w.Reachable) (ha : w.arena? k = some a) :
    -- an iterator that cannot be read, or has ended, is left as it is, and so is all else
    (∀ iterator e, a.readIterator iterator = .error e → a.nextValue iterator = .error e a) ∧
    (∀ iterator walk, a.readIterator iterator = .ok walk →
      (walk.stop ≤ walk.position → a.nextValue iterator = .ok none a) ∧
      -- otherwise its element is given if the tracker accepts it,
      (walk.position < walk.stop →
        ((a.tracker.charge (Payload.integer walk.position).footprint).1 = .accepted →
          ∃ g b, a.nextValue iterator = .ok (some g) b ∧ b.Denotes g (.integer walk.position)) ∧
        -- and else the call fails, the iterator has moved on, and nothing else has changed
        ∀ why, (a.tracker.charge (Payload.integer walk.position).footprint).1 = .refused why →
          a.nextValue iterator =
            .error (.resource why) (a.setPayload iterator.slot (.iterator walk.moved)))) ∧
    -- over a run,
    ∀ acts o walk, (w.run acts).2 = true → NoReset k acts →
      a.contents? o = some (.iterator walk) →
      -- an iterator says that it has ended if it was asked for all elements before,
      (∀ i y, (w.asked k o acts)[i]? = some y →
        (y = .ended ↔ walk.stop.toInt ≤ walk.place i)) ∧
      -- gives its elements in order, but those that have been refused,
      ((w.asked k o acts).filterMap Asked.given?).map Int32.toInt =
        ((List.range (w.asked k o acts).length).filter fun i =>
          walk.place i < walk.stop.toInt ∧ (w.asked k o acts)[i]? ≠ some .refused).map walk.place ∧
      -- and is left where those it was asked for end
      ∀ b, (w.run acts).1.arena? k = some b → b.Alive o →
        ∃ q, b.contents? o = some (.iterator q) ∧ walk.Reaches (w.asked k o acts).length q := by
  have v := (hw.sound.coherent k a ha).vacant
  refine ⟨fun iterator e => nextValue_unread, fun iterator walk hread => ⟨fun hle => ?_,
    fun hlt => ?_⟩, fun acts o walk hp hr hx => ⟨fun i y hy => ?_, ?_,
      fun b hb ho => contents_asked hw hp hr ha hb hx ho⟩⟩
  · exact nextValue_ended hread (walk.next?_eq.trans (if_pos hle))
  · have hn := walk.next?_eq.trans (if_neg (Int32.not_le.mpr hlt))
    exact ⟨nextValue_given v hread hn, fun why => nextValue_refused hread hn⟩
  · cases asked_at hw hp hr ha hx hy with
    | given hlt _ => exact ⟨Asked.noConfusion, fun hle => absurd hlt (Int.not_lt.mpr hle)⟩
    | ended hle => exact ⟨fun _ => hle, fun _ => rfl⟩
    | refused hlt => exact ⟨Asked.noConfusion, fun hle => absurd hlt (Int.not_lt.mpr hle)⟩
  · rw [List.map_filterMap]
    refine filterMap_of_places fun i y hy => ?_
    rw [hy]
    cases asked_at hw hp hr ha hx hy with
    | given hlt hn => simp [Asked.given?, hlt, hn]
    | ended hle => simp [Asked.given?, hle]
    | refused _ => simp [Asked.given?]

/-- An iterator over `0`, `1` and `2`, in an arena with room for one more value. -/
def ranging : List Action :=
  [.addArena (.strict ⟨none, some 200, none⟩ .zero) .silent, .call 0 (.buildRange 0 3 1)]

/-- The iterator is asked for a value, and again when there is no room for another; then it is asked
    for a number, which needs none. -/
def retrying : List Action :=
  [.call 0 (.nextValue ⟨⟨1⟩, 0, 0⟩), .call 0 (.nextValue ⟨⟨1⟩, 0, 0⟩),
    .call 0 (.stepIterator ⟨⟨1⟩, 0, 0⟩)]

/-- The second element is lost, and the third one is given after the first. -/
theorem elements_told_retrying :
    (((start.run ranging).1.asked 0 ⟨0, 0⟩ retrying).filterMap Asked.given?).map Int32.toInt =
      [0, 2] := by
  have hp : (start.run ranging).2 = true := by decide +kernel
  have hend : ((start.run ranging).1.arena? 0).map (·.contents? ⟨0, 0⟩) =
      some (some (.iterator ⟨0, 3, 1, 0, by decide⟩)) := rfl
  obtain ⟨a, ha, hx⟩ := Option.map_eq_some_iff.mp hend
  obtain ⟨_, _, h⟩ := (reachable_run ranging hp).elements_told ha
  have hasked : (start.run ranging).1.asked 0 ⟨0, 0⟩ retrying =
      [.given 0, .refused, .given 2] := by decide +kernel
  obtain ⟨_, hgiven, _⟩ := h retrying _ _ (by decide +kernel)
    (fun t ht => by simp [retrying] at ht) hx
  rw [hgiven, hasked]
  decide

/-- **A refused element is lost**: the iterator of `ranging` stands at `1` when it is asked for the
    second time; the call fails, and the iterator stands at `2`. Whatever follows, it does not give
    `1` any more. -/
theorem element_lost :
    (∃ a, ((start.run ranging).1.run [.call 0 (.nextValue ⟨⟨1⟩, 0, 0⟩)]).1.arena? 0 = some a ∧
      (a.nextValue ⟨⟨1⟩, 0, 0⟩).answer = .error (.error (.resource (.memory 200 288))) ∧
      a.contents? ⟨0, 0⟩ = some (.iterator ⟨0, 3, 1, 1, by decide⟩) ∧
      (a.nextValue ⟨⟨1⟩, 0, 0⟩).arena.contents? ⟨0, 0⟩ =
        some (.iterator ⟨0, 3, 1, 2, by decide⟩)) ∧
    ∀ acts, (start.run (ranging ++ retrying.take 2 ++ acts)).2 = true → NoReset 0 acts →
      .given 1 ∉ (start.run (ranging ++ retrying.take 2)).1.asked 0 ⟨0, 0⟩ acts := by
  constructor
  · have hend : (((start.run ranging).1.run [.call 0 (.nextValue ⟨⟨1⟩, 0, 0⟩)]).1.arena? 0).map
        (fun a => ((a.nextValue ⟨⟨1⟩, 0, 0⟩).answer, a.contents? ⟨0, 0⟩,
          (a.nextValue ⟨⟨1⟩, 0, 0⟩).arena.contents? ⟨0, 0⟩)) =
        some (.error (.error (.resource (.memory 200 288))),
          some (.iterator ⟨0, 3, 1, 1, by decide⟩), some (.iterator ⟨0, 3, 1, 2, by decide⟩)) := rfl
    obtain ⟨a, ha, he⟩ := Option.map_eq_some_iff.mp hend
    obtain ⟨hanswer, he⟩ := Prod.mk.inj he
    exact ⟨a, ha, hanswer, Prod.mk.inj he⟩
  · intro acts hp hr hm
    rw [permitted_append, Bool.and_eq_true] at hp
    have hend : ((start.run (ranging ++ retrying.take 2)).1.arena? 0).map
        (·.contents? ⟨0, 0⟩) = some (some (.iterator ⟨0, 3, 1, 2, by decide⟩)) := rfl
    obtain ⟨a, ha, hx⟩ := Option.map_eq_some_iff.mp hend
    obtain ⟨i, hi⟩ := List.mem_iff_getElem?.mp hm
    -- the elements from here on lie at `2` and beyond
    cases asked_at (reachable_run _ hp.1) hp.2 hr ha hx hi with
    | given _ hn =>
      have hplace : (⟨0, 3, 1, 2, by decide⟩ : Progression).place i = 2 + i * 1 := rfl
      have hone : (1 : Int32).toInt = 1 := rfl
      omega

end World

end ValueHeap
