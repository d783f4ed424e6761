import Mathlib.Algebra.BigOperators.Group.List.Basic
import ValueHeap.Proofs.Journals

/-!
# Slots: every one accounted for, and no more of them than needed

The empty slots are listed, each once, and a new slot is made only when none is empty. So what a
snapshot counts adds up, and an arena has as many slots as it ever had live ones at one time,
counting the moments within an operation, such as a copy that is rolled back.

* `VacantExact.live_add_vacant`, `sum_census`: what a snapshot counts adds up;
* `Event.lives`: the numbers of live slots that events go through;
* `Stroked.size_eq_max` is the step, **`Drawn.peak`** the run;
* **`World.slots_accounted`**.
-/

namespace ValueHeap

open Arena

/-! ## 1. Live slots along events -/

namespace Event

/-- The number of live slots after an event. -/
def liveAfter (live : Nat) : Event → Nat
  | allocate _ _ => live + 1
  | free _ _ => live - 1
  | _ => live

/-- **The numbers of live slots at all moments**, from the first to the last. -/
def lives (live : Nat) : List Event → List Nat
  | [] => [live]
  | e :: es => live :: lives (e.liveAfter live) es

theorem mem_lives (live : Nat) (es : List Event) : live ∈ lives live es := by
  cases es with
  | nil => exact List.mem_singleton.mpr rfl
  | cons e es => exact List.mem_cons_self

end Event

/-! ## 2. What a snapshot counts -/

namespace Arena

variable {a b : Arena} {s : Stroke} {log : List Stroke}

/-- **Every slot is live or listed as empty.** -/
theorem VacantExact.live_add_vacant (v : a.VacantExact) :
    a.live + a.vacant.length = a.cells.size := by
  have hempty : a.vacant.length =
      ((List.range a.cells.size).filter fun i => !(a.occupant? i).isSome).length := by
    refine List.Perm.length_eq ((List.perm_ext_iff_of_nodup v.nodup
      (List.nodup_range.filter _)).mpr fun i => ?_)
    rw [v.mem_iff, List.mem_filter, List.mem_range, Bool.not_eq_true', Option.isSome_eq_false_iff,
      Option.isNone_iff_eq_none]
  rw [live_eq_length, hempty]
  unfold liveSlots
  have hsplit := List.length_eq_length_filter_add (l := List.range a.cells.size)
    fun i => (a.occupant? i).isSome
  rw [List.length_range] at hsplit
  exact hsplit.symm

/-- A kind that no value has has no number, so every number is positive. -/
theorem census_pos {k : Kind} {n : Nat} (h : a.census k = some n) : 0 < n := by
  unfold census at h
  split at h
  · cases h
  · rename_i hne
    cases h
    exact Nat.pos_of_ne_zero hne

/-- Counted kind by kind, all values are counted once. -/
theorem sum_countP_kinds (cells : List Cell) :
    (Kind.byName.map fun k =>
      cells.countP fun c => c.occupant.any fun o => o.payload.kind == k).sum =
        cells.countP (·.occupant.isSome) := by
  induction cells with
  | nil => rfl
  | cons c cells ih =>
    have hone : (Kind.byName.map fun k =>
        if c.occupant.any (fun o => o.payload.kind == k) then 1 else 0).sum =
          if c.occupant.isSome then 1 else 0 := by
      cases c.occupant with
      | none => rfl
      | some o =>
        -- every kind is listed once
        show (Kind.byName.map fun k => if o.payload.kind == k then 1 else 0).sum = 1
        cases o.payload.kind <;> rfl
    simp only [List.countP_cons, List.sum_map_add]
    rw [ih, hone]

/-- The numbers that a census lists are those of all kinds. -/
theorem sum_filterMap (f : Kind → Nat) (ks : List Kind) :
    ((ks.filterMap fun k =>
      (if f k = 0 then none else some (f k)).map fun n => (k, n)).map (·.2)).sum =
        (ks.map f).sum := by
  induction ks with
  | nil => rfl
  | cons k ks ih =>
    rw [List.filterMap_cons, List.map_cons, List.sum_cons, ← ih]
    by_cases h : f k = 0
    · simp only [h, ↓reduceIte, Option.map_none, Nat.zero_add]
    · simp only [h, ↓reduceIte, Option.map_some, List.map_cons, List.sum_cons]

/-- **The numbers of a snapshot's kinds add up to its live slots.** -/
theorem sum_census (a : Arena) : ((listed a.census).map (·.2)).sum = a.live := by
  refine (sum_filterMap a.liveOfKind Kind.byName).trans ?_
  unfold liveOfKind live
  simp only [← Array.countP_toList]
  exact sum_countP_kinds a.cells.toList

/-- A snapshot's number of a kind is that of the live slots of that kind. -/
theorem liveOfKind_eq (a : Arena) (k : Kind) :
    a.liveOfKind k = a.liveSlots.countP fun i => a.kind? i == some k := by
  refine (a.countP_occupants _).trans (List.countP_congr fun i _ => ?_)
  unfold kind? payload?
  cases a.occupant? i <;> simp

/-- Its number of values without a reference is that of the live slots with a count of zero. -/
theorem unreferenced_eq (a : Arena) :
    a.snapshot.unreferenced = a.liveSlots.countP fun i => a.count? i == some 0 := by
  refine (a.countP_occupants _).trans (List.countP_congr fun i _ => ?_)
  unfold count?
  cases a.occupant? i <;> simp

/-! ## 3. How many slots there are -/

/-- The slots after one more is filled: the first empty one is, or a new one if none is empty. -/
theorem filled_slots {p : Payload} {n : Nat} (h : a.allocate p n = .ok a.nextSlot b) :
    (b.cells.size = a.cells.size + if a.vacant = [] then 1 else 0) ∧
      b.vacant = a.vacant.tail := by
  obtain ⟨b', hb', same⟩ | ⟨_, _, hb', _⟩ | ⟨_, hb', _⟩ := a.allocate_cases p n
  · cases h.symm.trans hb'
    rw [same.cells, same.vacant, vacant_fill]
    unfold fill
    cases hv : a.vacant with
    | nil => exact ⟨Array.size_push _, rfl⟩
    | cons i rest => exact ⟨Array.size_modify, rfl⟩
  · cases h.symm.trans hb'
  · cases h.symm.trans hb'

/-- **A stroke makes a new slot only when none is empty.** -/
theorem Stroked.size (h : Stroked a s b) : b.cells.size = a.cells.size ∨
    a.vacant = [] ∧ b.vacant = [] ∧ b.cells.size = a.cells.size + 1 := by
  cases h with
  | retained | rewritten => exact .inl Array.size_modify
  | unlinked _ =>
    unfold unlink
    split
    · exact .inl Array.size_modify
    · exact .inl rfl
  | returned _ =>
    unfold giveBack unlink
    split
    · exact .inl Array.size_modify
    · exact .inl rfl
  | filled he =>
    obtain ⟨hs, hv⟩ := filled_slots he
    by_cases e : a.vacant = []
    · rw [if_pos e] at hs
      exact .inr ⟨e, by rw [hv, e]; rfl, hs⟩
    · rw [if_neg e] at hs
      exact .inl hs
  | @emptied i p _ hf =>
    obtain ⟨o, ho, rfl, hs⟩ := free?_eq_some hf
    rw [hs.cells]
    exact .inl (size_vacate a i)
  | collected | duplicated | recounted => exact .inl rfl

/-- **There are as many slots as there were, or as many as are live.** -/
theorem Stroked.size_eq_max (h : Stroked a s b) (v : a.VacantExact) :
    b.cells.size = max a.cells.size b.live := by
  have hb := (h.vacant v).live_add_vacant
  rcases h.size with e | ⟨ha, hv, e⟩
  · omega
  · rw [hv, List.length_nil] at hb
    omega

/-- **A stroke tells at most one event, and the number of live slots follows it.** -/
theorem Stroked.live (h : Stroked a s b) (v : a.VacantExact) :
    (s.events = [] ∧ b.live = a.live) ∨ ∃ e, s.events = [e] ∧ b.live = e.liveAfter a.live := by
  cases h with
  | retained | rewritten => exact .inl ⟨rfl, live_update a _ _⟩
  | unlinked _ => exact .inl ⟨rfl, live_unlink a _⟩
  | returned _ =>
    refine .inr ⟨_, rfl, ?_⟩
    show (a.giveBack _).live = a.live
    unfold giveBack
    split
    · exact live_unlink a _
    · rfl
  | @filled p n _ he =>
    refine .inr ⟨_, rfl, ?_⟩
    show b.live = a.live + 1
    have ha := v.live_add_vacant
    have hb := ((Stroked.filled he).vacant v).live_add_vacant
    obtain ⟨hs, hv⟩ := filled_slots he
    rw [hs, hv, ← ha] at hb
    cases hvacant : a.vacant with
    | nil =>
      simp only [hvacant, List.tail_nil, List.length_nil, ↓reduceIte] at hb
      omega
    | cons i rest =>
      simp only [hvacant, List.tail_cons, List.length_cons, reduceCtorEq, ↓reduceIte] at hb
      omega
  | emptied hf =>
    refine .inr ⟨_, rfl, ?_⟩
    show b.live = a.live - 1
    have := live_free? hf
    omega
  | collected | duplicated => exact .inr ⟨_, rfl, rfl⟩
  | recounted => exact .inl ⟨rfl, rfl⟩

/-- The moments of a stroke and of what follows it. -/
theorem Stroked.lives (h : Stroked a s b) (v : a.VacantExact) (es : List Event) :
    (∀ n ∈ Event.lives a.live (s.events ++ es), n = a.live ∨ n ∈ Event.lives b.live es) ∧
      (∀ n ∈ Event.lives b.live es, n ∈ Event.lives a.live (s.events ++ es)) ∧
      (Event.lives a.live (s.events ++ es)).getLast? =
        (Event.lives b.live es).getLast? := by
  rcases h.live v with ⟨hes, hl⟩ | ⟨e, hes, hl⟩
  · rw [hes, hl]
    exact ⟨fun n hn => .inr hn, fun n hn => hn, rfl⟩
  · have hcons : Event.lives a.live (s.events ++ es) = a.live :: Event.lives b.live es := by
      rw [hes, hl]
      rfl
    rw [hcons]
    refine ⟨fun n hn => List.mem_cons.mp hn, fun n hn => List.mem_cons_of_mem _ hn, ?_⟩
    exact List.getLast?_cons_of_ne_nil (List.ne_nil_of_mem (Event.mem_lives b.live es))

/-- **An arena has as many slots as it had, or as many as were live at one time** if these are
    more. -/
theorem Drawn.peak (h : Drawn a log b) (v : a.VacantExact) :
    (∀ n ∈ Event.lives a.live (heard log), n ≤ b.cells.size) ∧ a.cells.size ≤ b.cells.size ∧
      (b.cells.size = a.cells.size ∨ b.cells.size ∈ Event.lives a.live (heard log)) ∧
      (Event.lives a.live (heard log)).getLast? = some b.live := by
  induction h with
  | @nil a =>
    have hsize := v.live_add_vacant
    refine ⟨fun n hn => ?_, Nat.le_refl _, .inl rfl, rfl⟩
    obtain rfl := List.mem_singleton.mp hn
    omega
  | @cons a m b s log hs _ ih =>
    obtain ⟨hle, hgrown, hpeak, hlast⟩ := ih (hs.vacant v)
    obtain ⟨hdown, hup, hsame⟩ := hs.lives v (heard log)
    have hmax := hs.size_eq_max v
    have hsize := v.live_add_vacant
    rw [heard_cons]
    refine ⟨fun n hn => ?_, by omega, ?_, hsame.trans hlast⟩
    · rcases hdown n hn with rfl | hn
      · omega
      · exact hle n hn
    · rcases hpeak with e | hmem
      · by_cases hnew : m.cells.size = a.cells.size
        · exact .inl (e.trans hnew)
        · -- a slot that is new is the last of those that are live
          have hlive : b.cells.size = m.live := by omega
          rw [hlive]
          exact .inr (hup _ (Event.mem_lives _ _))
      · exact .inr (hup _ hmem)

end Arena

/-! ## 4. Runs -/

namespace World

variable {k : Nat} {b : Arena}

/-- In a run from the start in which no counter leaves its range, each empty slot is listed once. -/
theorem vacantExact_run {acts : List Action} (hn : start.overflowsIn k acts = false)
    (hb : (start.run acts).1.arena? k = some b) : b.VacantExact := by
  obtain ⟨past, act, later, c, rfl, hact, hc, hr, _⟩ := exists_latest (fun _ => False) hb
  obtain ⟨tracker, tracer, rfl⟩ := arena?_renewed (hact.resolve_right fun h => h) hc
  obtain ⟨log, hdrawn, _⟩ := run_drawn hr (overflowsIn_since hn) hc (run_since hb)
  exact hdrawn.vacant (vacantExact_empty (start.run past).1.realm.nextId tracker tracer)

/-- **Every slot is accounted for, and there are no more than needed.** In every run from the start
    of a program in which no counter leaves its range: -/
theorem slots_accounted {acts : List Action} (hn : start.overflowsIn k acts = false)
    (hb : (start.run acts).1.arena? k = some b) :
    -- the list of empty slots has each of them once, and nothing else
    (∀ i, b.vacant.count i = if i < b.cells.size ∧ b.occupant? i = none then 1 else 0) ∧
    -- every slot has a generation
    (∀ i, (b.generation? i).isSome ↔ i < b.cells.size) ∧
    -- what a snapshot counts adds up
    b.snapshot.live + b.snapshot.free = b.snapshot.total ∧
    (∀ p ∈ listed b.snapshot.census, 0 < p.2) ∧
    ((listed b.snapshot.census).map (·.2)).sum = b.snapshot.live ∧
    (∀ kind, (b.snapshot.census kind).getD 0 =
      b.liveSlots.countP fun i => b.kind? i == some kind) ∧
    b.snapshot.unreferenced = b.liveSlots.countP (fun i => b.count? i == some 0) ∧
    -- and there are as many slots as there ever were live ones since the arena was made or reset
    ∃ past act later, acts = past ++ act :: later ∧
      (start.run past).1.renewed? act = some k ∧ NoReset k later ∧
      let lives := Event.lives 0 (((start.run past).1.after act).journal k later)
      (∀ n ∈ lives, n ≤ b.snapshot.total) ∧ b.snapshot.total ∈ lives ∧
        lives.getLast? = some b.snapshot.live := by
  obtain ⟨past, act, later, c, rfl, hact, hc, hr, _⟩ := exists_latest (fun _ => False) hb
  have hact : (start.run past).1.renewed? act = some k := hact.resolve_right fun h => h
  obtain ⟨tracker, tracer, rfl⟩ := arena?_renewed hact hc
  have vc := vacantExact_empty (start.run past).1.realm.nextId tracker tracer
  obtain ⟨log, hdrawn, hheard, _⟩ := run_drawn hr (overflowsIn_since hn) hc (run_since hb)
  have v : b.VacantExact := hdrawn.vacant vc
  obtain ⟨hle, _, hpeak, hlast⟩ := hdrawn.peak vc
  rw [hheard] at hle hpeak hlast
  refine ⟨fun i => ?_, fun i => ?_, v.live_add_vacant, ?_, sum_census b, fun kind => ?_,
    unreferenced_eq b, past, act, later, rfl, hact, hr, hle, ?_, hlast⟩
  · by_cases h : i < b.cells.size ∧ b.occupant? i = none
    · rw [if_pos h]
      exact List.count_eq_one_of_mem v.nodup ((v.mem_iff i).mpr h)
    · rw [if_neg h]
      exact List.count_eq_zero.mpr fun hm => h ((v.mem_iff i).mp hm)
  · rw [generation?_eq, Option.isSome_map, refills?_isSome]
  · intro p hp
    obtain ⟨kind, _, hk⟩ := List.mem_filterMap.mp hp
    obtain ⟨n, hn, rfl⟩ := Option.map_eq_some_iff.mp hk
    exact census_pos hn
  · rw [← liveOfKind_eq]
    show (if b.liveOfKind kind = 0 then none else some (b.liveOfKind kind)).getD 0 = _
    split
    · rename_i h
      exact h.symm
    · rfl
  · rcases hpeak with e | h
    · rw [show b.snapshot.total = 0 from e]
      exact Event.mem_lives 0 _
    · exact h

/-- In an arena that may fill three slots, a list of an integer is built, a copy of it is rolled
    back, and the list is released and reclaimed. -/
def peaking : List Action :=
  [.addArena (.strict ⟨some 3, none, none⟩ .zero) .silent,
    .call 0 (.buildScalar (.integer 7)),
    .call 0 (.buildList [⟨⟨1⟩, 0, 0⟩]),
    .call 0 (.copy ⟨⟨1⟩, 1, 0⟩),
    .call 0 (.release ⟨⟨1⟩, 1, 0⟩),
    .call 0 .reclaim]

/-- After `peaking` there are three slots, as many as were live before the copy was rolled back, and
    each of them is listed as empty. -/
theorem slots_accounted_peaking : start.overflowsIn 0 peaking = false ∧
    ∃ b, (start.run peaking).1.arena? 0 = some b ∧ b.snapshot.total = 3 ∧ b.snapshot.free = 3 ∧
      (∀ i, b.vacant.count i = if i < 3 ∧ b.occupant? i = none then 1 else 0) ∧
      ∃ past act later, peaking = past ++ act :: later ∧
        3 ∈ Event.lives 0 (((start.run past).1.after act).journal 0 later) := by
  have hn : start.overflowsIn 0 peaking = false := by cbv
  have hend : ((start.run peaking).1.arena? 0).map (fun b => (b.cells.size, b.live)) =
      some (3, 0) := by cbv
  obtain ⟨b, hb, he⟩ := Option.map_eq_some_iff.mp hend
  obtain ⟨hsize, hlive⟩ := Prod.mk.inj he
  obtain ⟨hvacant, _, hsum, _, _, _, _, past, act, later, hacts, _, _, _, hmem, _⟩ :=
    slots_accounted hn hb
  have htotal : b.snapshot.total = 3 := hsize
  have hfree : b.snapshot.live + b.snapshot.free = 3 := hsum.trans htotal
  rw [show b.snapshot.live = 0 from hlive, Nat.zero_add] at hfree
  rw [htotal] at hmem
  refine ⟨hn, b, hb, htotal, hfree, fun i => ?_, past, act, later, hacts, hmem⟩
  rw [hvacant i, hsize]

end World

end ValueHeap
