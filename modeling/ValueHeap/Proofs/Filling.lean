import ValueHeap.Proofs.Sweep
import ValueHeap.Proofs.Operations
import ValueHeap.Arena.Copy

/-!
# Filling the slots of a copy

The first half of a copy fills one slot for each value of its plan. The new values still name the
slots of the source, so the arena is not coherent in between; `Filled` says by the slots alone what
has been done so far, and `Restored` what a refusal leaves.

* **`fillSlots_ends`**: either every value of the plan has its slot, or the arena holds exactly
  what it held before;
* `fillSlots_accepted`: the former is the case when the tracker accepts every size;
* `Restored.coherent`: what a refusal leaves is as coherent as before.
-/

namespace ValueHeap

/-- Whether a tracker accepts slots of the given sizes, one after the other. -/
def Tracker.acceptsAll : Tracker → List Nat → Bool
  | _, [] => true
  | t, size :: rest =>
    match t.charge size with
    | (.accepted, u) => u.acceptsAll rest
    | _ => false

theorem Tracker.acceptsAll_left {l l' : List Nat} :
    ∀ {t : Tracker}, t.acceptsAll (l ++ l') → t.acceptsAll l := by
  induction l with
  | nil => exact fun _ => rfl
  | cons size l ih =>
    intro t h
    rw [List.cons_append] at h
    unfold acceptsAll at h ⊢
    split at h
    · exact ih h
    · cases h

namespace Arena

open Outcome

variable {a b c : Arena} {ledger : List Handle} {moving : List Slot}

/-! ## 1. A refused copy -/

/-- `b` holds what `a` holds; empty slots may have moved on. -/
structure Restored (a b : Arena) : Prop where
  id : b.id = a.id
  vacant : b.VacantExact
  occupant? : ∀ j, b.occupant? j = a.occupant? j
  refills? : ∀ j, (a.occupant? j).isSome → b.refills? j = a.refills? j
  grown : ∀ j r, a.refills? j = some r → ∃ q, b.refills? j = some q ∧ r ≤ q

/-- **A restored arena is as coherent as before.** -/
theorem Restored.coherent (w : Restored a b) (co : a.Coherent ledger moving) :
    b.Coherent ledger moving := by
  have hp : ∀ j, b.payload? j = a.payload? j := fun j => by
    unfold Arena.payload?
    rw [w.occupant?]
  have hch : ∀ j, b.childrenAt j = a.childrenAt j := fun j => childrenAt_congr (hp j)
  refine ⟨w.vacant, ?_, ?_, ?_, ?_, ?_⟩
  · intro h hm e
    obtain ⟨r, hr, hle⟩ := co.issued h hm (e.trans w.id)
    obtain ⟨q, hq, hrq⟩ := w.grown h.slot r hr
    exact ⟨q, hq, hle.trans hrq⟩
  · intro j o ho
    rw [w.occupant?] at ho
    have hr := w.refills? j (by rw [ho]; rfl)
    rw [handleOf_eq w.id hr, entriesOn_congr hch]
    exact co.counted j o ho
  · intro i j hj
    rw [hch] at hj
    rw [w.occupant?]
    exact co.closed i j hj
  · intro i d hd
    rw [hp] at hd
    unfold kind?
    rw [hp]
    exact co.views i d hd
  · intro i hi
    rw [w.occupant?]
    exact co.moving_live i hi

/-! ## 2. The slots filled so far -/

/-- `b` is `a` with a slot filled for each value of the plan, in order, and nothing referring to
    it yet. `built` pairs the slots of the source with the new ones. -/
structure Filled (a b : Arena) (plan : List (Slot × Payload)) (built : List (Slot × Slot)) :
    Prop where
  id : b.id = a.id
  vacant : b.VacantExact
  sources : built.map (·.1) = plan.map (·.1)
  nodup : (built.map (·.2)).Nodup
  fresh : ∀ i ∈ built.map (·.2), a.occupant? i = none
  new : ∀ s i, (s, i) ∈ built → ∃ p, (s, p) ∈ plan ∧ b.occupant? i = some ⟨0, p⟩
  newer : ∀ i ∈ built.map (·.2), ∃ r, b.refills? i = some r ∧ ∀ q, a.refills? i = some q → q < r
  old : ∀ j, j ∉ built.map (·.2) → b.occupant? j = a.occupant? j ∧ b.refills? j = a.refills? j

namespace Filled

variable {plan : List (Slot × Payload)} {built : List (Slot × Slot)}

theorem start (v : a.VacantExact) : Filled a a [] [] where
  id := rfl
  vacant := v
  sources := rfl
  nodup := List.nodup_nil
  fresh i hi := by cases hi
  new s i hi := by cases hi
  newer i hi := by cases hi
  old j _ := ⟨rfl, rfl⟩

theorem occupied (w : Filled a b plan built) {i : Slot} (hi : i ∈ built.map (·.2)) :
    (b.occupant? i).isSome := by
  obtain ⟨⟨s, k⟩, hm, rfl⟩ := List.mem_map.mp hi
  obtain ⟨p, _, ho⟩ := w.new s k hm
  rw [ho]
  rfl

/-- The slot that is filled next is none of the new ones. -/
theorem nextSlot_not_mem (w : Filled a b plan built) : b.nextSlot ∉ built.map (·.2) := by
  intro hm
  have h := w.occupied hm
  rw [w.vacant.nextSlot_vacant] at h
  cases h

/-- **Filling one more slot.** -/
theorem step (w : Filled a b plan built) {s : Slot} {p : Payload}
    (h : SameSlots c (b.fill ⟨0, p⟩)) :
    Filled a c (plan ++ [(s, p)]) (built ++ [(s, b.nextSlot)]) := by
  have hn := w.nextSlot_not_mem
  have hold := w.old b.nextSlot hn
  have hocc : ∀ j, c.occupant? j = if j = b.nextSlot then some ⟨0, p⟩ else b.occupant? j :=
    fun j => (h.occupant? j).trans (occupant?_fill b _ j w.vacant.lt_size)
  have href : ∀ j, c.refills? j = if j = b.nextSlot then some b.nextRefills else b.refills? j :=
    fun j => (h.refills? j).trans (refills?_fill b _ j w.vacant.lt_size)
  have hslots : (built ++ [(s, b.nextSlot)]).map (·.2) = built.map (·.2) ++ [b.nextSlot] := by
    rw [List.map_append]
    rfl
  have hne : ∀ i ∈ built.map (·.2), i ≠ b.nextSlot := fun i hi e => hn (e ▸ hi)
  refine ⟨h.id.trans ((id_fill b _).trans w.id), (w.vacant.fill _).of_sameSlots h, ?_, ?_, ?_, ?_,
    ?_, ?_⟩
  · rw [List.map_append, List.map_append, w.sources]
    rfl
  · rw [hslots]
    refine List.nodup_append.mpr ⟨w.nodup, List.nodup_singleton _, fun i hi k hk => ?_⟩
    rw [List.mem_singleton.mp hk]
    exact hne i hi
  · rw [hslots]
    intro i hi
    rcases List.mem_append.mp hi with hi | hi
    · exact w.fresh i hi
    · rw [List.mem_singleton.mp hi, ← hold.1]
      exact w.vacant.nextSlot_vacant
  · intro t i hi
    rcases List.mem_append.mp hi with hi | hi
    · obtain ⟨q, hq, ho⟩ := w.new t i hi
      refine ⟨q, List.mem_append_left _ hq, ?_⟩
      rw [hocc, if_neg (hne i (List.mem_map_of_mem (f := (·.2)) hi))]
      exact ho
    · cases List.mem_singleton.mp hi
      exact ⟨p, List.mem_append_right _ (List.mem_singleton.mpr rfl), by rw [hocc, if_pos rfl]⟩
  · rw [hslots]
    intro i hi
    rcases List.mem_append.mp hi with hi | hi
    · rw [href, if_neg (hne i hi)]
      exact w.newer i hi
    · rw [List.mem_singleton.mp hi, href, if_pos rfl]
      refine ⟨_, rfl, fun q hq => ?_⟩
      rw [nextRefills, hold.2, hq]
      exact Nat.lt_succ_self q
  · rw [hslots]
    intro j hj
    have hj1 : j ∉ built.map (·.2) := fun k => hj (List.mem_append_left _ k)
    have hj2 : j ≠ b.nextSlot := fun k =>
      hj (List.mem_append_right _ (List.mem_singleton.mpr k))
    rw [hocc, href, if_neg hj2, if_neg hj2]
    exact w.old j hj1

/-- **Emptying the new slots restores the arena.** -/
theorem restored (w : Filled a b plan built) (h : SameSlots c b) :
    Restored a (c.freeAll (built.map (·.2))).2 := by
  have he := freeAll_emptied (built.map (·.2)) c
  refine ⟨he.id.trans (h.id.trans w.id), (w.vacant.of_sameSlots h).freeAll _, fun j => ?_,
    fun j hj => ?_, fun j r hr => ?_⟩
  · rw [he.occupant?, h.occupant?]
    by_cases hj : j ∈ built.map (·.2)
    · rw [if_pos hj, w.fresh j hj]
    · rw [if_neg hj, (w.old j hj).1]
  · have hn : j ∉ built.map (·.2) := by
      intro hm
      rw [w.fresh j hm] at hj
      cases hj
    rw [he.refills?, h.refills?, (w.old j hn).2]
  · rw [he.refills?, h.refills?]
    by_cases hj : j ∈ built.map (·.2)
    · obtain ⟨q, hq, hlt⟩ := w.newer j hj
      exact ⟨q, hq, (hlt r hr).le⟩
    · rw [(w.old j hj).2]
      exact ⟨r, hr, Nat.le_refl r⟩

end Filled

/-! ## 3. Filling all of them -/

/-- **Either every value of the plan has its slot, or the arena holds what it held before**; a
    counter that leaves its range also leaves the slots that were filled until then. -/
theorem fillSlots_ends (rest : List (Slot × Payload)) {plan : List (Slot × Payload)}
    {built : List (Slot × Slot)} (w : Filled a b plan built) :
    (b.fillSlots rest built).Ends (fun built' d => Filled a d (plan ++ rest) built')
      (fun d => Restored a d) fun f d =>
        f = .counterOverflow ∧ ∃ e plan' built', Filled a e plan' built' ∧ SameSlots d e := by
  induction rest generalizing b plan built with
  | nil =>
    rw [List.append_nil]
    exact w
  | cons q rest ih =>
    obtain ⟨s, p⟩ := q
    have hends : (b.allocate p 0).Ends
        (fun i d => i = b.nextSlot ∧ SameSlots d (b.fill ⟨0, p⟩)) (fun d => SameSlots d b)
        fun f d => f = .counterOverflow ∧ ∃ e plan' built', Filled a e plan' built' ∧
          SameSlots d e := by
      rcases b.allocate_cases p 0 with ⟨d, e, hd⟩ | ⟨why, d, e, hd⟩ | ⟨d, e, hd⟩
      · rw [e]
        exact ⟨rfl, hd⟩
      · rw [e]
        exact hd
      · rw [e]
        exact ⟨rfl, b, plan, built, w, hd⟩
    refine (hends.onError fun d hd => w.restored hd).andThen fun i d hd => ?_
    obtain ⟨rfl, hs⟩ := hd
    have hrest := ih (w.step (s := s) hs)
    rwa [List.append_assoc] at hrest

theorem fillSlots_meets (rest : List (Slot × Payload)) {plan : List (Slot × Payload)}
    {built : List (Slot × Slot)} (w : Filled a b plan built) :
    (b.fillSlots rest built).Meets (fun built' d => Filled a d (plan ++ rest) built')
      (fun d => Restored a d) :=
  (fillSlots_ends rest w).imp (fun _ _ h => h) (fun _ h => h) fun _ _ h _ => h.1

theorem tracker_fill (a : Arena) (o : Occupant) : (a.fill o).tracker = a.tracker := by
  unfold fill
  split <;> rfl

/-- A slot of an accepted size is filled, and the tracker goes on to accept what it would. -/
theorem allocate_accepted {p : Payload} {rest : List Nat}
    (h : a.tracker.acceptsAll (p.footprint :: rest)) (n : Nat) :
    ∃ i b, a.allocate p n = .ok i b ∧ b.tracker.acceptsAll rest := by
  rw [Tracker.acceptsAll] at h
  unfold allocate
  cases hc : a.tracker.charge p.footprint with
  | mk verdict u =>
    rw [hc] at h
    cases verdict with
    | accepted =>
      refine ⟨_, _, rfl, ?_⟩
      show (fill _ _).tracker.acceptsAll _ = true
      rw [tracker_fill]
      exact h
    | refused why => cases h
    | overflowed => cases h

/-- Where the tracker accepts every size, every value of the plan gets its slot. -/
theorem fillSlots_accepted (plan : List (Slot × Payload)) (built : List (Slot × Slot)) (a : Arena)
    (h : a.tracker.acceptsAll (plan.map fun q => q.2.footprint)) :
    ∃ built' b, a.fillSlots plan built = .ok built' b := by
  induction plan generalizing a built with
  | nil => exact ⟨built, a, rfl⟩
  | cons q rest ih =>
    obtain ⟨i, b, e, hb⟩ := allocate_accepted h 0
    unfold fillSlots
    rw [e]
    exact ih _ b hb

end Arena

end ValueHeap
