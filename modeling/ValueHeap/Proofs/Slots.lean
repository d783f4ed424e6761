import Mathlib.Algebra.BigOperators.Group.Finset.Basic
import ValueHeap.Arena.Contents

/-!
# What the primitives do to the slots

Every operation on an arena is made of a few primitives. This module says, for each of them, what
it does to the occupants (`occupant?`), to the number of refills (`refills?`) and to the list of
empty slots; later modules read the primitives through these lemmas only.

* `lookup_eq_ok_iff`: a handle names a value exactly if it is the handle of its slot's occupant;
* `SameSlots`: tracker, tracer and the count of containers are no part of the slots;
* `allocate_cases`: an allocation fills the next slot or leaves every slot alone;
* `entriesOn` counts the references that live values hold on a slot; `Revises` says that the payload
  in one slot changes, and with it the children, the kinds and the entries.
-/

namespace ValueHeap

namespace Arena

/-! ## 1. Refills -/

/-- How often a slot has been filled again. -/
def refills? (a : Arena) (i : Slot) : Option Nat := a.cells[i]?.map (·.refills)

/-- No slot has been filled again so often that its generation has started over. -/
def Unwrapped (a : Arena) : Prop := ∀ c ∈ a.cells, c.refills < 2 ^ 32

instance (a : Arena) : Decidable a.Unwrapped :=
  inferInstanceAs (Decidable (∀ c ∈ a.cells, c.refills < 2 ^ 32))

/-- A generation is the number of refills, in 32 bits. -/
theorem generation?_eq (a : Arena) (i : Slot) :
    a.generation? i = (a.refills? i).map UInt32.ofNat := by
  unfold generation? refills?
  cases a.cells[i]? <;> rfl

theorem refills?_isSome {a : Arena} {i : Slot} : (a.refills? i).isSome ↔ i < a.cells.size := by
  unfold refills?
  by_cases h : i < a.cells.size <;> simp [h]

theorem lt_size_of_occupant? {a : Arena} {i : Slot} (h : (a.occupant? i).isSome) :
    i < a.cells.size := by
  unfold occupant? at h
  by_cases hi : i < a.cells.size
  · exact hi
  · simp [hi] at h

theorem Unwrapped.refills_lt {a : Arena} (h : a.Unwrapped) {i r : Nat}
    (hr : a.refills? i = some r) : r < 2 ^ 32 := by
  obtain ⟨c, hc, rfl⟩ := Option.map_eq_some_iff.mp hr
  exact h c (Array.mem_of_getElem? hc)

theorem unwrapped_of_refills {a : Arena} (h : ∀ i r, a.refills? i = some r → r < 2 ^ 32) :
    a.Unwrapped := by
  intro c hc
  obtain ⟨i, hi, rfl⟩ := Array.mem_iff_getElem.mp hc
  exact h i _ (by simp [refills?, hi])

/-! ## 2. Handles -/

/-- **A handle names a value exactly if it is the handle of its slot's occupant.** -/
theorem lookup_eq_ok_iff {a : Arena} {h : Handle} {o : Occupant} :
    a.lookup h = .ok o ↔ a.occupant? h.slot = some o ∧ h = a.handleOf h.slot := by
  obtain ⟨id, i, g⟩ := h
  unfold lookup occupant? handleOf generation?
  simp only [Handle.mk.injEq, true_and]
  by_cases hid : id = a.id
  · cases hc : a.cells[i]? with
    | none => simp [hid]
    | some c =>
      cases ho : c.occupant with
      | none => simp [hid, ho]
      | some p =>
        by_cases hg : c.generation = g
        · simp [hid, ho, hg]
        · have hg' : ¬ g = c.generation := fun e => hg e.symm
          simp [hid, ho, hg, hg']
  · simp [hid]

theorem resolves_iff {a : Arena} {h : Handle} : a.resolves h ↔ ∃ o, a.lookup h = .ok o := by
  unfold resolves
  cases a.lookup h <;> simp [Except.isOk, Except.toBool]

/-- The handle for an occupied slot names the value in it. -/
theorem lookup_handleOf {a : Arena} {i : Slot} {o : Occupant} (h : a.occupant? i = some o) :
    a.lookup (a.handleOf i) = .ok o := lookup_eq_ok_iff.mpr ⟨h, rfl⟩

/-- **A handle names a value exactly if it is the one that the slot issues now.** -/
theorem resolves_iff_handleOf {a : Arena} {h : Handle} :
    a.resolves h ↔ (a.occupant? h.slot).isSome ∧ h = a.handleOf h.slot := by
  rw [resolves_iff, Option.isSome_iff_exists]
  constructor
  · rintro ⟨o, ho⟩
    obtain ⟨h1, h2⟩ := lookup_eq_ok_iff.mp ho
    exact ⟨⟨o, h1⟩, h2⟩
  · rintro ⟨⟨o, h1⟩, h2⟩
    exact ⟨o, lookup_eq_ok_iff.mpr ⟨h1, h2⟩⟩

/-- A handle of this arena that names no value is stale. -/
theorem lookup_eq_stale {a : Arena} {h : Handle} (hid : h.arena = a.id) (hn : ¬ a.resolves h) :
    a.lookup h = .error .stale := by
  cases hl : a.lookup h with
  | ok o => exact absurd (resolves_iff.mpr ⟨o, hl⟩) hn
  | error e =>
    unfold lookup at hl
    rw [if_neg (by simp [hid])] at hl
    split at hl
    · split at hl
      · split at hl <;> cases hl
        rfl
      · cases hl
        rfl
    · cases hl
      rfl

/-! ## 3. What is no part of the slots -/

/-- `b` has the identity and the slots of `a`. -/
structure SameSlots (b a : Arena) : Prop where
  id : b.id = a.id
  cells : b.cells = a.cells
  vacant : b.vacant = a.vacant

namespace SameSlots

variable {a b : Arena}

theorem refl (a : Arena) : SameSlots a a := ⟨rfl, rfl, rfl⟩

theorem occupant? (h : SameSlots b a) (i : Slot) : b.occupant? i = a.occupant? i := by
  unfold Arena.occupant?
  rw [h.cells]

theorem refills? (h : SameSlots b a) (i : Slot) : b.refills? i = a.refills? i := by
  unfold Arena.refills?
  rw [h.cells]

theorem unwrapped (h : SameSlots b a) : b.Unwrapped ↔ a.Unwrapped := by
  unfold Arena.Unwrapped
  rw [h.cells]

end SameSlots

theorem sameSlots_note (a : Arena) (e : Event) : SameSlots (a.note e) a := ⟨rfl, rfl, rfl⟩

/-- A slot issues the same handle as long as it is not filled again. -/
theorem handleOf_eq {a b : Arena} (hid : b.id = a.id) {i : Slot}
    (hr : b.refills? i = a.refills? i) : b.handleOf i = a.handleOf i := by
  unfold handleOf
  rw [generation?_eq, generation?_eq, hid, hr]

/-! ## 4. Changing an occupant -/

theorem refills?_update (a : Arena) (i : Slot) (f : Occupant → Occupant) (j : Slot) :
    (a.update i f).refills? j = a.refills? j := by
  unfold refills? update
  simp only [Array.getElem?_modify]
  by_cases h : i = j
  · subst h
    simp only [↓reduceIte]
    cases a.cells[i]? <;> rfl
  · simp [h]

theorem occupant?_unlink (a : Arena) (i j : Slot) :
    (a.unlink i).occupant? j =
      if j = i then (a.occupant? j).map (fun o => { o with count := o.count - 1 })
      else a.occupant? j := by
  unfold unlink
  split
  · exact occupant?_update a i _ j
  · rename_i h
    by_cases hj : j = i
    · simp [hj, h]
    · simp [hj]

/-- Only filling a slot moves it on. -/
theorem refills?_unlink (a : Arena) (i j : Slot) : (a.unlink i).refills? j = a.refills? j := by
  unfold unlink
  split
  · exact refills?_update a i _ j
  · rfl

@[simp] theorem id_unlink (a : Arena) (i : Slot) : (a.unlink i).id = a.id := by
  unfold unlink
  split <;> rfl

@[simp] theorem vacant_unlink (a : Arena) (i : Slot) : (a.unlink i).vacant = a.vacant := by
  unfold unlink
  split <;> rfl

/-- Giving a reference back is taking it, with a word to the tracer. -/
theorem sameSlots_giveBack (a : Arena) (i : Slot) : SameSlots (a.giveBack i) (a.unlink i) := by
  unfold giveBack
  split
  · exact sameSlots_note _ _
  · rename_i h
    simp only [unlink, h]
    exact .refl a

/-! ## 5. Filling and emptying -/

@[simp] theorem size_vacate (a : Arena) (i : Slot) :
    (a.vacate i).cells.size = a.cells.size := by
  simp [vacate]

theorem refills?_vacate (a : Arena) (i j : Slot) : (a.vacate i).refills? j = a.refills? j := by
  unfold refills? vacate
  simp only [Array.getElem?_modify]
  by_cases h : i = j
  · subst h
    simp only [↓reduceIte]
    cases a.cells[i]? <;> rfl
  · simp [h]

theorem id_fill (a : Arena) (o : Occupant) : (a.fill o).id = a.id := by
  unfold fill
  split <;> rfl

theorem vacant_fill (a : Arena) (o : Occupant) : (a.fill o).vacant = a.vacant.tail := by
  unfold fill
  split <;> rename_i h <;> simp [h]

/-- The refills of the next slot once it is filled: one more, or none for a new slot. -/
def nextRefills (a : Arena) : Nat := (a.refills? a.nextSlot).elim 0 (· + 1)

/-- **The slot that is filled moves on**, and no other. -/
theorem refills?_fill (a : Arena) (o : Occupant) (j : Slot)
    (h : ∀ i ∈ a.vacant, i < a.cells.size) :
    (a.fill o).refills? j = if j = a.nextSlot then some a.nextRefills else a.refills? j := by
  unfold fill nextRefills nextSlot refills?
  cases hv : a.vacant with
  | nil =>
    simp only [List.headD_nil, Array.getElem?_push]
    by_cases hj : j = a.cells.size <;> simp [hj]
  | cons i rest =>
    have hi : i < a.cells.size := h i (by simp [hv])
    simp only [List.headD_cons, Array.getElem?_modify]
    by_cases hij : i = j
    · subst hij
      simp [Array.getElem?_eq_getElem hi]
    · have hji : ¬ j = i := fun e => hij e.symm
      simp [hij, hji]

/-- **An allocation fills the next slot or leaves every slot alone.** -/
theorem allocate_cases (a : Arena) (p : Payload) (count : Nat) :
    (∃ b, a.allocate p count = .ok a.nextSlot b ∧ SameSlots b (a.fill ⟨count, p⟩)) ∨
    (∃ why b, a.allocate p count = .error (.resource why) b ∧ SameSlots b a) ∨
    (∃ b, a.allocate p count = .fault .counterOverflow b ∧ SameSlots b a) := by
  unfold allocate
  cases (a.tracker.charge p.footprint).1 with
  | accepted =>
    refine .inl ⟨_, rfl, ?_⟩
    unfold note fill countBuilt
    cases a.vacant <;> exact ⟨rfl, rfl, rfl⟩
  | refused why => exact .inr (.inl ⟨why, _, rfl, ⟨rfl, rfl, rfl⟩⟩)
  | overflowed => exact .inr (.inr ⟨_, rfl, ⟨rfl, rfl, rfl⟩⟩)

/-- A slot that is freed was occupied, and is emptied. -/
theorem free?_eq_some {a b : Arena} {i : Slot} {p : Payload} (h : a.free? i = some (p, b)) :
    ∃ o, a.occupant? i = some o ∧ p = o.payload ∧ SameSlots b (a.vacate i) := by
  unfold free? at h
  split at h
  · cases h
  · rename_i o ho
    cases h
    exact ⟨o, ho, rfl, ⟨rfl, rfl, rfl⟩⟩

theorem free?_eq_none {a : Arena} {i : Slot} : a.free? i = none ↔ a.occupant? i = none := by
  unfold free?
  cases a.occupant? i <;> simp

/-! ## 6. The list of empty slots -/

/-- The list of empty slots holds each empty slot once and no other. -/
structure VacantExact (a : Arena) : Prop where
  nodup : a.vacant.Nodup
  mem_iff : ∀ i, i ∈ a.vacant ↔ i < a.cells.size ∧ a.occupant? i = none

namespace VacantExact

variable {a b : Arena}

theorem lt_size (v : a.VacantExact) : ∀ i ∈ a.vacant, i < a.cells.size :=
  fun i hi => ((v.mem_iff i).mp hi).1

/-- The slot that is filled next is empty. -/
theorem nextSlot_vacant (v : a.VacantExact) : a.occupant? a.nextSlot = none := by
  unfold nextSlot
  cases hv : a.vacant with
  | nil => simp [occupant?]
  | cons i rest => exact ((v.mem_iff i).mp (by simp [hv])).2

theorem congr (v : a.VacantExact) (hv : b.vacant = a.vacant)
    (hr : ∀ j, b.refills? j = a.refills? j)
    (ho : ∀ j, (b.occupant? j).isSome = (a.occupant? j).isSome) : b.VacantExact := by
  refine ⟨hv ▸ v.nodup, fun i => ?_⟩
  rw [hv, v.mem_iff, ← refills?_isSome, ← refills?_isSome, hr, ← Option.not_isSome_iff_eq_none,
    ← Option.not_isSome_iff_eq_none, ho]

theorem of_sameSlots (h : SameSlots b a) (v : a.VacantExact) : b.VacantExact :=
  v.congr h.vacant h.refills? fun j => by rw [h.occupant?]

theorem fill (v : a.VacantExact) (o : Occupant) : (a.fill o).VacantExact := by
  refine ⟨?_, fun i => ?_⟩
  · rw [vacant_fill]
    exact v.nodup.sublist (List.tail_sublist _)
  rw [← refills?_isSome, refills?_fill a o i v.lt_size, occupant?_fill a o i v.lt_size, vacant_fill]
  by_cases h : i = a.nextSlot
  · subst h
    have hn : a.nextSlot ∉ a.vacant.tail := by
      have hd := v.nodup
      unfold nextSlot
      cases hv : a.vacant with
      | nil => simp
      | cons k rest =>
        rw [hv] at hd
        exact (List.nodup_cons.mp hd).1
    simp [hn]
  · rw [if_neg h, if_neg h, refills?_isSome, ← v.mem_iff]
    revert h
    unfold nextSlot
    cases a.vacant with
    | nil => simp
    | cons k rest =>
      intro h
      have hk : i ≠ k := h
      simp [hk]

theorem vacate (v : a.VacantExact) {i : Slot} (h : (a.occupant? i).isSome) :
    (a.vacate i).VacantExact := by
  refine ⟨?_, fun j => ?_⟩
  · refine List.nodup_cons.mpr ⟨fun hi => ?_, v.nodup⟩
    have hn := ((v.mem_iff i).mp hi).2
    rw [hn] at h
    cases h
  · show j ∈ i :: a.vacant ↔ _
    rw [List.mem_cons, size_vacate, v.mem_iff, occupant?_vacate]
    by_cases e : j = i
    · subst e
      simp [lt_size_of_occupant? h]
    · simp [e]

end VacantExact

/-! ## 7. References between values -/

/-- The kind of the value in a slot. -/
def kind? (a : Arena) (i : Slot) : Option Kind := (a.payload? i).map (·.kind)

/-- The references to a slot that live values hold, each counted as often as it is held. -/
def entriesOn (a : Arena) (i : Slot) : Nat := (a.liveSlots.flatMap a.childrenAt).count i

theorem payload?_of_occupant? {a : Arena} {i : Slot} {o : Occupant} (h : a.occupant? i = some o) :
    a.payload? i = some o.payload := by
  simp [payload?, h]

/-- A change of counts alone leaves the payloads. -/
theorem payload?_update (a : Arena) (i : Slot) {f : Occupant → Occupant}
    (hf : ∀ o, (f o).payload = o.payload) (j : Slot) :
    (a.update i f).payload? j = a.payload? j := by
  unfold payload?
  rw [occupant?_update]
  by_cases h : j = i
  · rw [if_pos h, Option.map_map]
    exact congrArg (fun g => (a.occupant? j).map g) (funext hf)
  · rw [if_neg h]

theorem payload?_unlink (a : Arena) (i j : Slot) : (a.unlink i).payload? j = a.payload? j := by
  unfold unlink
  split
  · refine payload?_update a i ?_ j
    exact fun _ => rfl
  · rfl

theorem occupant?_setPayload (a : Arena) (i : Slot) (q : Payload) (j : Slot) :
    (a.setPayload i q).occupant? j =
      if j = i then (a.occupant? j).map (fun o => { o with payload := q }) else a.occupant? j :=
  occupant?_update a i _ j

theorem childrenAt_of_payload? {a : Arena} {i : Slot} {p : Payload} (h : a.payload? i = some p) :
    a.childrenAt i = p.children := by
  simp [childrenAt, h]

theorem childrenAt_of_occupant? {a : Arena} {i : Slot} {o : Occupant}
    (h : a.occupant? i = some o) : a.childrenAt i = o.payload.children :=
  childrenAt_of_payload? (payload?_of_occupant? h)

theorem childrenAt_of_vacant {a : Arena} {i : Slot} (h : a.occupant? i = none) :
    a.childrenAt i = [] := by
  simp [childrenAt, payload?, h]

theorem occupied_of_childrenAt {a : Arena} {i c : Slot} (h : c ∈ a.childrenAt i) :
    (a.occupant? i).isSome := by
  cases ho : a.occupant? i with
  | none => simp [childrenAt_of_vacant ho] at h
  | some o => rfl

/-- The children of a value are told by its payload. -/
theorem childrenAt_congr {a b : Arena} {i : Slot} (h : b.payload? i = a.payload? i) :
    b.childrenAt i = a.childrenAt i := by
  unfold childrenAt
  rw [h]

theorem countP_eq_range {α : Type} (p : α → Bool) :
    ∀ l : List α, l.countP p = (List.range l.length).countP fun i => l[i]?.any p
  | [] => rfl
  | x :: l => by
      rw [List.length_cons, List.range_succ_eq_map, List.countP_cons, List.countP_cons,
        List.countP_map, countP_eq_range p l]
      rfl

/-- The number of live slots is that of the list of them. -/
theorem live_eq_length (a : Arena) : a.live = a.liveSlots.length := by
  unfold live liveSlots
  rw [← Array.countP_toList, countP_eq_range, ← List.countP_eq_length_filter, Array.length_toList]
  refine List.countP_congr fun i _ => ?_
  unfold occupant?
  rw [Array.getElem?_toList]
  cases a.cells[i]? <;> rfl

theorem nodup_liveSlots (a : Arena) : a.liveSlots.Nodup := List.nodup_range.filter _

/-- The entries on a slot, summed over any range of slots that covers the arena. -/
theorem entriesOn_eq_sum (a : Arena) (i : Slot) {n : Nat} (h : a.cells.size ≤ n) :
    a.entriesOn i = ∑ j ∈ Finset.range n, (a.childrenAt j).count i := by
  have hs : a.entriesOn i = ∑ j ∈ Finset.range a.cells.size, (a.childrenAt j).count i := by
    unfold entriesOn liveSlots
    rw [List.count_flatMap]
    show _ = (((List.range a.cells.size).map fun j => (a.childrenAt j).count i)).sum
    induction List.range a.cells.size with
    | nil => rfl
    | cons j l ih =>
      cases ho : a.occupant? j with
      | none => simp [ho, ih, childrenAt_of_vacant ho]
      | some o => simp [ho, ih]
  rw [hs]
  refine Finset.sum_subset (Finset.range_mono h) fun j _ hj => ?_
  have ho : a.occupant? j = none := by
    rw [← Option.not_isSome_iff_eq_none]
    exact fun k => hj (Finset.mem_range.mpr (lt_size_of_occupant? k))
  simp [childrenAt_of_vacant ho]

theorem entriesOn_congr {a b : Arena} (h : ∀ j, b.childrenAt j = a.childrenAt j) (i : Slot) :
    b.entriesOn i = a.entriesOn i := by
  rw [b.entriesOn_eq_sum i (Nat.le_max_left _ a.cells.size),
    a.entriesOn_eq_sum i (Nat.le_max_right b.cells.size _)]
  exact Finset.sum_congr rfl fun j _ => by rw [h]

/-- **Where the children of one slot change, the entries change by just these.** -/
theorem entriesOn_change {a b : Arena} {k : Slot}
    (h : ∀ j, j ≠ k → b.childrenAt j = a.childrenAt j) (i : Slot) :
    b.entriesOn i + (a.childrenAt k).count i = a.entriesOn i + (b.childrenAt k).count i := by
  let n := max (max b.cells.size a.cells.size) (k + 1)
  have hk : k ∈ Finset.range n := Finset.mem_range.mpr (by omega)
  rw [b.entriesOn_eq_sum i (by omega : b.cells.size ≤ n),
    a.entriesOn_eq_sum i (by omega : a.cells.size ≤ n),
    ← Finset.add_sum_erase _ _ hk, ← Finset.add_sum_erase (Finset.range n) _ hk]
  have he : ∑ j ∈ (Finset.range n).erase k, (b.childrenAt j).count i =
      ∑ j ∈ (Finset.range n).erase k, (a.childrenAt j).count i :=
    Finset.sum_congr rfl fun j hj => by rw [h j (Finset.ne_of_mem_erase hj)]
  rw [he]
  omega

/-- There is an entry for a slot if some value refers to it. -/
theorem entriesOn_pos {a : Arena} {i : Slot} : 0 < a.entriesOn i ↔ ∃ j, i ∈ a.childrenAt j := by
  unfold entriesOn
  rw [List.count_pos_iff, List.mem_flatMap]
  constructor
  · rintro ⟨j, _, hj⟩
    exact ⟨j, hj⟩
  · rintro ⟨j, hj⟩
    exact ⟨j, mem_liveSlots.mpr (occupied_of_childrenAt hj), hj⟩

/-! ## 8. Where one payload changes -/

/-- `b` holds the payloads of `a`, but in one slot it holds `q`, or nothing. -/
def Revises (b a : Arena) (i : Slot) (q : Option Payload) : Prop :=
  ∀ j, b.payload? j = if j = i then q else a.payload? j

namespace Revises

variable {a b : Arena} {i : Slot} {q : Option Payload}

theorem kind? (h : Revises b a i q) (j : Slot) :
    b.kind? j = if j = i then q.map (·.kind) else a.kind? j := by
  unfold Arena.kind?
  rw [h j]
  by_cases e : j = i
  · rw [if_pos e, if_pos e]
  · rw [if_neg e, if_neg e]

theorem childrenAt (h : Revises b a i q) (j : Slot) :
    b.childrenAt j = if j = i then q.elim [] Payload.children else a.childrenAt j := by
  unfold Arena.childrenAt
  rw [h j]
  by_cases e : j = i
  · rw [if_pos e, if_pos e]
    cases q <;> rfl
  · rw [if_neg e, if_neg e]

/-- The entries change by what the slot held and what it holds. -/
theorem entriesOn (h : Revises b a i q) (j : Slot) : b.entriesOn j + (a.childrenAt i).count j =
    a.entriesOn j + (q.elim [] Payload.children).count j := by
  have hother : ∀ k, k ≠ i → b.childrenAt k = a.childrenAt k := fun k hk => by
    rw [h.childrenAt, if_neg hk]
  have he := entriesOn_change hother j
  rwa [h.childrenAt, if_pos rfl] at he

end Revises

theorem revises_setPayload {a : Arena} {i : Slot} {p : Payload} (q : Payload)
    (hp : a.payload? i = some p) : Revises (a.setPayload i q) a i (some q) := by
  intro j
  unfold payload?
  rw [occupant?_setPayload]
  by_cases h : j = i
  · subst h
    obtain ⟨o, ho, _⟩ := Option.map_eq_some_iff.mp hp
    simp [ho]
  · rw [if_neg h, if_neg h]

theorem revises_fill {a : Arena} (o : Occupant) (v : a.VacantExact) :
    Revises (a.fill o) a a.nextSlot (some o.payload) := by
  intro j
  unfold payload?
  rw [occupant?_fill a o j v.lt_size]
  by_cases h : j = a.nextSlot
  · rw [if_pos h, if_pos h, Option.map_some]
  · rw [if_neg h, if_neg h]

theorem revises_vacate (a : Arena) (i : Slot) : Revises (a.vacate i) a i none := by
  intro j
  unfold payload?
  rw [occupant?_vacate]
  by_cases h : j = i
  · rw [if_pos h, if_pos h, Option.map_none]
  · rw [if_neg h, if_neg h]

/-! ## 9. Where values go away -/

/-- What the values that are gone from `b` held on a slot. -/
def entriesGone (a b : Arena) (i : Slot) : Nat :=
  ((a.liveSlots.filter fun j => (b.occupant? j).isNone).flatMap a.childrenAt).count i

/-- Entries are counted in two parts, those of some values and those of the others. -/
theorem count_flatMap_filter {α : Type} (f : α → List Slot) (p : α → Bool) (i : Slot) :
    ∀ l : List α, (l.flatMap f).count i =
      ((l.filter p).flatMap f).count i + ((l.filter fun x => !p x).flatMap f).count i
  | [] => rfl
  | x :: l => by
      have ih := count_flatMap_filter f p i l
      rw [List.flatMap_cons, List.count_append]
      by_cases h : p x = true
      · rw [List.filter_cons_of_pos h, List.filter_cons_of_neg (by simp [h]), List.flatMap_cons,
          List.count_append]
        omega
      · rw [List.filter_cons_of_neg h, List.filter_cons_of_pos (by simp [h]), List.flatMap_cons,
          List.count_append]
        omega

/-- Where values only go away, the live slots are those of before that are not empty. -/
theorem liveSlots_filter {a b : Arena} (hr : ∀ j, b.refills? j = a.refills? j)
    (hp : ∀ j p, b.payload? j = some p → a.payload? j = some p) :
    b.liveSlots = a.liveSlots.filter fun j => !(b.occupant? j).isNone := by
  have hsz : b.cells.size = a.cells.size := by
    have h : ∀ j, j < b.cells.size ↔ j < a.cells.size := fun j => by
      rw [← refills?_isSome, ← refills?_isSome, hr]
    have h1 := h b.cells.size
    have h2 := h a.cells.size
    omega
  have hl : ∀ j, (b.occupant? j).isSome → (a.occupant? j).isSome := by
    intro j hj
    obtain ⟨o, ho⟩ := Option.isSome_iff_exists.mp hj
    have := hp j _ (payload?_of_occupant? ho)
    obtain ⟨o', ho', _⟩ := Option.map_eq_some_iff.mp this
    rw [ho']
    rfl
  unfold liveSlots
  rw [hsz, List.filter_filter]
  refine List.filter_congr fun j _ => ?_
  have hj := hl j
  cases hb : (b.occupant? j) with
  | none => simp
  | some o => simp [hj (by rw [hb]; rfl)]

/-- Where values only go away, the live slots of before are those that are left and those that are
    gone. -/
theorem live_split {a b : Arena} (hr : ∀ j, b.refills? j = a.refills? j)
    (hp : ∀ j p, b.payload? j = some p → a.payload? j = some p) :
    a.live = (a.liveSlots.filter fun j => (b.occupant? j).isNone).length + b.live := by
  rw [live_eq_length, live_eq_length, liveSlots_filter hr hp]
  exact List.length_eq_length_filter_add fun j => (b.occupant? j).isNone

/-- **Where values only go away, the entries split into those that are gone and those that
    stay.** -/
theorem entriesOn_split {a b : Arena} (hr : ∀ j, b.refills? j = a.refills? j)
    (hp : ∀ j p, b.payload? j = some p → a.payload? j = some p) (i : Slot) :
    a.entriesOn i = a.entriesGone b i + b.entriesOn i := by
  have hb : b.entriesOn i =
      ((a.liveSlots.filter fun j => !(b.occupant? j).isNone).flatMap a.childrenAt).count i := by
    unfold entriesOn
    rw [← liveSlots_filter hr hp]
    refine congrArg _ (List.flatMap_congr fun j hj => ?_)
    obtain ⟨o, ho⟩ := Option.isSome_iff_exists.mp (mem_liveSlots.mp hj)
    have h1 := payload?_of_occupant? ho
    exact childrenAt_congr (h1.trans (hp j _ h1).symm)
  rw [hb]
  exact count_flatMap_filter a.childrenAt (fun j => (b.occupant? j).isNone) i a.liveSlots

end Arena

end ValueHeap
