import Mathlib.Algebra.Order.Group.Multiset
import ValueHeap.Proofs.Rollback

/-!
# Strokes: what every operation is made of

An operation is a series of a few elementary changes, its *strokes*: a count goes up or down, a
payload is replaced, a slot is filled or emptied, an event is noted. Whatever each stroke keeps,
every operation keeps, however it ends; only a counter that leaves its range ends an operation in
the middle of a stroke.

* `Stroked` says once what each stroke does, and under which condition it happens; `Drawn` is a
  series of strokes with its log;
* `Stroke.events`: what the tracer is told of a stroke; `Drawn.tracer_eq`;
* `Stroke.spent` and `Stroke.gained`: the references that a stroke takes from their places and those
  that it sets free; `Solvent`: a log takes only what is free by then;
* `Phrase`: the forms that the log of an operation can have.
-/

namespace ValueHeap

open Arena

/-! ## 1. Strokes -/

/-- An elementary change of an arena. -/
inductive Stroke
  /-- A value has one more reference. -/
  | retained (i : Slot)
  /-- A value with this count has one reference less, without a word. -/
  | unlinked (i : Slot) (count : Nat)
  /-- A value with this count has one reference less, and the tracer is told. -/
  | returned (i : Slot) (count : Nat)
  /-- A value has another payload of its kind. -/
  | rewritten (i : Slot) (before after : Payload)
  /-- A slot is charged for and filled, with a first count. -/
  | filled (i : Slot) (p : Payload) (count : Nat)
  /-- A slot is emptied and its size given back. -/
  | emptied (i : Slot) (p : Payload)
  /-- The end of a collection is noted. -/
  | collected (freed live : Nat)
  /-- The end of a copy is noted. -/
  | duplicated (slots : Nat) (crossing : Bool)
  /-- The count of containers starts anew. -/
  | recounted

/-- How many containers a slot with this payload holds. -/
def Payload.containers (p : Payload) : Nat := if p.kind.holdsReferences then 1 else 0

namespace Stroke

/-- What the tracer is told of a stroke. -/
def events : Stroke → List Event
  | returned i n => [.release i (n - 1)]
  | filled i p _ => [.allocate i p.kind]
  | emptied i p => [.free i p.kind]
  | collected freed live => [.collect freed live]
  | duplicated slots crossing => [.duplicate slots crossing]
  | retained _ | unlinked _ _ | rewritten _ _ _ | recounted => []

/-- A reference is taken from a count of zero. -/
def fallsShort : Stroke → Bool
  | unlinked _ n | returned _ n => n == 0
  | _ => false

/-- By how much a value grows. -/
def growth : Stroke → Nat
  | rewritten _ p q => q.footprint - p.footprint
  | _ => 0

/-- By how much a value shrinks. -/
def shrinkage : Stroke → Nat
  | rewritten _ p q => p.footprint - q.footprint
  | _ => 0

/-- How many containers are put into slots. -/
def containers : Stroke → Nat
  | filled _ p _ => p.containers
  | _ => 0

/-- The references that a stroke takes from where they were on the move. -/
def spent : Stroke → Multiset Slot
  | unlinked i _ | returned i _ => {i}
  | rewritten _ _ q => q.children
  | filled _ p _ => p.children
  | _ => 0

/-- The references that a stroke sets moving. -/
def gained : Stroke → Multiset Slot
  | retained i => {i}
  | rewritten _ p _ => p.children
  | filled i _ n => Multiset.replicate n i
  | emptied _ p => p.children
  | _ => 0

end Stroke

/-- What the tracer is told of some strokes. -/
def heard (log : List Stroke) : List Event := log.flatMap Stroke.events

@[simp] theorem heard_append (log more : List Stroke) :
    heard (log ++ more) = heard log ++ heard more := List.flatMap_append

theorem heard_cons (s : Stroke) (log : List Stroke) :
    heard (s :: log) = s.events ++ heard log := rfl

/-- What holds of every event of the strokes holds of all events. -/
theorem forall_heard {E : Event → Prop} {log : List Stroke}
    (h : ∀ s ∈ log, ∀ e ∈ s.events, E e) : ∀ e ∈ heard log, E e := by
  intro e he
  obtain ⟨s, hs, hes⟩ := List.mem_flatMap.mp he
  exact h s hs e hes

namespace Arena

variable {a b c : Arena} {s : Stroke} {log more : List Stroke}

/-! ## 2. What a stroke does -/

/-- **What a stroke does**, and when it happens. -/
inductive Stroked (a : Arena) : Stroke → Arena → Prop
  | retained {i : Slot} : (a.occupant? i).isSome →
      Stroked a (.retained i) (a.update i fun o => { o with count := o.count + 1 })
  | unlinked {i : Slot} {n : Nat} : a.count? i = some n → Stroked a (.unlinked i n) (a.unlink i)
  | returned {i : Slot} {n : Nat} : a.count? i = some n → Stroked a (.returned i n) (a.giveBack i)
  | rewritten {i : Slot} {p q : Payload} : a.payload? i = some p → p.kind = q.kind →
      Stroked a (.rewritten i p q) (a.setPayload i q)
  | filled {p : Payload} {n : Nat} {b : Arena} : a.allocate p n = .ok a.nextSlot b →
      Stroked a (.filled a.nextSlot p n) b
  | emptied {i : Slot} {p : Payload} {b : Arena} : a.free? i = some (p, b) →
      Stroked a (.emptied i p) b
  | collected (freed : Nat) :
      Stroked a (.collected freed a.live) (a.note (.collect freed a.live))
  | duplicated (slots : Nat) (crossing : Bool) :
      Stroked a (.duplicated slots crossing) (a.note (.duplicate slots crossing))
  | recounted : Stroked a .recounted { a with containersBuilt := 0 }

/-- The strokes of the log lead from `a` to `c`. -/
inductive Drawn : Arena → List Stroke → Arena → Prop
  | nil {a : Arena} : Drawn a [] a
  | cons {a b c : Arena} {s : Stroke} {log : List Stroke} : Stroked a s b → Drawn b log c →
      Drawn a (s :: log) c

theorem Stroked.drawn (h : Stroked a s b) : Drawn a [s] b := .cons h .nil

theorem Drawn.trans (h : Drawn a log b) (k : Drawn b more c) : Drawn a (log ++ more) c := by
  induction h with
  | nil => exact k
  | cons s _ ih => exact .cons s (ih k)

theorem Drawn.split (h : Drawn a (log ++ more) c) : ∃ b, Drawn a log b ∧ Drawn b more c := by
  induction log generalizing a with
  | nil => exact ⟨a, .nil, h⟩
  | cons s log ih =>
    cases h with
    | cons hs hrest =>
      obtain ⟨b, h1, h2⟩ := ih hrest
      exact ⟨b, .cons hs h1, h2⟩

theorem count?_of_occupant? {i : Slot} {o : Occupant} (h : a.occupant? i = some o) :
    a.count? i = some o.count := by
  rw [count?, h, Option.map_some]

theorem occupied_of_count? {i : Slot} {n : Nat} (h : a.count? i = some n) :
    (a.occupant? i).isSome := by
  obtain ⟨o, ho, _⟩ := Option.map_eq_some_iff.mp h
  rw [ho]
  rfl

/-- A slot is filled as the next slot is. -/
theorem sameSlots_of_filled {p : Payload} {n : Nat} (h : a.allocate p n = .ok a.nextSlot b) :
    SameSlots b (a.fill ⟨n, p⟩) := by
  obtain ⟨b', hb, same⟩ | ⟨_, _, hb, _⟩ | ⟨_, hb, _⟩ := a.allocate_cases p n
  · cases h.symm.trans hb
    exact same
  · cases h.symm.trans hb
  · cases h.symm.trans hb

/-- **Every stroke keeps the list of empty slots exact.** -/
theorem Stroked.vacant (h : Stroked a s b) (v : a.VacantExact) : b.VacantExact := by
  cases h with
  | retained _ => exact (still_update v _ (f := fun o => { o with count := o.count + 1 })
      fun _ => rfl).vacant
  | unlinked _ => exact (still_unlink v _).vacant
  | returned _ => exact (still_giveBack v _).vacant
  | rewritten hp hk => exact (rewrites_setPayload v hp hk).vacant
  | filled he => exact (v.fill _).of_sameSlots (sameSlots_of_filled he)
  | emptied hf => exact (shrinks_free? v hf).vacant
  | collected _ => exact .of_sameSlots (sameSlots_note _ _) v
  | duplicated _ _ => exact .of_sameSlots (sameSlots_note _ _) v
  | recounted => exact .of_sameSlots (a := a) ⟨rfl, rfl, rfl⟩ v

theorem Drawn.vacant (h : Drawn a log b) (v : a.VacantExact) : b.VacantExact := by
  induction h with
  | nil => exact v
  | cons s _ ih => exact ih (s.vacant v)

/-- **The tracer is told of every stroke.** -/
theorem Stroked.tracer_eq (h : Stroked a s b) : b.tracer = a.tracer.noteAll s.events := by
  cases h with
  | unlinked _ =>
    unfold unlink
    split <;> rfl
  | @returned i n hn =>
    obtain ⟨o, ho, rfl⟩ := Option.map_eq_some_iff.mp hn
    unfold giveBack unlink
    rw [ho]
    rfl
  | @filled p n _ he =>
    unfold allocate at he
    dsimp only at he
    split at he <;> cases he
    unfold fill
    split <;> rfl
  | @emptied i p _ hf =>
    unfold free? at hf
    split at hf <;> cases hf
    rfl
  | _ => rfl

theorem Drawn.tracer_eq (h : Drawn a log b) : b.tracer = a.tracer.noteAll (heard log) := by
  induction h with
  | nil => rfl
  | cons s _ ih => rw [ih, s.tracer_eq, Tracer.noteAll_append, heard_cons]

end Arena

/-! ## 3. Kinds of strokes -/

namespace Stroke

/-- A value has one more reference. -/
def Retains : Stroke → Prop
  | retained _ => True
  | _ => False

/-- A reference is given back. -/
def Returns : Stroke → Prop
  | returned _ _ => True
  | _ => False

/-- A slot is filled. -/
def Fills : Stroke → Prop
  | filled _ _ _ => True
  | _ => False

/-- The strokes of a factory. -/
def Builds : Stroke → Prop
  | filled _ _ _ | returned _ _ => True
  | _ => False

/-- The strokes of an update. -/
def Updates : Stroke → Prop
  | rewritten _ _ _ | returned _ _ => True
  | _ => False

/-- The stroke takes a reference from a count only with a word to the tracer, and adds none. -/
def Candid : Stroke → Prop
  | filled _ _ _ | rewritten _ _ _ | returned _ _ => True
  | _ => False

/-- A slot is emptied. -/
def Empties : Stroke → Prop
  | emptied _ _ => True
  | _ => False

/-- The strokes with which a collection empties slots. -/
def Gathers : Stroke → Prop
  | unlinked _ _ | emptied _ _ => True
  | _ => False

/-- The strokes of a collection before its end. -/
def Discards : Stroke → Prop
  | unlinked _ _ | emptied _ _ | recounted => True
  | _ => False

/-- The strokes of a collection: they fill no slot and replace no payload. -/
def Clears : Stroke → Prop
  | unlinked _ _ | emptied _ _ | collected _ _ | recounted => True
  | _ => False

/-- The strokes that rename and count the references of a copy; they leave sizes as they are. -/
def Wires : Stroke → Prop
  | retained _ => True
  | rewritten _ p q => p.footprint = q.footprint
  | _ => False

/-- The strokes of a copy before its end. -/
def Copies : Stroke → Prop
  | filled _ _ _ | emptied _ _ | retained _ => True
  | rewritten _ p q => p.footprint = q.footprint
  | _ => False

/-- The stroke does not start the count of containers anew. -/
def Steady : Stroke → Prop
  | recounted => False
  | _ => True

/-- No value changes its size. -/
def Level (s : Stroke) : Prop := s.growth = 0 ∧ s.shrinkage = 0

variable {s : Stroke}

theorem Returns.builds (h : s.Returns) : s.Builds := by cases s <;> trivial

theorem Returns.updates (h : s.Returns) : s.Updates := by cases s <;> trivial

theorem Returns.containers (h : s.Returns) : s.containers = 0 := by
  cases s <;> first | rfl | exact h.elim

theorem Builds.candid (h : s.Builds) : s.Candid := by cases s <;> trivial

theorem Builds.level (h : s.Builds) : s.Level := by
  cases s <;> first | exact h.elim | exact ⟨rfl, rfl⟩

theorem Updates.candid (h : s.Updates) : s.Candid := by cases s <;> trivial

theorem Updates.containers (h : s.Updates) : s.containers = 0 := by
  cases s <;> first | rfl | exact h.elim

theorem Candid.steady (h : s.Candid) : s.Steady := by cases s <;> trivial

theorem Retains.wires (h : s.Retains) : s.Wires := by cases s <;> trivial

theorem Retains.containers (h : s.Retains) : s.containers = 0 := by
  cases s <;> first | rfl | exact h.elim

theorem Fills.copies (h : s.Fills) : s.Copies := by cases s <;> trivial

theorem Wires.copies (h : s.Wires) : s.Copies := by cases s <;> trivial

theorem Wires.level (h : s.Wires) : s.Level := by
  cases s with
  | rewritten i p q =>
    have e : p.footprint = q.footprint := h
    simp [Level, growth, shrinkage, e]
  | _ => exact ⟨rfl, rfl⟩

theorem Copies.level (h : s.Copies) : s.Level := by
  cases s with
  | rewritten i p q => exact Wires.level (s := .rewritten i p q) h
  | _ => exact ⟨rfl, rfl⟩

theorem Copies.steady (h : s.Copies) : s.Steady := by cases s <;> trivial

theorem Empties.gathers (h : s.Empties) : s.Gathers := by cases s <;> trivial

theorem Empties.copies (h : s.Empties) : s.Copies := by cases s <;> trivial

theorem Gathers.discards (h : s.Gathers) : s.Discards := by cases s <;> trivial

theorem Gathers.steady (h : s.Gathers) : s.Steady := by cases s <;> trivial

theorem Discards.clears (h : s.Discards) : s.Clears := by cases s <;> trivial

theorem Clears.containers (h : s.Clears) : s.containers = 0 := by
  cases s <;> first | rfl | exact h.elim

theorem Clears.level (h : s.Clears) : s.Level := by
  cases s <;> first | exact ⟨rfl, rfl⟩ | exact h.elim

/-- Where every stroke adds nothing, they all add nothing. -/
theorem sum_eq_zero {f : Stroke → Nat} {log : List Stroke} (h : ∀ s ∈ log, f s = 0) :
    (log.map f).sum = 0 :=
  List.sum_eq_zero fun _ hn => by
    obtain ⟨s, hs, rfl⟩ := List.mem_map.mp hn
    exact h s hs

end Stroke

/-! ## 4. References on the move -/

/-- **A log is solvent**: with the references `m` on the move at first, each stroke takes only what
    is on the move by then, and `m'` are left at the end. -/
inductive Solvent : Multiset Slot → List Stroke → Multiset Slot → Prop
  | nil {m m' : Multiset Slot} : m' ≤ m → Solvent m [] m'
  | cons {s : Stroke} {log : List Stroke} {m n m' : Multiset Slot} :
      s.spent + n ≤ m + s.gained → Solvent n log m' → Solvent m (s :: log) m'

namespace Solvent

variable {s : Stroke} {log more : List Stroke} {m m' n : Multiset Slot}

theorem refl (m : Multiset Slot) : Solvent m [] m := .nil le_rfl

theorem single (h : s.spent + m' ≤ m + s.gained) : Solvent m [s] m' := .cons h (.refl m')

/-- More may be on the move at first. -/
theorem mono_left (h : Solvent m log m') (hm : m ≤ n) : Solvent n log m' := by
  cases h with
  | nil h => exact .nil (h.trans hm)
  | cons h k => exact .cons (h.trans (add_le_add hm le_rfl)) k

/-- Less may be left at the end. -/
theorem mono_right (h : Solvent m log m') (hm : n ≤ m') : Solvent m log n := by
  induction h with
  | nil h => exact .nil (hm.trans h)
  | cons h _ ih => exact .cons h (ih hm)

theorem trans (h : Solvent m log n) (k : Solvent n more m') : Solvent m (log ++ more) m' := by
  induction h with
  | nil h => exact k.mono_left h
  | cons h _ ih => exact .cons h (ih k)

/-- What else is on the move stays there. -/
theorem frame (h : Solvent m log m') (f : Multiset Slot) : Solvent (m + f) log (m' + f) := by
  induction h with
  | nil h => exact .nil (add_le_add h le_rfl)
  | cons h _ ih =>
    refine .cons ?_ ih
    have hall := add_le_add h (le_refl f)
    rwa [add_assoc, add_right_comm] at hall

/-- References that are added need none. -/
theorem of_retains (h : ∀ s ∈ log, s.Retains) : Solvent 0 log 0 := by
  induction log with
  | nil => exact .refl 0
  | cons s log ih =>
    obtain ⟨hs, hlog⟩ := List.forall_mem_cons.mp h
    refine .cons (n := 0) ?_ (ih hlog)
    cases s <;> first | exact hs.elim | exact Multiset.zero_le _

end Solvent

/-! ## 5. The logs of operations -/

/-- **The forms that the log of an operation has**, where the references `m` are on the move at
    first: a few references are added, and then each one that is taken is told of; or a collection
    empties slots; or a copy fills them. -/
inductive Phrase (m : Multiset Slot) : List Stroke → Prop
  | candid {log more : List Stroke} : (∀ s ∈ log, s.Retains) → (∀ s ∈ more, s.Candid) →
      Solvent m (log ++ more) 0 → Phrase m (log ++ more)
  /-- A collection that ends in a fault. -/
  | discarding {log : List Stroke} : (∀ s ∈ log, s.Discards) → Solvent m log 0 → Phrase m log
  /-- At its end a collection tells how many slots it emptied. -/
  | collection {log : List Stroke} {live : Nat} : (∀ s ∈ log, s.Discards) → Solvent m log 0 →
      Phrase m (log ++ [.collected (heard log).length live])
  /-- A copy that is not finished. -/
  | copying {log : List Stroke} : (∀ s ∈ log, s.Copies) → Phrase m log
  /-- At its end a copy tells how many slots it filled. -/
  | copy {log more : List Stroke} {crossing : Bool} : (∀ s ∈ log, s.Fills) →
      (∀ s ∈ more, s.Wires) → Phrase m (log ++ more ++ [.duplicated log.length crossing])

theorem Phrase.mono {m m' : Multiset Slot} {log : List Stroke} (h : Phrase m log) (hm : m ≤ m') :
    Phrase m' log := by
  cases h with
  | candid hr hc hs => exact .candid hr hc (hs.mono_left hm)
  | discarding hd hs => exact .discarding hd (hs.mono_left hm)
  | collection hd hs => exact .collection hd (hs.mono_left hm)
  | copying hc => exact .copying hc
  | copy hf hw => exact .copy hf hw

end ValueHeap
