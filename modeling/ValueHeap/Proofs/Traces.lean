import Mathlib.Data.Finmap
import ValueHeap.Proofs.Strokes

/-!
# What a trace tells

A tracer is told of the slots that are filled and emptied, of the references that are given back,
and of the end of every collection and copy. From the events alone one can follow which slots are
live and of which kind their values are.

* `Event.replay?` follows one event on a *roster*, the live slots with their kinds, if the event
  fits;
* **`Drawn.replays`**: the events lead from the roster of the first arena to that of the last;
* `Drawn.accurate`: a reference that is given back is told with the count that it leaves;
* `Punctuated`: collections and copies are told of right after the slots that they empty and fill;
* **`Phrase.punctuated`**, **`Phrase.accurate`**: so does every operation.
-/

namespace ValueHeap

open Arena

/-! ## 1. Replaying events -/

/-- The live slots, with the kinds of their values. -/
abbrev Roster := Finmap fun _ : Slot => Kind

namespace Event

/-- The roster after an event, if the event fits the roster. -/
def replay? (roster : Roster) : Event → Option Roster
  | allocate slot kind => if slot ∈ roster then none else some (roster.insert slot kind)
  | release slot _ => if slot ∈ roster then some roster else none
  | free slot kind => if roster.lookup slot = some kind then some (roster.erase slot) else none
  | collect _ live => if roster.keys.card = live then some roster else none
  | duplicate _ _ => some roster

/-- The roster after some events, if they all fit. -/
def replayAll? (roster : Roster) (events : List Event) : Option Roster :=
  events.foldlM replay? roster

theorem replayAll?_append (roster : Roster) (es fs : List Event) :
    replayAll? roster (es ++ fs) = (replayAll? roster es).bind (replayAll? · fs) :=
  List.foldlM_append

/-- A reference to the value in that slot is given back. -/
def Returns (i : Slot) : Event → Bool
  | release slot _ => slot == i
  | _ => false

/-- A slot is filled. -/
def Fills : Event → Bool
  | allocate _ _ => true
  | _ => false

/-- A slot is emptied. -/
def Empties : Event → Bool
  | free _ _ => true
  | _ => false

end Event

namespace Arena

variable {a b : Arena} {s : Stroke} {log : List Stroke} {i : Slot} {roster : Roster}

/-! ## 2. The roster of an arena -/

/-- The roster lists the live slots of the arena and the kinds of their values. -/
def Lists (a : Arena) (roster : Roster) : Prop := ∀ i, roster.lookup i = a.kind? i

theorem Lists.mem_iff (h : a.Lists roster) : i ∈ roster ↔ (a.occupant? i).isSome := by
  rw [← Finmap.lookup_isSome, h i, kind?, payload?, Option.isSome_map, Option.isSome_map]

theorem Lists.card (h : a.Lists roster) : roster.keys.card = a.live := by
  have hkeys : roster.keys = a.liveSlots.toFinset := by
    ext i
    rw [Finmap.mem_keys, h.mem_iff, List.mem_toFinset, mem_liveSlots]
  rw [hkeys, List.toFinset_card_of_nodup a.nodup_liveSlots, live_eq_length]

theorem Lists.congr (h : a.Lists roster) (hk : ∀ j, b.kind? j = a.kind? j) : b.Lists roster :=
  fun j => (h j).trans (hk j).symm

theorem Lists.insert (h : a.Lists roster) {k : Kind}
    (hk : ∀ j, b.kind? j = if j = i then some k else a.kind? j) : b.Lists (roster.insert i k) := by
  intro j
  rw [hk j]
  by_cases e : j = i
  · rw [if_pos e, e, Finmap.lookup_insert]
  · rw [if_neg e, Finmap.lookup_insert_of_ne roster e, h j]

theorem Lists.erase (h : a.Lists roster)
    (hk : ∀ j, b.kind? j = if j = i then none else a.kind? j) : b.Lists (roster.erase i) := by
  intro j
  rw [hk j]
  by_cases e : j = i
  · rw [if_pos e, e, Finmap.lookup_erase]
  · rw [if_neg e, Finmap.lookup_erase_ne e, h j]

theorem kind?_congr {j : Slot} (h : b.payload? j = a.payload? j) : b.kind? j = a.kind? j := by
  rw [kind?, kind?, h]

/-- **The events of a stroke fit the roster, and lead to the next one.** -/
theorem Stroked.replays (h : Stroked a s b) (v : a.VacantExact) (l : a.Lists roster) :
    ∃ roster', Event.replayAll? roster s.events = some roster' ∧ b.Lists roster' := by
  have one : ∀ {e : Event} {roster' : Roster}, e.replay? roster = some roster' →
      Event.replayAll? roster [e] = some roster' := by
    intro e roster' he
    rw [Event.replayAll?, List.foldlM_cons, he]
    rfl
  cases h with
  | @retained i _ =>
    have w := still_update v i (f := fun o => { o with count := o.count + 1 }) fun _ => rfl
    exact ⟨roster, rfl, l.congr fun j => kind?_congr (w.payload? j)⟩
  | unlinked _ => exact ⟨roster, rfl, l.congr fun j => kind?_congr (payload?_unlink a _ j)⟩
  | returned hn =>
    exact ⟨roster, one (if_pos (l.mem_iff.mpr (occupied_of_count? hn))),
      l.congr fun j => kind?_congr ((still_giveBack v _).payload? j)⟩
  | @rewritten i p q hp hk =>
    have r := rewrites_setPayload v hp hk
    refine ⟨roster, rfl, l.congr fun j => ?_⟩
    rw [r.payload?.kind? j]
    by_cases e : j = i
    · rw [if_pos e, e, r.kind?]
      rfl
    · rw [if_neg e]
  | @filled p n _ he =>
    have g := allocate_leaves v p n
    rw [he] at g
    have hnew : a.nextSlot ∉ roster := fun hm => by
      rw [l.mem_iff, v.nextSlot_vacant] at hm
      cases hm
    exact ⟨_, one (if_neg hnew), l.insert g.payload?.kind?⟩
  | @emptied i p _ hf =>
    obtain ⟨o, ho, rfl, hs⟩ := free?_eq_some hf
    have hkind : roster.lookup i = some o.payload.kind := by
      rw [l i, kind?, payload?_of_occupant? ho]
      rfl
    refine ⟨_, one (if_pos hkind), l.erase fun j => ?_⟩
    have hsame : b.kind? j = (a.vacate i).kind? j := kind?_congr (by
      unfold payload?
      rw [hs.occupant?])
    rw [hsame]
    exact (revises_vacate a i).kind? j
  | collected _ => exact ⟨roster, one (if_pos l.card), l⟩
  | duplicated _ _ => exact ⟨roster, rfl, l⟩
  | recounted => exact ⟨roster, rfl, l⟩

/-- **The events lead from the roster of the first arena to that of the last.** -/
theorem Drawn.replays (h : Drawn a log b) (v : a.VacantExact) (l : a.Lists roster) :
    ∃ roster', Event.replayAll? roster (heard log) = some roster' ∧ b.Lists roster' := by
  induction h generalizing roster with
  | nil => exact ⟨roster, rfl, l⟩
  | cons hs _ ih =>
    obtain ⟨middle, hm, lm⟩ := hs.replays v l
    obtain ⟨roster', hr, lr⟩ := ih (hs.vacant v) lm
    exact ⟨roster', by rw [heard_cons, Event.replayAll?_append, hm, Option.bind_some, hr], lr⟩

end Arena

/-! ## 3. References that are given back -/

namespace Arena

variable {a b : Arena} {s : Stroke} {log : List Stroke} {es : List Event} {i : Slot}
  {n short : Nat}

/-- **A candid stroke takes from a count what the tracer is told**, unless nothing is left to
    take. -/
theorem Stroked.takes (h : Stroked a s b) (v : a.VacantExact) (hs : s.Candid)
    (hn : a.count? i = some n) :
    b.count? i = some (n - s.events.countP (Event.Returns i)) ∧
      s.events.countP (Event.Returns i) ≤ n + [s].countP Stroke.fallsShort := by
  obtain ⟨o, ho, rfl⟩ := Option.map_eq_some_iff.mp hn
  cases h with
  | @returned j c hc =>
    rw [count?, (sameSlots_giveBack a j).occupant?, occupant?_unlink]
    by_cases e : i = j
    · subst e
      cases hn.symm.trans hc
      have hone : (Stroke.events (.returned i o.count)).countP (Event.Returns i) = 1 := by
        simp [Stroke.events, Event.Returns]
      rw [if_pos rfl, ho, hone]
      refine ⟨rfl, ?_⟩
      by_cases hz : o.count = 0
      · simp [Stroke.fallsShort, hz]
      · omega
    · have hnone : (Stroke.events (.returned j c)).countP (Event.Returns i) = 0 := by
        simp [Stroke.events, Event.Returns, Ne.symm e]
      rw [if_neg e, ho, hnone]
      exact ⟨rfl, Nat.zero_le _⟩
  | @rewritten j p q _ _ =>
    refine ⟨?_, Nat.zero_le _⟩
    rw [count?, occupant?_setPayload]
    by_cases e : i = j
    · rw [if_pos e, ho]
      rfl
    · rw [if_neg e, ho]
      rfl
  | @filled p m _ he =>
    have hne : i ≠ a.nextSlot := fun e => by
      rw [e, v.nextSlot_vacant] at ho
      cases ho
    refine ⟨?_, Nat.zero_le _⟩
    rw [count?, (sameSlots_of_filled he).occupant?, occupant?_fill _ _ _ v.lt_size, if_neg hne, ho]
    rfl
  | retained | unlinked | emptied | collected | duplicated | recounted => exact hs.elim

theorem Drawn.takes (h : Drawn a log b) (v : a.VacantExact) (hlog : ∀ s ∈ log, s.Candid)
    (hn : a.count? i = some n) :
    b.count? i = some (n - (heard log).countP (Event.Returns i)) ∧
      (heard log).countP (Event.Returns i) ≤ n + log.countP Stroke.fallsShort := by
  induction h generalizing n with
  | nil => exact ⟨hn, Nat.zero_le _⟩
  | @cons a _ b s log hs _ ih =>
    obtain ⟨hcandid, hlog⟩ := List.forall_mem_cons.mp hlog
    obtain ⟨hm, hl⟩ := hs.takes v hcandid hn
    obtain ⟨hc, hl'⟩ := ih (hs.vacant v) hlog hm
    rw [heard_cons, List.countP_append, ← List.singleton_append, List.countP_append]
    refine ⟨by rw [hc, Nat.sub_sub], ?_⟩
    omega

/-- Every reference that was given back was told with the count that it left: what the value has
    now, and the references that were given back since then. Only references that were taken from a
    count of zero are missing there, at most `short` of them. -/
def Accurate (b : Arena) (es : List Event) (short : Nat) : Prop :=
  ∀ before i n after, es = before ++ .release i n :: after →
    b.count? i = some (n - after.countP (Event.Returns i)) ∧
      after.countP (Event.Returns i) ≤ n + short

theorem Accurate.mono {more : Nat} (h : b.Accurate es short) (hle : short ≤ more) :
    b.Accurate es more := fun before i n after e =>
  ⟨(h before i n after e).1, (h before i n after e).2.trans (Nat.add_le_add_left hle n)⟩

/-- Where no reference is given back there is nothing to be accurate about. -/
theorem accurate_of_unreturned (h : ∀ i n, Event.release i n ∉ es) : b.Accurate es short :=
  fun before i n _ e => absurd (e ▸ List.mem_append_right before List.mem_cons_self) (h i n)

/-- **References are told of with the counts that they leave.** -/
theorem Drawn.accurate (h : Drawn a log b) (v : a.VacantExact) (hlog : ∀ s ∈ log, s.Candid) :
    b.Accurate (heard log) (log.countP Stroke.fallsShort) := by
  induction h with
  | nil => exact accurate_of_unreturned fun _ _ => List.not_mem_nil
  | @cons a m b s log hs hrest ih =>
    obtain ⟨hcandid, hrests⟩ := List.forall_mem_cons.mp hlog
    have tail : b.Accurate (heard log) ((s :: log).countP Stroke.fallsShort) :=
      (ih (hs.vacant v) hrests).mono (List.sublist_cons_self s log).countP_le
    intro before i n after e
    rw [heard_cons] at e
    cases hs with
    | @rewritten j p q _ _ => exact tail before i n after e
    | @filled p c _ _ =>
      cases before with
      | nil => cases e
      | cons _ before => exact tail before i n after (List.cons.inj e).2
    | @returned j c hc =>
      cases before with
      | nil =>
        -- the first event tells the count after the stroke, and the rest take from it
        obtain ⟨hevent, hes⟩ : Event.release j _ = .release i n ∧ heard log = after :=
          List.cons.inj e
        cases hevent
        subst hes
        have hs : Stroked a (.returned i c) (a.giveBack i) := .returned hc
        have hm : (a.giveBack i).count? i = some (c - 1) := by
          rw [(hs.takes v trivial hc).1]
          simp [Stroke.events, Event.Returns]
        obtain ⟨hcount, hl⟩ := hrest.takes (hs.vacant v) hrests hm
        exact ⟨hcount, hl.trans
          (Nat.add_le_add_left (List.sublist_cons_self _ log).countP_le _)⟩
      | cons _ before => exact tail before i n after (List.cons.inj e).2
    | retained | unlinked | emptied | collected | duplicated | recounted => exact hcandid.elim

end Arena

/-! ## 4. Collections and copies -/

/-- What comes right before the event: a collection is told of after the slots that it emptied, and
    a copy after those that it filled. -/
def Event.Closes (before : List Event) : Event → Prop
  | collect freed _ =>
    ∃ earlier last, before = earlier ++ last ∧ last.length = freed ∧ ∀ e ∈ last, e.Empties
  | duplicate slots _ =>
    ∃ earlier last, before = earlier ++ last ∧ last.length = slots ∧ ∀ e ∈ last, e.Fills
  | _ => True

theorem Event.Closes.append {e : Event} {before : List Event} (h : e.Closes before)
    (es : List Event) : e.Closes (es ++ before) := by
  cases e with
  | collect freed live =>
    obtain ⟨earlier, last, rfl, hl, he⟩ := h
    exact ⟨es ++ earlier, last, (List.append_assoc _ _ _).symm, hl, he⟩
  | duplicate slots crossing =>
    obtain ⟨earlier, last, rfl, hl, he⟩ := h
    exact ⟨es ++ earlier, last, (List.append_assoc _ _ _).symm, hl, he⟩
  | _ => trivial

/-- Every collection and every copy is told of in its place. -/
def Punctuated (es : List Event) : Prop :=
  ∀ before e after, es = before ++ e :: after → e.Closes before

namespace Punctuated

variable {es fs : List Event}

theorem append (h : Punctuated es) (k : Punctuated fs) : Punctuated (es ++ fs) := by
  intro before e after heq
  rcases List.append_eq_append_iff.mp heq with ⟨middle, hb, hf⟩ | ⟨middle, hes, hcons⟩
  · rw [hb]
    exact (k middle e after hf).append es
  · cases middle with
    | nil =>
      rw [List.append_nil] at hes
      have hclose := (k [] e after hcons.symm).append es
      rwa [List.append_nil, hes] at hclose
    | cons x middle =>
      obtain ⟨rfl, _⟩ := List.cons.inj hcons
      exact h before _ middle hes

/-- Events that end nothing. -/
theorem of_plain (h : ∀ e ∈ es, ∀ before, e.Closes before) : Punctuated es :=
  fun before e _ heq => h e (heq ▸ List.mem_append_right before List.mem_cons_self) before

theorem snoc {e : Event} (h : Punctuated es) (he : e.Closes es) : Punctuated (es ++ [e]) := by
  intro before f rest heq
  rcases List.append_eq_append_iff.mp heq with ⟨middle, hb, hf⟩ | ⟨middle, hes, hcons⟩
  · cases middle with
    | nil =>
      obtain ⟨rfl, _⟩ := List.cons.inj hf
      rwa [hb, List.append_nil]
    | cons x middle => cases middle <;> cases hf
  · cases middle with
    | nil =>
      rw [List.append_nil] at hes
      obtain ⟨rfl, _⟩ := List.cons.inj hcons
      rwa [← hes]
    | cons x middle =>
      obtain ⟨rfl, _⟩ := List.cons.inj hcons
      exact h before _ middle hes

end Punctuated

/-! ## 5. Operations -/

namespace Stroke

/-- The stroke is not the end of anything. -/
def Plain : Stroke → Prop
  | collected _ _ | duplicated _ _ => False
  | _ => True

variable {s : Stroke}

theorem Candid.plain (h : s.Candid) : s.Plain := by cases s <;> trivial

theorem Discards.plain (h : s.Discards) : s.Plain := by cases s <;> trivial

theorem Copies.plain (h : s.Copies) : s.Plain := by cases s <;> trivial

theorem Discards.not_returns (h : s.Discards) : ¬ s.Returns := by
  cases s <;> first | exact h.elim | exact id

theorem Copies.not_returns (h : s.Copies) : ¬ s.Returns := by
  cases s <;> first | exact h.elim | exact id

theorem Plain.closes (h : s.Plain) : ∀ e ∈ s.events, ∀ before, e.Closes before := by
  intro e he before
  cases s with
  | returned | filled | emptied =>
    obtain rfl := List.mem_singleton.mp he
    trivial
  | retained | unlinked | rewritten | recounted => cases he
  | collected | duplicated => exact h.elim

/-- Nobody is told of references that are added or renamed. -/
theorem Wires.quiet (h : s.Wires) : s.events = [] := by
  cases s <;> first | rfl | exact h.elim

end Stroke

theorem heard_wires {log : List Stroke} (h : ∀ s ∈ log, s.Wires) : heard log = [] :=
  List.flatMap_eq_nil_iff.mpr fun s hs => (h s hs).quiet

theorem length_heard_fills {log : List Stroke} (h : ∀ s ∈ log, s.Fills) :
    (heard log).length = log.length := by
  induction log with
  | nil => rfl
  | cons s log ih =>
    obtain ⟨hs, hlog⟩ := List.forall_mem_cons.mp h
    rw [heard_cons, List.length_append, ih hlog, List.length_cons, Nat.add_comm]
    cases s <;> first | rfl | exact hs.elim

namespace Phrase

variable {a b : Arena} {m : Multiset Slot} {log : List Stroke}

/-- **Every operation tells of collections and copies in their places.** -/
theorem punctuated (p : Phrase m log) : Punctuated (heard log) := by
  have plain : ∀ {log : List Stroke}, (∀ s ∈ log, s.Plain) → Punctuated (heard log) := fun h =>
    .of_plain (forall_heard fun s hs => (h s hs).closes)
  cases p with
  | candid hr hc _ =>
    exact plain (List.forall_mem_append.mpr
      ⟨fun s hs => (hr s hs).wires.copies.plain, fun s hs => (hc s hs).plain⟩)
  | discarding hd _ => exact plain fun s hs => (hd s hs).plain
  | @collection log live hd _ =>
    rw [heard_append]
    refine (plain fun s hs => (hd s hs).plain).snoc ⟨[], heard log, rfl, rfl, ?_⟩
    refine forall_heard fun s hs e he => ?_
    cases s with
    | emptied =>
      obtain rfl := List.mem_singleton.mp he
      rfl
    | unlinked | recounted => cases he
    | _ => exact (hd _ hs).elim
  | copying hc => exact plain fun s hs => (hc s hs).plain
  | @copy log more crossing hf hw =>
    rw [heard_append, heard_append, heard_wires hw, List.append_nil]
    refine (plain fun s hs => (hf s hs).copies.plain).snoc
      ⟨[], heard log, rfl, length_heard_fills hf, ?_⟩
    refine forall_heard fun s hs e he => ?_
    cases s with
    | filled =>
      obtain rfl := List.mem_singleton.mp he
      rfl
    | _ => exact (hf _ hs).elim

/-- **Every operation tells of references with the counts that they leave**, but for those that are
    taken from a count of zero. -/
theorem accurate (p : Phrase m log) (h : Drawn a log b) (v : a.VacantExact) :
    b.Accurate (heard log) (log.countP Stroke.fallsShort) := by
  have unreturned : ∀ {short : Nat}, (∀ s ∈ log, ¬ s.Returns) → b.Accurate (heard log) short :=
    fun hn => by
      refine accurate_of_unreturned fun i n hm => ?_
      obtain ⟨s, hs, he⟩ := List.mem_flatMap.mp hm
      cases s with
      | returned => exact hn _ hs trivial
      | filled | emptied | collected | duplicated => cases List.mem_singleton.mp he
      | retained | unlinked | rewritten | recounted => cases he
  cases p with
  | @candid log more hr hc _ =>
    obtain ⟨c, h1, h2⟩ := h.split
    rw [heard_append, heard_wires fun s hs => (hr s hs).wires, List.nil_append]
    exact (h2.accurate (h1.vacant v) hc).mono (List.sublist_append_right log more).countP_le
  | discarding hd _ => exact unreturned fun s hs => (hd s hs).not_returns
  | collection hd _ =>
    exact unreturned (List.forall_mem_append.mpr ⟨fun s hs => (hd s hs).not_returns,
      List.forall_mem_singleton.mpr id⟩)
  | copying hc => exact unreturned fun s hs => (hc s hs).not_returns
  | copy hf hw =>
    exact unreturned (List.forall_mem_append.mpr ⟨List.forall_mem_append.mpr
      ⟨fun s hs => (hf s hs).copies.not_returns, fun s hs => (hw s hs).copies.not_returns⟩,
      List.forall_mem_singleton.mpr id⟩)

end Phrase

end ValueHeap
