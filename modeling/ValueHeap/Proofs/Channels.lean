import Mathlib.Data.List.Permutation
import Mathlib.Data.Multiset.Powerset
import ValueHeap.Proofs.Wire
import ValueHeap.Proofs.Compensation

/-!
# A stream between writers and readers

A program may write values to a stream from any of its arenas and read values from it into any of
them, in any order. The bytes behind the cursor are then always those of the values that were
written and not yet read, so the values come out in the order in which they went in, and nothing but
a tracker stands between a reader and the next of them.

* `ByteStream.Raw`: the operations on bytes; `bytes_raw`, `position_raw` say what they do to the
  bytes and to the cursor;
* `Channel`: a program's world, a stream, and what was written to it and taken from it;
* `Channel.Flows` is the invariant, `Flows.after` what a step keeps;
* **`Channel.lossless`**: what holds of every run.
-/

namespace ValueHeap

open Arena

namespace ByteStream

/-! ## 1. The cursor -/

/-- An operation on the bytes of a stream. -/
inductive Raw
  | writeTag (k : Kind)
  | writeInteger (n : Int32)
  | writeBool (flag : Bool)
  | readTag
  | readInteger
  | readBool
  | rewind

/-- The bytes an operation adds. -/
def Raw.added : Raw → List UInt8
  | writeTag k => [k.tag]
  | writeInteger n => integerBytes n
  | writeBool flag => [boolByte flag]
  | _ => []

/-- How many bytes an operation takes, if there are so many. -/
def Raw.width : Raw → Nat
  | readTag | readBool => 1
  | readInteger => 4
  | _ => 0

/-- The stream after an operation. -/
def raw (s : ByteStream) : Raw → ByteStream
  | .writeTag k => s.writeTag k
  | .writeInteger n => s.writeInteger n
  | .writeBool flag => s.writeBool flag
  | .readTag => s.readTag.2
  | .readInteger => s.readInteger.2
  | .readBool => s.readBool.2
  | .rewind => s.rewind

/-- Where an operation leaves the cursor: at the start, behind the bytes it takes, or where it
    was. -/
def cursorAfter (s : ByteStream) : Raw → Nat
  | .rewind => 0
  | op => if s.position + op.width ≤ s.bytes.length then s.position + op.width else s.position

variable (s : ByteStream)

theorem length_bytes : s.bytes.length = s.position + s.remaining := List.length_append

/-- A tag and a flag are read from one byte. -/
theorem readTag_snd : s.readTag.2 = s.readByte.2 := by
  unfold readTag
  split
  · rename_i h
    rw [h]
  · rename_i h
    rw [h]
    dsimp only
    split <;> rfl

theorem readBool_snd : s.readBool.2 = s.readByte.2 := by
  unfold readBool
  split <;> rename_i h <;> rw [h]

theorem bytes_readByte : s.readByte.2.bytes = s.bytes := by
  obtain ⟨past, _ | ⟨b, rest⟩⟩ := s
  · rfl
  · simp [readByte, bytes]

theorem position_readByte : s.readByte.2.position =
    if s.position + 1 ≤ s.bytes.length then s.position + 1 else s.position := by
  obtain ⟨past, _ | ⟨b, rest⟩⟩ := s <;> simp [readByte, bytes, position]

theorem bytes_readInteger : s.readInteger.2.bytes = s.bytes := by
  unfold readInteger
  split
  · rename_i h
    simp [bytes, h]
  · rfl

theorem position_readInteger : s.readInteger.2.position =
    if s.position + 4 ≤ s.bytes.length then s.position + 4 else s.position := by
  obtain ⟨past, ahead⟩ := s
  match ahead with
  | b₀ :: b₁ :: b₂ :: b₃ :: rest => simp [readInteger, bytes, position]
  | [] | [_] | [_, _] | [_, _, _] => simp [readInteger, bytes, position]

/-- **Bytes are only ever added, and only at the end.** -/
theorem bytes_raw (op : Raw) : (s.raw op).bytes = s.bytes ++ op.added := by
  cases op with
  | writeTag k => exact bytes_write s _
  | writeInteger n => exact bytes_write s _
  | writeBool flag => exact bytes_write s _
  | readTag =>
    rw [raw, readTag_snd, bytes_readByte]
    exact (List.append_nil _).symm
  | readInteger =>
    rw [raw, bytes_readInteger]
    exact (List.append_nil _).symm
  | readBool =>
    rw [raw, readBool_snd, bytes_readByte]
    exact (List.append_nil _).symm
  | rewind => exact (bytes_rewind s).trans (List.append_nil _).symm

/-- **The cursor moves over bytes that are there, or not at all.** -/
theorem position_raw (op : Raw) : (s.raw op).position = s.cursorAfter op := by
  cases op with
  | readTag =>
    rw [raw, readTag_snd]
    exact position_readByte s
  | readInteger => exact position_readInteger s
  | readBool =>
    rw [raw, readBool_snd]
    exact position_readByte s
  | rewind => rfl
  | _ =>
    unfold cursorAfter Raw.width
    simp only
    split <;> rfl

/-- **What a stream guarantees of its cursor**: it is never beyond the end, and no operation on
    bytes takes it there. -/
structure Bounded (s : ByteStream) : Prop where
  position : s.position ≤ s.bytes.length
  remaining : s.remaining = s.bytes.length - s.position
  bytes : ∀ op, (s.raw op).bytes = s.bytes ++ op.added
  cursor : ∀ op, (s.raw op).position = s.cursorAfter op

theorem bounded : s.Bounded where
  position := by
    rw [length_bytes]
    exact Nat.le_add_right ..
  remaining := by rw [length_bytes, Nat.add_sub_cancel_left]
  bytes := bytes_raw s
  cursor := position_raw s

end ByteStream

/-! ## 2. Writing and reading one value -/

/-- The bytes of more values go behind those of the first. -/
theorem Encodes.append {ps qs : List Payload} {bs cs : List UInt8} (h : Encodes ps bs)
    (k : Encodes qs cs) : Encodes (ps ++ qs) (bs ++ cs) := by
  induction h with
  | nil => exact k
  | @cons p ps bs rest hp _ ih =>
    rw [List.append_assoc]
    exact .cons hp ih

namespace Arena

variable {a b : Arena} {h : Handle} {p : Payload} {bs : List UInt8} {s t : ByteStream}
  {e : HeapError}

/-- What is written is what the handle names, if that has bytes. -/
theorem writeValue_eq_ok : a.writeValue h s = .ok t ↔
    ∃ p bs, a.Denotes h p ∧ p.wireBytes? = some bs ∧ t = s.write bs := by
  constructor
  · intro e
    unfold writeValue at e
    split at e
    · cases e
    · rename_i o ho
      split at e
      · rename_i bs hbs
        cases e
        exact ⟨o.payload, bs, by rw [Denotes, ho]; rfl, hbs, rfl⟩
      · cases e
  · rintro ⟨p, bs, hd, hp, rfl⟩
    obtain ⟨o, ho, rfl⟩ := hd.lookup
    simp only [writeValue, ho, hp]

/-- A value is built, or refused without a trace, or a counter leaves its range. -/
theorem build_cases (v : a.VacantExact) (p : Payload) :
    (∃ x b, a.build p = .ok x b ∧ b.Denotes x p) ∨
      (∃ why, a.build p = .error (.resource why) a) ∨
        ∃ b, a.build p = .fault .counterOverflow b := by
  have hl := build_leaves v p
  unfold build allocate at hl ⊢
  dsimp only at hl ⊢
  cases hv : (a.tracker.charge p.footprint).1 with
  | accepted =>
    rw [hv] at hl
    obtain ⟨hg, hr⟩ := hl
    exact .inl ⟨_, _, rfl, denotes_iff.mpr ⟨hr, hg.payload?_new⟩⟩
  | refused why =>
    refine .inr (.inl ⟨why, ?_⟩)
    rw [Tracker.charge_refused hv]
    rfl
  | overflowed => exact .inr (.inr ⟨_, rfl⟩)

/-- **Where the bytes of a value come next, that value is read**, or refused without a trace. -/
theorem readValue_cases (v : a.VacantExact) (hp : p.wireBytes? = some bs) {past rest : List UInt8}
    (hs : s = ⟨past, bs ++ rest⟩) :
    (∃ x b, a.readValue s = (.ok x b, ⟨past ++ bs, rest⟩) ∧ b.Denotes x p) ∨
      (∃ why, a.readValue s = (.error (.resource why) a, s)) ∨
        (a.readValue s).1.fault? = some .counterOverflow := by
  subst hs
  unfold readValue
  rw [ByteStream.readPayload_of_wireBytes? past hp rest]
  dsimp only
  obtain ⟨x, b, hb, hd⟩ | ⟨why, hb⟩ | ⟨b, hb⟩ := build_cases v p
  · exact .inl ⟨x, b, by rw [hb]; rfl, hd⟩
  · exact .inr (.inl ⟨why, by rw [hb]; rfl⟩)
  · exact .inr (.inr (by rw [hb]; rfl))

/-- At the end of a stream there is no value, and nothing happens. -/
theorem readValue_ended (a : Arena) (hs : s.ahead = []) :
    a.readValue s = (.error (.stream (.unexpectedEnd 1 0)) a, s) := by
  obtain ⟨past, ahead⟩ := s
  cases hs
  rfl

/-- The payload a handle names, if it names a value. -/
def named (a : Arena) (h : Handle) : List Payload :=
  match a.lookup h with
  | .ok o => [o.payload]
  | .error _ => []

theorem Denotes.named (hd : a.Denotes h p) : a.named h = [p] := by
  obtain ⟨o, ho, rfl⟩ := hd.lookup
  unfold Arena.named
  rw [ho]

/-- The payload of the value an operation answers with, as the arena then holds it. -/
def Outcome.received (r : Outcome Handle) : List Payload :=
  match r.answer with
  | .ok x => r.arena.named x
  | .error _ => []

end Arena

/-! ## 3. Channels -/

/-- A program and a stream that its arenas share. -/
structure Channel where
  world : World
  stream : ByteStream
  /-- The payloads written so far, as they were when they were written. -/
  written : List Payload
  /-- The payloads read so far. -/
  taken : List Payload

/-- What a program does next. -/
inductive Transfer
  /-- Something that has nothing to do with the stream. -/
  | act (act : Action)
  /-- A value is written from the arena at `k`. -/
  | write (k : Nat) (h : Handle)
  /-- A value is read into the arena at `k`. -/
  | read (k : Nat)
  /-- The bytes of the stream are written or read directly. -/
  | raw (op : ByteStream.Raw)

def Transfer.isRaw : Transfer → Bool
  | raw _ => true
  | _ => false

namespace Channel

/-- The start of a program, with an empty stream. -/
def start : Channel := ⟨.start, .empty, [], []⟩

def after (c : Channel) : Transfer → Channel
  | .act act => { c with world := c.world.after act }
  | .write k h =>
    match c.world.arena? k with
    | none => c
    | some a =>
      match a.writeValue h c.stream with
      | .error _ => c
      | .ok s => { c with stream := s, written := c.written ++ a.named h }
  | .read k =>
    match c.world.arena? k with
    | none => c
    | some a =>
      { c with
        world := c.world.after (.call k (.readValue c.stream))
        stream := (a.readValue c.stream).2
        taken := c.taken ++ (a.readValue c.stream).1.received }
  | .raw op => { c with stream := c.stream.raw op }

/-- What a program can do: with arenas that there are, within the range of counters. -/
def Permits (c : Channel) : Transfer → Prop
  | .act act => c.world.Permits act
  | .write k _ => (c.world.arena? k).isSome
  | .read k => c.world.Permits (.call k (.readValue c.stream))
  | .raw _ => True

instance (c : Channel) (t : Transfer) : Decidable (c.Permits t) :=
  match t with
  | .act act => inferInstanceAs (Decidable (c.world.Permits act))
  | .write k _ => inferInstanceAs (Decidable ((c.world.arena? k).isSome = true))
  | .read k => inferInstanceAs (Decidable (c.world.Permits (.call k (.readValue c.stream))))
  | .raw _ => .isTrue trivial

/-- The channel after some transfers, and whether each of them was permitted. -/
def run (c : Channel) : List Transfer → Channel × Bool
  | [] => (c, true)
  | t :: rest =>
    let (d, permitted) := (c.after t).run rest
    (d, decide (c.Permits t) && permitted)

/-! ## 4. The invariant -/

/-- **The bytes behind the cursor are those of the values written and not yet read.** -/
structure Flows (c : Channel) : Prop where
  reachable : c.world.Reachable
  pending : ∃ ps, c.written = c.taken ++ ps ∧ Encodes ps c.stream.ahead

theorem flows_start : start.Flows := ⟨.start, [], rfl, .nil⟩

variable {c : Channel} {k : Nat} {a : Arena} {h : Handle}

theorem after_write (ha : c.world.arena? k = some a) {s : ByteStream}
    (e : a.writeValue h c.stream = .ok s) :
    c.after (.write k h) = { c with stream := s, written := c.written ++ a.named h } := by
  simp only [Channel.after, ha, e]

theorem after_write_error (ha : c.world.arena? k = some a) {e : HeapError}
    (he : a.writeValue h c.stream = .error e) : c.after (.write k h) = c := by
  simp only [Channel.after, ha, he]

theorem after_read (ha : c.world.arena? k = some a) :
    c.after (.read k) =
      { c with
        world := c.world.after (.call k (.readValue c.stream))
        stream := (a.readValue c.stream).2
        taken := c.taken ++ (a.readValue c.stream).1.received } := by
  simp only [Channel.after, ha]

/-- A call that is refused without a trace leaves the world as it is. -/
theorem world_after_refused {w : World} (ha : w.arena? k = some a) {call : Call}
    (hc : call.consumed = []) {e : HeapError} (he : a.perform call = .error e a) :
    w.after (.call k call) = w := by
  have hset : w.realm.arenas.setIfInBounds k a = w.realm.arenas := by
    refine Array.ext_getElem? fun l => ?_
    rw [Array.getElem?_setIfInBounds]
    split
    · rename_i hkl
      rw [if_pos (Array.getElem?_eq_some_iff.mp ha).1, ← hkl]
      exact ha.symm
    · rfl
  have hrealm : w.realm.setArena k a = w.realm := by rw [Realm.setArena, hset]
  rw [World.after_call ha, he, hc]
  show World.mk (w.realm.setArena k a) w.held w.lost = w
  rw [hrealm]

/-- So does the reader that is refused. -/
theorem after_read_refused (ha : c.world.arena? k = some a) {e : HeapError}
    (he : a.readValue c.stream = (.error e a, c.stream)) : c.after (.read k) = c := by
  have hp : a.perform (.readValue c.stream) = .error e a := by
    show (a.readValue c.stream).1.map Answer.handle = _
    rw [he]
    rfl
  rw [after_read ha, world_after_refused ha rfl hp, he]
  show { c with taken := c.taken ++ [] } = c
  rw [List.append_nil]

/-- The next value in the stream, if any is pending. -/
theorem Flows.next (hf : c.Flows) : (c.taken = c.written ∧ c.stream.ahead = []) ∨
    ∃ p ps bs rest, c.written = c.taken ++ p :: ps ∧ p.wireBytes? = some bs ∧ Encodes ps rest ∧
      c.stream = ⟨c.stream.past, bs ++ rest⟩ := by
  obtain ⟨ps, hw, he⟩ := hf.pending
  generalize hs : c.stream.ahead = ahead at he
  cases he with
  | nil => exact .inl ⟨(hw.trans (List.append_nil _)).symm, rfl⟩
  | @cons p ps bs rest hp he => exact .inr ⟨p, ps, bs, rest, hw, hp, he, by rw [← hs]⟩

/-- **Every transfer of a value keeps the invariant.** -/
theorem Flows.after (hf : c.Flows) {t : Transfer} (ht : t.isRaw = false) (hp : c.Permits t) :
    (c.after t).Flows := by
  cases t with
  | act act => exact ⟨hf.reachable.step hp, hf.pending⟩
  | write k h =>
    obtain ⟨a, ha⟩ := Option.isSome_iff_exists.mp hp
    cases hw : a.writeValue h c.stream with
    | error e =>
      rw [after_write_error ha hw]
      exact hf
    | ok s =>
      obtain ⟨p, bs, hd, hbs, rfl⟩ := writeValue_eq_ok.mp hw
      obtain ⟨ps, hps, he⟩ := hf.pending
      rw [after_write ha hw, hd.named]
      -- the new bytes go behind those that are pending
      refine ⟨hf.reachable, ps ++ [p], ?_, ?_⟩
      · show c.written ++ [p] = c.taken ++ (ps ++ [p])
        rw [hps, List.append_assoc]
      · have h1 : Encodes [p] (bs ++ []) := .cons hbs .nil
        rw [List.append_nil] at h1
        exact he.append h1
  | read k =>
    have hreach : (c.world.after (.call k (.readValue c.stream))).Reachable :=
      hf.reachable.step hp
    obtain ⟨a, ha, _, hr⟩ := World.permits_call.mp hp
    have v := (hf.reachable.sound.coherent k a ha).vacant
    rw [after_read ha]
    -- at the end nothing changes; else the first pending value is taken, or refused
    obtain ⟨hdone, hempty⟩ | ⟨p, ps, bs, rest, hw, hbs, he, hs⟩ := hf.next
    · rw [readValue_ended a hempty]
      refine ⟨hreach, [], ?_, ?_⟩
      · show c.written = c.taken ++ [] ++ []
        rw [hdone, List.append_nil, List.append_nil]
      · rw [hempty]
        exact .nil
    · obtain ⟨x, b, hx, hd⟩ | ⟨why, hx⟩ | hx := readValue_cases v hbs hs
      · rw [hx]
        refine ⟨hreach, ps, ?_, he⟩
        show c.written = c.taken ++ b.named x ++ ps
        rw [hd.named, hw, List.append_assoc]
        rfl
      · rw [hx]
        refine ⟨hreach, p :: ps, ?_, ?_⟩
        · show c.written = c.taken ++ [] ++ p :: ps
          rw [hw, List.append_nil]
        · rw [hs]
          exact .cons hbs he
      · exact absurd ((Outcome.fault?_map ..).trans hx) hr.counters
  | raw op => cases ht

theorem Flows.run (hf : c.Flows) (ts : List Transfer) (hr : ∀ t ∈ ts, t.isRaw = false)
    (hp : (c.run ts).2 = true) : (c.run ts).1.Flows := by
  induction ts generalizing c with
  | nil => exact hf
  | cons t rest ih =>
    obtain ⟨h1, h2⟩ := Bool.and_eq_true_iff.mp hp
    obtain ⟨hr1, hr2⟩ := List.forall_mem_cons.mp hr
    exact ih (hf.after hr1 (of_decide_eq_true h1)) hr2 h2

/-! ## 5. What is kept in order -/

/-- **What a channel guarantees of the next write and the next read**, from and into any arena. -/
structure Lossless (c : Channel) : Prop where
  /-- What was read is what was written first. -/
  ordered : c.taken <+: c.written
  writes : ∀ {k a h s}, c.world.arena? k = some a → a.writeValue h c.stream = .ok s →
    ∃ p, a.Denotes h p ∧ (c.after (.write k h)).written = c.written ++ [p]
  /-- What cannot be written leaves everything as it is. -/
  unwritten : ∀ {k a h e}, c.world.arena? k = some a → a.writeValue h c.stream = .error e →
    c.after (.write k h) = c
  /-- Whoever reads reads the first value that is pending. -/
  reads : ∀ {k a x}, c.world.arena? k = some a → (a.readValue c.stream).1.answer = .ok x →
    ∃ p, (a.readValue c.stream).1.arena.Denotes x p ∧ c.taken ++ [p] <+: c.written ∧
      (c.after (.read k)).taken = c.taken ++ [p]
  /-- What cannot be read leaves everything as it is, so that it is still the next value. -/
  unread : ∀ {k a e}, c.world.arena? k = some a →
    (a.readValue c.stream).1.answer = .error (.error e) →
    a.readValue c.stream = (.error e a, c.stream) ∧ c.after (.read k) = c
  /-- There is no value to read exactly when all have been read. -/
  ended : ∀ {k a}, c.world.arena? k = some a →
    ((a.readValue c.stream).1.answer = .error (.error (.stream (.unexpectedEnd 1 0))) ↔
      c.taken = c.written)
  /-- Otherwise only the tracker stands against the next value. -/
  refused : ∀ {k a e}, c.world.arena? k = some a → c.taken ≠ c.written →
    (a.readValue c.stream).1.answer = .error e →
    (∃ why, e = .error (.resource why)) ∨ e = .fault .counterOverflow

/-- **What a reader finds**: the end, or the first value that is pending, if it is let. -/
theorem Flows.reading (hf : c.Flows) (ha : c.world.arena? k = some a) :
    (c.taken = c.written ∧
      a.readValue c.stream = (.error (.stream (.unexpectedEnd 1 0)) a, c.stream)) ∨
    ∃ p, c.taken ++ [p] <+: c.written ∧
      ((∃ x b s, a.readValue c.stream = (.ok x b, s) ∧ b.Denotes x p) ∨
        (∃ why, a.readValue c.stream = (.error (.resource why) a, c.stream)) ∨
          (a.readValue c.stream).1.fault? = some .counterOverflow) := by
  have v := (hf.reachable.sound.coherent k a ha).vacant
  obtain ⟨hdone, hempty⟩ | ⟨p, ps, bs, rest, hw, hbs, _, hs⟩ := hf.next
  · exact .inl ⟨hdone, readValue_ended a hempty⟩
  · refine .inr ⟨p, ⟨ps, ?_⟩, ?_⟩
    · rw [hw, List.append_assoc]
      rfl
    · exact (readValue_cases v hbs hs).imp_left fun ⟨x, b, hx, hd⟩ => ⟨x, b, _, hx, hd⟩

theorem ne_of_pending {p : Payload} (h : c.taken ++ [p] <+: c.written) : c.taken ≠ c.written := by
  intro e
  have hl := h.length_le
  rw [e, List.length_append, List.length_singleton] at hl
  omega

/-- **The invariant decides what the next write and the next read do.** -/
theorem Flows.guarantees (hf : c.Flows) : c.Lossless where
  ordered := by
    obtain ⟨ps, hw, _⟩ := hf.pending
    exact ⟨ps, hw.symm⟩
  writes ha hw := by
    obtain ⟨p, bs, hd, _, rfl⟩ := writeValue_eq_ok.mp hw
    rw [after_write ha hw, hd.named]
    exact ⟨p, hd, rfl⟩
  unwritten ha hw := after_write_error ha hw
  reads ha hx := by
    obtain ⟨_, hr⟩ | ⟨p, hp, ⟨y, b, s, hr, hd⟩ | ⟨why, hr⟩ | hr⟩ := hf.reading ha
    · rw [hr] at hx
      cases hx
    · rw [hr] at hx
      cases hx
      rw [after_read ha, hr]
      refine ⟨p, hd, hp, ?_⟩
      show c.taken ++ b.named _ = c.taken ++ [p]
      rw [hd.named]
    · rw [hr] at hx
      cases hx
    · rw [Outcome.fault?_eq_some.mp hr] at hx
      cases hx
  unread ha he := by
    obtain ⟨_, hr⟩ | ⟨p, _, ⟨x, b, s, hr, _⟩ | ⟨why, hr⟩ | hr⟩ := hf.reading ha
    · rw [hr] at he
      cases he
      exact ⟨hr, after_read_refused ha hr⟩
    · rw [hr] at he
      cases he
    · rw [hr] at he
      cases he
      exact ⟨hr, after_read_refused ha hr⟩
    · rw [Outcome.fault?_eq_some.mp hr] at he
      cases he
  ended ha := by
    obtain ⟨hdone, hr⟩ | ⟨p, hp, ⟨x, b, s, hr, _⟩ | ⟨why, hr⟩ | hr⟩ := hf.reading ha
    · rw [hr]
      exact ⟨fun _ => hdone, fun _ => rfl⟩
    · rw [hr]
      exact ⟨by rintro ⟨⟩, fun e => absurd e (ne_of_pending hp)⟩
    · rw [hr]
      exact ⟨by rintro ⟨⟩, fun e => absurd e (ne_of_pending hp)⟩
    · rw [Outcome.fault?_eq_some.mp hr]
      exact ⟨by rintro ⟨⟩, fun e => absurd e (ne_of_pending hp)⟩
  refused ha hne he := by
    obtain ⟨hdone, _⟩ | ⟨p, hp, ⟨x, b, s, hr, _⟩ | ⟨why, hr⟩ | hr⟩ := hf.reading ha
    · exact absurd hdone hne
    · rw [hr] at he
      cases he
    · rw [hr] at he
      cases he
      exact .inl ⟨why, rfl⟩
    · rw [Outcome.fault?_eq_some.mp hr] at he
      cases he
      exact .inr rfl

/-- **A stream loses no value and changes the order of none**, whoever writes and reads, as long as
    its bytes are not touched otherwise; and whatever touches them, its cursor stays inside. -/
theorem lossless (ts : List Transfer) (hp : (start.run ts).2 = true) :
    (start.run ts).1.stream.Bounded ∧
      ((∀ t ∈ ts, t.isRaw = false) → (start.run ts).1.Lossless) :=
  ⟨ByteStream.bounded _, fun hr => (flows_start.run ts hr hp).guarantees⟩

/-- Two values and a dictionary are sent from one arena; the other has room for one value. -/
def relaying : List Transfer :=
  [.act (.addArena (.strict .none .zero) .silent),
    .act (.addArena (.strict ⟨some 1, none, none⟩ .zero) .silent),
    .act (.call 0 (.buildScalar (.integer 7))),
    .act (.call 0 .buildDictionary),
    .act (.call 0 (.buildScalar (.bool true))),
    .write 0 ⟨⟨1⟩, 0, 0⟩,
    .write 0 ⟨⟨1⟩, 1, 0⟩,
    .write 0 ⟨⟨1⟩, 2, 0⟩,
    .read 1,
    .read 1,
    .read 0]

/-- In `relaying` the dictionary is not written, and the flag is read where there is room for it. -/
theorem lossless_relaying : (start.run relaying).2 = true ∧ (start.run relaying).1.Lossless ∧
    (start.run relaying).1.taken = [.integer 7, .bool true] ∧
    (start.run relaying).1.written = [.integer 7, .bool true] := by
  have hp : (start.run relaying).2 = true := by decide +kernel
  have h := (lossless relaying hp).2 (by decide)
  exact ⟨hp, h, by cbv, by cbv⟩

end Channel

end ValueHeap
