import ValueHeap.Proofs.Documents

/-!
# What a stream of values can hold

The bytes of a list of values are those of its members, one after another. Reading one value after
another takes apart just such bytes: what lies before the cursor is the bytes of the values read,
and what lies behind it tells why no further value could be read.

* `Encodes` are the bytes of a list of values, `Malformed` the bytes no value can be read from, with
  the error; all bytes are the one and then the other (`encodes_then_malformed`);
* `Encodes.split_unique`, `Malformed.unique`: bytes are those of one list only, and have one error;
* **`readAll_of_encodes`**, `writeAll_of_encodes`: the bytes of some values are what an arena writes
  for them, and what it reads them from.
-/

namespace ValueHeap

/-! ## 1. The bytes of values -/

/-- The bytes of a list of values, in order. -/
inductive Encodes : List Payload → List UInt8 → Prop
  | nil : Encodes [] []
  | cons {p : Payload} {ps : List Payload} {bs rest : List UInt8} : p.wireBytes? = some bs →
      Encodes ps rest → Encodes (p :: ps) (bs ++ rest)

/-- Why no value can be read from some bytes. -/
inductive Malformed : List UInt8 → HeapError → Prop
  /-- There are no bytes. -/
  | ended : Malformed [] (.stream (.unexpectedEnd 1 0))
  /-- The first byte is no tag. -/
  | unknownTag {b : UInt8} {rest : List UInt8} : 14 < b →
      Malformed (b :: rest) (.stream (.unknownTag b))
  /-- The tag is that of a kind that is never written. -/
  | noLayout {k : Kind} {rest : List UInt8} : k.hasLayout = false →
      Malformed (k.tag :: rest) (.noLayout k)
  /-- An integer is cut short. -/
  | shortInteger {rest : List UInt8} : rest.length < 4 →
      Malformed (Kind.integer.tag :: rest) (.stream (.unexpectedEnd 4 rest.length))
  /-- A flag is cut short. -/
  | noFlag : Malformed [Kind.bool.tag] (.stream (.unexpectedEnd 1 0))
  /-- A flag is neither of the two. -/
  | badFlag {b : UInt8} {rest : List UInt8} : 1 < b →
      Malformed (Kind.bool.tag :: b :: rest) (.stream (.badFlag b))

/-- A property of all bytes, checked one by one. -/
theorem forall_byte {P : UInt8 → Prop} (h : ∀ n, n < 256 → P (UInt8.ofNat n)) (b : UInt8) :
    P b := by
  have hb := h b.toNat b.toNat_lt
  rwa [UInt8.ofNat_toNat] at hb

/-- Only a byte up to 14 is a tag. -/
theorem Kind.ofTag?_eq_none {b : UInt8} : Kind.ofTag? b = none ↔ 14 < b :=
  forall_byte (P := fun b => Kind.ofTag? b = none ↔ 14 < b) (by decide +kernel) b

theorem flag_or_greater (b : UInt8) : b = 0 ∨ b = 1 ∨ 1 < b :=
  forall_byte (P := fun b => b = 0 ∨ b = 1 ∨ 1 < b) (by decide +kernel) b

namespace ByteStream

/-! ## 2. Reading one value -/

variable {past ahead bs rest : List UInt8} {p : Payload} {e : HeapError}

/-- Reading the tag of a kind. -/
theorem readTag_tag (past rest : List UInt8) (k : Kind) :
    readTag ⟨past, k.tag :: rest⟩ = (.ok k, ⟨past ++ [k.tag], rest⟩) := by
  simp [readTag, readByte]

theorem readInteger_short (h : rest.length < 4) :
    readInteger ⟨past, rest⟩ = (.error (.unexpectedEnd 4 rest.length), ⟨past, rest⟩) := by
  unfold readInteger
  split
  · rename_i heq
    simp only at heq
    subst heq
    simp at h
    omega
  · rfl

/-- The bytes of a value are read as that value, whatever follows. -/
theorem readPayload_of_wireBytes? (past : List UInt8) (h : p.wireBytes? = some bs)
    (rest : List UInt8) :
    readPayload ⟨past, bs ++ rest⟩ = (.ok p, ⟨past ++ bs, rest⟩) := by
  cases p with
  | integer n =>
    cases h
    obtain ⟨b₀, b₁, b₂, b₃, hb, hn⟩ := integerOfBytes_integerBytes n
    rw [hb, List.cons_append]
    unfold readPayload
    rw [readTag_tag]
    simp [readInteger, hn]
  | bool flag =>
    cases h
    rw [List.cons_append]
    unfold readPayload
    rw [readTag_tag]
    cases flag <;> simp [readBool, readByte, boolByte]
  | _ => cases h

/-- From malformed bytes nothing is read, for the reason they have. -/
theorem readPayload_of_malformed (past : List UInt8) (h : Malformed ahead e) :
    (readPayload ⟨past, ahead⟩).1 = .error e := by
  cases h with
  | ended => rfl
  | unknownTag hb => simp [readPayload, readTag, readByte, Kind.ofTag?_eq_none.mpr hb]
  | @noLayout k rest hk =>
    simp only [readPayload, readTag_tag]
    cases k <;> first | rfl | cases hk
  | shortInteger hr => simp only [readPayload, readTag_tag, readInteger_short hr]
  | noFlag => rfl
  | @badFlag b rest hb =>
    have h0 : b ≠ 0 := by rintro rfl; exact absurd hb (by decide)
    have h1 : b ≠ 1 := by rintro rfl; exact absurd hb (by decide)
    simp [readPayload, readTag_tag, readBool, readByte]

/-- Bytes start with those of a value, or they are malformed. -/
theorem encoded_or_malformed (ahead : List UInt8) :
    (∃ (p : Payload) (bs rest : List UInt8), p.wireBytes? = some bs ∧ ahead = bs ++ rest) ∨
      ∃ e, Malformed ahead e := by
  cases ahead with
  | nil => exact .inr ⟨_, .ended⟩
  | cons b ahead =>
    cases hk : Kind.ofTag? b with
    | none => exact .inr ⟨_, .unknownTag (Kind.ofTag?_eq_none.mp hk)⟩
    | some k =>
      rw [← Kind.tag_of_ofTag? hk]
      cases k with
      | integer =>
        match ahead with
        | b₀ :: b₁ :: b₂ :: b₃ :: rest =>
          refine .inl ⟨.integer (integerOfBytes b₀ b₁ b₂ b₃), _, rest, rfl, ?_⟩
          rw [integerBytes_integerOfBytes]
          rfl
        | [] | [_] | [_, _] | [_, _, _] => exact .inr ⟨_, .shortInteger (by simp)⟩
      | bool =>
        match ahead with
        | [] => exact .inr ⟨_, .noFlag⟩
        | b :: rest =>
          rcases flag_or_greater b with rfl | rfl | hb
          · exact .inl ⟨.bool false, _, rest, rfl, rfl⟩
          · exact .inl ⟨.bool true, _, rest, rfl, rfl⟩
          · exact .inr ⟨_, .badFlag hb⟩
      | _ => exact .inr ⟨_, .noLayout rfl⟩

end ByteStream

theorem wireBytes?_isSome (p : Payload) : p.wireBytes?.isSome = p.kind.hasLayout := by
  cases p <;> rfl

theorem wireBytes?_length_pos {p : Payload} {bs : List UInt8} (h : p.wireBytes? = some bs) :
    0 < bs.length := by
  cases p <;> cases h <;> exact Nat.succ_pos _

/-- Bytes are malformed for one reason only. -/
theorem Malformed.unique {ahead : List UInt8} {e e' : HeapError} (h : Malformed ahead e)
    (h' : Malformed ahead e') : e' = e := by
  have he := ByteStream.readPayload_of_malformed [] h
  rw [ByteStream.readPayload_of_malformed [] h'] at he
  exact Except.error.inj he

namespace Encodes

variable {ps qs : List Payload} {bs cs rest : List UInt8} {e : HeapError}

/-- Malformed bytes are those of no values. -/
theorem eq_nil (h : Encodes ps bs) (hm : Malformed (bs ++ rest) e) : ps = [] := by
  cases h with
  | nil => rfl
  | cons hp h =>
    rw [List.append_assoc] at hm
    have he := ByteStream.readPayload_of_malformed [] hm
    rw [ByteStream.readPayload_of_wireBytes? [] hp] at he
    cases he

/-- Bytes followed by malformed ones are those of one list of values only, and end at one place
    only: each value is read from the front, whatever follows it. -/
theorem split_unique {e' : HeapError} {rest' : List UInt8} (h : Encodes ps bs)
    (hm : Malformed rest e) (h' : Encodes qs cs) (hm' : Malformed rest' e')
    (hb : bs ++ rest = cs ++ rest') : qs = ps ∧ cs = bs ∧ rest' = rest := by
  induction h generalizing qs cs with
  | nil =>
    rw [List.nil_append] at hb
    rw [hb] at hm
    have hq := h'.eq_nil hm
    subst hq
    cases h'
    exact ⟨rfl, rfl, hb.symm⟩
  | @cons p ps bs₁ bs₂ hp h ih =>
    cases h' with
    | nil =>
      rw [List.nil_append] at hb
      rw [← hb] at hm'
      cases (Encodes.cons hp h).eq_nil hm'
    | @cons q qs cs₁ cs₂ hq h' =>
      rw [List.append_assoc, List.append_assoc] at hb
      have hr := ByteStream.readPayload_of_wireBytes? [] hp (bs₂ ++ rest)
      rw [hb, ByteStream.readPayload_of_wireBytes? [] hq] at hr
      injection hr with h₁ h₂
      injection h₁ with h₁
      injection h₂ with h₂ h₃
      obtain ⟨hqs, hcs, hrest⟩ := ih h' h₃.symm
      rw [List.nil_append, List.nil_append] at h₂
      exact ⟨by rw [h₁, hqs], by rw [h₂, hcs], hrest⟩

/-- Each value takes at least one byte. -/
theorem length_le (h : Encodes ps bs) : ps.length ≤ bs.length := by
  induction h with
  | nil => exact Nat.le_refl 0
  | @cons p ps bs rest hp h ih =>
    have hpos := wireBytes?_length_pos hp
    rw [List.length_cons, List.length_append]
    omega

end Encodes

/-- **Bytes are those of some values, and then malformed.** -/
theorem encodes_then_malformed (bytes : List UInt8) :
    ∃ ps bs rest e, bytes = bs ++ rest ∧ Encodes ps bs ∧ Malformed rest e := by
  rcases ByteStream.encoded_or_malformed bytes with ⟨p, bs, rest, hp, rfl⟩ | ⟨e, he⟩
  · have hlt : rest.length < (bs ++ rest).length := by
      have hpos := wireBytes?_length_pos hp
      rw [List.length_append]
      omega
    obtain ⟨ps, cs, rest', e, rfl, hps, he⟩ := encodes_then_malformed rest
    exact ⟨p :: ps, bs ++ cs, rest', e, (List.append_assoc ..).symm, .cons hp hps, he⟩
  · exact ⟨[], [], bytes, e, rfl, .nil, he⟩
termination_by bytes.length

/-- Decoding finds the values whose bytes these are, and no error if nothing follows them. -/
theorem ByteStream.decodeAll_of_encodes {ps : List Payload} {bs rest : List UInt8} {e : HeapError}
    (he : Encodes ps bs) (hm : Malformed rest e) (past : List UInt8) :
    decodeAll ⟨past, bs ++ rest⟩ =
      ⟨ps, if rest.isEmpty then none else some e, ⟨past ++ bs, rest⟩⟩ := by
  induction he generalizing past with
  | nil =>
    have hr := readPayload_of_malformed past hm
    rw [List.nil_append, List.append_nil]
    unfold decodeAll
    cases rest with
    | nil => rfl
    | cons b rest =>
      rw [if_neg (by simp [remaining])]
      split
      · rename_i f t hf
        rw [hf] at hr
        cases hr
        rfl
      · rename_i p t hf
        rw [hf] at hr
        cases hr
  | @cons p ps bs cs hp he ih =>
    have hpos := wireBytes?_length_pos hp
    rw [List.append_assoc, ← List.append_assoc past]
    unfold decodeAll
    rw [if_neg (by rw [remaining, List.length_append]; omega)]
    rw [readPayload_of_wireBytes? past hp]
    simp only [ih (past ++ bs)]

namespace Arena

/-! ## 3. Arenas and streams -/

/-- A handle names a value with that payload. -/
def Denotes (a : Arena) (h : Handle) (p : Payload) : Prop := (a.lookup h).map (·.payload) = .ok p

/-- What came of reading one value after another: the handles to the values, the failure that ended
    the reading, and the arena and the stream it left. -/
structure Readings where
  handles : List Handle
  failure : Failure
  arena : Arena
  stream : ByteStream

theorem remaining_readValue {a : Arena} {s : ByteStream} {h : Handle}
    (e : (a.readValue s).1.answer = .ok h) : (a.readValue s).2.remaining < s.remaining := by
  unfold readValue at e ⊢
  rcases hr : s.readPayload with ⟨f | p, t⟩
  · rw [hr] at e
    cases e
  · have hlt := ByteStream.remaining_readPayload hr
    rw [hr] at e
    dsimp only at e ⊢
    split
    · rename_i f hf
      rw [hf] at e
      dsimp only at e
      rw [hf] at e
      cases e
    · exact hlt

/-- Reads one value after another until the first failure. -/
def readAll (a : Arena) (s : ByteStream) : Readings :=
  match _h : (a.readValue s).1.answer with
  | .error f => ⟨[], f, (a.readValue s).1.arena, (a.readValue s).2⟩
  | .ok x =>
    let later := readAll (a.readValue s).1.arena (a.readValue s).2
    { later with handles := x :: later.handles }
termination_by s.remaining
decreasing_by exact remaining_readValue _h

/-- Writes the values behind some handles to the end of a stream, in order. -/
def writeAll (a : Arena) : List Handle → ByteStream → Except HeapError ByteStream
  | [], s => .ok s
  | h :: hs, s =>
    match a.writeValue h s with
    | .error e => .error e
    | .ok t => writeAll a hs t

variable {a b : Arena} {h : Handle} {hs : List Handle} {p : Payload} {ps : List Payload}
  {past bs rest : List UInt8} {e : HeapError}

theorem Denotes.lookup (hd : a.Denotes h p) : ∃ o, a.lookup h = .ok o ∧ o.payload = p := by
  unfold Denotes at hd
  cases hl : a.lookup h with
  | error e =>
    rw [hl] at hd
    cases hd
  | ok o =>
    rw [hl] at hd
    exact ⟨o, rfl, Except.ok.inj hd⟩

theorem denotes_iff : a.Denotes h p ↔ a.resolves h ∧ a.payload? h.slot = some p := by
  constructor
  · intro hd
    obtain ⟨o, hl, rfl⟩ := hd.lookup
    exact ⟨resolves_iff.mpr ⟨o, hl⟩, payload?_of_occupant? (occupant?_of_lookup hl)⟩
  · intro hd
    obtain ⟨hr, hp⟩ := hd
    obtain ⟨o, hl⟩ := resolves_iff.mp hr
    rw [payload?_of_occupant? (occupant?_of_lookup hl)] at hp
    unfold Denotes
    rw [hl]
    exact congrArg Except.ok (Option.some.inj hp)

theorem rightUnique_denotes (a : Arena) : Relator.RightUnique a.Denotes :=
  fun _ _ _ h h' => Except.ok.inj (h.symm.trans h')

theorem Denotes.grows (hd : a.Denotes h p) (g : Grows a b) : b.Denotes h p := by
  obtain ⟨hr, hp⟩ := denotes_iff.mp hd
  exact denotes_iff.mpr ⟨g.resolves hr, (g.kept h.slot p hp).1⟩

/-- Handles that each name a value with a layout name values that have bytes. -/
theorem encodes_of_denotes : ∀ {hs : List Handle},
    (∀ h ∈ hs, ∃ p, a.Denotes h p ∧ p.kind.hasLayout) →
    ∃ ps bs, List.Forall₂ a.Denotes hs ps ∧ Encodes ps bs
  | [], _ => ⟨[], [], .nil, .nil⟩
  | h :: hs, hh => by
      obtain ⟨⟨p, hd, hp⟩, hhs⟩ := List.forall_mem_cons.mp hh
      rw [← wireBytes?_isSome] at hp
      obtain ⟨bs, hbs⟩ := Option.isSome_iff_exists.mp hp
      obtain ⟨ps, rest, hds, hrest⟩ := encodes_of_denotes hhs
      exact ⟨p :: ps, bs ++ rest, .cons hd hds, .cons hbs hrest⟩

/-- Values with bytes are written as these. -/
theorem writeAll_of_encodes (hd : List.Forall₂ a.Denotes hs ps) (he : Encodes ps bs)
    (s : ByteStream) : a.writeAll hs s = .ok (s.write bs) := by
  induction hd generalizing bs s with
  | nil =>
    cases he
    simp [writeAll, ByteStream.write]
  | @cons h p hs ps hh hd ih =>
    obtain _ | ⟨hp, he⟩ := he
    obtain ⟨o, ho, rfl⟩ := hh.lookup
    simp only [writeAll, writeValue, ho, hp, ih he]
    simp [ByteStream.write]

/-- The bytes of a value are read and the value is built, if the tracker accepts it. -/
theorem readValue_accepted {sizes : List Nat} (v : a.VacantExact) (hp : p.wireBytes? = some bs)
    (ht : a.tracker.acceptsAll (Payload.footprintUnits.value :: sizes)) (past rest : List UInt8) :
    ∃ x b, a.readValue ⟨past, bs ++ rest⟩ = (.ok x b, ⟨past ++ bs, rest⟩) ∧ b.Denotes x p ∧
      Grows a b ∧ b.tracker.acceptsAll sizes := by
  have hsize : p.footprint = Payload.footprintUnits.value := by
    cases p <;> cases hp <;> rfl
  obtain ⟨x, b, hb, ht'⟩ := build_accepted (hsize ▸ ht)
  have hl := build_leaves v p
  rw [hb] at hl
  obtain ⟨hg, hr⟩ : a.Builds? p x b := hl
  refine ⟨x, b, ?_, denotes_iff.mpr ⟨hr, hg.payload?_new⟩, hg.grows, ht'⟩
  simp only [readValue, ByteStream.readPayload_of_wireBytes? past hp rest, hb]
  rfl

/-- Malformed bytes end the reading where they start. -/
theorem readAll_of_malformed (past : List UInt8) (hm : Malformed rest e) :
    a.readAll ⟨past, rest⟩ = ⟨[], .error e, a, ⟨past, rest⟩⟩ := by
  have hr : a.readValue ⟨past, rest⟩ = (.error e a, ⟨past, rest⟩) := by
    have he := ByteStream.readPayload_of_malformed past hm
    unfold readValue
    rcases h : ByteStream.readPayload ⟨past, rest⟩ with ⟨x, t⟩
    rw [h] at he
    cases he
    rfl
  unfold readAll
  rw [hr]
  rfl

/-- **The bytes of some values are read as those values**, up to the malformed bytes behind them. -/
theorem readAll_of_encodes (v : a.VacantExact) (he : Encodes ps bs) (hm : Malformed rest e)
    (ht : a.tracker.acceptsAll (List.replicate ps.length Payload.footprintUnits.value))
    (past : List UInt8) : ∃ hs b, a.readAll ⟨past, bs ++ rest⟩ =
      ⟨hs, .error e, b, ⟨past ++ bs, rest⟩⟩ ∧ List.Forall₂ b.Denotes hs ps ∧ Grows a b := by
  induction he generalizing a past with
  | nil =>
    refine ⟨[], a, ?_, .nil, .refl v⟩
    rw [List.nil_append, List.append_nil]
    exact readAll_of_malformed past hm
  | @cons p ps bs cs hp he ih =>
    obtain ⟨x, b, hr, hd, g, ht'⟩ := readValue_accepted v hp ht past (cs ++ rest)
    obtain ⟨hs, c, hc, hds, g'⟩ := ih g.vacant ht' (past ++ bs)
    refine ⟨x :: hs, c, ?_, .cons (hd.grows g') hds, g.trans g'⟩
    rw [List.append_assoc, ← List.append_assoc past]
    unfold readAll
    rw [hr]
    simp only [Outcome.ok, hc]

end Arena

end ValueHeap
