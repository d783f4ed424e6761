import ValueHeap.Stream
import ValueHeap.Arena.Factory

/-!
# Values in a stream

A value is written as the tag of its kind and a payload of fixed width: four bytes for an integer,
one for a flag. No other kind has a layout. Reading a value from a stream puts the cursor back
where it was when the value cannot be read or cannot be built.

* `remaining_readPayload`: a value that is read takes bytes from the stream, so reading one value
  after another ends.
-/

namespace ValueHeap

/-! ## 1. Bytes of one value -/

/-- The bytes of a value, if its kind has a layout. -/
def Payload.wireBytes? : Payload → Option (List UInt8)
  | .integer n => some (Kind.integer.tag :: ByteStream.integerBytes n)
  | .bool flag => some [Kind.bool.tag, ByteStream.boolByte flag]
  | _ => none

namespace ByteStream

/-- The next value. The cursor is left wherever the reading ended. -/
def readPayload (s : ByteStream) : Except HeapError Payload × ByteStream :=
  match s.readTag with
  | (.error e, t) => (.error (.stream e), t)
  | (.ok .integer, t) =>
    match t.readInteger with
    | (.ok n, u) => (.ok (.integer n), u)
    | (.error e, u) => (.error (.stream e), u)
  | (.ok .bool, t) =>
    match t.readBool with
    | (.ok flag, u) => (.ok (.bool flag), u)
    | (.error e, u) => (.error (.stream e), u)
  | (.ok k, t) => (.error (.noLayout k), t)

theorem remaining_readByte (s : ByteStream) : s.readByte.2.remaining ≤ s.remaining := by
  unfold readByte remaining
  split
  · exact Nat.le_refl _
  · rename_i b rest h
    simp [h]

theorem remaining_readByte_ok {s t : ByteStream} {b : UInt8} (h : s.readByte = (.ok b, t)) :
    t.remaining < s.remaining := by
  unfold readByte at h
  split at h
  · cases h
  · rename_i c rest e
    cases h
    simp [remaining, e]

theorem remaining_readTag_ok {s t : ByteStream} {k : Kind} (h : s.readTag = (.ok k, t)) :
    t.remaining < s.remaining := by
  unfold readTag at h
  split at h
  · cases h
  · rename_i b u e
    split at h
    · cases h
      exact remaining_readByte_ok e
    · cases h

theorem remaining_readInteger (s : ByteStream) : s.readInteger.2.remaining ≤ s.remaining := by
  unfold readInteger remaining
  split
  · rename_i h
    simp only [h, List.length_cons]
    omega
  · exact Nat.le_refl _

theorem remaining_readBool (s : ByteStream) : s.readBool.2.remaining ≤ s.remaining := by
  have h := remaining_readByte s
  unfold readBool
  split <;> rename_i e <;> rw [e] at h <;> exact h

theorem remaining_readPayload {s t : ByteStream} {p : Payload} (h : s.readPayload = (.ok p, t)) :
    t.remaining < s.remaining := by
  unfold readPayload at h
  split at h
  · cases h
  · rename_i u e
    have h₁ := remaining_readTag_ok e
    have h₂ := remaining_readInteger u
    split at h
    · rename_i f
      cases h
      rw [f] at h₂
      exact Nat.lt_of_le_of_lt h₂ h₁
    · cases h
  · rename_i u e
    have h₁ := remaining_readTag_ok e
    have h₂ := remaining_readBool u
    split at h
    · rename_i f
      cases h
      rw [f] at h₂
      exact Nat.lt_of_le_of_lt h₂ h₁
    · cases h
  · cases h

/-- What one value after another is read from a stream: the values, the error that ended the
    reading before the end of the stream, and the stream where it ended. -/
structure Decoded where
  values : List Payload
  error? : Option HeapError
  rest : ByteStream

/-- Reads values up to the end of the stream or the first error. -/
def decodeAll (s : ByteStream) : Decoded :=
  if s.remaining = 0 then ⟨[], none, s⟩
  else
    match _h : s.readPayload with
    | (.error e, _) => ⟨[], some e, s⟩
    | (.ok p, t) =>
      let tail := decodeAll t
      { tail with values := p :: tail.values }
termination_by s.remaining
decreasing_by exact remaining_readPayload _h

end ByteStream

/-! ## 2. Arenas and streams -/

namespace Arena

/-- Writes the value behind a handle to the end of a stream. -/
def writeValue (a : Arena) (h : Handle) (s : ByteStream) : Except HeapError ByteStream :=
  match a.lookup h with
  | .error e => .error e
  | .ok o =>
    match o.payload.wireBytes? with
    | some bytes => .ok (s.write bytes)
    | none => .error (.noLayout o.payload.kind)

/-- Reads the next value of a stream and builds it. After an error the stream is as before. -/
def readValue (a : Arena) (s : ByteStream) : Outcome Handle × ByteStream :=
  match s.readPayload with
  | (.error e, _) => (.error e a, s)
  | (.ok p, t) =>
    let built := a.build p
    match built.answer with
    | .error (.error _) => (built, s)
    | _ => (built, t)

end Arena

end ValueHeap
