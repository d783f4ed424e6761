import ValueHeap.Failure

/-!
# Byte streams

A stream is a sequence of bytes with a cursor in it: what lies before the cursor has been read,
what lies behind it has not. Writing goes to the end, reading moves the cursor. The cursor never
passes the end, by the type.

* a read that finds too few bytes leaves the cursor where it was;
* a read that finds a byte it does not know has moved past that byte.
-/

namespace ValueHeap

structure ByteStream where
  /-- What has been read, the first byte first. -/
  past : List UInt8
  /-- What can still be read. -/
  ahead : List UInt8

namespace ByteStream

def empty : ByteStream := ⟨[], []⟩

def ofBytes (bytes : List UInt8) : ByteStream := ⟨[], bytes⟩

/-- Every byte written so far. -/
def bytes (s : ByteStream) : List UInt8 := s.past ++ s.ahead

/-- Where the cursor stands. -/
def position (s : ByteStream) : Nat := s.past.length

def remaining (s : ByteStream) : Nat := s.ahead.length

def rewind (s : ByteStream) : ByteStream := ⟨[], s.bytes⟩

/-! ## 1. Writing -/

def write (s : ByteStream) (bytes : List UInt8) : ByteStream := { s with ahead := s.ahead ++ bytes }

/-- The four bytes of an integer, the least significant first. -/
def integerBytes (n : Int32) : List UInt8 :=
  let w := n.toUInt32.toNat
  [UInt8.ofNat w, UInt8.ofNat (w >>> 8), UInt8.ofNat (w >>> 16), UInt8.ofNat (w >>> 24)]

def boolByte (flag : Bool) : UInt8 := if flag then 1 else 0

def writeTag (s : ByteStream) (k : Kind) : ByteStream := s.write [k.tag]

def writeInteger (s : ByteStream) (n : Int32) : ByteStream := s.write (integerBytes n)

def writeBool (s : ByteStream) (flag : Bool) : ByteStream := s.write [boolByte flag]

/-! ## 2. Reading -/

/-- The integer of four bytes, the least significant first. -/
def integerOfBytes (b₀ b₁ b₂ b₃ : UInt8) : Int32 :=
  (UInt32.ofNat
    (b₀.toNat + b₁.toNat <<< 8 + b₂.toNat <<< 16 + b₃.toNat <<< 24)).toInt32

def readByte (s : ByteStream) : Except ReadError UInt8 × ByteStream :=
  match s.ahead with
  | [] => (.error (.unexpectedEnd 1 0), s)
  | b :: rest => (.ok b, ⟨s.past ++ [b], rest⟩)

def readTag (s : ByteStream) : Except ReadError Kind × ByteStream :=
  match s.readByte with
  | (.error e, t) => (.error e, t)
  | (.ok b, t) =>
    match Kind.ofTag? b with
    | some k => (.ok k, t)
    | none => (.error (.unknownTag b), t)

def readInteger (s : ByteStream) : Except ReadError Int32 × ByteStream :=
  match s.ahead with
  | b₀ :: b₁ :: b₂ :: b₃ :: rest =>
    (.ok (integerOfBytes b₀ b₁ b₂ b₃), ⟨s.past ++ [b₀, b₁, b₂, b₃], rest⟩)
  | _ => (.error (.unexpectedEnd 4 s.remaining), s)

def readBool (s : ByteStream) : Except ReadError Bool × ByteStream :=
  match s.readByte with
  | (.error e, t) => (.error e, t)
  | (.ok 0, t) => (.ok false, t)
  | (.ok 1, t) => (.ok true, t)
  | (.ok b, t) => (.error (.badFlag b), t)

@[simp] theorem bytes_write (s : ByteStream) (bs : List UInt8) :
    (s.write bs).bytes = s.bytes ++ bs := by
  simp [bytes, write]

@[simp] theorem bytes_rewind (s : ByteStream) : s.rewind.bytes = s.bytes := by
  simp [bytes, rewind]

/-- An integer is read back from its bytes. -/
theorem integerOfBytes_integerBytes (n : Int32) :
    ∃ b₀ b₁ b₂ b₃, integerBytes n = [b₀, b₁, b₂, b₃] ∧ integerOfBytes b₀ b₁ b₂ b₃ = n := by
  refine ⟨_, _, _, _, rfl, ?_⟩
  have h := n.toUInt32.toNat_lt
  have e : n.toUInt32.toNat % 2 ^ 8 + (n.toUInt32.toNat >>> 8 % 2 ^ 8) <<< 8 +
      (n.toUInt32.toNat >>> 16 % 2 ^ 8) <<< 16 + (n.toUInt32.toNat >>> 24 % 2 ^ 8) <<< 24 =
      n.toUInt32.toNat := by omega
  simp only [integerOfBytes, UInt8.toNat_ofNat', e, UInt32.ofNat_toNat]
  rfl

/-- Four bytes are the bytes of the integer they are read as. -/
theorem integerBytes_integerOfBytes (b₀ b₁ b₂ b₃ : UInt8) :
    integerBytes (integerOfBytes b₀ b₁ b₂ b₃) = [b₀, b₁, b₂, b₃] := by
  have h₀ := b₀.toNat_lt
  have h₁ := b₁.toNat_lt
  have h₂ := b₂.toNat_lt
  have h₃ := b₃.toNat_lt
  have e : (integerOfBytes b₀ b₁ b₂ b₃).toUInt32.toNat =
      b₀.toNat + b₁.toNat <<< 8 + b₂.toNat <<< 16 + b₃.toNat <<< 24 := by
    have : (integerOfBytes b₀ b₁ b₂ b₃).toUInt32 = UInt32.ofNat
        (b₀.toNat + b₁.toNat <<< 8 + b₂.toNat <<< 16 + b₃.toNat <<< 24) := rfl
    rw [this, UInt32.toNat_ofNat']
    omega
  simp only [integerBytes, e, List.cons.injEq, and_true, ← UInt8.toNat_inj, UInt8.toNat_ofNat']
  omega

end ByteStream

end ValueHeap
