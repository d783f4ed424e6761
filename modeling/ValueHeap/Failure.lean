import ValueHeap.Kind
import ValueHeap.Handle
import ValueHeap.Tracker

/-!
# Why an operation fails

An operation that fails reports a `HeapError`, and its caller may go on. A `Fault` ends it for
good: a question about a handle that names no value, a counter out of range, or a reference inside
the arena that names no value. The texts of both stand here and nowhere else.
-/

namespace ValueHeap

/-! ## 1. Errors -/

/-- A stream that does not hold what is read from it. -/
inductive ReadError
  | unexpectedEnd (needed remaining : Nat)
  | badFlag (byte : UInt8)
  | unknownTag (byte : UInt8)
  deriving DecidableEq, Repr

/-- A byte as two lower-case hexadecimal digits. -/
def hexByte (b : UInt8) : String :=
  let digit := fun n : Nat => Nat.digitChar n
  String.ofList [digit (b.toNat / 16), digit (b.toNat % 16)]

def ReadError.message : ReadError → String
  | unexpectedEnd needed remaining =>
    s!"unexpected end of stream: needed {needed} bytes, {remaining} remaining"
  | badFlag byte => "invalid bool byte 0x" ++ hexByte byte
  | unknownTag byte => s!"unknown type tag {byte.toNat}"

/-- What a document or a value has that the other side cannot represent. -/
inductive Unrepresentable
  | null
  | nonFinite
  | kind (k : Kind)
  deriving DecidableEq, Repr

def Unrepresentable.name : Unrepresentable → String
  | null => "null"
  | nonFinite => "non-finite float"
  | kind k => k.name

/-- The errors an operation reports. -/
inductive HeapError
  | wrongKind (expected found : Kind)
  | noLayout (kind : Kind)
  | foreign (expected found : ArenaId)
  | stale
  | badStep (step : Int32)
  | unrepresentable (what : Unrepresentable)
  | tooDeep
  | stream (cause : ReadError)
  | resource (cause : Refusal)
  deriving DecidableEq, Repr

namespace HeapError

def message : HeapError → String
  | wrongKind expected found =>
    "invalid value cast: expected " ++ expected.name ++ ", found " ++ found.name
  | noLayout kind => "cannot serialize a value of type " ++ kind.name
  | foreign expected found =>
    "value handle belongs to " ++ found.render ++ ", not " ++ expected.render
  | stale => "value handle refers to a reclaimed slot"
  | badStep step => "range step must be positive, got " ++ toString step.toInt
  | unrepresentable what => "document node `" ++ what.name ++ "` has no value representation"
  | tooDeep => "maximum data nesting depth exceeded"
  | stream cause => cause.message
  | resource cause => cause.message

/-- The text of the underlying cause, where there is one. -/
def source? : HeapError → Option String
  | stream cause => some cause.message
  | resource cause => some cause.message
  | _ => none

end HeapError

/-! ## 2. Faults -/

/-- The questions that take a good handle for granted. -/
inductive Question
  | kindOf
  | iterable
  | callable
  | generates
  | truth
  | equalValues
  | greater
  | atLeast
  | clone
  deriving DecidableEq, Repr

def Question.name : Question → String
  | kindOf => "type_of"
  | iterable => "can_iterate"
  | callable => "is_callable"
  | generates => "is_generator"
  | truth => "bool_test"
  | equalValues => "equals"
  | greater => "greater_than"
  | atLeast => "greater_or_equal"
  | clone => "clone_handle"

/-- What stops an operation for good. -/
inductive Fault
  /-- A question was asked about a handle that names no value. -/
  | badHandle (question : Question) (cause : HeapError)
  /-- A counter of the tracker would leave its range. -/
  | counterOverflow
  /-- A child names a slot the arena does not have. -/
  | missingSlot
  /-- A child names an empty slot. -/
  | emptySlot
  /-- A reference was to be added to a slot that holds nothing. -/
  | sharedEmptySlot
  /-- A view over entries names a value that is no dictionary. -/
  | viewOfNoDictionary
  /-- A freed value named a slot beyond the arena's slots. -/
  | slotOutOfRange (slots slot : Nat)
  deriving DecidableEq, Repr

def Fault.message : Fault → String
  | badHandle question cause => "Arena::" ++ question.name ++ ": " ++ cause.message
  | counterOverflow => "attempt to add with overflow"
  | missingSlot => "Arena::get: slot missing"
  | emptySlot => "Arena::get: object already freed"
  | sharedEmptySlot => "Arena::inc_ref: object already freed"
  | viewOfNoDictionary =>
    "internal error: entered unreachable code: DictItems always points at a Dictionary"
  | slotOutOfRange slots slot =>
    s!"index out of bounds: the len is {slots} but the index is {slot}"

/-- Why an operation has no result. -/
inductive Failure
  | error (e : HeapError)
  | fault (f : Fault)
  deriving DecidableEq, Repr

end ValueHeap
