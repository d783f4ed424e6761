import ValueHeap.Document
import ValueHeap.Kind
import ValueHeap.Tracker

/-!
# Kinds, limits and trackers as documents

The form in which a host stores them. A record is written as an object; it is read from an object,
by the names of its fields, or from an array, by their order. Reading is strict about what a field
holds and lenient about members it does not know: a count has to be a whole number that a counter
can hold, a limit may also be null. A field that an object leaves out may have a default; an array
leaves out fields only from its end, and holds nothing beyond the last field.
-/

namespace ValueHeap

/-! ## 1. Writing -/

/-- A number that may be missing. -/
def numberOrNull : Option Nat → Document
  | some n => .integer n
  | none => .null

def Limits.toDocument (l : Limits) : Document :=
  .object [("max_allocations", numberOrNull l.maxAllocations),
    ("max_memory", numberOrNull l.maxMemory), ("gc_interval", numberOrNull l.gcInterval)]

/-- The limits and accounts of a tracker. -/
def accountsDocument (limits : Limits) (usage : Usage) : Document :=
  .object [("limits", limits.toDocument), ("allocation_count", .integer usage.allocations),
    ("current_memory", .integer usage.memory)]

/-! ## 2. Reading -/

namespace Document

/-- A count. -/
def asCounter? : Document → Option Nat
  | .integer n => if 0 ≤ n ∧ n < counterRange then some n.toNat else none
  | _ => none

/-- A limit: a count, or null for none. The outer `none` is a refusal. -/
def asLimit? : Document → Option (Option Nat)
  | .null => some none
  | d => d.asCounter?.map some

/-- The limits with the given fields, all of them present. -/
def limitsOf? (allocations memory interval : Document) : Option Limits :=
  match allocations.asLimit?, memory.asLimit?, interval.asLimit? with
  | some n, some m, some k => some ⟨n, m, k⟩
  | _, _, _ => none

/-- Limits. A member that an object leaves out is no limit; an array has all three. -/
def asLimits? : Document → Option Limits
  | .object members =>
    let field := fun name => (member? name members).getD .null
    limitsOf? (field "max_allocations") (field "max_memory") (field "gc_interval")
  | .array [allocations, memory, interval] => limitsOf? allocations memory interval
  | _ => none

/-- What a field holds; where it is missing, what `missing` says. -/
def fieldOr {α : Type} (read : Document → Option α) (missing : Option α) :
    Option Document → Option α
  | some d => read d
  | none => missing

/-- The limits and accounts with the given fields. A missing field is read as `missing` says. -/
def accountsOf? (missing : Option (Limits × Usage)) (limits allocations memory : Option Document) :
    Option (Limits × Usage) :=
  match fieldOr asLimits? (missing.map (·.1)) limits,
    fieldOr asCounter? (missing.map (·.2.allocations)) allocations,
    fieldOr asCounter? (missing.map (·.2.memory)) memory with
  | some l, some n, some m => some (l, ⟨n, m⟩)
  | _, _, _ => none

/-- The limits and accounts of a tracker. A missing field is read as `missing` says. -/
def asAccounts? (missing : Option (Limits × Usage)) : Document → Option (Limits × Usage)
  | .object members =>
    accountsOf? missing (member? "limits" members) (member? "allocation_count" members)
      (member? "current_memory" members)
  | .array items =>
    if items.length ≤ 3 then accountsOf? missing items[0]? items[1]? items[2]? else none
  | _ => none

/-- A lenient tracker; a missing field is empty. -/
def asLenient? (d : Document) : Option Tracker :=
  (d.asAccounts? (some (Limits.none, Usage.zero))).map fun p => .lenient p.1 p.2

/-- A strict tracker; no field may be missing. -/
def asStrict? (d : Document) : Option Tracker :=
  (d.asAccounts? none).map fun p => .strict p.1 p.2

/-- A kind, by its exact name: the name alone, or an object whose only member has that name and
    is null. -/
def asKind? : Document → Option Kind
  | .string text => Kind.ofName? text
  | .object [(name, .null)] => Kind.ofName? name
  | _ => none

end Document

end ValueHeap
