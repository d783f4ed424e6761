/-!
# Resource limits and the accounts kept against them

A tracker is asked before each allocation and told of each freed slot. There are three:

* `unlimited` refuses nothing and keeps no account;
* `lenient` keeps only the accounts that its limits need;
* `strict` accounts for everything, and reports its accounts.

Accounts are 64-bit counters. An addition that leaves their range stops the program; `charge`
says so by the verdict `overflowed`.
-/

namespace ValueHeap

/-- Counters are 64-bit: they hold what is below this. -/
def counterRange : Nat := UInt64.size

/-- The limits of an arena, each of them optional. -/
structure Limits where
  maxAllocations : Option Nat
  maxMemory : Option Nat
  /-- After how many containers a garbage collection is suggested. -/
  gcInterval : Option Nat
  deriving DecidableEq, Repr

namespace Limits

def none : Limits := ⟨.none, .none, .none⟩

/-- The interval where none is set. -/
def defaultInterval : Nat := 100000

def interval (l : Limits) : Nat := l.gcInterval.getD defaultInterval

end Limits

/-- What has been allocated so far, and the bytes of what has not been freed. -/
structure Usage where
  allocations : Nat
  memory : Nat
  deriving DecidableEq, Repr

def Usage.zero : Usage := ⟨0, 0⟩

/-- Why an allocation is refused: the limit, and the figure that would exceed it. -/
inductive Refusal
  | allocations (limit count : Nat)
  | memory (limit used : Nat)
  deriving DecidableEq, Repr

def Refusal.message : Refusal → String
  | allocations limit count => s!"allocation limit exceeded: {count} > {limit}"
  | memory limit used => s!"memory limit exceeded: {used} bytes > {limit} bytes"

/-- The answer to a request for one more slot. -/
inductive Verdict
  | accepted
  | refused (why : Refusal)
  /-- A counter would leave its range. -/
  | overflowed
  deriving DecidableEq, Repr

/-- How an arena accounts for its slots. -/
inductive Tracker
  | unlimited
  | lenient (limits : Limits) (usage : Usage)
  | strict (limits : Limits) (usage : Usage)
  deriving DecidableEq, Repr

namespace Tracker

/-- Whether the limit on the number of allocations stands against one more. -/
def checkCount (limits : Limits) (usage : Usage) : Verdict :=
  match limits.maxAllocations with
  | some limit =>
    if limit ≤ usage.allocations then
      if usage.allocations + 1 < counterRange then
        .refused (.allocations limit (usage.allocations + 1))
      else .overflowed
    else .accepted
  | none => .accepted

/-- Whether the limit on memory stands against `size` more bytes. -/
def checkMemory (limits : Limits) (usage : Usage) (size : Nat) : Verdict :=
  match limits.maxMemory with
  | some limit =>
    if usage.memory + size < counterRange then
      if limit < usage.memory + size then .refused (.memory limit (usage.memory + size))
      else .accepted
    else .overflowed
  | none => .accepted

/-- The accounts of a lenient tracker after an accepted allocation: only what a limit needs. -/
def lenientUsage (limits : Limits) (usage : Usage) (size : Nat) : Usage :=
  { allocations := usage.allocations + (if limits.maxAllocations.isSome then 1 else 0),
    memory := usage.memory + (if limits.maxMemory.isSome then size else 0) }

/-- The accounts of a strict tracker after an accepted allocation. The count is raised before the
    memory, and stays raised where the memory overflows. -/
def strictUsage (usage : Usage) (size : Nat) : Verdict × Usage :=
  if usage.allocations + 1 < counterRange then
    if usage.memory + size < counterRange then
      (.accepted, ⟨usage.allocations + 1, usage.memory + size⟩)
    else (.overflowed, { usage with allocations := usage.allocations + 1 })
  else (.overflowed, usage)

/-- Asks for a slot of the given size. The limit on the number of allocations is consulted before
    the limit on memory; a refusal leaves the accounts as they were. -/
def charge (t : Tracker) (size : Nat) : Verdict × Tracker :=
  match t with
  | unlimited => (.accepted, unlimited)
  | lenient limits usage =>
    match checkCount limits usage with
    | .accepted =>
      match checkMemory limits usage size with
      | .accepted => (.accepted, lenient limits (lenientUsage limits usage size))
      | verdict => (verdict, t)
    | verdict => (verdict, t)
  | strict limits usage =>
    match checkCount limits usage with
    | .accepted =>
      match checkMemory limits usage size with
      | .accepted =>
        let (verdict, after) := strictUsage usage size
        (verdict, strict limits after)
      | verdict => (verdict, t)
    | verdict => (verdict, t)

/-- Gives the bytes of a freed slot back. The number of allocations never goes down. -/
def refund (t : Tracker) (size : Nat) : Tracker :=
  match t with
  | unlimited => unlimited
  | lenient limits usage =>
    if limits.maxMemory.isSome then lenient limits { usage with memory := usage.memory - size }
    else t
  | strict limits usage => strict limits { usage with memory := usage.memory - size }

/-- After how many containers a garbage collection is suggested. -/
def interval : Tracker → Nat
  | unlimited => Limits.defaultInterval
  | lenient limits _ | strict limits _ => limits.interval

/-- The accounts a tracker reports: only a strict one has them complete. -/
def reported? : Tracker → Option Usage
  | strict _ usage => some usage
  | _ => none

end Tracker

end ValueHeap
