import ValueHeap.Kind
import ValueHeap.Handle

/-!
# Traces of an arena's life

An arena tells its tracer of every slot filled, released and freed and of every collection and
copy. A tracer keeps the events (`recording`), holds them until they are written out one line
each (`printing`), or ignores them (`silent`).
-/

namespace ValueHeap

/-- One event in the life of an arena. -/
inductive Event
  /-- A slot was filled. -/
  | allocate (slot : Slot) (kind : Kind)
  /-- A reference was given back, leaving `count` of them. -/
  | release (slot : Slot) (count : Nat)
  /-- A slot was emptied. -/
  | free (slot : Slot) (kind : Kind)
  /-- A collection ended. -/
  | collect (freed live : Nat)
  /-- A copy of `slots` values was finished; `crossing` if it came from another arena. -/
  | duplicate (slots : Nat) (crossing : Bool)
  deriving DecidableEq, Repr

/-- A number in decimal, followed by blanks up to a width. -/
def padded (width n : Nat) : String :=
  let digits := toString n
  digits ++ String.ofList (List.replicate (width - digits.length) ' ')

/-- The line that reports an event. -/
def Event.line : Event → String
  | allocate slot kind => "[arena] alloc    slot=" ++ padded 5 slot ++ " " ++ kind.name
  | release slot count =>
    "[arena] release  slot=" ++ padded 5 slot ++ " refcount=" ++ toString count
  | free slot kind => "[arena] free     slot=" ++ padded 5 slot ++ " " ++ kind.name
  | collect freed live => "[arena] collect  freed=" ++ padded 4 freed ++ " live=" ++ toString live
  | duplicate slots crossing =>
    "[arena] copy     slots=" ++ padded 4 slots ++ " " ++
      (if crossing then "cross-arena" else "same-arena")

/-- What becomes of the events of an arena. -/
inductive Tracer
  | silent
  | recording (events : Array Event)
  /-- The events whose lines have not been written out yet. -/
  | printing (pending : Array Event)

namespace Tracer

def note : Tracer → Event → Tracer
  | silent, _ => silent
  | recording events, e => recording (events.push e)
  | printing pending, e => printing (pending.push e)

/-- The events recorded so far, oldest first. -/
def events? : Tracer → Option (Array Event)
  | recording events => some events
  | _ => none

/-- The tracer without the events recorded so far. -/
def cleared : Tracer → Tracer
  | recording _ => recording #[]
  | other => other

/-- The lines to write out, and the tracer without them. -/
def drain : Tracer → List String × Tracer
  | printing pending => (pending.toList.map Event.line, printing #[])
  | other => ([], other)

end Tracer

end ValueHeap
