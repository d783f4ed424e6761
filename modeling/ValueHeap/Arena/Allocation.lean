import ValueHeap.Arena.Basic

/-!
# Filling and emptying slots, with the accounts and the trace

`allocate` and `free?` are the only two ways in which a slot is filled and emptied: both keep the
tracker's accounts and tell the tracer. An operation that may fail answers with an `Outcome`: its
answer, and the arena it leaves in any case.

* `live_free?`: emptying a slot leaves one live slot less, which bounds every collection.
-/

namespace ValueHeap

namespace Arena

/-! ## 1. Outcomes -/

/-- What an operation answers, and the arena it leaves. -/
structure Outcome (α : Type) where
  answer : Except Failure α
  arena : Arena

namespace Outcome

def ok {α : Type} (x : α) (a : Arena) : Outcome α := ⟨.ok x, a⟩

def error {α : Type} (e : HeapError) (a : Arena) : Outcome α := ⟨.error (.error e), a⟩

def fault {α : Type} (f : Fault) (a : Arena) : Outcome α := ⟨.error (.fault f), a⟩

/-- Goes on with the result, if there is one. -/
def andThen {α β : Type} (r : Outcome α) (next : α → Arena → Outcome β) : Outcome β :=
  match r.answer with
  | .ok x => next x r.arena
  | .error e => ⟨.error e, r.arena⟩

/-- Cleans up after an error. After a fault nothing is cleaned up. -/
def onError {α : Type} (r : Outcome α) (clean : Arena → Arena) : Outcome α :=
  match r.answer with
  | .error (.error _) => { r with arena := clean r.arena }
  | _ => r

/-- The outcome of an operation that only reads. -/
def ofAnswer {α : Type} (x : Except HeapError α) (a : Arena) : Outcome α :=
  match x with
  | .ok x => ok x a
  | .error e => error e a

@[simp] theorem andThen_ok {α β : Type} (x : α) (a : Arena) (next : α → Arena → Outcome β) :
    (ok x a).andThen next = next x a := rfl

@[simp] theorem andThen_error {α β : Type} (e : HeapError) (a : Arena)
    (next : α → Arena → Outcome β) : (error e a).andThen next = error e a := rfl

end Outcome

/-! ## 2. Slots -/

/-- The arena with one more container counted, if the kind is one. The count starts over at the end
    of its range. -/
def countBuilt (a : Arena) (k : Kind) : Arena :=
  { a with containersBuilt := a.containersBuilt + if k.holdsReferences then 1 else 0 }

/-- Fills a slot with a payload and a first count, if the tracker accepts. A refusal stores
    nothing and is nowhere noted. -/
def allocate (a : Arena) (p : Payload) (count : Nat) : Outcome Slot :=
  let charged := { a with tracker := (a.tracker.charge p.footprint).2 }
  match (a.tracker.charge p.footprint).1 with
  | .refused why => .error (.resource why) charged
  | .overflowed => .fault .counterOverflow charged
  | .accepted =>
    .ok a.nextSlot
      (((charged.countBuilt p.kind).fill ⟨count, p⟩).note (.allocate a.nextSlot p.kind))

/-- Empties a slot and answers what it held. The references that the payload holds are not given
    back here. -/
def free? (a : Arena) (i : Slot) : Option (Payload × Arena) :=
  match a.occupant? i with
  | none => none
  | some o =>
    let refunded := { a with tracker := a.tracker.refund o.payload.footprint }
    some (o.payload, (refunded.vacate i).note (.free i o.payload.kind))

theorem live_free? {a b : Arena} {i : Slot} {p : Payload} (h : a.free? i = some (p, b)) :
    b.live + 1 = a.live := by
  unfold free? at h
  split at h
  · cases h
  · rename_i o ho
    cases h
    exact live_vacate a i (by simp [ho])

theorem live_unlink (a : Arena) (i : Slot) : (a.unlink i).live = a.live := by
  unfold unlink
  split
  · exact live_update a i _
  · rfl

end Arena

end ValueHeap
