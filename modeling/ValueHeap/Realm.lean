import ValueHeap.Arena.Copy

/-!
# Arenas that share one supply of identities

Every new arena and every reset takes the next identity, so no two arenas of a realm share one, and
an arena has another after a reset. The supply starts over after `2 ^ 32` identities.
-/

namespace ValueHeap

/-- Some arenas, and the supply of identities. -/
structure Realm where
  arenas : Array Arena
  /-- How many identities have been taken. -/
  taken : Nat

namespace Realm

/-- No arenas, and no identity taken. -/
def empty : Realm := ⟨#[], 0⟩

/-- The identity that is issued next; identities count from one, in 32 bits. -/
def nextId (r : Realm) : ArenaId := ⟨UInt32.ofNat (r.taken + 1)⟩

/-- Adds an empty arena, at the next index. -/
def addArena (r : Realm) (tracker : Tracker) (tracer : Tracer) : Realm :=
  { arenas := r.arenas.push (.empty r.nextId tracker tracer), taken := r.taken + 1 }

/-- Puts an arena in the place of one of the realm's. -/
def setArena (r : Realm) (i : Nat) (a : Arena) : Realm :=
  { r with arenas := r.arenas.setIfInBounds i a }

/-- Resets an arena, under a new identity. -/
def resetArena (r : Realm) (i : Nat) (tracker : Tracker) : Realm :=
  { arenas := r.arenas.modify i (fun a => a.reset r.nextId tracker), taken := r.taken + 1 }

/-- The arena that has an identity now. -/
def withId? (r : Realm) (id : ArenaId) : Option Arena := r.arenas.find? (fun a => a.id == id)

end Realm

end ValueHeap
