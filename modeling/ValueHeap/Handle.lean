/-!
# Slots, arenas' identities and handles

A slot is a place in one arena. A handle names a slot together with the arena that issued it and
the generation of the slot's occupant, so a handle to an earlier occupant is told apart from one
to the present occupant.
-/

namespace ValueHeap

/-- The number of a slot in its arena. -/
abbrev Slot := Nat

/-- The identity of an arena. -/
structure ArenaId where
  number : UInt32
  deriving DecidableEq, Repr, Inhabited

namespace ArenaId

def render (id : ArenaId) : String := s!"arena#{id.number.toNat}"

end ArenaId

/-- A reference to the value in a slot, as code outside the arena holds it. -/
structure Handle where
  arena : ArenaId
  slot : Slot
  generation : UInt32
  deriving DecidableEq, Repr, Inhabited

end ValueHeap
