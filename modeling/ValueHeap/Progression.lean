/-!
# Arithmetic progressions over 32-bit integers

A progression walks `start, start + step, …` below `stop`. Its step is positive by its type, and
the walk never wraps: a position that would pass the largest integer stays there, which is at or
beyond every `stop`.
-/

namespace ValueHeap

/-- A sum, held within the 32-bit integers. -/
def addClamped (x y : Int32) : Int32 :=
  Int32.ofInt (max Int32.minValue.toInt (min Int32.maxValue.toInt (x.toInt + y.toInt)))

/-- A walk through `start, start + step, …` below `stop`, standing at `position`. -/
structure Progression where
  start : Int32
  stop : Int32
  step : Int32
  position : Int32
  step_pos : 0 < step
  deriving DecidableEq

namespace Progression

/-- The progression at its start; a step that is not positive is refused. -/
def new? (start stop step : Int32) : Option Progression :=
  if h : 0 < step then some ⟨start, stop, step, start, h⟩ else none

/-- The element the walk stands at, and the walk one step on; `none` once it has ended. -/
def next? (r : Progression) : Option (Int32 × Progression) :=
  if r.stop ≤ r.position then none
  else some (r.position, { r with position := addClamped r.position r.step })

/-- The same walk, back at its start. -/
def restarted (r : Progression) : Progression := { r with position := r.start }

end Progression

end ValueHeap
