/-!
# Floating-point numbers, by their bits

A `Double` is the 64 bits of an IEEE 754 number. Values are stored, compared and classified, and
whole numbers are rounded to them; no other arithmetic is needed, so everything here is exact
arithmetic on natural numbers.

* `Double.ofInt` rounds a whole number to the nearest double, a tie to the even significand;
* `Double.ieeeEq` is numerical equality: the two zeros are equal, a NaN equals nothing.
-/

namespace ValueHeap

/-- A quotient rounded to the nearest natural number, a tie to the even one. -/
def divNearestEven (m d : Nat) : Nat :=
  let q := m / d
  let r := m % d
  if d < 2 * r ∨ (2 * r = d ∧ q % 2 = 1) then q + 1 else q

/-- An IEEE 754 double. -/
structure Double where
  bits : UInt64
  deriving DecidableEq, Repr, Inhabited

namespace Double

/-- The eleven bits of the biased exponent. -/
def exponent (x : Double) : Nat := x.bits.toNat >>> 52 % (1 <<< 11)

/-- The fifty-two bits of the fraction. -/
def fraction (x : Double) : Nat := x.bits.toNat % (1 <<< 52)

/-- Infinities and NaNs have the largest exponent; all else is finite. -/
def isFinite (x : Double) : Bool := x.exponent != 2047

def isNaN (x : Double) : Bool := x.exponent == 2047 && x.fraction != 0

/-- Both zeros: every bit but the sign is clear. -/
def isZero (x : Double) : Bool := x.bits.toNat % (1 <<< 63) == 0

/-- Numerical equality: zeros of either sign are equal, a NaN equals nothing, itself included. -/
def ieeeEq (x y : Double) : Bool :=
  !x.isNaN && !y.isNaN && (x == y || (x.isZero && y.isZero))

/-- The fifty-three leading bits of a positive number, rounded when there are more. -/
def significand (m : Nat) : Nat :=
  if m.log2 ≤ 52 then m <<< (52 - m.log2) else divNearestEven m (1 <<< (m.log2 - 52))

/-- The bits of the double nearest to a natural number. A significand rounded up to `2 ^ 53`
    carries into the exponent; beyond the largest double lies infinity. -/
def natBits (m : Nat) : Nat :=
  if m = 0 then 0 else min ((m.log2 + 1022) <<< 52 + significand m) (2047 <<< 52)

/-- The double nearest to a whole number. -/
def ofInt (n : Int) : Double :=
  ⟨UInt64.ofNat (natBits n.natAbs + if n < 0 then 1 <<< 63 else 0)⟩

end Double

end ValueHeap
