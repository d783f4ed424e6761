import Mathlib.Algebra.Order.Ring.Int
import ValueHeap.Double

/-!
# Whole numbers as doubles

`Double.ofInt` is the nearest double in the literal sense: no finite double has a smaller distance
to the whole number. Doubles are compared exactly, as whole multiples of the smallest positive one.

The doubles of a binade are the multiples of one power of two, and rounding takes the nearest of
these (`significand_nearest`). A double outside lies on the grid as well, or below the binade,
where the lower end of the binade is closer.

* **`ofInt_isNearest`**: the double of a 64-bit whole number is finite and nearest to it.
-/

namespace ValueHeap

/-- Among the multiples of `d`, the rounded quotient gives one nearest to `m`. -/
theorem divNearestEven_nearest (m : Nat) {d : Nat} (hd : 0 < d) (z : Int) :
    ((divNearestEven m d : Int) * d - m).natAbs ≤ (z * d - m).natAbs := by
  have hm : (m : Int) = (m / d : Nat) * d + (m % d : Nat) := by
    exact_mod_cast (Nat.div_add_mod' m d).symm
  have hr := Nat.mod_lt m hd
  unfold divNearestEven
  generalize m / d = q at hm ⊢
  generalize m % d = r at hm hr ⊢
  -- the distance depends on how far `z` is from the quotient that was rounded down
  have hz : z * d - m = (z - q) * d - r := by rw [hm, Int.sub_mul]; omega
  have hup : ((q + 1 : Nat) : Int) * d - m = d - r := by
    rw [hm, Int.natCast_add, Int.add_mul]
    omega
  have hdown : (q : Int) * d - m = -r := by rw [hm]; omega
  have hfar : (z - q) * d ≤ 0 ∨ (d : Int) ≤ (z - q) * d := by
    by_cases h : z - q ≤ 0
    · exact .inl (Int.mul_nonpos_of_nonpos_of_nonneg h (Int.natCast_nonneg d))
    · exact .inr (le_mul_of_one_le_left (Int.natCast_nonneg d) (by omega))
  rw [hz]
  generalize (z - q) * d = t at hfar
  simp only
  split
  · rw [hup]
    omega
  · rw [hdown]
    omega

namespace Double

/-! ## 1. The value of a double -/

/-- The smallest positive double is two to the power of minus this. -/
@[irreducible] def leastExponent : Nat := 1074

/-- How many of the smallest positive doubles make up one. -/
def scale : Nat := 2 ^ leastExponent

/-- How many of the smallest positive doubles make up the magnitude of a finite double. -/
def units (x : Double) : Nat :=
  if x.exponent = 0 then x.fraction else (2 ^ 52 + x.fraction) * 2 ^ (x.exponent - 1)

/-- A finite double as a multiple of the smallest positive one. -/
def scaled (x : Double) : Int := if 2 ^ 63 ≤ x.bits.toNat then -(x.units : Int) else x.units

/-- Finite, and no finite double is closer to the whole number. -/
def IsNearest (x : Double) (n : Int) : Prop :=
  x.isFinite ∧ ∀ y : Double, y.isFinite →
    (x.scaled - n * scale).natAbs ≤ (y.scaled - n * scale).natAbs

/-- The magnitude of a double is a multiple of a power of two, by fifty-three bits. -/
theorem units_eq (x : Double) : ∃ t e, t < 2 ^ 53 ∧ x.units = t * 2 ^ e := by
  have hf : x.fraction < 2 ^ 52 := by
    unfold fraction
    exact Nat.mod_lt _ (by decide)
  unfold units
  split
  · exact ⟨x.fraction, 0, by omega, by rw [pow_zero, Nat.mul_one]⟩
  · exact ⟨2 ^ 52 + x.fraction, x.exponent - 1, by omega, rfl⟩

/-! ## 2. The double of a natural number -/

variable {m : Nat}

theorem significand_le (m : Nat) : significand m ≤ 2 ^ 53 := by
  unfold significand
  have hlt : m < 2 ^ (m.log2 + 1) := Nat.lt_log2_self
  split
  · rename_i h
    rw [Nat.shiftLeft_eq]
    calc m * 2 ^ (52 - m.log2) ≤ 2 ^ (m.log2 + 1) * 2 ^ (52 - m.log2) :=
          Nat.mul_le_mul_right _ (Nat.le_of_lt hlt)
      _ = 2 ^ 53 := by
          rw [← pow_add]
          congr 1
          omega
  · rename_i h
    have hd : 1 <<< (m.log2 - 52) = 2 ^ (m.log2 - 52) := by rw [Nat.shiftLeft_eq, Nat.one_mul]
    have hq : m / 2 ^ (m.log2 - 52) < 2 ^ 53 := by
      rw [Nat.div_lt_iff_lt_mul (Nat.two_pow_pos _), ← pow_add]
      have : 53 + (m.log2 - 52) = m.log2 + 1 := by omega
      rwa [this]
    unfold divNearestEven
    rw [hd]
    simp only
    split <;> omega

theorem le_significand (h : m ≠ 0) : 2 ^ 52 ≤ significand m := by
  unfold significand
  have hle : 2 ^ m.log2 ≤ m := Nat.log2_self_le h
  split
  · rename_i hl
    rw [Nat.shiftLeft_eq]
    calc 2 ^ 52 = 2 ^ m.log2 * 2 ^ (52 - m.log2) := by
          rw [← pow_add]
          congr 1
          omega
      _ ≤ m * 2 ^ (52 - m.log2) := Nat.mul_le_mul_right _ hle
  · rename_i hl
    have hd : 1 <<< (m.log2 - 52) = 2 ^ (m.log2 - 52) := by rw [Nat.shiftLeft_eq, Nat.one_mul]
    have hq : 2 ^ 52 ≤ m / 2 ^ (m.log2 - 52) := by
      rw [Nat.le_div_iff_mul_le (Nat.two_pow_pos _), ← pow_add]
      have : 52 + (m.log2 - 52) = m.log2 := by omega
      rwa [this]
    unfold divNearestEven
    rw [hd]
    simp only
    split <;> omega

/-- Below `2 ^ 65` no rounding reaches infinity. -/
theorem natBits_eq (h0 : m ≠ 0) (h : m < 2 ^ 65) :
    natBits m = (m.log2 + 1022) * 2 ^ 52 + significand m ∧ m.log2 < 65 := by
  have hl : m.log2 < 65 := (Nat.log2_lt h0).mpr h
  have hs := significand_le m
  refine ⟨?_, hl⟩
  unfold natBits
  rw [if_neg h0, Nat.shiftLeft_eq, Nat.shiftLeft_eq]
  omega

theorem natBits_lt (h : m < 2 ^ 65) : natBits m < 2047 * 2 ^ 52 := by
  by_cases h0 : m = 0
  · rw [h0]
    decide
  · obtain ⟨e, hl⟩ := natBits_eq h0 h
    have hs := significand_le m
    omega

/-- The double nearest to a whole number of 64 bits is finite. -/
theorem isFinite_ofInt {n : Int} (h : n.natAbs < 2 ^ 65) : (ofInt n).isFinite := by
  have hb := natBits_lt h
  unfold isFinite exponent ofInt
  rw [bne_iff_ne]
  simp only [UInt64.toNat_ofNat', Nat.shiftLeft_eq, Nat.shiftRight_eq_div_pow]
  split <;> omega

/-- The magnitude of the double, by the significand. -/
theorem units_ofInt {n : Int} (h0 : n.natAbs ≠ 0) (h : n.natAbs < 2 ^ 65) :
    (ofInt n).units = significand n.natAbs * 2 ^ (n.natAbs.log2 + 1022) := by
  obtain ⟨e, hl⟩ := natBits_eq h0 h
  have hs := significand_le n.natAbs
  have hs' := le_significand h0
  have hbits : (ofInt n).bits.toNat % 2 ^ 63 = natBits n.natAbs := by
    unfold ofInt
    simp only [UInt64.toNat_ofNat', Nat.shiftLeft_eq]
    split <;> omega
  have hexp : (ofInt n).exponent = natBits n.natAbs / 2 ^ 52 := by
    unfold exponent
    simp only [Nat.shiftLeft_eq, Nat.shiftRight_eq_div_pow]
    omega
  have hfrac : (ofInt n).fraction = natBits n.natAbs % 2 ^ 52 := by
    unfold fraction
    simp only [Nat.shiftLeft_eq]
    omega
  unfold units
  rw [hexp, hfrac, e]
  -- a significand rounded up to the next power of two carries into the exponent
  by_cases hc : significand n.natAbs = 2 ^ 53
  · rw [hc, if_neg (by omega)]
    have h1 : ((n.natAbs.log2 + 1022) * 2 ^ 52 + 2 ^ 53) / 2 ^ 52 - 1 = n.natAbs.log2 + 1022 + 1 :=
      by omega
    have h2 : ((n.natAbs.log2 + 1022) * 2 ^ 52 + 2 ^ 53) % 2 ^ 52 = 0 := by omega
    rw [h1, h2, pow_succ]
    omega
  · rw [if_neg (by omega)]
    have h1 : ((n.natAbs.log2 + 1022) * 2 ^ 52 + significand n.natAbs) / 2 ^ 52 - 1 =
        n.natAbs.log2 + 1022 := by omega
    have h2 : 2 ^ 52 + ((n.natAbs.log2 + 1022) * 2 ^ 52 + significand n.natAbs) % 2 ^ 52 =
        significand n.natAbs := by omega
    rw [h1, h2]

/-! ## 3. Nearest -/

theorem two_pow_mul_scale {e f : Nat} (h : e + 1074 = f) : 2 ^ e * scale = 2 ^ f := by
  have hd : leastExponent = 1074 := by rw [leastExponent]
  rw [scale, ← pow_add, hd, h]

theorem two_pow_eq_scale {e : Nat} (h : e = 1074) : 2 ^ e = scale := by
  rw [scale, leastExponent, h]

/-- On the grid of the binade, the rounded number is nearest. -/
theorem significand_nearest (m : Nat) (z : Int) :
    ((significand m : Int) * (2 ^ (m.log2 + 1022) : Nat) - m * scale).natAbs ≤
      (z * (2 ^ (m.log2 + 1022) : Nat) - m * scale).natAbs := by
  unfold significand
  split
  · rename_i h
    have e : (m <<< (52 - m.log2)) * 2 ^ (m.log2 + 1022) = m * scale := by
      rw [Nat.shiftLeft_eq, Nat.mul_assoc, ← pow_add, two_pow_eq_scale (by omega)]
    have e' : ((m <<< (52 - m.log2) : Nat) : Int) * (2 ^ (m.log2 + 1022) : Nat) = m * scale := by
      exact_mod_cast e
    rw [e', Int.sub_self]
    exact Nat.zero_le _
  · rename_i h
    have hd : 1 <<< (m.log2 - 52) = 2 ^ (m.log2 - 52) := by rw [Nat.shiftLeft_eq, Nat.one_mul]
    have hp : 2 ^ (m.log2 + 1022) = 2 ^ (m.log2 - 52) * scale :=
      (two_pow_mul_scale (by omega)).symm
    rw [hd, hp, Int.natCast_mul, ← Int.mul_assoc, ← Int.mul_assoc, ← Int.sub_mul, ← Int.sub_mul,
      Int.natAbs_mul, Int.natAbs_mul]
    have hpos : 0 < 2 ^ (m.log2 - 52) := Nat.two_pow_pos _
    exact Nat.mul_le_mul_right _ (divNearestEven_nearest m hpos z)

/-- No multiple that is a finite double is closer, whatever its sign. -/
theorem significand_nearest_units (h0 : m ≠ 0) (y : Double) {k : Int} (hk : k.natAbs = y.units) :
    ((significand m : Int) * (2 ^ (m.log2 + 1022) : Nat) - m * scale).natAbs ≤
      (k - m * scale).natAbs := by
  obtain ⟨t, e, ht, hu⟩ := units_eq y
  have hbase : 2 ^ 52 * 2 ^ (m.log2 + 1022) = 2 ^ m.log2 * scale := by
    rw [← pow_add]
    exact (two_pow_mul_scale (by omega)).symm
  by_cases hle : ((2 ^ m.log2 * scale : Nat) : Int) ≤ k
  · -- at or above the lower end of the binade, so on the grid
    have hlt : 2 ^ 52 * 2 ^ (m.log2 + 1022) < 2 ^ 53 * 2 ^ e := by
      calc 2 ^ 52 * 2 ^ (m.log2 + 1022) ≤ t * 2 ^ e := by omega
        _ < 2 ^ 53 * 2 ^ e := Nat.mul_lt_mul_of_pos_right ht (Nat.two_pow_pos e)
    rw [← pow_add, ← pow_add] at hlt
    have he : m.log2 + 1022 ≤ e := by
      have := (Nat.pow_lt_pow_iff_right (by decide : 1 < 2)).mp hlt
      omega
    have hk' : k = (t * 2 ^ (e - (m.log2 + 1022)) : Nat) * (2 ^ (m.log2 + 1022) : Nat) := by
      have : t * 2 ^ (e - (m.log2 + 1022)) * 2 ^ (m.log2 + 1022) = t * 2 ^ e := by
        rw [Nat.mul_assoc, ← pow_add, Nat.sub_add_cancel he]
      rw [← Int.natCast_mul, this]
      omega
    rw [hk']
    exact significand_nearest m _
  · -- below it, where the lower end itself is closer
    have hnear := significand_nearest m (2 ^ 52 : Nat)
    rw [← Int.natCast_mul (2 ^ 52), hbase] at hnear
    have hm : 2 ^ m.log2 * scale ≤ m * scale := Nat.mul_le_mul_right _ (Nat.log2_self_le h0)
    have hcast : (m : Int) * scale = (m * scale : Nat) := (Int.natCast_mul _ _).symm
    rw [hcast] at hnear ⊢
    omega

/-- **The double of a 64-bit whole number is finite, and no finite double is closer to it.** -/
theorem ofInt_isNearest {n : Int} (h : n.natAbs < 2 ^ 65) : (ofInt n).IsNearest n := by
  refine ⟨isFinite_ofInt h, fun y _ => ?_⟩
  by_cases h0 : n.natAbs = 0
  · have hz : (ofInt n).scaled = 0 := by
      rw [Int.natAbs_eq_zero.mp h0]
      rfl
    rw [hz, Int.natAbs_eq_zero.mp h0]
    omega
  · have hu := units_ofInt h0 h
    have hsign : (2 ^ 63 ≤ (ofInt n).bits.toNat) ↔ n < 0 := by
      have hb := natBits_lt h
      unfold ofInt
      simp only [UInt64.toNat_ofNat', Nat.shiftLeft_eq]
      split <;> omega
    have habs : ∀ y : Double, y.scaled.natAbs = y.units := fun y => by
      unfold scaled
      split <;> omega
    have hnear : ∀ k : Int, k.natAbs = y.units →
        (((ofInt n).units : Int) - n.natAbs * scale).natAbs ≤ (k - n.natAbs * scale).natAbs := by
      intro k hk
      rw [hu, Int.natCast_mul]
      exact significand_nearest_units h0 y hk
    by_cases hn : n < 0
    · have hx : (ofInt n).scaled = -((ofInt n).units : Int) := if_pos (hsign.mpr hn)
      have hk := hnear (-y.scaled) (by rw [Int.natAbs_neg, habs])
      have hmul : n * scale = -(n.natAbs * scale) := by
        rw [← Int.neg_mul]
        congr 1
        omega
      rw [hx, hmul]
      omega
    · have hx : (ofInt n).scaled = (ofInt n).units := if_neg fun h => hn (hsign.mp h)
      have hk := hnear y.scaled (habs y)
      rw [hx]
      rwa [Int.natAbs_of_nonneg (Int.not_lt.mp hn)] at hk

end Double

end ValueHeap
