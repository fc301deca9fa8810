import Mathlib.Algebra.Order.Field.Power
import Mathlib.Data.Nat.Size
import Mathlib.Data.Rat.Floor
import Mathlib.Tactic.FieldSimp
import Mathlib.Tactic.Linarith
import Mathlib.Tactic.Positivity
import Mathlib.Tactic.Ring

/-!
# Products of doubles with whole numbers

A binary64 number is a whole number of 53 bits times a power of two. Its product
with a whole number is rounded to 53 bits again, to the nearest, ties to even.
-/

namespace BinaryFloats

set_option autoImplicit false

/-- A binary64 number of magnitude at most `2 ^ 1023`. -/
structure Double where
  mantissa : Int
  exponent : Int
  precise : mantissa.natAbs ≤ 2 ^ 53
  deep : -1074 ≤ exponent
  finite : exponent ≤ 970

def Double.value (number : Double) : ℚ := number.mantissa * 2 ^ number.exponent

/-- `whole / 2 ^ shift` rounded to the nearest whole number, ties to even. -/
def halfEven (whole shift : Nat) : Nat :=
  let kept := whole / 2 ^ shift
  let dropped := whole % 2 ^ shift
  if 2 * dropped < 2 ^ shift ∨ 2 * dropped = 2 ^ shift ∧ kept % 2 = 0 then kept else kept + 1

def excessBits (whole : Nat) : Nat := whole.size - 53

/-- Toward zero. -/
def Double.truncate (number : Double) : Int :=
  if 0 ≤ number.exponent then number.mantissa * 2 ^ number.exponent.toNat
  else number.mantissa.tdiv (2 ^ (-number.exponent).toNat)

/-! ## Rounding -/

theorem half_even_near (whole shift : Nat) :
    2 * |((halfEven whole shift * 2 ^ shift : Nat) : Int) - whole| ≤ (2 ^ shift : Nat) := by
  have split := Nat.div_add_mod whole (2 ^ shift)
  have rest := Nat.mod_lt whole (Nat.two_pow_pos shift)
  unfold halfEven
  generalize whole / 2 ^ shift = kept at split ⊢
  generalize whole % 2 ^ shift = dropped at split rest ⊢
  generalize 2 ^ shift = unit at split rest ⊢
  rw [Nat.mul_comm] at split
  dsimp only
  split
  case isTrue down =>
      have error : ((kept * unit : Nat) : Int) - whole = -dropped := by omega
      rw [error, abs_neg, abs_of_nonneg (by omega)]
      omega
  case isFalse up =>
      have error : (((kept + 1) * unit : Nat) : Int) - whole = unit - dropped := by
        rw [Nat.add_mul, Nat.one_mul]
        omega
      rw [error, abs_of_nonneg (by omega)]
      omega

theorem half_even_zero (whole : Nat) : halfEven whole 0 = whole := by
  simp [halfEven, Nat.mod_one]

theorem half_even_precise (whole : Nat) : halfEven whole (excessBits whole) ≤ 2 ^ 53 := by
  have kept : whole / 2 ^ excessBits whole < 2 ^ 53 := by
    rw [Nat.div_lt_iff_lt_mul (Nat.two_pow_pos _), ← Nat.pow_add]
    apply Nat.lt_of_lt_of_le (Nat.lt_size_self whole)
    apply Nat.pow_le_pow_right (by omega)
    unfold excessBits
    omega
  unfold halfEven
  dsimp only
  split <;> omega

theorem unit_small (whole : Nat) (excess : excessBits whole ≠ 0) :
    2 ^ excessBits whole * 2 ^ 52 ≤ whole := by
  have size : 53 < whole.size := by
    unfold excessBits at excess
    omega
  rw [← Nat.pow_add]
  apply Nat.lt_size.mp
  unfold excessBits
  omega

theorem rounded_near (whole : Nat) :
    2 ^ 53 * |((halfEven whole (excessBits whole) * 2 ^ excessBits whole : Nat) : Int) - whole| ≤
      whole := by
  by_cases excess : excessBits whole = 0
  · rw [excess, half_even_zero, Nat.pow_zero, Nat.mul_one, sub_self, abs_zero]
    omega
  · have near := half_even_near whole (excessBits whole)
    have small := unit_small whole excess
    omega

/-! ## Products -/

/-- The product without its sign, in units of `2 ^ number.exponent`. -/
def Double.product (number : Double) (factor : Nat) : Nat := number.mantissa.natAbs * factor

theorem sign_small (whole : Int) : whole.sign.natAbs ≤ 1 := by
  rw [Int.natAbs_sign]
  split <;> omega

/-- `number * factor`, for factors and numbers whose product does not overflow. -/
def Double.times (number : Double) (factor : Nat) (small : factor ≤ 2 ^ 30)
    (room : number.exponent ≤ 939) : Double where
  mantissa := number.mantissa.sign *
    halfEven (number.product factor) (excessBits (number.product factor))
  exponent := number.exponent + excessBits (number.product factor)
  precise := by
    rw [Int.natAbs_mul, Int.natAbs_natCast]
    exact (Nat.mul_le_mul (sign_small _) (half_even_precise _)).trans_eq (Nat.one_mul _)
  deep := by
    have := number.deep
    omega
  finite := by
    have bounded : number.product factor ≤ 2 ^ 53 * 2 ^ 30 :=
      Nat.mul_le_mul number.precise small
    have size : (number.product factor).size ≤ 84 := by
      rw [Nat.size_le]
      omega
    unfold excessBits
    omega

section Near

variable (number : Double)

theorem exact_product (factor : Nat) : number.value * factor =
    number.mantissa.sign * number.product factor * 2 ^ number.exponent := by
  have signed : (number.mantissa.sign : ℚ) * number.mantissa.natAbs = number.mantissa := by
    rw [← Int.cast_natCast number.mantissa.natAbs, ← Int.cast_mul, Int.sign_mul_natAbs]
  calc number.value * factor
      = number.mantissa * factor * 2 ^ number.exponent := by
        rw [Double.value]
        ring
    _ = number.mantissa.sign * (number.mantissa.natAbs * factor) * 2 ^ number.exponent := by
        rw [← mul_assoc, signed]
    _ = _ := by rw [Double.product, Nat.cast_mul]

theorem product_magnitude (factor : Nat) :
    number.product factor * 2 ^ number.exponent = |number.value * factor| := by
  have scale : (0 : ℚ) < 2 ^ number.exponent := by positivity
  rw [Double.value, abs_mul, abs_mul, abs_of_pos scale, Nat.abs_cast, Double.product, Nat.cast_mul,
    Nat.cast_natAbs, Int.cast_abs]
  ring

/-- Within half a unit of the last of 53 bits. -/
theorem times_near (factor : Nat) (small : factor ≤ 2 ^ 30) (room : number.exponent ≤ 939) :
    |(number.times factor small room).value - number.value * factor| ≤
      |number.value * factor| / 2 ^ 53 := by
  have near : 2 ^ 53 * |(halfEven (number.product factor) (excessBits (number.product factor)) *
      2 ^ excessBits (number.product factor) : ℚ) - number.product factor| ≤
        number.product factor := by
    exact_mod_cast rounded_near (number.product factor)
  have signed : |(number.mantissa.sign : ℚ)| ≤ 1 := by
    have bounded : |number.mantissa.sign| ≤ 1 := by
      rw [Int.abs_eq_natAbs]
      exact_mod_cast sign_small number.mantissa
    exact_mod_cast bounded
  have error : (number.times factor small room).value - number.value * factor =
      number.mantissa.sign *
        (halfEven (number.product factor) (excessBits (number.product factor)) *
          2 ^ excessBits (number.product factor) - number.product factor) *
            2 ^ number.exponent := by
    rw [exact_product, Double.value, Double.times, zpow_add₀ (by norm_num), zpow_natCast]
    push_cast
    ring
  rw [error, ← product_magnitude, abs_mul, abs_mul,
    abs_of_pos (by positivity : (0 : ℚ) < 2 ^ number.exponent), mul_div_right_comm]
  gcongr
  refine (mul_le_of_le_one_left (abs_nonneg _) signed).trans ?_
  rwa [le_div_iff₀' (by positivity)]

theorem truncate_near : |(number.truncate : ℚ) - number.value| < 1 := by
  unfold Double.truncate Double.value
  split
  case isTrue up =>
      obtain ⟨power, same⟩ := Int.eq_ofNat_of_zero_le up
      rw [same]
      simp
  case isFalse down =>
      obtain ⟨power, same⟩ := Int.eq_ofNat_of_zero_le (by omega : 0 ≤ -number.exponent)
      have exponent : number.exponent = -(power : Int) := by omega
      rw [same, exponent, zpow_neg, zpow_natCast, Int.toNat_natCast, ← div_eq_mul_inv]
      have unit : (0 : ℚ) < 2 ^ power := by positivity
      have whole : ((number.mantissa.tdiv (2 ^ power) : Int) : ℚ) * 2 ^ power +
          (number.mantissa.tmod (2 ^ power) : Int) = number.mantissa := by
        exact_mod_cast Int.tdiv_mul_add_tmod number.mantissa (2 ^ power)
      have rest : |((number.mantissa.tmod (2 ^ power) : Int) : ℚ)| < 2 ^ power := by
        have bounded : |number.mantissa.tmod (2 ^ power)| < 2 ^ power := by
          rw [Int.abs_eq_natAbs, Int.natAbs_tmod]
          exact_mod_cast Nat.mod_lt _ (by positivity)
        exact_mod_cast bounded
      have error : ((number.mantissa.tdiv (2 ^ power) : Int) : ℚ) - number.mantissa / 2 ^ power =
          -((number.mantissa.tmod (2 ^ power) : Int) : ℚ) / 2 ^ power := by
        rw [← whole]
        field_simp
        ring
      rw [error, abs_div, abs_neg, abs_of_pos unit, div_lt_one unit]
      exact rest

/-- The whole number taken from a product. -/
theorem truncated_product_near (factor : Nat) (small : factor ≤ 2 ^ 30)
    (room : number.exponent ≤ 939) :
    |((number.times factor small room).truncate : ℚ) - number.value * factor| <
      1 + |number.value * factor| / 2 ^ 53 :=
  (abs_sub_le _ (number.times factor small room).value _).trans_lt
    (add_lt_add_of_lt_of_le (truncate_near _) (times_near number factor small room))

end Near

/-- The product of 1.001 stays below the whole number. -/
example : (Double.times ⟨4508103226997866, -52, by decide, by decide, by decide⟩ 1000000000
    (by decide) (by decide)).truncate = 1000999999 := by decide +kernel

end BinaryFloats
