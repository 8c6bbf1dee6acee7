import Drafting.Number.Binary64
import Mathlib.Algebra.Order.Ring.Nat
import Mathlib.Tactic.NormNum

/-!
# Rounding to the nearest number

`Binary64.nearest` depends on the value of a fraction alone, not on how the fraction is written, and
gives a number back when it is asked for that number's own value. `Binary64.nearestDecimal`, which
avoids to compute large powers, agrees with it wherever its answer is finite.
-/

namespace Drafting.Binary64

attribute [local instance (high)] instPowNat

theorem roundEven_mul (numerator denominator : Nat) {k : Nat} (hk : 0 < k) :
    roundEven (numerator * k) (denominator * k) = roundEven numerator denominator := by
  have hdouble : ∀ r : Nat, 2 * (r * k) = 2 * r * k := fun r => (Nat.mul_assoc 2 r k).symm
  simp only [roundEven, Nat.mul_div_mul_right _ _ hk, Nat.mul_mod_mul_right, hdouble,
    Nat.mul_lt_mul_right hk, Nat.mul_left_inj (Nat.pos_iff_ne_zero.1 hk)]

@[simp] theorem roundEven_one (n : Nat) : roundEven n 1 = n := by
  simp [roundEven, Nat.mod_one]

theorem nearest_mul (numerator denominator : Nat) {k : Nat} (hk : 0 < k) :
    nearest (numerator * k) (denominator * k) = nearest numerator denominator := by
  simp only [nearest, Nat.mul_div_mul_right _ _ hk]
  rw [Nat.mul_right_comm denominator k, roundEven_mul _ _ hk]

/-- Equal fractions are rounded alike. -/
theorem nearest_congr {n d n' d' : Nat} (hd : 0 < d) (hd' : 0 < d') (h : n * d' = n' * d) :
    nearest n d = nearest n' d' := by
  rw [← nearest_mul n d hd', h, Nat.mul_comm d d', nearest_mul n' d' hd]

/-- A fraction below one half is rounded to zero. -/
theorem nearest_eq_zero {numerator denominator : Nat} (h : 2 * numerator < denominator) :
    nearest numerator denominator = 0 := by
  have hquotient : numerator / denominator = 0 := Nat.div_eq_of_lt (by omega)
  have hremainder : numerator % denominator = numerator := Nat.mod_eq_of_lt (by omega)
  simp only [nearest, hquotient, Nat.log2_zero, Nat.zero_sub, Nat.zero_mul, Nat.pow_zero, Nat.mul_one,
    Nat.zero_add, roundEven, hremainder]
  rw [if_neg (by omega)]

/-- From the first binade on, a significand has 53 binary digits. -/
theorem significand_bounds {magnitude : Nat} (h : 2 ^ (52 : Nat) ≤ magnitude) :
    2 ^ (52 : Nat) ≤ magnitude - scale magnitude * 2 ^ (52 : Nat) ∧
      magnitude - scale magnitude * 2 ^ (52 : Nat) < 2 ^ (53 : Nat) := by
  simp only [scale]
  omega

theorem log2_units (magnitude : Nat) : (units magnitude).log2 - 52 = scale magnitude := by
  by_cases hsmall : magnitude < 2 ^ (52 : Nat)
  · have hscale : scale magnitude = 0 := by simp only [scale]; omega
    have hunits : units magnitude = magnitude := by simp [units, hscale]
    rw [hunits, hscale]
    by_cases hzero : magnitude = 0
    · simp [hzero]
    · have := (Nat.log2_lt hzero).2 hsmall
      omega
  · obtain ⟨hlow, hhigh⟩ := significand_bounds (Nat.not_lt.1 hsmall)
    have hpow := Nat.two_pow_pos (scale magnitude)
    have hlog : (units magnitude).log2 = 52 + scale magnitude := by
      rw [units, Nat.log2_eq_iff (Nat.mul_pos (by omega) hpow).ne']
      constructor
      · rw [Nat.pow_add]
        exact Nat.mul_le_mul_right _ hlow
      · rw [Nat.add_right_comm, Nat.pow_add]
        exact Nat.mul_lt_mul_of_pos_right hhigh hpow
    omega

/-- The value of a number is rounded to the number. -/
theorem nearest_units (magnitude : Nat) : nearest (units magnitude) 1 = magnitude := by
  have hscaled : roundEven (units magnitude) (1 * 2 ^ scale magnitude) =
      magnitude - scale magnitude * 2 ^ (52 : Nat) := by
    rw [units, roundEven_mul _ _ (Nat.two_pow_pos _), roundEven_one]
  have hle : scale magnitude * 2 ^ (52 : Nat) ≤ magnitude := by simp only [scale]; omega
  simp only [nearest, Nat.div_one, log2_units, hscaled]
  omega

/-! ## Decimals -/

theorem two_mul_lt_ten_pow (coefficient shift power : Nat)
    (h : coefficient.log2 + shift + 2 ≤ 3 * power) : 2 * (coefficient * 2 ^ shift) < 10 ^ power := by
  have hcoefficient : coefficient < 2 ^ (coefficient.log2 + 1) := Nat.lt_log2_self
  calc 2 * (coefficient * 2 ^ shift)
      = coefficient * 2 ^ (shift + 1) := by rw [Nat.pow_succ, Nat.mul_left_comm, Nat.mul_comm 2]
    _ < 2 ^ (coefficient.log2 + 1) * 2 ^ (shift + 1) :=
      Nat.mul_lt_mul_of_pos_right hcoefficient (Nat.two_pow_pos _)
    _ = 2 ^ (coefficient.log2 + 1 + (shift + 1)) := (Nat.pow_add _ _ _).symm
    _ ≤ 2 ^ (3 * power) := Nat.pow_le_pow_right (by omega) (by omega)
    _ = 8 ^ power := Nat.pow_mul 2 3 _
    _ ≤ 10 ^ power := Nat.pow_le_pow_left (by omega) _

theorem nearestDecimal_negSucc (coefficient power : Nat) :
    nearestDecimal coefficient (.negSucc power) =
      nearest (coefficient * 2 ^ (1074 : Nat)) (10 ^ (power + 1)) := by
  rw [nearestDecimal, ite_eq_right_iff]
  intro h
  refine (nearest_eq_zero ?_).symm
  exact two_mul_lt_ten_pow coefficient 1074 (power + 1) (by omega)

theorem nearestDecimal_ofNat {coefficient power : Nat}
    (h : nearestDecimal coefficient (.ofNat power) < infinite) :
    nearestDecimal coefficient (.ofNat power) =
      nearest (coefficient * 10 ^ power * 2 ^ (1074 : Nat)) 1 := by
  rw [nearestDecimal] at h ⊢
  by_cases hzero : coefficient = 0
  · rw [if_pos hzero, hzero, Nat.mul_assoc, Nat.zero_mul]
    exact (nearest_eq_zero Nat.one_pos).symm
  · rw [if_neg hzero] at h ⊢
    rw [ite_eq_right_iff]
    intro hpower
    rw [if_pos hpower] at h
    exact absurd h (Nat.lt_irrefl _)

end Drafting.Binary64
