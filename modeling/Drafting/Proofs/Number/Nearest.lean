import Drafting.Proofs.Number.Rounding
import Mathlib.Algebra.Order.Field.Power
import Mathlib.Algebra.Order.Field.Rat
import Mathlib.Algebra.Order.Ring.Abs
import Mathlib.Data.Rat.Cast.Order
import Mathlib.Tactic.Positivity
import Mathlib.Tactic.Linarith
import Mathlib.Tactic.Ring

/-!
# Rounding is correct

The values of neighbouring magnitudes have a middle between them, and rounding a fraction to a
magnitude or below is having the fraction below that middle, or in it when the magnitude is even.
Everything about rounding follows from this one statement: it depends on nothing but the value, it is
monotone, its results are the nearest finite numbers with ties to even, and the finite numbers end
where the middle above the largest one is reached.

## Main definitions

* `Binary64.size` — the value of a magnitude.
* `Binary64.RoundsDown`, `Binary64.RoundsTo` — the values that are rounded to a magnitude or below,
  and to a magnitude.
* `Binary64.IsNearest` — no finite number is nearer, and in a tie the magnitude is even.
* `Binary64.overflow` — the least value that is out of range.

Main statements: `Binary64.nearest_le_iff`, `Binary64.roundsTo_iff` and
`Binary64.nearestDecimal_eq_iff`.
-/

namespace Drafting.Binary64

attribute [local instance (high)] instPowNat

variable {numerator denominator magnitude : Nat}

/-! ## Neighbouring numbers -/

theorem units_succ (magnitude : Nat) :
    units (magnitude + 1) = units magnitude + 2 ^ scale magnitude := by
  by_cases hscale : scale (magnitude + 1) = scale magnitude
  · have hle : scale magnitude * 2 ^ (52 : Nat) ≤ magnitude := by simp only [scale]; omega
    rw [units, hscale, Nat.sub_add_comm hle, Nat.add_mul, Nat.one_mul, units]
  · -- The next magnitude is the first of its binade.
    have hnext : scale (magnitude + 1) = scale magnitude + 1 := by
      simp only [scale] at hscale ⊢
      omega
    have hlast : magnitude - scale magnitude * 2 ^ (52 : Nat) = 2 ^ (53 : Nat) - 1 := by
      simp only [scale] at hscale ⊢
      omega
    have hfirst : magnitude + 1 - (scale magnitude + 1) * 2 ^ (52 : Nat) = 2 ^ (52 : Nat) := by
      omega
    rw [units, units, hnext, hfirst, hlast, Nat.pow_succ 2 (scale magnitude)]
    omega

theorem units_strictMono : StrictMono units :=
  strictMono_nat_of_lt_succ fun magnitude => by
    rw [units_succ]
    exact Nat.lt_add_of_pos_right (Nat.two_pow_pos _)

/-! ## The number below a fraction -/

/-- The number of doublings of the unit in the spacing at a fraction of units. -/
def doublings (numerator denominator : Nat) : Nat := (numerator / denominator).log2 - 52

/-- How many times the spacing goes into the fraction. -/
def multiple (numerator denominator : Nat) : Nat :=
  numerator / (denominator * 2 ^ doublings numerator denominator)

/-- The largest magnitude whose value is at most a fraction of units. -/
def floor (numerator denominator : Nat) : Nat :=
  doublings numerator denominator * 2 ^ (52 : Nat) + multiple numerator denominator

/-- The multiple has at most 53 binary digits, and no fewer where the spacing is more than a unit. -/
theorem multiple_bounds (numerator denominator : Nat) :
    multiple numerator denominator < 2 ^ (53 : Nat) ∧
      (0 < doublings numerator denominator → 2 ^ (52 : Nat) ≤ multiple numerator denominator) := by
  rw [multiple, ← Nat.div_div_eq_div_mul, doublings]
  generalize numerator / denominator = whole
  have hpow := Nat.two_pow_pos (whole.log2 - 52)
  rw [Nat.div_lt_iff_lt_mul hpow, Nat.le_div_iff_mul_le hpow, ← Nat.pow_add, ← Nat.pow_add]
  constructor
  · exact Nat.lt_of_lt_of_le Nat.lt_log2_self (Nat.pow_le_pow_right (by decide) (by omega))
  · intro hpos
    have hne : whole ≠ 0 := by
      rintro rfl
      simp at hpos
    rw [show 52 + (whole.log2 - 52) = whole.log2 by omega]
    exact Nat.log2_self_le hne

theorem scale_floor (numerator denominator : Nat) :
    scale (floor numerator denominator) = doublings numerator denominator := by
  obtain ⟨hlt, hle⟩ := multiple_bounds numerator denominator
  rw [scale, floor]
  omega

theorem units_floor (numerator denominator : Nat) :
    units (floor numerator denominator) =
      multiple numerator denominator * 2 ^ doublings numerator denominator := by
  rw [units, scale_floor, floor, Nat.add_sub_cancel_left]

/-- The fraction lies between the value of its floor and the next value. -/
theorem units_floor_le (numerator : Nat) (hd : 0 < denominator) :
    units (floor numerator denominator) * denominator ≤ numerator ∧
      numerator < units (floor numerator denominator + 1) * denominator := by
  rw [units_succ, scale_floor, units_floor, ← Nat.succ_mul, Nat.mul_right_comm, Nat.mul_assoc,
    Nat.mul_right_comm, Nat.mul_assoc, multiple]
  have hspacing : 0 < denominator * 2 ^ doublings numerator denominator :=
    Nat.mul_pos hd (Nat.two_pow_pos _)
  exact ⟨Nat.div_mul_le_self _ _, (Nat.div_lt_iff_lt_mul hspacing).1 (Nat.lt_succ_self _)⟩

theorem roundEven_eq (numerator denominator : Nat) :
    let quotient := numerator / denominator
    let middle := (quotient + (quotient + 1)) * denominator
    roundEven numerator denominator =
      if middle < 2 * numerator ∨ middle = 2 * numerator ∧ quotient % 2 = 1 then quotient + 1
      else quotient := by
  intro quotient middle
  have hdivision : denominator * quotient + numerator % denominator = numerator :=
    Nat.div_add_mod numerator denominator
  have hmiddle : middle = 2 * (denominator * quotient) + denominator := by
    simp only [middle]
    ring
  simp only [roundEven]
  congr 1
  simp only [quotient, eq_iff_iff] at *
  omega

/-- Rounding takes the number below the fraction or the next one, whichever is nearer; in the middle
it takes the even one. -/
theorem nearest_eq (numerator denominator : Nat) :
    let below := floor numerator denominator
    let middle := (units below + units (below + 1)) * denominator
    nearest numerator denominator =
      if middle < 2 * numerator ∨ middle = 2 * numerator ∧ below % 2 = 1 then below + 1
      else below := by
  intro below middle
  have hmiddle : (multiple numerator denominator + (multiple numerator denominator + 1)) *
      (denominator * 2 ^ doublings numerator denominator) = middle := by
    simp only [middle, below, units_succ, scale_floor, units_floor]
    ring
  have hparity : below % 2 = multiple numerator denominator % 2 := by
    simp only [below, floor]
    omega
  have hround := roundEven_eq numerator (denominator * 2 ^ doublings numerator denominator)
  simp only [← multiple.eq_1] at hround
  change doublings numerator denominator * 2 ^ (52 : Nat) +
    roundEven numerator (denominator * 2 ^ doublings numerator denominator) = _
  rw [hround, hmiddle, hparity]
  split
  · exact (Nat.add_assoc _ _ _).symm
  · rfl

/-- A fraction is rounded to a magnitude or below if it is below the middle above that magnitude, or
in it and the magnitude is even. -/
theorem nearest_le_iff_units (hd : 0 < denominator) :
    nearest numerator denominator ≤ magnitude ↔
      2 * numerator < (units magnitude + units (magnitude + 1)) * denominator ∨
        2 * numerator = (units magnitude + units (magnitude + 1)) * denominator ∧
          magnitude % 2 = 0 := by
  obtain ⟨hlow, hhigh⟩ := units_floor_le numerator hd
  have hnearest := nearest_eq numerator denominator
  generalize floor numerator denominator = below at hlow hhigh hnearest
  simp only [Nat.add_mul] at hnearest ⊢
  obtain hlt | rfl | hlt := Nat.lt_trichotomy magnitude below
  · have h₁ : units magnitude * denominator < units below * denominator :=
      Nat.mul_lt_mul_of_pos_right (units_strictMono hlt) hd
    have h₂ : units (magnitude + 1) * denominator ≤ units below * denominator :=
      Nat.mul_le_mul_right _ (units_strictMono.monotone hlt)
    split at hnearest <;> omega
  · split at hnearest <;> omega
  · have h₁ : units (below + 1) * denominator ≤ units magnitude * denominator :=
      Nat.mul_le_mul_right _ (units_strictMono.monotone hlt)
    have h₂ : units magnitude * denominator < units (magnitude + 1) * denominator :=
      Nat.mul_lt_mul_of_pos_right (units_strictMono (Nat.lt_succ_self _)) hd
    split at hnearest <;> omega

/-! ## Values -/

/-- The value of a magnitude. Its upper bits are an exponent, the 52 bits below them a fraction; with
an exponent of zero there is no leading bit before the fraction. -/
def size (magnitude : Nat) : ℚ :=
  if magnitude / 2 ^ (52 : Nat) = 0 then (magnitude % 2 ^ (52 : Nat) : Nat) * 2 ^ (-1074 : ℤ)
  else (2 ^ (52 : Nat) + magnitude % 2 ^ (52 : Nat) : Nat) *
    2 ^ ((magnitude / 2 ^ (52 : Nat) : Nat) - 1075 : ℤ)

/-- The number of units in one. -/
def unitsInOne : Nat := 2 ^ (1074 : Nat)

theorem cast_two_pow (n : Nat) : ((2 ^ n : Nat) : ℚ) = 2 ^ (n : ℤ) := by
  rw [Nat.cast_pow, zpow_natCast, Nat.cast_ofNat]

theorem unitsInOne_pos : (0 : ℚ) < unitsInOne := by
  rw [unitsInOne, cast_two_pow 1074]
  exact zpow_pos two_pos _

theorem two_zpow_mul_unitsInOne (n : ℤ) : (2 : ℚ) ^ n * unitsInOne = 2 ^ (n + 1074) := by
  rw [unitsInOne, cast_two_pow 1074, ← zpow_add₀ two_ne_zero]
  rfl

/-- The value in units. -/
theorem size_mul (magnitude : Nat) : size magnitude * unitsInOne = units magnitude := by
  rw [size]
  split
  · have hscale : scale magnitude = 0 := by simp only [scale]; omega
    have hunits : units magnitude = magnitude % 2 ^ (52 : Nat) := by
      rw [units, hscale]
      omega
    rw [mul_assoc, two_zpow_mul_unitsInOne, hunits]
    exact mul_one _
  · have hunits : units magnitude =
        (2 ^ (52 : Nat) + magnitude % 2 ^ (52 : Nat)) * 2 ^ scale magnitude := by
      rw [units]
      congr 1
      simp only [scale]
      omega
    have hscale : ((magnitude / 2 ^ (52 : Nat) : Nat) - 1075 + 1074 : ℤ) = scale magnitude := by
      simp only [scale]
      omega
    rw [mul_assoc, two_zpow_mul_unitsInOne, hscale, hunits, Nat.cast_mul, cast_two_pow]

theorem size_strictMono : StrictMono size := fun a b h => by
  have hunits : (units a : ℚ) < units b := Nat.cast_lt.2 (units_strictMono h)
  rw [← size_mul, ← size_mul] at hunits
  exact lt_of_mul_lt_mul_right hunits unitsInOne_pos.le

/-- The middle between a magnitude's value and the next. -/
def middle (magnitude : Nat) : ℚ := (size magnitude + size (magnitude + 1)) / 2

theorem size_lt_middle (magnitude : Nat) :
    size magnitude < middle magnitude ∧ middle magnitude < size (magnitude + 1) := by
  have := size_strictMono (Nat.lt_succ_self magnitude)
  constructor <;> (rw [middle]; linarith)

theorem middle_strictMono : StrictMono middle :=
  strictMono_nat_of_lt_succ fun magnitude =>
    (size_lt_middle magnitude).2.trans (size_lt_middle (magnitude + 1)).1

/-! ## What is rounded where -/

/-- The value is rounded to the magnitude or to one below. -/
def RoundsDown (value : ℚ) (magnitude : Nat) : Prop :=
  value < middle magnitude ∨ value = middle magnitude ∧ magnitude % 2 = 0

/-- The value is rounded to the magnitude. -/
def RoundsTo (value : ℚ) (magnitude : Nat) : Prop :=
  RoundsDown value magnitude ∧ ∀ below < magnitude, ¬ RoundsDown value below

variable {value value' lower upper : ℚ}

theorem RoundsDown.mono (h : RoundsDown value' magnitude) (hle : value ≤ value') :
    RoundsDown value magnitude := by
  rcases h with h | ⟨h, heven⟩
  · exact .inl (hle.trans_lt h)
  · rcases hle.lt_or_eq with hlt | heq
    · exact .inl (h ▸ hlt)
    · exact .inr ⟨heq.trans h, heven⟩

/-- What lies between two values that are rounded alike is rounded like them. -/
theorem RoundsTo.between (hlower : RoundsTo lower magnitude) (hupper : RoundsTo upper magnitude)
    (hle : lower ≤ value) (hle' : value ≤ upper) : RoundsTo value magnitude :=
  ⟨hupper.1.mono hle', fun below hbelow h => hlower.2 below hbelow (h.mono hle)⟩

theorem nearest_le_iff (hd : 0 < denominator)
    (hvalue : value * unitsInOne * denominator = numerator) :
    nearest numerator denominator ≤ magnitude ↔ RoundsDown value magnitude := by
  have hunits : 0 < unitsInOne * (denominator : ℚ) :=
    mul_pos unitsInOne_pos (Nat.cast_pos.2 hd)
  have hmiddle : ((units magnitude + units (magnitude + 1)) * denominator : Nat) =
      2 * middle magnitude * (unitsInOne * (denominator : ℚ)) := by
    rw [Nat.cast_mul, Nat.cast_add, ← size_mul, ← size_mul, middle]
    ring
  have hnumerator : (2 * numerator : Nat) =
      2 * value * (unitsInOne * (denominator : ℚ)) := by
    rw [Nat.cast_mul, ← hvalue, Nat.cast_ofNat]
    ring
  rw [nearest_le_iff_units hd, ← Nat.cast_lt (α := ℚ), ← Nat.cast_inj (R := ℚ), hmiddle, hnumerator,
    mul_lt_mul_iff_left₀ hunits, mul_left_inj' hunits.ne', mul_lt_mul_iff_right₀ two_pos,
    mul_right_inj' two_ne_zero, RoundsDown]

theorem roundsTo_of_le_iff {n : Nat} (h : ∀ m ≤ magnitude, n ≤ m ↔ RoundsDown value m) :
    n = magnitude ↔ RoundsTo value magnitude := by
  constructor
  · rintro rfl
    exact ⟨(h n le_rfl).1 le_rfl, fun m hm hdown => hm.not_ge ((h m hm.le).2 hdown)⟩
  · rintro ⟨hdown, hnot⟩
    have hle := (h magnitude le_rfl).2 hdown
    by_contra hne
    exact hnot n (lt_of_le_of_ne hle hne) ((h n hle).1 le_rfl)

theorem roundsTo_size (magnitude : Nat) : RoundsTo (size magnitude) magnitude := by
  refine (roundsTo_of_le_iff (n := nearest (units magnitude) 1) fun m _ => ?_).1 (nearest_units _)
  exact nearest_le_iff Nat.one_pos (by rw [size_mul, Nat.cast_one, mul_one])

/-! ## The nearest number -/

/-- The least value that is out of range. -/
def overflow : ℚ := 2 ^ (1024 : ℤ) - 2 ^ (970 : ℤ)

/-- No finite number is nearer to the value, and the magnitude is even if another one is as near. -/
def IsNearest (value : ℚ) (magnitude : Nat) : Prop :=
  ∀ other < infinite, |value - size magnitude| ≤ |value - size other| ∧
    (|value - size other| = |value - size magnitude| → other ≠ magnitude → magnitude % 2 = 0)

theorem middle_eq_overflow : middle (infinite - 1) = overflow := by
  have hunits : units (infinite - 1) + units infinite + 2 * 2 ^ (2044 : Nat) =
      2 * 2 ^ (2098 : Nat) := by decide +kernel
  replace hunits := congrArg (Nat.cast (R := ℚ)) hunits
  simp only [Nat.cast_add, Nat.cast_mul, Nat.cast_ofNat, cast_two_pow] at hunits
  apply mul_right_cancel₀ unitsInOne_pos.ne'
  rw [middle, overflow, sub_mul, two_zpow_mul_unitsInOne, two_zpow_mul_unitsInOne,
    div_mul_eq_mul_div, add_mul, size_mul, Nat.sub_add_cancel (by decide), size_mul]
  exact (eq_sub_of_add_eq (by linarith : _ + (2 : ℚ) ^ (970 + 1074 : ℤ) = 2 ^ (1024 + 1074 : ℤ)))

theorem roundsDown_iff_lt_overflow : RoundsDown value (infinite - 1) ↔ value < overflow := by
  rw [RoundsDown, middle_eq_overflow, or_iff_left]
  rintro ⟨-, hodd⟩
  exact absurd hodd (by decide)

theorem RoundsDown.of_le {magnitude' : Nat} (h : RoundsDown value magnitude)
    (hle : magnitude ≤ magnitude') : RoundsDown value magnitude' := by
  rcases hle.lt_or_eq with hlt | rfl
  · have := middle_strictMono hlt
    exact .inl (h.elim (fun h => h.trans this) fun h => h.1.trans_lt this)
  · exact h

/-- Of two places, the lower one is as near as the upper one up to the middle between them. -/
theorem abs_sub_le_abs_sub_iff (h : lower < upper) :
    |value - lower| ≤ |value - upper| ↔ value ≤ (lower + upper) / 2 := by
  rw [← sq_le_sq]
  constructor <;> intro h' <;> nlinarith

theorem abs_sub_le_abs_sub_iff' (h : lower < upper) :
    |value - upper| ≤ |value - lower| ↔ (lower + upper) / 2 ≤ value := by
  rw [← sq_le_sq]
  constructor <;> intro h' <;> nlinarith

theorem roundsDown_iff : RoundsDown value magnitude ↔
    value ≤ middle magnitude ∧ (value = middle magnitude → magnitude % 2 = 0) := by
  constructor
  · rintro (hlt | ⟨heq, heven⟩)
    · exact ⟨hlt.le, fun heq => absurd heq hlt.ne⟩
    · exact ⟨heq.le, fun _ => heven⟩
  · rintro ⟨hle, heven⟩
    exact hle.lt_or_eq.imp_right fun heq => ⟨heq, heven heq⟩

theorem not_roundsDown_iff : ¬ RoundsDown value magnitude ↔
    middle magnitude ≤ value ∧ (value = middle magnitude → (magnitude + 1) % 2 = 0) := by
  rw [RoundsDown, not_or, not_lt, not_and]
  refine and_congr_right fun _ => forall_congr' fun _ => ?_
  omega

theorem RoundsTo.isNearest (h : RoundsTo value magnitude) : IsNearest value magnitude := by
  intro other _
  obtain hlt | rfl | hlt := Nat.lt_trichotomy other magnitude
  · -- The value is not below the middle under the magnitude, hence not nearer to any number below.
    obtain ⟨below, rfl⟩ : ∃ below, magnitude = below + 1 :=
      Nat.exists_eq_add_one_of_ne_zero (Nat.ne_zero_of_lt hlt)
    obtain ⟨hmiddle, heven⟩ := not_roundsDown_iff.1 (h.2 below (Nat.lt_succ_self below))
    have hother : size other ≤ size below := size_strictMono.monotone (Nat.le_of_lt_succ hlt)
    have hsize := size_strictMono hlt
    rw [middle] at hmiddle heven
    refine ⟨(abs_sub_le_abs_sub_iff' hsize).2 (by linarith), fun htie _ => heven ?_⟩
    have := (abs_sub_le_abs_sub_iff hsize).1 htie.le
    linarith
  · exact ⟨le_rfl, fun _ hne => absurd rfl hne⟩
  · obtain ⟨hmiddle, heven⟩ := roundsDown_iff.1 h.1
    have hother : size (magnitude + 1) ≤ size other := size_strictMono.monotone hlt
    have hsize := size_strictMono hlt
    rw [middle] at hmiddle heven
    refine ⟨(abs_sub_le_abs_sub_iff hsize).2 (by linarith), fun htie _ => heven ?_⟩
    have := (abs_sub_le_abs_sub_iff' hsize).1 htie.le
    linarith

theorem IsNearest.roundsDown (h : IsNearest value magnitude) (hnext : magnitude + 1 < infinite) :
    RoundsDown value magnitude := by
  obtain ⟨hle, heven⟩ := h _ hnext
  have hsize := size_strictMono (Nat.lt_succ_self magnitude)
  refine roundsDown_iff.2 ⟨(abs_sub_le_abs_sub_iff hsize).1 hle, fun heq => ?_⟩
  exact heven (le_antisymm ((abs_sub_le_abs_sub_iff' hsize).2 heq.ge) hle) (Nat.succ_ne_self _)

theorem IsNearest.not_roundsDown (h : IsNearest value (magnitude + 1))
    (hfinite : magnitude < infinite) : ¬ RoundsDown value magnitude := by
  obtain ⟨hle, heven⟩ := h _ hfinite
  have hsize := size_strictMono (Nat.lt_succ_self magnitude)
  refine not_roundsDown_iff.2 ⟨(abs_sub_le_abs_sub_iff' hsize).1 hle, fun heq => ?_⟩
  exact heven (le_antisymm ((abs_sub_le_abs_sub_iff hsize).2 heq.le) hle) (Nat.succ_ne_self _).symm

/-- A finite number is rounded to exactly from the values within the range that it is nearest to. -/
theorem roundsTo_iff (hfinite : magnitude < infinite) :
    RoundsTo value magnitude ↔ value < overflow ∧ IsNearest value magnitude := by
  constructor
  · intro h
    exact ⟨roundsDown_iff_lt_overflow.1 (h.1.of_le (Nat.le_sub_one_of_lt hfinite)), h.isNearest⟩
  · rintro ⟨hrange, hnearest⟩
    refine ⟨?_, fun below hbelow hdown => ?_⟩
    · by_cases hlast : magnitude + 1 < infinite
      · exact hnearest.roundsDown hlast
      · obtain rfl : magnitude = infinite - 1 := by omega
        exact roundsDown_iff_lt_overflow.2 hrange
    · obtain ⟨k, rfl⟩ : ∃ k, magnitude = k + 1 :=
        Nat.exists_eq_add_one_of_ne_zero (Nat.ne_zero_of_lt hbelow)
      exact hnearest.not_roundsDown (Nat.lt_of_succ_lt hfinite)
        (hdown.of_le (Nat.le_of_lt_succ hbelow))

/-! ## Decimals -/

theorem roundsDown_zero (magnitude : Nat) : RoundsDown 0 magnitude := by
  have hzero : size 0 = 0 := by
    rw [size, if_pos (by decide)]
    exact zero_mul _
  exact (hzero ▸ roundsTo_size 0).1.of_le magnitude.zero_le

/-- A decimal beyond ten to the 400 is out of range. -/
theorem overflow_lt_decimal {coefficient power : Nat} (hc : coefficient ≠ 0) (hp : 400 < power) :
    overflow < coefficient * 10 ^ (power : ℤ) := by
  have hpow : 2 ^ (1024 : Nat) ≤ coefficient * 10 ^ power :=
    calc 2 ^ (1024 : Nat) ≤ 10 ^ (401 : Nat) := by decide +kernel
      _ ≤ 10 ^ power := Nat.pow_le_pow_right (by decide) hp
      _ ≤ coefficient * 10 ^ power := Nat.le_mul_of_pos_left _ (Nat.pos_of_ne_zero hc)
  replace hpow := Nat.cast_le (α := ℚ).2 hpow
  rw [cast_two_pow 1024, Nat.cast_mul, Nat.cast_pow, ← zpow_natCast, Nat.cast_ofNat] at hpow
  exact (sub_lt_self _ (zpow_pos two_pos _)).trans_le hpow

theorem nearestDecimal_le_iff (coefficient : Nat) (exponent : Int) (h : magnitude < infinite) :
    nearestDecimal coefficient exponent ≤ magnitude ↔
      RoundsDown (coefficient * 10 ^ exponent) magnitude := by
  cases exponent with
  | ofNat power =>
    rw [nearestDecimal, Int.ofNat_eq_natCast]
    split_ifs with hzero hpower
    · rw [hzero, Nat.cast_zero, zero_mul]
      exact iff_of_true magnitude.zero_le (roundsDown_zero magnitude)
    · refine iff_of_false h.not_ge fun hdown => ?_
      have hrange := roundsDown_iff_lt_overflow.1 (hdown.of_le (Nat.le_sub_one_of_lt h))
      exact hrange.not_gt (overflow_lt_decimal hzero hpower)
    · refine nearest_le_iff Nat.one_pos ?_
      rw [← unitsInOne, Nat.cast_mul, Nat.cast_mul, Nat.cast_pow, zpow_natCast, Nat.cast_one, mul_one,
        Nat.cast_ofNat]
  | negSucc power =>
    rw [nearestDecimal_negSucc, ← unitsInOne]
    refine nearest_le_iff (Nat.pow_pos (by decide)) ?_
    rw [zpow_negSucc, Nat.cast_mul, Nat.cast_pow, Nat.cast_ofNat, mul_right_comm,
      inv_mul_cancel_right₀ (by positivity)]

/-- A decimal is rounded to a finite number exactly if its value is. -/
theorem nearestDecimal_eq_iff (coefficient : Nat) (exponent : Int) (h : magnitude < infinite) :
    nearestDecimal coefficient exponent = magnitude ↔
      RoundsTo (coefficient * 10 ^ exponent) magnitude :=
  roundsTo_of_le_iff fun _ hle => nearestDecimal_le_iff _ _ (hle.trans_lt h)

theorem nearestDecimal_lt_infinite_iff (coefficient : Nat) (exponent : Int) :
    nearestDecimal coefficient exponent < infinite ↔ coefficient * 10 ^ exponent < overflow := by
  rw [← roundsDown_iff_lt_overflow, ← nearestDecimal_le_iff _ _ (by decide)]
  exact Nat.lt_iff_le_pred (by decide)

end Drafting.Binary64
