/-!
# Binary64 numbers

The numbers of the 64-bit binary interchange format, in exact integer arithmetic. The 63 bits below
the sign are kept as one number, the magnitude: it counts the representable values from zero
upwards, so that the next larger value has the next larger magnitude, infinity follows the largest
finite value and the NaNs come last. Every finite value is a whole multiple of the smallest positive
one, `2 ^ -1074`, called a unit here; a finite value is therefore a sign and a number of units, and
no rounding ever leaves the natural numbers.

## Main definitions

* `Binary64` — a sign and a magnitude.
* `Binary64.units` — the value of a magnitude in units.
* `Binary64.nearest` — the magnitude nearest to a fraction of units, ties to the even one.
* `Binary64.ofDecimal` — the number nearest to a decimal.
-/

namespace Drafting

-- Powers are those of the core library, also beside libraries with a power of their own.
attribute [local instance (high)] instPowNat

structure Binary64 where
  negative : Bool
  magnitude : Nat
  magnitude_lt : magnitude < 2 ^ (63 : Nat)
deriving DecidableEq, Repr

namespace Binary64

/-- The magnitude of infinity; every smaller magnitude is that of a finite number. -/
def infinite : Nat := 2047 * 2 ^ (52 : Nat)

/-- The number of the 64 bits whose value is `bits`; higher bits are ignored. -/
def ofBits (bits : Nat) : Binary64 where
  negative := bits / 2 ^ (63 : Nat) % 2 = 1
  magnitude := bits % 2 ^ (63 : Nat)
  magnitude_lt := Nat.mod_lt _ (by decide)

def toBits (x : Binary64) : Nat := (if x.negative then 2 ^ (63 : Nat) else 0) + x.magnitude

/-- A number and its 64 bits determine each other. -/
theorem ofBits_toBits (x : Binary64) : ofBits x.toBits = x := by
  obtain ⟨negative, magnitude, h⟩ := x
  cases negative <;> simp only [ofBits, toBits, mk.injEq] <;> simp <;> omega

def isFinite (x : Binary64) : Bool := x.magnitude < infinite

def neg (x : Binary64) : Binary64 := { x with negative := !x.negative }

instance : Neg Binary64 := ⟨neg⟩

theorem neg_neg (x : Binary64) : - -x = x := by
  obtain ⟨negative, magnitude, hlt⟩ := x
  cases negative <;> rfl

theorem neg_inj {x y : Binary64} : -x = -y ↔ x = y := by
  constructor
  · intro h
    rw [← neg_neg x, h, neg_neg]
  · exact congrArg _

/-! ## Magnitudes and units -/

/-- The number of doublings of the unit in the spacing at a magnitude: none for the subnormal
numbers and the first binade, one more for each binade after it. -/
def scale (magnitude : Nat) : Nat := magnitude / 2 ^ (52 : Nat) - 1

/-- The value of a magnitude in units: its significand, with the implicit leading bit from the first
binade on, times its spacing. -/
def units (magnitude : Nat) : Nat :=
  (magnitude - scale magnitude * 2 ^ (52 : Nat)) * 2 ^ scale magnitude

/-- The whole number nearest to a fraction, a half going to the even neighbour. -/
def roundEven (numerator denominator : Nat) : Nat :=
  let quotient := numerator / denominator
  let twice := 2 * (numerator % denominator)
  if denominator < twice ∨ twice = denominator ∧ quotient % 2 = 1 then quotient + 1 else quotient

/-- The magnitude nearest to a fraction of units. The binade of the fraction fixes the spacing, and
the multiple of the spacing is rounded; a multiple that reaches the next binade is the first
magnitude of that binade. The answer is at least `infinite` when the fraction is too large. -/
def nearest (numerator denominator : Nat) : Nat :=
  let doublings := (numerator / denominator).log2 - 52
  doublings * 2 ^ (52 : Nat) + roundEven numerator (denominator * 2 ^ doublings)

/-- The magnitude nearest to `coefficient` times ten to the `exponent`, or one that is at least
`infinite`. A positive coefficient with an exponent beyond 400 is out of range, and one that many
powers of ten cut far below a unit is zero, so that no power is computed for either. -/
def nearestDecimal (coefficient : Nat) (exponent : Int) : Nat :=
  match exponent with
  | .ofNat power =>
    if coefficient = 0 then 0
    else if 400 < power then infinite
    else nearest (coefficient * 10 ^ power * 2 ^ (1074 : Nat)) 1
  | .negSucc power =>
    if coefficient.log2 + 1100 < 3 * (power + 1) then 0
    else nearest (coefficient * 2 ^ (1074 : Nat)) (10 ^ (power + 1))

/-- The number of the given sign nearest to a decimal; infinity when it is out of range. -/
def ofDecimal (negative : Bool) (coefficient : Nat) (exponent : Int) : Binary64 where
  negative := negative
  magnitude := min (nearestDecimal coefficient exponent) infinite
  magnitude_lt := Nat.lt_of_le_of_lt (Nat.min_le_right _ _) (by decide)

end Binary64

end Drafting
