import Drafting.Cursor.Basic
import Drafting.Proofs.Grammar.Texts
import Drafting.Proofs.Number.Nearest
import Drafting.Proofs.Number.Parts

/-!
# Conversion of numerals

What number a numeral stands for. A whole numeral stands for its value; a decimal is converted to the
nearest binary64 number, ties going to the even one and the sign of a zero being kept, unless its
value is out of range, which is refused at the place of the token.

## Main definitions

* `Binary64.value` — the value of a finite number.
* `Numeral.Parts.ConvertsTo` — the number that a decimal is converted to.

Main statements: `Numeral.Parts.convertsTo_iff` and `Grammar.literal?_converts`.
-/

namespace Drafting

open Binary64 Numeral

/-- The value of a finite number. -/
def Binary64.value (x : Binary64) : ℚ := if x.negative then -size x.magnitude else size x.magnitude

/-- The finite number nearest to the value of a numeral that is within the range. If another number is
as near, this one has an even magnitude. It has the sign of the numeral, also if it is a zero. -/
structure Numeral.Parts.ConvertsTo (parts : Parts) (x : Binary64) : Prop where
  in_range : |parts.value| < overflow
  finite : x.isFinite = true
  sign : x.negative = parts.negative
  nearest : ∀ y : Binary64, y.isFinite = true → |parts.value - x.value| ≤ |parts.value - y.value|
  even : ∀ y : Binary64, y.isFinite = true → y.value ≠ x.value →
    |parts.value - y.value| = |parts.value - x.value| → x.magnitude % 2 = 0

namespace Binary64

theorem size_nonneg (magnitude : Nat) : 0 ≤ size magnitude :=
  le_of_mul_le_mul_right (by rw [size_mul, zero_mul]; exact Nat.cast_nonneg _) unitsInOne_pos

theorem abs_value (x : Binary64) : |x.value| = size x.magnitude :=
  abs_ite_neg (size_nonneg _) _

theorem isFinite_iff {x : Binary64} : x.isFinite = true ↔ x.magnitude < infinite := decide_eq_true_iff

/-- Only zero is nearest to zero. -/
theorem RoundsTo.eq_zero {magnitude : Nat} (h : RoundsTo 0 magnitude) : magnitude = 0 := by
  by_contra hne
  exact h.2 0 (Nat.pos_of_ne_zero hne) (roundsDown_zero 0)

end Binary64

namespace Numeral.Parts

variable {parts : Parts} {x : Binary64}

theorem abs_sub_value (parts : Parts) (x : Binary64) :
    |parts.size - Binary64.size x.magnitude| ≤ |parts.value - x.value| := by
  rw [← abs_value, ← Binary64.abs_value]
  exact abs_abs_sub_abs_le _ _

theorem abs_sub_value_of_sign (h : x.negative = parts.negative) :
    |parts.value - x.value| = |parts.size - Binary64.size x.magnitude| := by
  rw [value, Binary64.value, h]
  split
  · rw [neg_sub_neg, abs_sub_comm]
  · rfl

/-- A tie between a number and its opposite is one around zero. -/
theorem size_eq_zero_of_tie {y : Binary64} (hmagnitude : y.magnitude = x.magnitude)
    (hne : y.value ≠ x.value) (htie : |parts.value - y.value| = |parts.value - x.value|) : parts.size = 0 := by
  have hopposite : y.value = -x.value := by
    have habs : |y.value| = |x.value| :=
      (Binary64.abs_value y).trans (hmagnitude ▸ (Binary64.abs_value x).symm)
    rcases abs_eq_abs.1 habs with h | h
    · exact absurd h hne
    · exact h
  have hproduct : parts.value * x.value = 0 := by
    rw [hopposite, ← sq_eq_sq_iff_abs_eq_abs] at htie
    linarith
  rcases mul_eq_zero.1 hproduct with hzero | hzero
  · rw [← parts.abs_value, hzero, abs_zero]
  · exact absurd (by rw [hopposite, hzero, neg_zero]) hne

theorem ConvertsTo.isNearest (h : parts.ConvertsTo x) : IsNearest parts.size x.magnitude := by
  intro other hother
  let y : Binary64 := ⟨x.negative, other, hother.trans (by decide)⟩
  have hy : y.isFinite = true := isFinite_iff.2 hother
  have hnearest := h.nearest y hy
  have heven := h.even y hy
  rw [abs_sub_value_of_sign (x := y) h.sign, abs_sub_value_of_sign h.sign] at hnearest heven
  refine ⟨hnearest, fun htie hne => heven (fun heq => hne ?_) htie⟩
  have habs := congrArg abs heq
  rw [Binary64.abs_value, Binary64.abs_value] at habs
  exact size_strictMono.injective habs

theorem convertsTo_of_isNearest (hrange : parts.size < overflow) (hfinite : x.isFinite = true)
    (hsign : x.negative = parts.negative) (hnearest : IsNearest parts.size x.magnitude) :
    parts.ConvertsTo x where
  in_range := parts.abs_value ▸ hrange
  finite := hfinite
  sign := hsign
  nearest y hy := by
    rw [abs_sub_value_of_sign hsign]
    exact (hnearest _ (isFinite_iff.1 hy)).1.trans (parts.abs_sub_value y)
  even y hy hne htie := by
    obtain ⟨hle, heven⟩ := hnearest _ (isFinite_iff.1 hy)
    by_cases hmagnitude : y.magnitude = x.magnitude
    · have hrounds := (roundsTo_iff (isFinite_iff.1 hfinite)).2 ⟨hrange, hnearest⟩
      rw [size_eq_zero_of_tie hmagnitude hne htie] at hrounds
      rw [hrounds.eq_zero]
    · refine heven (le_antisymm ?_ hle) hmagnitude
      exact (parts.abs_sub_value y).trans (htie.trans (abs_sub_value_of_sign hsign)).le

/-- The conversion is rounding of the value without its sign. -/
theorem convertsTo_iff : parts.ConvertsTo x ↔
    x.isFinite = true ∧ x.negative = parts.negative ∧ RoundsTo parts.size x.magnitude := by
  constructor
  · intro h
    exact ⟨h.finite, h.sign,
      (roundsTo_iff (isFinite_iff.1 h.finite)).2 ⟨parts.abs_value ▸ h.in_range, h.isNearest⟩⟩
  · rintro ⟨hfinite, hsign, hrounds⟩
    obtain ⟨hrange, hnearest⟩ := (roundsTo_iff (isFinite_iff.1 hfinite)).1 hrounds
    exact convertsTo_of_isNearest hrange hfinite hsign hnearest

end Numeral.Parts

namespace Binary64

theorem isFinite_ofDecimal (negative : Bool) (coefficient : Nat) (exponent : Int) :
    (ofDecimal negative coefficient exponent).isFinite = true ↔
      coefficient * 10 ^ exponent < overflow := by
  rw [isFinite_iff, ← nearestDecimal_lt_infinite_iff]
  simp [ofDecimal]

/-- A finite number made of a decimal is the one that the decimal is rounded to. -/
theorem roundsTo_ofDecimal {negative : Bool} {coefficient : Nat} {exponent : Int}
    (h : coefficient * 10 ^ exponent < overflow) :
    RoundsTo (coefficient * 10 ^ exponent) (ofDecimal negative coefficient exponent).magnitude := by
  have hfinite := (nearestDecimal_lt_infinite_iff coefficient exponent).2 h
  have hmagnitude : (ofDecimal negative coefficient exponent).magnitude =
      nearestDecimal coefficient exponent := Nat.min_eq_left hfinite.le
  rw [hmagnitude, ← nearestDecimal_eq_iff _ _ hfinite]

theorem neg_ofDecimal (minus negative : Bool) (coefficient : Nat) (exponent : Int) :
    (if negative then -ofDecimal minus coefficient exponent
      else ofDecimal minus coefficient exponent) =
      ofDecimal (minus != negative) coefficient exponent := by
  cases minus <;> cases negative <;> rfl

end Binary64

namespace Grammar

open Numeral

variable {parts : Parts} {token : List Char}

/-- A whole numeral that is not too long stands for its value. -/
theorem literal?_whole (h : parts.Spells token) (hwhole : token ∈ wholePattern.matches')
    (hlimit : parts.before.length ≤ 4300) (negative : Bool) :
    ∃ value : Int, literal? negative token = .ok (some (.integer value)) ∧
      (value : ℚ) = if negative then -parts.value else parts.value := by
  rcases h.ofToken? with ⟨-, hafter, hexponent, hread⟩ | ⟨hnot, -⟩
  · have hsize : parts.size = digitsValue parts.before := by
      simp [parts.size_eq, hafter, hexponent]
    have hdigits : ¬ digitLimit < parts.before.length := Nat.not_lt.2 hlimit
    refine ⟨_, by rw [literal?, hread]; exact if_neg hdigits, ?_⟩
    rw [Parts.value, hsize]
    cases parts.negative <;> cases negative <;> simp
  · exact absurd hwhole hnot

theorem literal?_of_decimal {minus : Bool} {coefficient : Nat} {exponent : Int}
    (h : ofToken? token = some (.decimal minus coefficient exponent)) (negative : Bool) :
    literal? negative token =
      if (Binary64.ofDecimal minus coefficient exponent).isFinite then
        .ok (some (.decimal (if negative then -Binary64.ofDecimal minus coefficient exponent
          else Binary64.ofDecimal minus coefficient exponent)))
      else .error (.outOfRange token) := by
  rw [literal?, h, Binary64.neg_ofDecimal]
  rfl

/-- A decimal in the range stands for the number that it is converted to, any other is refused. -/
theorem literal?_decimal (h : parts.Spells token) (hwhole : token ∉ wholePattern.matches')
    (negative : Bool) :
    (literal? negative token = .error (.outOfRange token) ↔ overflow ≤ |parts.value|) ∧
      (|parts.value| < overflow → ∃ x, parts.ConvertsTo x ∧
        literal? negative token = .ok (some (.decimal (if negative then -x else x)))) := by
  rcases h.ofToken? with ⟨hmem, -⟩ | ⟨-, hread⟩
  · exact absurd hmem hwhole
  rw [parts.abs_value, parts.size_eq, literal?_of_decimal hread negative]
  have hfinite := Binary64.isFinite_ofDecimal parts.negative
    (digitsValue (parts.before ++ parts.after)) (parts.exponent - parts.after.length)
  constructor
  · rw [← not_lt, ← hfinite]
    split <;> simp [*]
  · intro hrange
    refine ⟨_, Parts.convertsTo_iff.2 ⟨hfinite.2 hrange, rfl, ?_⟩, if_pos (hfinite.2 hrange)⟩
    rw [parts.size_eq]
    exact Binary64.roundsTo_ofDecimal hrange

/-- A token that is refused is refused at the place where it starts. -/
theorem value_of_literal?_error {nested : Nested} {negative : Bool} {text rest : List Char}
    {cause : Cause} (htoken : readToken isDelimiter text = .ok (token, rest))
    (h : literal? negative token = .error cause) :
    value nested negative text = .error ⟨cause, text⟩ := by
  simp [value_eq, htoken, h, bind, Except.bind]

/-- A numeral out of range is reported with its code, at the place where the cursor stands. -/
theorem failure_outOfRange (cursor : Cursor) (limit : Int) (token : List Char) :
    cursor.failure limit ⟨.outOfRange token, cursor.rest⟩ = .invalid {
      message := "Numeric literal out of range: " ++ String.ofList token
      location := cursor.location
      code := some "S007"
      help := none } := by
  rw [Cursor.failure, cursor.movedTo_rest]
  rfl

/-- A token that is a numeral has parts, and whatever its parts are: a whole numeral of at most 4300
digits stands for its value. A decimal is refused exactly if its value is out of range, and then with
the place of the token; otherwise it stands for the number that it is converted to. The sign is turned
after a minus sign. -/
theorem literal?_converts (h : IsNumeral token) (negative : Bool) :
    (∃ parts : Parts, parts.Spells token) ∧ ∀ parts : Parts, parts.Spells token →
      (token ∈ wholePattern.matches' → parts.before.length ≤ 4300 →
        ∃ value : Int, literal? negative token = .ok (some (.integer value)) ∧
          (value : ℚ) = if negative then -parts.value else parts.value) ∧
      (token ∉ wholePattern.matches' →
        (literal? negative token = .error (.outOfRange token) ↔ overflow ≤ |parts.value|) ∧
        (overflow ≤ |parts.value| → ∀ (nested : Nested) (cursor : Cursor) (rest : List Char),
          readToken isDelimiter cursor.rest = .ok (token, rest) →
          ∃ fault, value nested negative cursor.rest = .error fault ∧
            ∀ limit, ∃ d, cursor.failure limit fault = .invalid d ∧ d.code = some "S007" ∧
              d.location = cursor.location) ∧
        (|parts.value| < overflow → ∃ x, parts.ConvertsTo x ∧
          literal? negative token = .ok (some (.decimal (if negative then -x else x))))) := by
  refine ⟨exists_spells h, fun parts hparts => ⟨fun hwhole hlimit => ?_, fun hwhole => ?_⟩⟩
  · exact literal?_whole hparts hwhole hlimit negative
  · obtain ⟨hrefused, hconverts⟩ := literal?_decimal hparts hwhole negative
    refine ⟨hrefused, fun hrange nested cursor rest htoken => ?_, hconverts⟩
    have hfault : value nested negative cursor.rest = .error ⟨.outOfRange token, cursor.rest⟩ :=
      value_of_literal?_error htoken (hrefused.2 hrange)
    exact ⟨_, hfault, fun limit => ⟨_, failure_outOfRange cursor limit token, rfl, rfl⟩⟩

/-- `9007199254740993.0` lies in the middle between two numbers, and is converted to the even one;
after a minus sign its opposite is meant. -/
theorem literal?_converts_tie :
    IsNumeral "9007199254740993.0".toList ∧ ∃ parts : Parts,
      parts.Spells "9007199254740993.0".toList ∧
      parts.ConvertsTo (.ofBits 0x4340000000000000) ∧
      literal? true "9007199254740993.0".toList =
        .ok (some (.decimal (.ofBits 0xc340000000000000))) := by
  have hnumeral : IsNumeral "9007199254740993.0".toList :=
    isNumeral_of_ofToken? (by decide +kernel)
  have hwhole : "9007199254740993.0".toList ∉ wholePattern.matches' :=
    not_mem_wholePattern (show ofToken? _ = some (.decimal false 90071992547409930 (-1)) from rfl)
  have hliteral : literal? true "9007199254740993.0".toList =
      .ok (some (.decimal (.ofBits 0xc340000000000000))) := by decide +kernel
  obtain ⟨⟨parts, hparts⟩, hall⟩ := literal?_converts hnumeral true
  obtain ⟨hrefused, -, hconverts⟩ := (hall parts hparts).2 hwhole
  have hrange : |parts.value| < overflow := by
    rw [← not_le, ← hrefused, hliteral]
    simp
  obtain ⟨x, hx, heq⟩ := hconverts hrange
  rw [hliteral, if_pos rfl] at heq
  have hx' : x = .ofBits 0x4340000000000000 := by
    have hneg : .ofBits 0xc340000000000000 = -x :=
      Formula.decimal.inj (Option.some.inj (Except.ok.inj heq))
    rw [← Binary64.neg_neg x, ← hneg]
    rfl
  exact ⟨hnumeral, parts, hparts, hx' ▸ hx, hliteral⟩

end Grammar

end Drafting
