import Drafting.Grammar.Lexeme
import Drafting.Number.Basic
import Drafting.Proofs.Number.Pattern
import Drafting.Proofs.Number.Rounding
import Mathlib.Data.List.DropRight

/-!
# Numbers read back

The text of a number is a token that stands for that same number: the digits of a whole number give
its value, and the shortest decimal of a finite number is rounded to the number again.

## Main statements

* `Binary64.nearestDecimal_shortest` — the shortest decimal is rounded to the number.
* `Grammar.literal?_decimalDigits`, `Grammar.literal?_magnitudeText` — the literals that the texts of
  numbers stand for, with a sign in front or not.
-/

namespace Drafting

attribute [local instance (high)] instPowNat

/-! ## Digits -/

theorem digitsValue_append (a b : List Char) :
    digitsValue (a ++ b) = digitsValue a * 10 ^ b.length + digitsValue b := by
  rw [digitsValue, Nat.ofDigitChars_append, Nat.ofDigitChars_eq_ofDigitChars_zero, Nat.mul_comm]
  rfl

@[simp] theorem digitsValue_replicate_zero (n : Nat) : digitsValue (List.replicate n '0') = 0 := by
  rw [digitsValue, Nat.ofDigitChars_replicate_zero, Nat.mul_zero]

theorem digitsValue_cons (c : Char) (digits : List Char) :
    digitsValue (c :: digits) = digitsValue [c] * 10 ^ digits.length + digitsValue digits :=
  digitsValue_append [c] digits

theorem digitsValue_lt {digits : List Char} (h : digits.all Char.isDigit = true) :
    digitsValue digits < 10 ^ digits.length := by
  induction digits with
  | nil => decide
  | cons c digits ih =>
    simp only [List.all_cons, Bool.and_eq_true] at h
    have hdigit : digitsValue [c] < 10 := by
      have hmem := Numeral.isDigit_iff_mem.1 h.1
      simp only [List.mem_cons, List.not_mem_nil, or_false] at hmem
      rcases hmem with rfl | rfl | rfl | rfl | rfl | rfl | rfl | rfl | rfl | rfl <;> decide
    have hrest := ih h.2
    calc digitsValue (c :: digits)
        < digitsValue [c] * 10 ^ digits.length + 10 ^ digits.length := by
          rw [digitsValue_cons]
          exact Nat.add_lt_add_left hrest _
      _ = (digitsValue [c] + 1) * 10 ^ digits.length := by rw [Nat.add_mul, Nat.one_mul]
      _ ≤ 10 * 10 ^ digits.length := Nat.mul_le_mul_right _ hdigit
      _ = 10 ^ (c :: digits).length := by rw [List.length_cons, Nat.pow_succ, Nat.mul_comm]

theorem isDigit_of_mem_decimalDigits {n : Nat} {c : Char} (h : c ∈ decimalDigits n) :
    c.isDigit = true :=
  Nat.isDigit_of_mem_toDigits (by decide) (by decide) h

@[simp] theorem all_isDigit_decimalDigits (n : Nat) : (decimalDigits n).all Char.isDigit = true :=
  List.all_eq_true.2 fun _ => isDigit_of_mem_decimalDigits

@[simp] theorem decimalDigits_ne_nil (n : Nat) : decimalDigits n ≠ [] := Nat.toDigits_ne_nil

theorem length_decimalDigits_le {n places : Nat} (hp : 0 < places) (h : n < 10 ^ places) :
    (decimalDigits n).length ≤ places :=
  (Nat.length_toDigits_le_iff (by decide) hp).2 h

namespace Binary64

/-! ## The shortest decimal -/

theorem nearestDecimal_of_onGrid? {magnitude point : Nat} {exponent : Int}
    (h : onGrid? magnitude exponent = some point) : nearestDecimal point exponent = magnitude := by
  simpa using List.find?_some h

theorem nearest_mul_ten_pow (numerator n : Nat) :
    nearest (numerator * 5 ^ n * 2 ^ n) (10 ^ n) = nearest numerator 1 := by
  have hten : 10 ^ n = 5 ^ n * 2 ^ n := Nat.mul_pow 5 2 n
  have hpos : 0 < 5 ^ n * 2 ^ n := Nat.mul_pos (Nat.pow_pos (by decide)) (Nat.pow_pos (by decide))
  calc nearest (numerator * 5 ^ n * 2 ^ n) (10 ^ n)
      = nearest (numerator * (5 ^ n * 2 ^ n)) (1 * (5 ^ n * 2 ^ n)) := by
        rw [hten, Nat.mul_assoc, Nat.one_mul]
    _ = nearest numerator 1 := nearest_mul _ _ hpos

/-- The finest grid holds every finite value itself. -/
theorem nearestDecimal_finest (magnitude : Nat) :
    nearestDecimal (units magnitude * 5 ^ (1074 : Nat)) (-1074) = magnitude := by
  have hnearest := nearestDecimal_negSucc (units magnitude * 5 ^ (1074 : Nat)) 1073
  simp only [Nat.reduceAdd] at hnearest
  rw [nearest_mul_ten_pow (units magnitude) 1074, nearest_units] at hnearest
  exact hnearest

theorem nearestDecimal_shortestFrom (magnitude grids : Nat) :
    nearestDecimal (shortestFrom magnitude grids).1 (shortestFrom magnitude grids).2 =
      magnitude := by
  induction grids with
  | zero => exact nearestDecimal_finest magnitude
  | succ grids ih =>
    rw [shortestFrom]
    split
    · next h => exact nearestDecimal_of_onGrid? h
    · exact ih

/-- The shortest decimal is rounded to the number. -/
theorem nearestDecimal_shortest (magnitude : Nat) :
    nearestDecimal (shortest magnitude).1 (shortest magnitude).2 = magnitude :=
  nearestDecimal_shortestFrom _ _

/-! ## The written decimal -/

/-- What the trimming of a fraction takes away are zeros. -/
theorem exists_zeros (digits : List Char) : ∃ zeros,
    digits = digits.rdropWhile (· = '0') ++ List.replicate zeros '0' := by
  have hzeros : ∀ c ∈ digits.rtakeWhile (· = '0'), c = '0' := fun c hc => by
    simpa using List.mem_rtakeWhile_imp hc
  refine ⟨(digits.rtakeWhile (· = '0')).length, ?_⟩
  rw [← List.eq_replicate_of_mem hzeros, List.rdropWhile_append_rtakeWhile]

theorem trimFraction_eq (digits : List Char) :
    trimFraction digits = if digits.rdropWhile (· = '0') = [] then ['0']
      else digits.rdropWhile (· = '0') := rfl

theorem trimFraction_ne_nil (digits : List Char) : trimFraction digits ≠ [] := by
  rw [trimFraction_eq]
  split
  · simp
  · assumption

theorem all_isDigit_trimFraction {digits : List Char} (h : digits.all Char.isDigit = true) :
    (trimFraction digits).all Char.isDigit = true := by
  rw [List.all_eq_true] at h ⊢
  intro c hc
  rw [trimFraction_eq] at hc
  split at hc
  · obtain rfl : c = '0' := by simpa using hc
    rfl
  · exact h c ((List.rdropWhile_prefix (· = '0') digits).subset hc)

/-- Trimming a fraction does not change its value. -/
theorem digitsValue_trimFraction (digits : List Char) :
    digitsValue (trimFraction digits) * 10 ^ digits.length =
      digitsValue digits * 10 ^ (trimFraction digits).length := by
  obtain ⟨zeros, hzeros⟩ := exists_zeros digits
  by_cases hkept : digits.rdropWhile (· = '0') = []
  · have htrim : trimFraction digits = ['0'] := if_pos hkept
    rw [hkept, List.nil_append] at hzeros
    rw [htrim, hzeros, digitsValue_replicate_zero, Nat.zero_mul]
    exact Nat.zero_mul _
  · have htrim : trimFraction digits = digits.rdropWhile (· = '0') := if_neg hkept
    rw [← htrim] at hzeros
    generalize trimFraction digits = kept at hzeros
    rw [hzeros, digitsValue_append, digitsValue_replicate_zero, List.length_append,
      List.length_replicate, Nat.add_zero, Nat.pow_add, Nat.mul_assoc, Nat.mul_comm (10 ^ zeros)]

/-- The digits of a fraction, with the zeros in front of them. -/
def fractionDigits (fraction places : Nat) : List Char :=
  List.replicate (places - (decimalDigits fraction).length) '0' ++ decimalDigits fraction

theorem length_fractionDigits {fraction places : Nat} (hp : 0 < places)
    (h : fraction < 10 ^ places) : (fractionDigits fraction places).length = places := by
  have := length_decimalDigits_le hp h
  simp only [fractionDigits, List.length_append, List.length_replicate]
  omega

@[simp] theorem digitsValue_fractionDigits (fraction places : Nat) :
    digitsValue (fractionDigits fraction places) = fraction := by
  rw [fractionDigits, digitsValue_append, digitsValue_replicate_zero, Nat.zero_mul, Nat.zero_add,
    digitsValue_decimalDigits]

theorem all_isDigit_fractionDigits (fraction places : Nat) :
    (fractionDigits fraction places).all Char.isDigit = true := by
  rw [fractionDigits, List.all_append, all_isDigit_decimalDigits, Bool.and_true, List.all_replicate]
  split <;> rfl

/-- The digits before and after a point have the value of a decimal. -/
def Writes (coefficient : Nat) (exponent : Int) (before after : List Char) : Prop :=
  match exponent with
  | .ofNat power => digitsValue (before ++ after) = coefficient * 10 ^ power * 10 ^ after.length
  | .negSucc power =>
    digitsValue (before ++ after) * 10 ^ (power + 1) = coefficient * 10 ^ after.length

theorem exists_positional (coefficient : Nat) (exponent : Int) : ∃ before after,
    positional coefficient exponent = before ++ '.' :: after ∧ before ≠ [] ∧ after ≠ [] ∧
      before.all Char.isDigit = true ∧ after.all Char.isDigit = true ∧
      Writes coefficient exponent before after := by
  cases exponent with
  | ofNat power =>
    refine ⟨_, ['0'], rfl, decimalDigits_ne_nil _, by simp, all_isDigit_decimalDigits _, rfl, ?_⟩
    rw [Writes, digitsValue_append, digitsValue_decimalDigits]
    rfl
  | negSucc power =>
    refine ⟨decimalDigits (coefficient / 10 ^ (power + 1)),
      trimFraction (fractionDigits (coefficient % 10 ^ (power + 1)) (power + 1)), rfl,
      decimalDigits_ne_nil _, trimFraction_ne_nil _, all_isDigit_decimalDigits _,
      all_isDigit_trimFraction (all_isDigit_fractionDigits _ _), ?_⟩
    have hpos : 0 < 10 ^ (power + 1) := Nat.pow_pos (by decide)
    have htrim := digitsValue_trimFraction
      (fractionDigits (coefficient % 10 ^ (power + 1)) (power + 1))
    rw [length_fractionDigits (Nat.succ_pos power) (Nat.mod_lt _ hpos),
      digitsValue_fractionDigits] at htrim
    generalize trimFraction (fractionDigits (coefficient % 10 ^ (power + 1)) (power + 1)) =
      after at htrim ⊢
    calc digitsValue (decimalDigits (coefficient / 10 ^ (power + 1)) ++ after) * 10 ^ (power + 1)
        = (coefficient / 10 ^ (power + 1)) * 10 ^ after.length * 10 ^ (power + 1) +
            digitsValue after * 10 ^ (power + 1) := by
          rw [digitsValue_append, digitsValue_decimalDigits, Nat.add_mul]
      _ = (coefficient / 10 ^ (power + 1) * 10 ^ (power + 1) + coefficient % 10 ^ (power + 1)) *
            10 ^ after.length := by
          rw [htrim, Nat.add_mul, Nat.mul_right_comm]
      _ = coefficient * 10 ^ after.length := by rw [Nat.div_add_mod']

/-- A decimal is rounded alike however it is written. -/
theorem nearestDecimal_of_writes {coefficient : Nat} {exponent : Int} {before after : List Char}
    (h : Writes coefficient exponent before after) (hafter : after ≠ [])
    (hfinite : nearestDecimal coefficient exponent < infinite) :
    nearestDecimal (digitsValue (before ++ after)) (0 - after.length) =
      nearestDecimal coefficient exponent := by
  obtain ⟨places, hplaces⟩ : ∃ places, after.length = places + 1 :=
    Nat.exists_eq_succ_of_ne_zero (mt List.length_eq_zero_iff.1 hafter)
  have hpos : ∀ n : Nat, 0 < 10 ^ n := fun n => Nat.pow_pos (by decide)
  have hexponent : (0 : Int) - after.length = .negSucc places := by omega
  rw [hexponent, nearestDecimal_negSucc]
  cases exponent with
  | ofNat power =>
    rw [nearestDecimal_ofNat hfinite]
    refine nearest_congr (hpos _) Nat.one_pos ?_
    rw [h, hplaces, Nat.mul_one, Nat.mul_right_comm]
  | negSucc power =>
    rw [nearestDecimal_negSucc]
    refine nearest_congr (hpos _) (hpos _) ?_
    rw [Nat.mul_right_comm, h, hplaces, Nat.mul_right_comm]

theorem magnitudeText_of_lt {magnitude : Nat} (h : magnitude < infinite) :
    magnitudeText magnitude = positional (shortest magnitude).1 (shortest magnitude).2 := by
  rw [magnitudeText, if_pos h]

theorem exists_magnitudeText {magnitude : Nat} (h : magnitude < infinite) : ∃ before after,
    magnitudeText magnitude = before ++ '.' :: after ∧ before ≠ [] ∧
      before.all Char.isDigit = true ∧ after.all Char.isDigit = true ∧
      nearestDecimal (digitsValue (before ++ after)) (0 - after.length) = magnitude := by
  have hshortest := nearestDecimal_shortest magnitude
  have htext := magnitudeText_of_lt h
  generalize shortest magnitude = decimal at hshortest htext
  obtain ⟨before, after, hparts, hbefore, hafter, hb, ha, hwrites⟩ :=
    exists_positional decimal.1 decimal.2
  refine ⟨before, after, htext.trans hparts, hbefore, hb, ha, ?_⟩
  rw [nearestDecimal_of_writes hwrites hafter (by rwa [hshortest]), hshortest]

end Binary64

namespace Grammar

open Numeral

/-! ## Literals -/

/-- The digits of a whole numeral are digits. -/
theorem digits_of_whole {token digits : List Char} {negative : Bool}
    (h : ofToken? token = some (.whole negative digits)) :
    digits ≠ [] ∧ digits.all Char.isDigit = true := by
  simp only [ofToken?] at h
  split at h
  · split at h
    · simp at h
    · next hne =>
      obtain ⟨-, rfl⟩ := Numeral.whole.inj (Option.some.inj h)
      exact ⟨hne, all_splitDigits _⟩
  all_goals
    rw [ofParts?] at h
    split at h
    · simp at h
    · simp at h

/-- A literal is a whole number that is not too long, or a finite number. -/
theorem literal?_cases {negative : Bool} {token : List Char} {number : Formula}
    (h : literal? negative token = .ok (some number)) :
    (∃ value, number = .integer value ∧ (decimalDigits value.natAbs).length ≤ digitLimit) ∨
      ∃ value, number = .decimal value ∧ value.isFinite = true := by
  unfold literal? at h
  split at h
  · simp at h
  · next minus digits hwhole =>
    obtain ⟨hne, hdigits⟩ := digits_of_whole hwhole
    split at h
    · simp at h
    · next hlimit =>
      obtain rfl := Option.some.inj (Except.ok.inj h)
      refine .inl ⟨_, rfl, ?_⟩
      have habs : (if minus = negative then (digitsValue digits : Int)
          else -(digitsValue digits : Int)).natAbs = digitsValue digits := by
        split <;> simp
      rw [habs]
      exact (length_decimalDigits_le (List.length_pos_of_ne_nil hne) (digitsValue_lt hdigits)).trans
        (Nat.not_lt.1 hlimit)
  · simp only at h
    split at h
    · next hfinite =>
      obtain rfl := Option.some.inj (Except.ok.inj h)
      exact .inr ⟨_, rfl, hfinite⟩
    · simp at h

/-- The digits of a whole number, with a sign or without, stand for the number. -/
theorem literal?_decimalDigits {sign : List Char} (hs : IsSign sign) (negative : Bool) {n : Nat}
    (h : (decimalDigits n).length ≤ digitLimit) :
    literal? negative (sign ++ decimalDigits n) =
      .ok (some (.integer (if decide (sign = ['-']) = negative then n else -n))) := by
  rw [literal?, ofToken?_digits hs (decimalDigits_ne_nil n) (all_isDigit_decimalDigits n)]
  simp only [digitsValue_decimalDigits, if_neg (Nat.not_lt.2 h)]

/-- The text of a finite number, with a sign or without, stands for the number. -/
theorem literal?_magnitudeText {sign : List Char} (hs : IsSign sign) (negative : Bool)
    {magnitude : Nat} (hlt : magnitude < 2 ^ (63 : Nat)) (h : magnitude < Binary64.infinite) :
    literal? negative (sign ++ Binary64.magnitudeText magnitude) =
      .ok (some (.decimal ⟨decide (sign = ['-']) != negative, magnitude, hlt⟩)) := by
  obtain ⟨before, after, htext, hbefore, hb, ha, hnearest⟩ := Binary64.exists_magnitudeText h
  have htoken : ofToken? (sign ++ (before ++ '.' :: (after ++ []))) =
      some (.decimal (decide (sign = ['-'])) (digitsValue (before ++ after)) (0 - after.length)) := by
    rw [ofToken?_point hs hb ha (by simp), ofParts?, if_neg (by simp [hbefore])]
    rfl
  rw [List.append_nil, ← htext] at htoken
  rw [literal?, htoken]
  simp only [Binary64.ofDecimal, hnearest, Nat.min_eq_left (Nat.le_of_lt h), Binary64.isFinite, h,
    decide_true, if_true]

end Grammar

end Drafting
