import Drafting.Proofs.Number.ReadBack
import Mathlib.Algebra.Order.Field.Power
import Mathlib.Algebra.Order.Field.Rat
import Mathlib.Tactic.FieldSimp

/-!
# Numerals taken apart

A numeral is a sign, digits before a point, digits after it, and a power of ten, of which each may be
left out, but not all digits. Its value is the sum of what its digits stand for, times the power of
ten. The reading of a token as a numeral finds these parts.

## Main definitions

* `Numeral.Parts` — the parts of a numeral.
* `Numeral.Parts.value` — the exact value.
* `Numeral.Parts.significant` — the digits without the zeros at both ends.
* `Numeral.Parts.Spells` — the tokens that these parts make up.

Main statements: `Numeral.exists_spells` and `Numeral.Parts.Spells.ofToken?`.
-/

namespace Drafting.Numeral

/-- The parts of a numeral. -/
structure Parts where
  negative : Bool
  before : List Char
  after : List Char
  exponent : Int
  all_isDigit : (before ++ after).all Char.isDigit = true
  ne_nil : before ++ after ≠ []

/-- The text is a power of ten as it stands at the end of a numeral, or empty. -/
inductive IsPower : List Char → Int → Prop
  | none : IsPower [] 0
  | power {mark : Char} {sign digits : List Char} (hmark : mark = 'e' ∨ mark = 'E')
      (hsign : IsSign sign) (hne : digits ≠ []) (hdigits : digits.all Char.isDigit = true) :
      IsPower (mark :: (sign ++ digits))
        (if sign = ['-'] then -(digitsValue digits : Int) else digitsValue digits)

theorem abs_ite_neg {value : ℚ} (h : 0 ≤ value) (negative : Bool) :
    |if negative then -value else value| = value := by
  split
  · rw [abs_neg, abs_of_nonneg h]
  · exact abs_of_nonneg h

namespace Parts

variable (parts : Parts)

/-- The value without the sign. -/
def size : ℚ :=
  (digitsValue parts.before + digitsValue parts.after / 10 ^ parts.after.length) *
    10 ^ parts.exponent

def value : ℚ := if parts.negative then -parts.size else parts.size

/-- The digits from the first to the last that is not zero. -/
def significant : List Char :=
  ((parts.before ++ parts.after).dropWhile (· = '0')).rdropWhile (· = '0')

/-- The token is made up of the parts, with a point before the digits after it, which may only be
missing with them. -/
def Spells (token : List Char) : Prop :=
  ∃ sign point tail, IsSign sign ∧ parts.negative = decide (sign = ['-']) ∧
    (point = [] ∧ parts.after = [] ∨ point = ['.']) ∧ IsPower tail parts.exponent ∧
    token = sign ++ (parts.before ++ (point ++ (parts.after ++ tail)))

variable {parts}

theorem all_isDigit_before (parts : Parts) : parts.before.all Char.isDigit = true := by
  have h := parts.all_isDigit
  rw [List.all_append, Bool.and_eq_true] at h
  exact h.1

theorem all_isDigit_after (parts : Parts) : parts.after.all Char.isDigit = true := by
  have h := parts.all_isDigit
  rw [List.all_append, Bool.and_eq_true] at h
  exact h.2

theorem size_eq (parts : Parts) : parts.size =
    digitsValue (parts.before ++ parts.after) * 10 ^ (parts.exponent - parts.after.length) := by
  rw [size, digitsValue_append, zpow_sub₀ (by norm_num), zpow_natCast, Nat.cast_add, Nat.cast_mul,
    Nat.cast_pow, Nat.cast_ofNat]
  field_simp

theorem size_nonneg (parts : Parts) : 0 ≤ parts.size := by
  rw [size_eq]
  exact mul_nonneg (Nat.cast_nonneg _) (zpow_nonneg (by norm_num) _)

theorem abs_value (parts : Parts) : |parts.value| = parts.size :=
  abs_ite_neg parts.size_nonneg _

end Parts

/-! ## Tokens -/

theorem IsPower.exponentOf? {tail : List Char} {exponent : Int} (h : IsPower tail exponent) :
    exponentOf? tail = some exponent := by
  cases h with
  | none => rfl
  | @power mark sign digits hmark hsign hne hdigits =>
    have hsplit : splitSign (sign ++ digits) = (decide (sign = ['-']), digits) :=
      splitSign_append hsign (by simpa using head?_not_sign [] hne hdigits)
    simp [Numeral.exponentOf?, hsplit, hmark, hne, hdigits]

theorem IsPower.mem {tail : List Char} {exponent : Int} (h : IsPower tail exponent) :
    tail = [] ∨ tail ∈ exponentPattern.matches' := by
  rw [← exponentOf?_isSome_iff, h.exponentOf?]
  rfl

theorem exists_isPower {tail : List Char} (h : tail = [] ∨ tail ∈ exponentPattern.matches') :
    ∃ exponent, IsPower tail exponent := by
  rcases h with rfl | h
  · exact ⟨0, .none⟩
  · obtain ⟨mark, sign, digits, hmark, hsign, hne, hdigits, rfl⟩ := mem_exponentPattern.1 h
    exact ⟨_, .power hmark hsign hne hdigits⟩

/-- Every numeral has parts. -/
theorem exists_spells {token : List Char} (h : IsNumeral token) :
    ∃ parts : Parts, parts.Spells token := by
  rcases h with h | h
  · obtain ⟨sign, digits, hs, hne, hd, rfl⟩ := mem_wholePattern.1 h
    refine ⟨⟨decide (sign = ['-']), digits, [], 0, by simpa using hd, by simpa using hne⟩, sign, [], [],
      hs, rfl, .inl ⟨rfl, rfl⟩, .none, by simp⟩
  · obtain ⟨sign, _, tail, hs, ⟨before, after, hb, ha, hpoint⟩, ht, rfl⟩ := mem_decimalPattern.1 h
    obtain ⟨exponent, hpower⟩ := exists_isPower ht
    rcases hpoint with ⟨rfl, hne⟩ | ⟨rfl, hne⟩
    · refine ⟨⟨decide (sign = ['-']), _, [], exponent, by simpa using hb, by simpa using hne⟩, sign, [],
        tail, hs, rfl, .inl ⟨rfl, rfl⟩, hpower, by simp⟩
    · refine ⟨⟨decide (sign = ['-']), before, after, exponent, by simp [hb, ha], ?_⟩, sign, ['.'], tail,
        hs, rfl, .inr rfl, hpower, by simp⟩
      rw [ne_eq, List.append_eq_nil_iff]
      exact fun hnil => hne.elim (· hnil.1) (· hnil.2)

theorem ofParts?_of_isPower {parts : Parts} {tail : List Char} (h : IsPower tail parts.exponent) :
    ofParts? parts.negative parts.before parts.after tail =
      some (.decimal parts.negative (digitsValue (parts.before ++ parts.after))
        (parts.exponent - parts.after.length)) := by
  rw [ofParts?, if_neg (mt List.append_eq_nil_iff.2 parts.ne_nil), h.exponentOf?]
  rfl

/-- What is read as a decimal is no whole numeral. -/
theorem not_mem_wholePattern {token : List Char} {negative : Bool} {coefficient : Nat}
    {exponent : Int} (h : ofToken? token = some (.decimal negative coefficient exponent)) :
    token ∉ wholePattern.matches' := by
  intro hwhole
  obtain ⟨sign, digits, hs, hne, hd, rfl⟩ := mem_wholePattern.1 hwhole
  simp [ofToken?_digits hs hne hd] at h

/-- The reading of a token finds the parts: those of a whole numeral, which has nothing but digits, or
those of a decimal. -/
theorem Parts.Spells.ofToken? {parts : Parts} {token : List Char} (h : parts.Spells token) :
    (token ∈ wholePattern.matches' ∧ parts.after = [] ∧ parts.exponent = 0 ∧
        ofToken? token = some (.whole parts.negative parts.before)) ∨
      (token ∉ wholePattern.matches' ∧
        ofToken? token = some (.decimal parts.negative (digitsValue (parts.before ++ parts.after))
          (parts.exponent - parts.after.length))) := by
  obtain ⟨sign, point, tail, hs, hnegative, hpoint, hpower, rfl⟩ := h
  have hb := parts.all_isDigit_before
  have hparts := ofParts?_of_isPower hpower
  rcases hpoint with ⟨rfl, hafter⟩ | rfl
  · have hbefore : parts.before ≠ [] := by simpa [hafter] using parts.ne_nil
    rw [List.nil_append, hafter, List.nil_append]
    rcases hpower.mem with rfl | hmem
    · rw [List.append_nil]
      refine .inl ⟨mem_wholePattern.2 ⟨sign, _, hs, hbefore, hb, rfl⟩, rfl, ?_, ?_⟩
      · exact (Option.some.inj hpower.exponentOf?).symm
      · rw [ofToken?_digits hs hbefore hb, hnegative]
    · have hread := ofToken?_exponent hs hbefore hb hmem
      rw [← hnegative, ← hafter, hparts] at hread
      exact .inr ⟨not_mem_wholePattern hread, hafter ▸ hread⟩
  · have hread := ofToken?_point hs hb parts.all_isDigit_after
      fun c hc => (head?_exponent hpower.mem c hc).1
    rw [← hnegative, hparts] at hread
    exact .inr ⟨not_mem_wholePattern hread, hread⟩

end Drafting.Numeral
