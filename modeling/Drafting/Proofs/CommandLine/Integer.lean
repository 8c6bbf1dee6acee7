import Drafting.CommandLine.Integer
import Drafting.Proofs.Number.ReadBack

/-!
# Whole numbers read back from arguments

The decimal text of a whole number is an argument that stands for this number, unless it has more
digits than are read.

Main statement: `readInteger?_wholeText`.
-/

namespace Drafting

/-- The value of an ASCII digit. -/
def asciiValue (c : Char) : Nat := c.toNat - '0'.toNat

variable {c : Char} {digits : List Char}

theorem toNat_of_isDigit (h : c.isDigit = true) : 48 ≤ c.toNat ∧ c.toNat < 58 := by
  have hmem := Numeral.isDigit_iff_mem.1 h
  simp only [List.mem_cons, List.not_mem_nil, or_false] at hmem
  rcases hmem with rfl | rfl | rfl | rfl | rfl | rfl | rfl | rfl | rfl | rfl <;> decide

theorem decimalDigit?_of_isDigit (h : c.isDigit = true) :
    decimalDigit? c = some (asciiValue c) := by
  obtain ⟨hlow, hhigh⟩ := toNat_of_isDigit h
  simp [decimalDigit?, zeroDigits, hlow, hhigh, asciiValue]

theorem isSpacing_of_isDigit (h : c.isDigit = true) : isSpacing c = false := by
  obtain ⟨hlow, hhigh⟩ := toNat_of_isDigit h
  simp [isSpacing, spacings]
  omega

namespace CommandLine

theorem digitValues?_of_isDigit (hdigits : digits.all Char.isDigit = true) (h : digits ≠ []) :
    digitValues? digits = some (digits.map asciiValue) := by
  induction digits with
  | nil => exact absurd rfl h
  | cons c digits ih =>
    simp only [List.all_cons, Bool.and_eq_true] at hdigits
    have hvalue := decimalDigit?_of_isDigit hdigits.1
    cases digits with
    | nil => simp [digitValues?, hvalue]
    | cons d digits =>
      have hrest := ih hdigits.2 (by simp)
      have hunderscore : d ≠ '_' := by
        rintro rfl
        simp at hdigits
      rw [digitValues?]
      · simp [hvalue, hrest]
      all_goals simp [hunderscore]

theorem foldl_asciiValue (digits : List Char) (n : Nat) :
    (digits.map asciiValue).foldl (fun n d => 10 * n + d) n = Nat.ofDigitChars 10 digits n := by
  induction digits generalizing n with
  | nil => rfl
  | cons c digits ih => exact ih _

theorem trimSpacing_eq_self {text : List Char} (h : ∀ c ∈ text, isSpacing c = false) :
    trimSpacing text = text := by
  have hdrop (text : List Char) (h : ∀ c ∈ text, isSpacing c = false) :
      text.dropWhile isSpacing = text := by
    cases text with
    | nil => rfl
    | cons c text => simp [h c List.mem_cons_self]
  rw [trimSpacing, hdrop text h, hdrop text.reverse (by simpa using h), List.reverse_reverse]

/-- An optional sign and digits stand for the value of the digits, with the sign. -/
theorem readInteger?_append {sign : List Char} (hsign : Numeral.IsSign sign)
    (hdigits : digits.all Char.isDigit = true) (hne : digits ≠ [])
    (hlength : digits.length ≤ Numeral.digitLimit) :
    readInteger? (sign ++ digits) =
      some (if sign = ['-'] then -(digitsValue digits : Int) else digitsValue digits) := by
  have hspacing : ∀ c ∈ sign ++ digits, isSpacing c = false := by
    intro c hc
    rcases List.mem_append.1 hc with hc | hc
    · have hmem := hsign.mem hc
      simp only [List.mem_cons, List.not_mem_nil, or_false] at hmem
      rcases hmem with rfl | rfl <;> rfl
    · exact isSpacing_of_isDigit (List.all_eq_true.1 hdigits c hc)
  have hsplit : Numeral.splitSign (sign ++ digits) = (decide (sign = ['-']), digits) :=
    Numeral.splitSign_append hsign (by simpa using Numeral.head?_not_sign [] hne hdigits)
  have hvalue : (digits.map asciiValue).foldl (fun n d => 10 * n + d) 0 = digitsValue digits :=
    foldl_asciiValue digits 0
  simp [readInteger?, trimSpacing_eq_self hspacing, hsplit, digitValues?_of_isDigit hdigits hne,
    Nat.not_lt.2 hlength, hvalue]

/-- The decimal text of a whole number stands for this number. -/
theorem readInteger?_wholeText {n : Int}
    (h : (decimalDigits n.natAbs).length ≤ Numeral.digitLimit) :
    readInteger? (wholeText n) = some n := by
  have hread (sign : List Char) (hsign : Numeral.IsSign sign) :=
    readInteger?_append hsign (all_isDigit_decimalDigits n.natAbs) (decimalDigits_ne_nil _) h
  simp only [digitsValue_decimalDigits] at hread
  cases n with
  | ofNat n => exact hread [] (.inl rfl)
  | negSucc n => exact hread ['-'] (.inr (.inr rfl))

end CommandLine

end Drafting
