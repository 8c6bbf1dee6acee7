import Drafting.Number.Numeral
import Mathlib.Computability.RegularExpressions
import Mathlib.Tactic.IntervalCases

/-!
# The patterns of numerals

The two regular expressions that numerals match, and the proof that the reading of a token as a
numeral succeeds exactly on the tokens that match one of them.

## Main definitions

* `Numeral.wholePattern` — a sign or none, and digits.
* `Numeral.decimalPattern` — the same with a point, a power of ten, or both.
* `Numeral.IsNumeral` — the tokens that match one of the two.

Main statement: `Numeral.ofToken?_eq_none_iff`.
-/

namespace Drafting.Numeral

open RegularExpression

/-! ## The patterns -/

/-- One of the given characters. -/
def oneOf (cs : List Char) : RegularExpression Char := cs.foldr (fun c p => char c + p) 0

def optional (p : RegularExpression Char) : RegularExpression Char := 1 + p

def signPattern : RegularExpression Char := optional (oneOf ['+', '-'])

def digitPattern : RegularExpression Char :=
  oneOf ['0', '1', '2', '3', '4', '5', '6', '7', '8', '9']

/-- At least one digit. -/
def digitsPattern : RegularExpression Char := digitPattern * star digitPattern

/-- `[+-]?[0-9]+` -/
def wholePattern : RegularExpression Char := signPattern * digitsPattern

/-- `[eE][+-]?[0-9]+` -/
def exponentPattern : RegularExpression Char := oneOf ['e', 'E'] * (signPattern * digitsPattern)

/-- `[0-9]+\.?[0-9]*|\.[0-9]+` -/
def significandPattern : RegularExpression Char :=
  digitsPattern * (optional (char '.') * star digitPattern) + char '.' * digitsPattern

/-- `[+-]?(?:[0-9]+\.?[0-9]*|\.[0-9]+)(?:[eE][+-]?[0-9]+)?` -/
def decimalPattern : RegularExpression Char :=
  signPattern * (significandPattern * optional exponentPattern)

/-- The tokens that are numbers. -/
def IsNumeral (token : List Char) : Prop :=
  token ∈ wholePattern.matches' ∨ token ∈ decimalPattern.matches'

/-! ## What the parts of a pattern match -/

/-- A sign or none. -/
def IsSign (sign : List Char) : Prop := sign = [] ∨ sign = ['+'] ∨ sign = ['-']

theorem mem_oneOf {cs text : List Char} : text ∈ (oneOf cs).matches' ↔ ∃ c ∈ cs, text = [c] := by
  induction cs with
  | nil => simp [oneOf, matches'_zero, Language.notMem_zero]
  | cons c cs ih =>
    change text ∈ (char c + oneOf cs).matches' ↔ _
    rw [matches'_add, Language.mem_add, ih, matches'_char]
    change text = [c] ∨ _ ↔ _
    simp

theorem mem_optional {p : RegularExpression Char} {text : List Char} :
    text ∈ (optional p).matches' ↔ text = [] ∨ text ∈ p.matches' := by
  rw [optional, matches'_add, Language.mem_add, matches'_epsilon, Language.mem_one]

theorem mem_mul {p q : RegularExpression Char} {text : List Char} :
    text ∈ (p * q).matches' ↔ ∃ a ∈ p.matches', ∃ b ∈ q.matches', a ++ b = text := by
  rw [matches'_mul, Language.mem_mul]

theorem mem_signPattern {text : List Char} : text ∈ signPattern.matches' ↔ IsSign text := by
  simp [signPattern, mem_optional, mem_oneOf, IsSign]

theorem isDigit_iff_mem {c : Char} :
    c.isDigit = true ↔ c ∈ ['0', '1', '2', '3', '4', '5', '6', '7', '8', '9'] := by
  constructor
  · intro h
    obtain ⟨n, hn⟩ : ∃ n, c.toNat = n := ⟨_, rfl⟩
    simp only [Char.isDigit, ge_iff_le, Bool.and_eq_true, decide_eq_true_eq,
      UInt32.le_iff_toNat_le] at h
    obtain ⟨h₁, h₂⟩ : 48 ≤ n ∧ n ≤ 57 := hn ▸ h
    rw [← Char.ofNat_toNat c, hn]
    interval_cases n <;> decide
  · intro h
    simp only [List.mem_cons, List.not_mem_nil, or_false] at h
    rcases h with rfl | rfl | rfl | rfl | rfl | rfl | rfl | rfl | rfl | rfl <;> rfl

theorem mem_digitPattern {text : List Char} :
    text ∈ digitPattern.matches' ↔ ∃ c, c.isDigit = true ∧ text = [c] := by
  simp only [digitPattern, mem_oneOf, isDigit_iff_mem]

theorem mem_star_digitPattern {text : List Char} :
    text ∈ (star digitPattern).matches' ↔ text.all Char.isDigit = true := by
  rw [matches'_star, Language.mem_kstar]
  constructor
  · rintro ⟨parts, rfl, h⟩
    simp only [List.all_flatten, List.all_eq_true]
    intro part hp
    obtain ⟨c, hc, rfl⟩ := mem_digitPattern.1 (h part hp)
    simpa using hc
  · intro h
    refine ⟨text.map fun c => [c], ?_, ?_⟩
    · clear h
      induction text with
      | nil => rfl
      | cons c text ih => rw [List.map_cons, List.flatten_cons, ← ih, List.singleton_append]
    · intro part hp
      obtain ⟨c, hc, rfl⟩ := List.mem_map.1 hp
      exact mem_digitPattern.2 ⟨c, List.all_eq_true.1 h c hc, rfl⟩

theorem mem_digitsPattern {text : List Char} :
    text ∈ digitsPattern.matches' ↔ text ≠ [] ∧ text.all Char.isDigit = true := by
  simp only [digitsPattern, mem_mul, mem_digitPattern, mem_star_digitPattern]
  constructor
  · rintro ⟨_, ⟨c, hc, rfl⟩, body, hb, rfl⟩
    exact ⟨by simp, by rw [List.singleton_append, List.all_cons, hc, hb]; rfl⟩
  · rintro ⟨hne, h⟩
    obtain ⟨c, body, rfl⟩ := List.exists_cons_of_ne_nil hne
    simp only [List.all_cons, Bool.and_eq_true] at h
    exact ⟨[c], ⟨c, h.1, rfl⟩, body, h.2, rfl⟩

theorem mem_exponentPattern {text : List Char} :
    text ∈ exponentPattern.matches' ↔
      ∃ mark sign digits, (mark = 'e' ∨ mark = 'E') ∧ IsSign sign ∧ digits ≠ [] ∧
        digits.all Char.isDigit = true ∧ text = mark :: (sign ++ digits) := by
  simp only [exponentPattern, mem_mul, mem_oneOf, mem_signPattern, mem_digitsPattern]
  constructor
  · rintro ⟨_, ⟨mark, hm, rfl⟩, _, ⟨sign, hs, digits, ⟨hne, hd⟩, rfl⟩, rfl⟩
    exact ⟨mark, sign, digits, by simpa using hm, hs, hne, hd, rfl⟩
  · rintro ⟨mark, sign, digits, hm, hs, hne, hd, rfl⟩
    exact ⟨[mark], ⟨mark, by simpa using hm, rfl⟩, _, ⟨sign, hs, digits, ⟨hne, hd⟩, rfl⟩, rfl⟩

theorem mem_wholePattern {text : List Char} :
    text ∈ wholePattern.matches' ↔
      ∃ sign digits, IsSign sign ∧ digits ≠ [] ∧ digits.all Char.isDigit = true ∧
        text = sign ++ digits := by
  simp only [wholePattern, mem_mul, mem_signPattern, mem_digitsPattern]
  constructor
  · rintro ⟨sign, hs, digits, ⟨hne, hd⟩, rfl⟩
    exact ⟨sign, digits, hs, hne, hd, rfl⟩
  · rintro ⟨sign, digits, hs, hne, hd, rfl⟩
    exact ⟨sign, hs, digits, ⟨hne, hd⟩, rfl⟩

/-- A point with digits around it, or the digits alone. -/
def IsSignificand (text : List Char) : Prop :=
  ∃ before after, before.all Char.isDigit = true ∧ after.all Char.isDigit = true ∧
    (text = before ∧ before ≠ [] ∨
      text = before ++ '.' :: after ∧ (before ≠ [] ∨ after ≠ []))

theorem mem_significandPattern {text : List Char} :
    text ∈ significandPattern.matches' ↔ IsSignificand text := by
  simp only [significandPattern, matches'_add, Language.mem_add, mem_mul, mem_optional,
    mem_digitsPattern, mem_star_digitPattern, matches'_char]
  constructor
  · rintro (⟨before, ⟨hne, hb⟩, _, ⟨point, rfl | rfl, after, ha, rfl⟩, rfl⟩ |
      ⟨_, rfl, after, ⟨hne, ha⟩, rfl⟩)
    · exact ⟨before ++ after, [], by simp [hb, ha], rfl, .inl ⟨rfl, by simp [hne]⟩⟩
    · exact ⟨before, after, hb, ha, .inr ⟨rfl, .inl hne⟩⟩
    · exact ⟨[], after, rfl, ha, .inr ⟨rfl, .inr hne⟩⟩
  · rintro ⟨before, after, hb, ha, ⟨rfl, hne⟩ | ⟨rfl, hne⟩⟩
    · exact .inl ⟨text, ⟨hne, hb⟩, [], ⟨[], .inl rfl, [], rfl, rfl⟩, by simp⟩
    · by_cases h : before = []
      · subst h
        exact .inr ⟨['.'], rfl, after, ⟨by simpa using hne, ha⟩, rfl⟩
      · exact .inl ⟨before, ⟨h, hb⟩, _, ⟨['.'], .inr rfl, after, ha, rfl⟩, rfl⟩

theorem mem_decimalPattern {text : List Char} :
    text ∈ decimalPattern.matches' ↔
      ∃ sign significand tail, IsSign sign ∧ IsSignificand significand ∧
        (tail = [] ∨ tail ∈ exponentPattern.matches') ∧ text = sign ++ (significand ++ tail) := by
  simp only [decimalPattern, mem_mul, mem_signPattern, mem_significandPattern, mem_optional]
  constructor
  · rintro ⟨sign, hs, _, ⟨significand, hn, tail, ht, rfl⟩, rfl⟩
    exact ⟨sign, significand, tail, hs, hn, ht, rfl⟩
  · rintro ⟨sign, significand, tail, hs, hn, ht, rfl⟩
    exact ⟨sign, hs, _, ⟨significand, hn, tail, ht, rfl⟩, rfl⟩

/-! ## The characters of a numeral -/

theorem IsSign.mem {sign : List Char} (h : IsSign sign) {c : Char} (hc : c ∈ sign) :
    c ∈ ['+', '-'] := by
  rcases h with rfl | rfl | rfl
  · simp at hc
  · exact List.mem_cons.2 (.inl (List.mem_singleton.1 hc))
  · exact List.mem_cons_of_mem _ hc

theorem IsSignificand.mem {text : List Char} (h : IsSignificand text) {c : Char} (hc : c ∈ text) :
    c.isDigit = true ∨ c = '.' := by
  obtain ⟨before, after, hb, ha, ⟨rfl, -⟩ | ⟨rfl, -⟩⟩ := h
  · exact .inl (List.all_eq_true.1 hb c hc)
  · grind

/-- A numeral has nothing but digits, signs, points and marks of an exponent. -/
theorem IsNumeral.mem {token : List Char} (h : IsNumeral token) {c : Char} (hc : c ∈ token) :
    c.isDigit = true ∨ c ∈ ['+', '-', '.', 'e', 'E'] := by
  rcases h with h | h
  · obtain ⟨sign, digits, hs, -, hd, rfl⟩ := mem_wholePattern.1 h
    rcases List.mem_append.1 hc with hc | hc
    · have hsign := hs.mem hc
      grind
    · exact .inl (List.all_eq_true.1 hd c hc)
  · obtain ⟨sign, significand, tail, hs, hn, ht, rfl⟩ := mem_decimalPattern.1 h
    rcases List.mem_append.1 hc with hc | hc
    · have hsign := hs.mem hc
      grind
    rcases List.mem_append.1 hc with hc | hc
    · rcases hn.mem hc with hdigit | rfl
      · exact .inl hdigit
      · exact .inr (by decide)
    · obtain rfl | ht := ht
      · simp at hc
      obtain ⟨mark, sign', digits, hmark, hs', -, hd, rfl⟩ := mem_exponentPattern.1 ht
      rcases List.mem_cons.1 hc with rfl | hc
      · grind
      rcases List.mem_append.1 hc with hc | hc
      · have hsign := hs'.mem hc
        grind
      · exact .inl (List.all_eq_true.1 hd c hc)

/-! ## The reading of a numeral -/

theorem splitSign_append {sign body : List Char} (hs : IsSign sign)
    (hb : ∀ c ∈ body.head?, c ≠ '+' ∧ c ≠ '-') :
    splitSign (sign ++ body) = (decide (sign = ['-']), body) := by
  rcases hs with rfl | rfl | rfl
  · cases body with
    | nil => rfl
    | cons c body =>
      have hc := hb c rfl
      rw [List.nil_append, splitSign]
      · rfl
      · rintro text h
        exact hc.2 (List.cons.inj h).1
      · rintro text h
        exact hc.1 (List.cons.inj h).1
  · rfl
  · rfl

/-- A text is its sign and what follows it. -/
theorem exists_splitSign (text : List Char) :
    ∃ sign, IsSign sign ∧ text = sign ++ (splitSign text).2 := by
  unfold splitSign
  split
  · exact ⟨['-'], by simp [IsSign]⟩
  · exact ⟨['+'], by simp [IsSign]⟩
  · exact ⟨[], by simp [IsSign]⟩

theorem splitDigits_append {digits rest : List Char} (hd : digits.all Char.isDigit = true)
    (hr : ∀ c ∈ rest.head?, c.isDigit = false) : splitDigits (digits ++ rest) = (digits, rest) := by
  induction digits with
  | nil =>
    cases rest with
    | nil => rfl
    | cons c rest => simp [splitDigits, hr c rfl]
  | cons d digits ih =>
    simp only [List.all_cons, Bool.and_eq_true] at hd
    have := ih hd.2
    simp_all [splitDigits]

theorem all_splitDigits (text : List Char) : (splitDigits text).1.all Char.isDigit = true :=
  List.all_takeWhile

theorem splitDigits_eq (text : List Char) : text = (splitDigits text).1 ++ (splitDigits text).2 :=
  List.takeWhile_append_dropWhile.symm

/-- No digit is a sign. -/
theorem not_sign_of_isDigit {c : Char} (h : c.isDigit = true) : c ≠ '+' ∧ c ≠ '-' := by
  constructor <;> (rintro rfl; revert h; decide)

theorem head?_not_sign {digits : List Char} (rest : List Char) (hne : digits ≠ [])
    (hd : digits.all Char.isDigit = true) : ∀ c ∈ (digits ++ rest).head?, c ≠ '+' ∧ c ≠ '-' := by
  obtain ⟨d, digits, rfl⟩ := List.exists_cons_of_ne_nil hne
  simp only [List.all_cons, Bool.and_eq_true] at hd
  rintro c ⟨⟩
  exact not_sign_of_isDigit hd.1

theorem exponentOf?_isSome_iff {tail : List Char} :
    (exponentOf? tail).isSome = true ↔ tail = [] ∨ tail ∈ exponentPattern.matches' := by
  cases tail with
  | nil => simp [exponentOf?]
  | cons mark text =>
    simp only [exponentOf?, reduceCtorEq, false_or, mem_exponentPattern]
    constructor
    · intro h
      split at h
      · next hc =>
        obtain ⟨sign, hs, ht⟩ := exists_splitSign text
        exact ⟨mark, sign, _, hc.1, hs, hc.2.1, hc.2.2, by rw [← ht]⟩
      · simp at h
    · rintro ⟨mark', sign, digits, hm, hs, hne, hd, heq⟩
      obtain ⟨rfl, rfl⟩ := List.cons.inj heq
      have hsplit : splitSign (sign ++ digits) = (decide (sign = ['-']), digits) :=
        splitSign_append hs (by simpa using head?_not_sign [] hne hd)
      rw [hsplit, if_pos ⟨hm, hne, hd⟩]
      rfl

theorem ofParts?_isSome_iff {negative : Bool} {before after tail : List Char} :
    (ofParts? negative before after tail).isSome = true ↔
      (before ≠ [] ∨ after ≠ []) ∧ (tail = [] ∨ tail ∈ exponentPattern.matches') := by
  rw [← exponentOf?_isSome_iff, ofParts?]
  split
  · next h => simp [h.1, h.2]
  · next h =>
    rw [Option.isSome_map]
    exact ⟨fun hs => ⟨by rwa [not_and_or] at h, hs⟩, fun hs => hs.2⟩

/-- Digits after a sign are a whole numeral. -/
theorem ofToken?_digits {sign digits : List Char} (hs : IsSign sign) (hne : digits ≠ [])
    (hd : digits.all Char.isDigit = true) :
    ofToken? (sign ++ digits) = some (.whole (decide (sign = ['-'])) digits) := by
  have hsplit : splitSign (sign ++ digits) = (decide (sign = ['-']), digits) :=
    splitSign_append hs (by simpa using head?_not_sign [] hne hd)
  have hdigits : splitDigits (digits ++ []) = (digits, []) := splitDigits_append hd (by simp)
  rw [List.append_nil] at hdigits
  simp [ofToken?, hsplit, hdigits, hne]

/-- Digits around a point, and what follows them. -/
theorem ofToken?_point {sign before after tail : List Char} (hs : IsSign sign)
    (hb : before.all Char.isDigit = true) (ha : after.all Char.isDigit = true)
    (ht : ∀ c ∈ tail.head?, c.isDigit = false) :
    ofToken? (sign ++ (before ++ '.' :: (after ++ tail))) =
      ofParts? (decide (sign = ['-'])) before after tail := by
  have hhead : ∀ c ∈ (before ++ '.' :: (after ++ tail)).head?, c ≠ '+' ∧ c ≠ '-' := by
    by_cases h : before = []
    · subst h
      rintro c ⟨⟩
      decide
    · exact head?_not_sign _ h hb
  have hbefore : splitDigits (before ++ '.' :: (after ++ tail)) = (before, '.' :: (after ++ tail)) :=
    splitDigits_append hb (by rintro c ⟨⟩; decide)
  simp [ofToken?, splitSign_append hs hhead, hbefore, splitDigits_append ha ht]

/-- The mark of a power of ten is no digit. -/
theorem head?_exponent {tail : List Char} (h : tail = [] ∨ tail ∈ exponentPattern.matches') :
    ∀ c ∈ tail.head?, c.isDigit = false ∧ c ≠ '.' := by
  rcases h with rfl | h
  · simp
  · obtain ⟨mark, sign, digits, rfl | rfl, -, -, -, rfl⟩ := mem_exponentPattern.1 h <;>
      (rintro c ⟨⟩; decide)

/-- Digits before a power of ten. -/
theorem ofToken?_exponent {sign before tail : List Char} (hs : IsSign sign) (hne : before ≠ [])
    (hb : before.all Char.isDigit = true) (ht : tail ∈ exponentPattern.matches') :
    ofToken? (sign ++ (before ++ tail)) =
      ofParts? (decide (sign = ['-'])) before [] tail := by
  have hhead := head?_exponent (.inr ht)
  have hbefore : splitDigits (before ++ tail) = (before, tail) :=
    splitDigits_append hb fun c hc => (hhead c hc).1
  obtain ⟨mark, rest, rfl⟩ : ∃ mark rest, tail = mark :: rest := by
    obtain ⟨mark, _, _, -, -, -, -, rfl⟩ := mem_exponentPattern.1 ht
    exact ⟨mark, _, rfl⟩
  have hmark := (hhead mark rfl).2
  simp only [ofToken?, splitSign_append hs (head?_not_sign _ hne hb), hbefore]
  split
  · next h => simp at h
  · next h => exact absurd (List.cons.inj h).1 hmark
  · rfl

theorem isNumeral_of_ofToken? {token : List Char} (h : (ofToken? token).isSome = true) :
    IsNumeral token := by
  obtain ⟨sign, hs, htoken⟩ := exists_splitSign token
  have hdigits := splitDigits_eq (splitSign token).2
  have hall := all_splitDigits (splitSign token).2
  simp only [ofToken?] at h
  split at h
  · next hrest =>
    split at h
    · simp at h
    · next hne =>
      rw [hrest, List.append_nil] at hdigits
      exact .inl (mem_wholePattern.2 ⟨sign, _, hs, hne, hall, by rw [← hdigits, ← htoken]⟩)
  · next rest hrest =>
    obtain ⟨hne, htail⟩ := ofParts?_isSome_iff.1 h
    refine .inr (mem_decimalPattern.2 ⟨sign, _, _, hs,
      ⟨_, _, hall, all_splitDigits rest, .inr ⟨rfl, hne⟩⟩, htail, ?_⟩)
    rw [List.append_assoc, List.cons_append, ← splitDigits_eq rest, ← hrest, ← hdigits, ← htoken]
  · obtain ⟨hne, htail⟩ := ofParts?_isSome_iff.1 h
    refine .inr (mem_decimalPattern.2 ⟨sign, _, _, hs,
      ⟨_, [], hall, rfl, .inl ⟨rfl, by simpa using hne⟩⟩, htail, ?_⟩)
    rw [← hdigits, ← htoken]

theorem ofToken?_of_isNumeral {token : List Char} (h : IsNumeral token) :
    (ofToken? token).isSome = true := by
  rcases h with h | h
  · obtain ⟨sign, digits, hs, hne, hd, rfl⟩ := mem_wholePattern.1 h
    simp [ofToken?_digits hs hne hd]
  · obtain ⟨sign, _, tail, hs, ⟨before, after, hb, ha, ⟨rfl, hne⟩ | ⟨rfl, hne⟩⟩, ht, rfl⟩ :=
      mem_decimalPattern.1 h
    · rcases ht with rfl | ht
      · rw [List.append_nil, ofToken?_digits hs hne hb]
        rfl
      · rw [ofToken?_exponent hs hne hb ht, ofParts?_isSome_iff]
        exact ⟨.inl hne, .inr ht⟩
    · rw [List.append_assoc, List.cons_append,
        ofToken?_point hs hb ha fun c hc => (head?_exponent ht c hc).1, ofParts?_isSome_iff]
      exact ⟨hne, ht⟩

/-- A token is read as a name exactly when it matches neither pattern. -/
theorem ofToken?_eq_none_iff {token : List Char} : ofToken? token = none ↔ ¬ IsNumeral token := by
  rw [← Option.not_isSome_iff_eq_none, not_iff_not]
  exact ⟨isNumeral_of_ofToken?, ofToken?_of_isNumeral⟩

end Drafting.Numeral
