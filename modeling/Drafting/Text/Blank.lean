/-!
# Blanks and delimiters

The two classes of characters that cut a formula text into pieces. A blank separates, and carries
no meaning; a delimiter ends the token before it. Every blank is a delimiter. The signs `=` and `!`
are not delimiters, so that a comparison such as `a==b` written without blanks is one token.

## Main definitions

* `isBlank`, `isDelimiter` — the two classes.
* `dropBlanks` — a text without the blanks it starts with.
-/

namespace Drafting

/-- The blanks, in code point order. -/
def blanks : List Char := ['\t', '\n', ' ']

/-- The characters that end a token, in code point order. -/
def delimiters : List Char :=
  ['\t', '\n', ' ', '(', ')', '*', '+', ',', '-', '/', ':', ';', '<', '>', '?', '^']

/-- A blank is a space, a tab or a newline; no other space counts. -/
def isBlank (c : Char) : Bool := blanks.contains c

def isDelimiter (c : Char) : Bool := delimiters.contains c

theorem blanks_subset_delimiters : blanks ⊆ delimiters := by simp [blanks, delimiters]

theorem isDelimiter_of_isBlank {c : Char} (h : isBlank c = true) : isDelimiter c = true :=
  List.contains_iff_mem.2 (blanks_subset_delimiters (List.contains_iff_mem.1 h))

/-- The text from its first character that is no blank. -/
def dropBlanks (text : List Char) : List Char := text.dropWhile isBlank

@[simp] theorem dropBlanks_nil : dropBlanks [] = [] := rfl

theorem dropBlanks_cons (c : Char) (text : List Char) :
    dropBlanks (c :: text) = if isBlank c then dropBlanks text else c :: text := by
  simp [dropBlanks, List.dropWhile_cons]

/-- What is left never starts with a blank. -/
theorem isBlank_of_dropBlanks_eq_cons {c : Char} {text rest : List Char}
    (h : dropBlanks text = c :: rest) : isBlank c = false := by
  induction text with
  | nil => simp at h
  | cons d text ih =>
    rw [dropBlanks_cons] at h
    split at h
    · exact ih h
    · next hd => obtain ⟨rfl, -⟩ := List.cons.inj h; simpa using hd

theorem dropBlanks_eq_self_iff {text : List Char} :
    dropBlanks text = text ↔ ∀ c ∈ text.head?, isBlank c = false := by
  cases text with
  | nil => simp
  | cons c rest =>
    constructor
    · rintro h _ ⟨⟩
      exact isBlank_of_dropBlanks_eq_cons h
    · intro h
      rw [dropBlanks_cons, h c rfl]
      rfl

@[simp] theorem dropBlanks_dropBlanks (text : List Char) :
    dropBlanks (dropBlanks text) = dropBlanks text := by
  induction text with
  | nil => rfl
  | cons c text ih => rw [dropBlanks_cons]; split <;> simp_all [dropBlanks_cons]

theorem dropBlanks_suffix (text : List Char) : dropBlanks text <:+ text :=
  List.dropWhile_suffix _

theorem length_dropBlanks_le (text : List Char) : (dropBlanks text).length ≤ text.length :=
  (dropBlanks_suffix text).length_le

end Drafting
