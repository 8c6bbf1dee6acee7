import Drafting.Grammar.Reading
import Mathlib.Data.List.TakeWhile

/-!
# Gaps and tokens

What may stand between two places of a text, said without reading: a gap is a run of blanks, and a
token is a character that is no blank with the characters after it up to the next delimiter.

## Main definitions

* `Skips` — two places of a text with nothing but blanks between them.
* `NoBlanks` — the texts without blanks.
* `IsToken` — the texts that can be one token.
* `AtDelimiter` — the places at which a token can end.

`readToken_eq_ok_iff` ties them to the reading of a token.
-/

namespace Drafting.Grammar

/-! ## Gaps -/

/-- The text up to `rest` is a run of blanks, possibly an empty one. -/
def Skips (text rest : List Char) : Prop := ∃ gap, (∀ c ∈ gap, isBlank c = true) ∧ text = gap ++ rest

theorem Skips.refl (text : List Char) : Skips text text := ⟨[], by simp, rfl⟩

theorem Skips.trans {text mid rest : List Char} (h : Skips text mid) (g : Skips mid rest) :
    Skips text rest := by
  obtain ⟨gap, hgap, rfl⟩ := h
  obtain ⟨gap', hgap', rfl⟩ := g
  refine ⟨gap ++ gap', fun c hc => ?_, by simp⟩
  exact (List.mem_append.1 hc).elim (hgap c) (hgap' c)

theorem Skips.suffix {text rest : List Char} (h : Skips text rest) : rest <:+ text := by
  obtain ⟨gap, -, rfl⟩ := h
  exact List.suffix_append _ _

theorem skips_dropBlanks (text : List Char) : Skips text (dropBlanks text) :=
  ⟨text.takeWhile isBlank, fun _ => List.mem_takeWhile_imp, (List.takeWhile_append_dropWhile).symm⟩

theorem dropBlanks_append {gap rest : List Char} (h : ∀ c ∈ gap, isBlank c = true) :
    dropBlanks (gap ++ rest) = dropBlanks rest := by
  induction gap with
  | nil => rfl
  | cons c gap ih =>
    rw [List.cons_append, dropBlanks_cons, if_pos (h c (by simp))]
    exact ih fun d hd => h d (by simp [hd])

theorem Skips.dropBlanks_eq {text rest : List Char} (h : Skips text rest) :
    dropBlanks text = dropBlanks rest := by
  obtain ⟨gap, hgap, rfl⟩ := h
  exact dropBlanks_append hgap

@[simp] theorem dropBlanks_cons_of_not_blank {c : Char} {text : List Char}
    (h : isBlank c = false) : dropBlanks (c :: text) = c :: text := by
  simp [dropBlanks_cons, h]

/-- A place before a character that is no blank, or at the end, is where the blanks stop. -/
theorem Skips.eq_dropBlanks {text rest : List Char} (h : Skips text rest)
    (hr : dropBlanks rest = rest) : rest = dropBlanks text := by
  rw [h.dropBlanks_eq, hr]

/-! ## Texts without blanks -/

def NoBlanks (text : List Char) : Prop := ∀ c ∈ text, isBlank c = false

@[simp] theorem noBlanks_nil : NoBlanks [] := by simp [NoBlanks]

@[simp] theorem noBlanks_cons {c : Char} {text : List Char} :
    NoBlanks (c :: text) ↔ isBlank c = false ∧ NoBlanks text := List.forall_mem_cons

@[simp] theorem noBlanks_append {text text' : List Char} :
    NoBlanks (text ++ text') ↔ NoBlanks text ∧ NoBlanks text' := List.forall_mem_append

theorem isBlank_of_not_delimiter {c : Char} (h : isDelimiter c = false) : isBlank c = false := by
  by_contra hblank
  have hdelimiter := isDelimiter_of_isBlank (Bool.not_eq_false _ ▸ hblank)
  exact absurd (h.symm.trans hdelimiter) (by simp)

theorem NoBlanks.suffix {text rest : List Char} (h : NoBlanks text) (hsuffix : rest <:+ text) :
    NoBlanks rest := fun c hc => h c (hsuffix.subset hc)

theorem NoBlanks.right {text tail rest : List Char} (h : NoBlanks text)
    (heq : text = tail ++ rest) : NoBlanks rest := (noBlanks_append.1 (heq ▸ h)).2

theorem NoBlanks.tail {c : Char} {text : List Char} (h : NoBlanks (c :: text)) : NoBlanks text :=
  (noBlanks_cons.1 h).2

/-- Nothing is skipped in a text without blanks. -/
theorem Skips.eq_of_noBlanks {text rest : List Char} (h : Skips text rest) (htext : NoBlanks text) :
    text = rest := by
  obtain ⟨gap, hgap, rfl⟩ := h
  cases gap with
  | nil => rfl
  | cons c gap =>
    have hblank := hgap c (by simp)
    have hsolid := htext c (by simp)
    exact absurd (hsolid.symm.trans hblank) (by simp)

theorem Skips.noBlanks {text rest : List Char} (h : Skips text rest) (htext : NoBlanks text) :
    NoBlanks rest := h.eq_of_noBlanks htext ▸ htext

/-! ## Tokens -/

/-- A character that is no blank, and after it no delimiter. -/
def IsToken (token : List Char) : Prop :=
  ∃ c body, token = c :: body ∧ isBlank c = false ∧ ∀ d ∈ body, isDelimiter d = false

/-- The end of the text, or a delimiter. -/
def AtDelimiter (text : List Char) : Prop := ∀ c ∈ text.head?, isDelimiter c = true

theorem atDelimiter_nil : AtDelimiter [] := by simp [AtDelimiter]

@[simp] theorem atDelimiter_cons {c : Char} {text : List Char} :
    AtDelimiter (c :: text) ↔ isDelimiter c = true := by simp [AtDelimiter]

theorem IsToken.ne_nil {token : List Char} (h : IsToken token) : token ≠ [] := by
  obtain ⟨c, body, rfl, -⟩ := h
  simp

theorem IsToken.noBlanks {token : List Char} (h : IsToken token) : NoBlanks token := by
  obtain ⟨c, body, rfl, hc, hbody⟩ := h
  exact noBlanks_cons.2 ⟨hc, fun d hd => isBlank_of_not_delimiter (hbody d hd)⟩

/-- A token never starts with a blank, whatever follows it. -/
theorem IsToken.dropBlanks_append {token : List Char} (h : IsToken token) (rest : List Char) :
    dropBlanks (token ++ rest) = token ++ rest := by
  obtain ⟨c, body, rfl, hc, -⟩ := h
  exact dropBlanks_cons_of_not_blank hc

theorem atDelimiter_dropWhile (text : List Char) :
    AtDelimiter (text.dropWhile (!isDelimiter ·)) := by
  induction text with
  | nil => exact atDelimiter_nil
  | cons c text ih =>
    rw [List.dropWhile_cons]
    split
    · exact ih
    · next h => simpa using h

theorem takeWhile_append_of_atDelimiter {body rest : List Char}
    (hb : ∀ d ∈ body, isDelimiter d = false) (hr : AtDelimiter rest) :
    (body ++ rest).takeWhile (!isDelimiter ·) = body ∧
      (body ++ rest).dropWhile (!isDelimiter ·) = rest := by
  induction body with
  | nil => cases rest <;> simp_all
  | cons d body ih =>
    have hd := hb d (by simp)
    obtain ⟨h₁, h₂⟩ := ih fun e he => hb e (by simp [he])
    simp [hd, h₁, h₂]

/-- What is read as a token, and where it ends, whatever the characters that stop it. -/
theorem stopped_of_readToken {stops : Char → Bool} {text token rest : List Char}
    (h : readToken stops text = .ok (token, rest)) :
    (∃ c body, token = c :: body ∧ isBlank c = false ∧ ∀ d ∈ body, stops d = false) ∧
      ∀ d ∈ rest.head?, stops d = true := by
  cases text with
  | nil => simp [readToken] at h
  | cons c text =>
    simp only [readToken] at h
    split at h
    · simp at h
    · next hc =>
      obtain ⟨rfl, rfl⟩ := Prod.mk.inj (Except.ok.inj h)
      refine ⟨⟨c, _, rfl, by simpa using hc, fun d hd => ?_⟩, fun d hd => ?_⟩
      · simpa using List.mem_takeWhile_imp hd
      · have hnot := text.head?_dropWhile_not (!stops ·)
        rw [Option.mem_def.1 hd] at hnot
        simpa using hnot

/-- What the reading of a token takes is the token at the front of the text, up to a delimiter. -/
theorem readToken_eq_ok_iff {text token rest : List Char} :
    readToken isDelimiter text = .ok (token, rest) ↔
      text = token ++ rest ∧ IsToken token ∧ AtDelimiter rest := by
  constructor
  · intro h
    exact ⟨(append_of_readToken h).2.symm, stopped_of_readToken h⟩
  · rintro ⟨rfl, ⟨c, body, rfl, hc, hb⟩, hr⟩
    obtain ⟨h₁, h₂⟩ := takeWhile_append_of_atDelimiter hb hr
    simp [readToken, hc, h₁, h₂]

/-- The token at the front of a text is the only one. -/
theorem IsToken.unique {token token' rest rest' : List Char} (h : IsToken token)
    (h' : IsToken token') (hr : AtDelimiter rest) (hr' : AtDelimiter rest')
    (heq : token ++ rest = token' ++ rest') : token = token' ∧ rest = rest' := by
  have h₁ := readToken_eq_ok_iff.2 ⟨rfl, h, hr⟩
  have h₂ := readToken_eq_ok_iff.2 ⟨heq, h', hr'⟩
  simpa using h₁.symm.trans h₂

end Drafting.Grammar
