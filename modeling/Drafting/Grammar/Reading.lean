import Drafting.Diagnostic.Cause
import Drafting.Text.Blank

/-!
# Readings

A reading takes something from the front of a text and gives it back with the text that is left, or
refuses with a fault. A fault tells its place by the text that is left from there on, so that no
reading has to count characters.

## Main definitions

* `Fault`, `Result` — the refusal and the result of a reading.
* `expect` — takes a wanted character.
* `readToken` — takes a token.
-/

namespace Drafting.Grammar

/-- Why a reading was refused, and the text from the place of the mistake on. -/
structure Fault where
  cause : Cause
  left : List Char
deriving DecidableEq, Repr

/-- The text that follows what was read before the refusal: the text from the place of the mistake
on, without a numeral that was read in full. -/
def Fault.unread (fault : Fault) : List Char := fault.left.drop fault.cause.token.length

/-- The result of a reading, unless it was refused. A reading of a value results in the value and the
text that is left. -/
abbrev Result := Except Fault

/-- Takes the wanted text from the front. Only a single character can be taken so; a wanted text of
any other length is never there. -/
def expect (wanted : List Char) : List Char → Result (List Char)
  | [] => .error ⟨.endOfText (.exactly wanted), []⟩
  | c :: text =>
    if wanted = [c] then .ok text else .error ⟨.unexpected wanted c, c :: text⟩

theorem expect_eq_ok_iff {wanted text left : List Char} :
    expect wanted text = .ok left ↔ ∃ c, wanted = [c] ∧ text = c :: left := by
  cases text with
  | nil => simp [expect]
  | cons d text =>
    simp only [expect]
    split
    · next h => subst h; simp
    · next h =>
      simp only [reduceCtorEq, false_iff, List.cons.injEq, not_exists, not_and]
      intro c hc hd
      exact absurd (hd ▸ hc) h

/-- Takes a token: the first character, whatever it is unless it is a blank, and the characters
after it up to the next that stops a token. -/
def readToken (stops : Char → Bool) : List Char → Result (List Char × List Char)
  | [] => .error ⟨.endOfText .token, []⟩
  | c :: text =>
    if isBlank c then .error ⟨.blankToken, c :: text⟩
    else .ok (c :: text.takeWhile (!stops ·), text.dropWhile (!stops ·))

/-- A token and what is left make up the text, and the token is not empty. -/
theorem append_of_readToken {stops : Char → Bool} {text token left : List Char}
    (h : readToken stops text = .ok (token, left)) : token ≠ [] ∧ token ++ left = text := by
  cases text with
  | nil => simp [readToken] at h
  | cons c text =>
    simp only [readToken] at h
    split at h
    · simp at h
    · obtain ⟨rfl, rfl⟩ := Prod.mk.inj (Except.ok.inj h)
      simp [List.takeWhile_append_dropWhile]

end Drafting.Grammar
