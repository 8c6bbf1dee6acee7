import Drafting.Proofs.Respelling.Coupling

/-!
# Respelled texts are read alike

A text that is spelt anew is read as the same formula with its names spelt anew, and what is left of
the two texts corresponds. If nothing was added at the end, it is also refused for the same kind of
mistake, at the corresponding place.

## Main definitions

* `Alike` — outcomes that correspond.
* `corresponding` — that relation as a coupling.

Main statement: `formula_alike`.
-/

namespace Drafting.Grammar

/-- The outcomes at two texts correspond. -/
structure Alike (ρ : Respelling) (text text' : List Char)
    (outcome outcome' : Result (Formula × List Char)) : Prop where
  ok : ∀ ⦃tree left⦄, outcome = .ok (tree, left) →
    ∃ left', outcome' = .ok (tree.mapNames ρ.char, left') ∧ ρ.Respells left left' ∧
      left <:+ text ∧ left' <:+ text'
  fault : (∀ ⦃added⦄, ρ.tail added → added = []) → ∀ ⦃fault⦄, outcome = .error fault →
    ∃ fault', outcome' = .error fault' ∧ fault'.cause.code? = fault.cause.code? ∧
      ρ.Respells fault.left fault'.left

variable {ρ : Respelling} {text text' : List Char}

/-- A refusal for one kind of mistake at both texts. -/
theorem Alike.refused {cause cause' : Cause} (h : ρ.Respells text text')
    (hcode : cause'.code? = cause.code?) :
    Alike ρ text text' (.error ⟨cause, text⟩) (.error ⟨cause', text'⟩) where
  ok := by simp
  fault := by
    rintro - _ ⟨⟩
    exact ⟨_, rfl, hcode, h⟩

/-- Correspondence of outcomes, as a coupling. -/
def corresponding (ρ : Respelling) : Coupling ρ where
  Holds := Alike ρ
  taken text text' h tree := by
    refine ⟨?_, by simp⟩
    rintro _ _ ⟨⟩
    exact ⟨text', rfl, h, List.suffix_refl _, List.suffix_refl _⟩
  refused text text' cause cause' h hmatches _ _ := .refused h hmatches.code?_eq
  ended text' wanted htail hne outcome' := by
    refine ⟨by simp, fun hnothing => absurd (hnothing htail) hne⟩
  widen text text' left left' outcome outcome' _ hleft hleft' h := by
    refine ⟨fun tree rest hok => ?_, h.fault⟩
    obtain ⟨rest', hok', hrest, hsuffix, hsuffix'⟩ := h.ok hok
    exact ⟨rest', hok', hrest, hsuffix.trans hleft, hsuffix'.trans hleft'⟩
  bind text text' outcome outcome' next next' h hnext := by
    cases outcome with
    | error fault =>
      refine ⟨fun tree left hok => absurd hok (by simp [Bind.bind, Except.bind]), ?_⟩
      rintro hnothing _ ⟨⟩
      obtain ⟨fault', rfl, hcode, hplace⟩ := h.fault hnothing rfl
      exact ⟨fault', rfl, hcode, hplace⟩
    | ok result =>
      obtain ⟨tree, left⟩ := result
      obtain ⟨left', rfl, hleft, hsuffix, hsuffix'⟩ := h.ok rfl
      have hafter := hnext tree left left' hleft hsuffix hsuffix'
      refine ⟨fun tree' rest hok => ?_, hafter.fault⟩
      obtain ⟨rest', hok', hrest, hrestsuffix, hrestsuffix'⟩ := hafter.ok hok
      exact ⟨rest', hok', hrest, hrestsuffix.trans hsuffix, hrestsuffix'.trans hsuffix'⟩

theorem expression_alike (ρ : Respelling) (room : Nat) :
    (corresponding ρ).Nests (expression room Operator.conditionalLevel)
      (expression room Operator.conditionalLevel) :=
  Coupling.rooms 0 (fun _ _ h => Alike.refused h rfl) room

/-- A text that is spelt anew is read alike. -/
theorem formula_alike (room : Nat) (strict : Bool) (h : ρ.Respells text text') :
    Alike ρ text text' (formula room strict text) (formula room strict text') :=
  Coupling.formula (expression_alike ρ room) strict h

end Drafting.Grammar
