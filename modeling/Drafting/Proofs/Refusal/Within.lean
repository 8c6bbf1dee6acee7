import Drafting.Proofs.Respelling.Coupling

/-!
# Readings stay in their text

What a reading leaves is the end of its text, and so is the place of a refusal. What the cause says
of that place is so; a numeral that is refused after it was read stands there.

## Main definitions

* `Within` — an outcome that stays in a text.
* `staying` — staying in the text, as a coupling of a reading with itself.

Main statements: `expression_within`, `operand_within`, `formula_within` and `expression_shortens`.
-/

namespace Drafting.Grammar

open Respelling

/-- What is left, or the place of a refusal, is the end of the text. -/
structure Within (text : List Char) (outcome : Result (Formula × List Char)) : Prop where
  ok : ∀ ⦃tree left⦄, outcome = .ok (tree, left) → left <:+ text
  fault : ∀ ⦃fault⦄, outcome = .error fault → fault.left <:+ text ∧ fault.cause.Fits fault.left

namespace Within

variable {text left : List Char} {outcome : Result (Formula × List Char)}

theorem taken (tree : Formula) (text : List Char) : Within text (.ok (tree, text)) where
  ok := by
    rintro _ left ⟨⟩
    exact List.suffix_refl text
  fault := by simp

theorem refused {cause : Cause} (h : cause.Fits text) : Within text (.error ⟨cause, text⟩) where
  ok := by simp
  fault := by
    rintro _ ⟨⟩
    exact ⟨List.suffix_refl text, h⟩

theorem widen (h : Within left outcome) (hleft : left <:+ text) : Within text outcome where
  ok _ _ hok := (h.ok hok).trans hleft
  fault _ hfault := ⟨(h.fault hfault).1.trans hleft, (h.fault hfault).2⟩

theorem bind {next : Formula × List Char → Result (Formula × List Char)} (h : Within text outcome)
    (hnext : ∀ tree left, outcome = .ok (tree, left) → Within left (next (tree, left))) :
    Within text (outcome >>= next) := by
  cases outcome with
  | ok result => exact (hnext result.1 result.2 rfl).widen (h.ok rfl)
  | error fault =>
    refine ⟨fun tree left hok => ?_, fun fault' hfault => ?_⟩
    · exact absurd hok (by simp [Bind.bind, Except.bind])
    · obtain rfl := Except.error.inj hfault
      exact h.fault rfl

/-- The text from the cursor on after a refusal. -/
theorem unread_suffix {fault : Fault} (h : Within text (.error fault)) : fault.unread <:+ text :=
  (List.drop_suffix _ _).trans (h.fault rfl).1

end Within

/-- One outcome of one text, which stays in the text. -/
def staying : Coupling verbatim :=
  .sameText (fun text outcome outcome' => outcome' = outcome ∧ Within text outcome)
    (fun text tree => ⟨rfl, .taken tree text⟩)
    (fun _ _ hfits _ => ⟨rfl, .refused hfits⟩)
    (fun _ _ _ _ hleft hholds => ⟨hholds.1, hholds.2.widen hleft⟩)
    fun _ _ _ _ _ ⟨hsame, hwithin⟩ hnext => by
      subst hsame
      refine ⟨?_, hwithin.bind fun tree left hok => (hnext tree left (hwithin.ok hok)).2⟩
      exact bind_congr_ok fun result hok => (hnext result.1 result.2 (hwithin.ok hok)).1

theorem expression_staying (room : Nat) :
    staying.Nests (expression room Operator.conditionalLevel)
      (expression room Operator.conditionalLevel) := by
  refine Coupling.rooms 0 (fun text text' h => ?_) room
  obtain rfl := verbatim_respells_iff.1 h
  exact ⟨rfl, rfl, .refused trivial⟩

theorem expression_within (room : Nat) (level : Int) (text : List Char) :
    Within text (expression room level text) := by
  cases room with
  | zero => exact .refused trivial
  | succ room => exact (Coupling.expression (expression_staying room) level (respells_self text)).2.2

theorem chains_within (room : Nat) (level : Int) (left : Formula) (text : List Char) :
    Within text (chains (expression room Operator.conditionalLevel) level left text) := by
  have hsettles := expression_settles room
  have hheld := Coupling.chains (expression_staying room) hsettles hsettles level left
    (respells_self text)
  exact hheld.2.2

/-- An expression takes something, whatever its level. -/
theorem expression_shortens (room : Nat) (level : Int) : Shortens (expression room level) := by
  cases room with
  | zero => simp [Shortens, expression_zero]
  | succ room =>
    intro text tree rest hexpression
    rw [expression_eq, bind_eq_ok_iff] at hexpression
    obtain ⟨⟨first, left⟩, hoperand, hchains⟩ := hexpression
    have h₁ := length_dropBlanks_le text
    have h₂ := operand_shortens (expression_settles room).shortens level hoperand
    have h₃ := length_dropBlanks_le left
    have h₄ := ((chains_within room level first _).ok hchains).length_le
    omega

theorem operand_within (room : Nat) (level : Int) (text : List Char) :
    Within text (operand (expression room Operator.conditionalLevel) level text) :=
  (Coupling.operand (expression_staying room) (expression_settles room).shortens
    (expression_settles room).shortens level (respells_self text)).2.2

theorem formula_within (room : Nat) (strict : Bool) (text : List Char) :
    Within text (formula room strict text) :=
  (Coupling.formula (expression_staying room) strict (respells_self text)).2.2

end Drafting.Grammar
