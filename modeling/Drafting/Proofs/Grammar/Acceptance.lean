import Drafting.Formula.Parse
import Drafting.Proofs.Grammar.Unambiguous

/-!
# Acceptance

Which texts are accepted, and as which formulas: those that the grammar derives, nested no deeper than
the limit. A strict reading accepts the text as a whole; any other accepts a text that starts with a
formula.

Main statement: `strict_parse_eq_ok_iff`.
-/

namespace Drafting.Grammar

variable {options : Options} {text rest : List Char} {tree : Formula}

theorem parse_eq_ok_iff :
    Formula.parse options text = .ok tree ↔
      ∃ rest, formula (options.room 0) options.strict text = .ok (tree, rest) := by
  unfold Formula.parse
  split
  · next tree' rest h =>
    constructor
    · rintro heq
      obtain rfl := Except.ok.inj heq
      exact ⟨rest, h⟩
    · rintro ⟨rest', h'⟩
      obtain ⟨rfl, -⟩ := Prod.mk.inj (Except.ok.inj (h.symm.trans h'))
      rfl
  · next fault h => simp [h]

theorem formula_eq_ok_iff {room : Nat} {strict : Bool} :
    formula room strict text = .ok (tree, rest) ↔
      expression room Operator.conditionalLevel text = .ok (tree, rest) ∧
        (strict = true → rest = []) := by
  simp only [formula_eq, bind_eq_ok_iff, Prod.exists]
  constructor
  · rintro ⟨first, finish, hexpression, h⟩
    have hblank := ((expression_settles room).done hexpression).1
    cases strict with
    | false =>
      obtain ⟨rfl, rfl⟩ := Prod.mk.inj (Except.ok.inj h)
      exact ⟨hexpression, by simp⟩
    | true =>
      simp only [if_true, hblank] at h
      split at h
      · next hfinish =>
        obtain ⟨rfl, rfl⟩ := Prod.mk.inj (Except.ok.inj h)
        exact ⟨hexpression, fun _ => hfinish⟩
      · simp at h
  · rintro ⟨hexpression, hstrict⟩
    refine ⟨tree, rest, hexpression, ?_⟩
    cases strict with
    | false => rfl
    | true =>
      obtain rfl := hstrict rfl
      rfl

/-- The depth of a formula is never zero. -/
theorem Derivation.depth_pos (d : Derivation .formula text rest) : 0 < d.depth := by
  cases d <;> exact Nat.succ_pos _

theorem depth_le_room_iff (d : Derivation .formula text rest) :
    d.depth ≤ options.room 0 ↔ (d.depth : Int) ≤ options.limit := by
  have := d.depth_pos
  rw [Options.room]
  omega

/-- An accepted text starts with a derived formula. -/
theorem exists_derivation_of_parse (h : Formula.parse options text = .ok tree) :
    ∃ rest, ∃ d : Derivation .formula text rest, d.tree = tree ∧ (d.depth : Int) ≤ options.limit ∧
      (options.strict = true → rest = []) := by
  obtain ⟨rest, hformula⟩ := parse_eq_ok_iff.1 h
  obtain ⟨hexpression, hstrict⟩ := formula_eq_ok_iff.1 hformula
  obtain ⟨d, htree, hdepth⟩ := (expression_sound _).derives hexpression
  exact ⟨rest, d, htree, (depth_le_room_iff d).1 hdepth, hstrict⟩

/-- A text that is derived as a whole is accepted, strictly or not. -/
theorem parse_of_derivation (d : Derivation .formula text [])
    (hdepth : (d.depth : Int) ≤ options.limit) : Formula.parse options text = .ok d.tree := by
  have hexpression := d.reads ((depth_le_room_iff d).2 hdepth) ⟨by simp, rfl⟩
  exact parse_eq_ok_iff.2 ⟨[], formula_eq_ok_iff.2 ⟨hexpression, fun _ => rfl⟩⟩

/-- A strict reading accepts exactly the texts of the grammar that are nested no deeper than the
limit, and results in the tree of their only derivation. -/
theorem strict_parse_eq_ok_iff (options : Options) (text : List Char) (tree : Formula) :
    Subsingleton (Derivation .formula text []) ∧
      (Formula.parse { options with strict := true } text = .ok tree ↔
        ∃ d : Derivation .formula text [], d.tree = tree ∧ (d.depth : Int) ≤ options.limit) := by
  refine ⟨Derivation.subsingleton text, fun h => ?_, ?_⟩
  · obtain ⟨rest, d, htree, hdepth, hrest⟩ := exists_derivation_of_parse h
    obtain rfl := hrest rfl
    exact ⟨d, htree, hdepth⟩
  · rintro ⟨d, rfl, hdepth⟩
    exact parse_of_derivation d hdepth

end Drafting.Grammar
