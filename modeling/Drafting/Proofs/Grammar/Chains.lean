import Drafting.Proofs.Grammar.Loops

/-!
# What expressions take

The readings of conditionals and of expressions from any level. An expression is an operand and a loop
after it, that takes in the operators from the level upwards, and conditionals. A reading of a whole
expression takes in all that it can.

## Main definitions

* `chains` — the loop over operators and conditionals.
* `Passes` — the places where that loop stops.
* `Settles` — a reading that takes in all that it can.

Main statements: `chains_of_question`, `chains_of_operator`, `chains_cases`, `expression_eq`,
`expression_succ` and `expression_settles`.
-/

namespace Drafting.Grammar

variable {nested : Nested} {text rest : List Char} {tree : Formula} {level : Int}

/-! ## Conditionals -/

theorem branches_eq_ok_iff {condition : Formula} :
    branches nested condition text = .ok (tree, rest) ↔
      ∃ onTrue whenTrue finish onFalse whenFalse, text = '?' :: onTrue ∧
        nested (dropBlanks onTrue) = .ok (whenTrue, finish) ∧ dropBlanks finish = ':' :: onFalse ∧
        nested (dropBlanks onFalse) = .ok (whenFalse, rest) ∧
        tree = .conditional condition whenTrue whenFalse := by
  simp only [branches_eq, bind_eq_ok_iff, pure_eq_ok_iff, expect_singleton_eq_ok_iff, Prod.exists,
    Prod.mk.injEq]
  constructor
  · rintro ⟨onTrue, htext, whenTrue, finish, htrue, onFalse, hfinish, whenFalse, _, hfalse, rfl, rfl⟩
    exact ⟨onTrue, whenTrue, finish, onFalse, whenFalse, htext, htrue, hfinish, hfalse, rfl⟩
  · rintro ⟨onTrue, whenTrue, finish, onFalse, whenFalse, htext, htrue, hfinish, hfalse, rfl⟩
    exact ⟨onTrue, htext, whenTrue, finish, htrue, onFalse, hfinish, whenFalse, rest, hfalse, rfl,
      rfl⟩

/-- Nothing that is left can be taken in: no blank, no operator and no conditional is ahead. -/
def Done (text : List Char) : Prop := dropBlanks text = text ∧ Lead.ofText? text = none

/-- A reading that takes in all that it can. -/
structure Settles (reading : Nested) : Prop where
  shortens : Shortens reading
  done : ∀ ⦃text tree rest⦄, reading text = .ok (tree, rest) → Done rest

theorem branches_done (h : Settles nested) {condition : Formula}
    (hbranches : branches nested condition text = .ok (tree, rest)) : Done rest := by
  obtain ⟨-, -, -, onFalse, whenFalse, -, -, -, hfalse, -⟩ := branches_eq_ok_iff.1 hbranches
  exact h.done hfalse

theorem branches_shortens (h : Settles nested) (condition : Formula) :
    Shortens (branches nested condition) := by
  intro text tree rest hbranches
  obtain ⟨onTrue, whenTrue, finish, onFalse, whenFalse, rfl, htrue, hfinish, hfalse, -⟩ :=
    branches_eq_ok_iff.1 hbranches
  have h₁ := length_dropBlanks_le onTrue
  have h₂ := h.shortens htrue
  have h₃ := length_dropBlanks_le finish
  have h₄ := length_dropBlanks_le onFalse
  have h₅ := h.shortens hfalse
  simp only [hfinish, List.length_cons] at h₃ ⊢
  omega

/-- Nothing is announced where no operator is ahead and no conditional. -/
theorem lead_eq_none (hstops : Stops Operator.conditionalLevel text)
    (hquestion : text.head? ≠ some '?') : Lead.ofText? text = none := by
  cases hlead : Lead.ofText? text with
  | none => rfl
  | some lead =>
    cases lead with
    | operator op =>
      exact absurd (hstops op hlead) (Int.not_le.2 (Operator.conditionalLevel_lt_level op))
    | question =>
      refine absurd ?_ hquestion
      obtain ⟨c, hc, hchar⟩ := Option.bind_eq_some_iff.1 hlead
      unfold Lead.ofChar? at hchar
      split at hchar <;> simp_all

/-! ## One round -/

/-- Neither a conditional nor an operator from the level upwards is ahead. -/
def Passes (level : Int) (text : List Char) : Prop :=
  ∀ lead, Lead.ofText? text = some lead → lead.level < level

theorem exists_lead_of_not_passes (h : ¬ Passes level text) :
    ∃ lead, Lead.ofText? text = some lead ∧ level ≤ lead.level := by
  simpa [Passes] using h

theorem passes_of_lead_eq_none (h : Lead.ofText? text = none) : Passes level text := by
  simp [Passes, h]

section

variable {operand : Int → Nested}

theorem chain_of_passes (h : Passes level text) (left : Formula) :
    Engine.chain nested operand level left text = .ok (none, text) := by
  rw [chain_apply]
  split
  · rfl
  · next lead hlead => rw [if_pos (h lead hlead)]

theorem chain_of_question (hlead : Lead.ofText? text = some .question)
    (hlevel : level ≤ Operator.conditionalLevel) (left : Formula) :
    Engine.chain nested operand level left text = (do
      let (joined, rest) ← branches nested left text
      return (some joined, dropBlanks rest)) := by
  rw [chain_apply, hlead]
  exact if_neg (Int.not_lt.2 hlevel)

theorem chain_of_operator {announced : Operator}
    (hlead : Lead.ofText? text = some (.operator announced)) (hlevel : level ≤ announced.level)
    (left : Formula) :
    Engine.chain nested operand level left text = (do
      let (joined, rest) ← Engine.operation operand announced announced.level left text
      return (some joined, dropBlanks rest)) := by
  rw [chain_apply, hlead]
  exact if_neg (Int.not_lt.2 hlevel)

/-- A round that takes in an operator or a conditional shortens the text. -/
theorem chain_progresses (h : Settles nested) (hoperand : ∀ level, Shortens (operand level))
    (level : Int) : Progresses (Engine.chain nested operand level) := by
  refine progresses_of_cases fun left text => ?_
  by_cases hpasses : Passes level text
  · exact .inl (chain_of_passes hpasses left)
  · obtain ⟨lead, hlead, hlevel⟩ := exists_lead_of_not_passes hpasses
    right
    cases lead with
    | question =>
      exact ⟨_, chain_of_question hlead hlevel left, fun _ _ hbranches =>
        branches_shortens h left hbranches⟩
    | operator announced =>
      exact ⟨_, chain_of_operator hlead hlevel left, fun _ _ => operation_length_lt hoperand hlead⟩

end

/-! ## The loop -/

/-- The loop over the operators from a level upwards, and conditionals. -/
def chains (nested : Nested) (level : Int) (left : Formula) : Nested :=
  Engine.looping (Engine.chain nested (operand nested) level) left

theorem chains_progresses (h : Settles nested) (level : Int) :
    Progresses (Engine.chain nested (operand nested) level) :=
  chain_progresses h (operand_shortens h.shortens) level

theorem chains_of_passes (h : Passes level text) (left : Formula) :
    chains nested level left text = .ok (left, text) :=
  looping_of_none (chain_of_passes h left)

theorem chains_of_question (h : Settles nested) (hlead : Lead.ofText? text = some .question)
    (hlevel : level ≤ Operator.conditionalLevel) (left : Formula) :
    chains nested level left text = (do
      let (joined, text) ← branches nested left text
      chains nested level joined (dropBlanks text)) := by
  rw [chains, looping_eq (chains_progresses h level), chain_of_question hlead hlevel, bind_assoc]
  rfl

theorem chains_of_operator (h : Settles nested) {announced : Operator}
    (hlead : Lead.ofText? text = some (.operator announced)) (hlevel : level ≤ announced.level)
    (left : Formula) :
    chains nested level left text = (do
      let (op, text) ← readOperator announced text
      let (right, text) ← operand nested op.level (dropBlanks text)
      chains nested level (.binary left op right) (dropBlanks text)) := by
  rw [chains, looping_eq (chains_progresses h level), chain_of_operator hlead hlevel,
    operation_apply, bind_assoc, bind_assoc]
  refine bind_congr_ok fun ⟨op, after⟩ hread => ?_
  simp only [(spells_of_readOperator hlead hread).2, bind_assoc]
  rfl

/-- The loop stops where it is, or takes a conditional and stops there, or takes an operator with its
operand. -/
theorem chains_cases (h : Settles nested) {left tree : Formula} {rest : List Char}
    (hchains : chains nested level left text = .ok (tree, rest)) :
    (Passes level text ∧ tree = left ∧ rest = text) ∨
      (Lead.ofText? text = some .question ∧ level ≤ Operator.conditionalLevel ∧
        branches nested left text = .ok (tree, rest)) ∨
      ∃ op after right text', level ≤ op.level ∧ Spells op text after ∧
        operand nested op.level (dropBlanks after) = .ok (right, text') ∧
        chains nested level (.binary left op right) text' = .ok (tree, rest) := by
  by_cases hpasses : Passes level text
  · rw [chains_of_passes hpasses] at hchains
    obtain ⟨rfl, rfl⟩ := Prod.mk.inj (Except.ok.inj hchains)
    exact .inl ⟨hpasses, rfl, rfl⟩
  obtain ⟨lead, hlead, hlevel⟩ := exists_lead_of_not_passes hpasses
  cases lead with
  | question =>
    simp only [chains_of_question h hlead hlevel, bind_eq_ok_iff, Prod.exists] at hchains
    obtain ⟨joined, text', hbranches, hchains⟩ := hchains
    obtain ⟨hblank, hnone⟩ := branches_done h hbranches
    have hdone : Passes level text' := fun lead hlead => by simp [hnone] at hlead
    rw [hblank, chains_of_passes hdone] at hchains
    exact .inr (.inl ⟨hlead, hlevel, hbranches.trans hchains⟩)
  | operator announced =>
    simp only [chains_of_operator h hlead hlevel, bind_eq_ok_iff, Prod.exists] at hchains
    obtain ⟨op, after, hread, right, text', hoperand, hchains⟩ := hchains
    obtain ⟨hspells, hop⟩ := spells_of_readOperator hlead hread
    rw [(operand_done h.shortens hoperand).1] at hchains
    exact .inr (.inr ⟨op, after, right, text', hop ▸ hlevel, hspells, hoperand, hchains⟩)

/-! ## Expressions -/

theorem expression_zero (level : Int) (text : List Char) :
    expression 0 level text = .error ⟨.tooDeep, text⟩ := by
  rw [expression]
  rfl

theorem expression_eq (room : Nat) (level : Int) (text : List Char) :
    expression (room + 1) level text = (do
      let (first, text) ← operand (expression room Operator.conditionalLevel) level (dropBlanks text)
      chains (expression room Operator.conditionalLevel) level first (dropBlanks text)) := by
  unfold chains operand expression
  rfl

/-- After a text without operators ahead, one conditional is read, or nothing. -/
theorem chains_of_stops (h : Settles nested) (left : Formula)
    (hstops : Stops Operator.conditionalLevel text) :
    chains nested Operator.conditionalLevel left text =
      if text.head? = some '?' then branches nested left text else .ok (left, text) := by
  by_cases hquestion : text.head? = some '?'
  · rw [if_pos hquestion]
    obtain ⟨onTrue, rfl⟩ := List.head?_eq_some_iff.1 hquestion
    rw [chains_of_question h rfl (Int.le_refl _)]
    refine (bind_congr_ok fun ⟨joined, rest⟩ hbranches => ?_).trans (bind_pure _)
    obtain ⟨hblank, hnone⟩ := branches_done h hbranches
    change chains nested _ joined (dropBlanks rest) = _
    rw [hblank, chains_of_passes (passes_of_lead_eq_none hnone)]
    rfl
  · rw [if_neg hquestion,
      chains_of_passes (passes_of_lead_eq_none (lead_eq_none hstops hquestion))]

/-- An expression is an operand, and a conditional if `?` comes next. -/
theorem expression_succ {room : Nat}
    (h : Settles (expression room Operator.conditionalLevel)) (text : List Char) :
    expression (room + 1) Operator.conditionalLevel text = (do
      let (first, text) ← operand (expression room Operator.conditionalLevel)
        Operator.conditionalLevel (dropBlanks text)
      if text.head? = some '?' then
        branches (expression room Operator.conditionalLevel) first text
      else .ok (first, text)) := by
  rw [expression_eq]
  refine bind_congr_ok fun ⟨first, finish⟩ hoperand => ?_
  obtain ⟨hblank, hstops⟩ := operand_done h.shortens hoperand
  simp only [hblank]
  exact chains_of_stops h first hstops

theorem expression_eq_ok_iff {room : Nat}
    (h : Settles (expression room Operator.conditionalLevel)) :
    expression (room + 1) Operator.conditionalLevel text = .ok (tree, rest) ↔
      ∃ first finish, operand (expression room Operator.conditionalLevel)
          Operator.conditionalLevel (dropBlanks text) = .ok (first, finish) ∧
        (Lead.ofText? finish = none ∧ tree = first ∧ rest = finish ∨
          branches (expression room Operator.conditionalLevel) first finish = .ok (tree, rest)) := by
  simp only [expression_succ h, bind_eq_ok_iff, Prod.exists]
  refine exists_congr fun first => exists_congr fun finish => and_congr_right fun hoperand => ?_
  have hstops := (operand_done h.shortens hoperand).2
  split
  · next hquestion =>
    obtain ⟨onTrue, rfl⟩ := List.head?_eq_some_iff.1 hquestion
    simp [Lead.ofText?, Lead.ofChar?]
  · next hquestion =>
    have hbranches : branches (expression room Operator.conditionalLevel) first finish ≠
        .ok (tree, rest) := by
      rw [ne_eq, branches_eq_ok_iff]
      rintro ⟨onTrue, -, -, -, -, rfl, -⟩
      exact hquestion rfl
    simp [lead_eq_none hstops hquestion, hbranches, eq_comm]

/-- An expression takes in all that it can, whatever room it has. -/
theorem expression_settles (room : Nat) :
    Settles (expression room Operator.conditionalLevel) := by
  induction room with
  | zero => exact ⟨by simp [Shortens, expression_zero], by simp [expression_zero]⟩
  | succ room ih =>
    refine ⟨fun text tree rest hexpression => ?_, fun text tree rest hexpression => ?_⟩
    all_goals
      obtain ⟨first, finish, hoperand, ⟨hnone, -, rfl⟩ | hbranches⟩ :=
        (expression_eq_ok_iff ih).1 hexpression
    · have h₁ := length_dropBlanks_le text
      have h₂ := operand_shortens ih.shortens _ hoperand
      omega
    · have h₁ := length_dropBlanks_le text
      have h₂ := operand_shortens ih.shortens _ hoperand
      have h₃ := branches_shortens ih first hbranches
      omega
    · exact ⟨(operand_done ih.shortens hoperand).1, hnone⟩
    · exact branches_done ih hbranches

end Drafting.Grammar
