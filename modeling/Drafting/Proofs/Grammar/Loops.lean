import Drafting.Proofs.Grammar.Rounds

/-!
# What operands take

The readings of operators and of operands. Every operator shortens the text, so that neither the
rounds of a loop nor those of the operands inside it run out; the readings are restated without them.
An operand takes in all that it can: what it leaves starts with nothing that it could have gone on
with.

## Main definitions

* `climbs` — the loop over the operators above a level.
* `Stops` — the places where that loop stops.

Main statements: `operand_eq`, `climbs_cases`, `climbs_of_lead` and `operand_done`.
-/

namespace Drafting.Grammar

variable {nested : Nested} {text rest : List Char} {tree : Formula}

/-! ## Operators -/

theorem Spells.lead {op : Operator} {after : List Char} (h : Spells op text after) :
    ∃ announced, Lead.ofText? text = some (.operator announced) ∧ announced.level = op.level := by
  obtain ⟨rfl, -⟩ := h
  cases op <;> exact ⟨_, rfl, rfl⟩

theorem readOperator_of_spells {announced op : Operator} {after : List Char}
    (h : Spells op text after) (hlead : Lead.ofText? text = some (.operator announced)) :
    readOperator announced text = .ok (op, after) := by
  obtain ⟨rfl, halone⟩ := h
  cases op <;> obtain rfl := by simpa [Lead.ofText?, Lead.ofChar?, Operator.symbol] using hlead
  all_goals simp_all [readOperator_cons, Operator.symbol, expect, bind, Except.bind, pure, Except.pure]

theorem spells_of_readOperator {announced op : Operator} {after : List Char}
    (hlead : Lead.ofText? text = some (.operator announced))
    (h : readOperator announced text = .ok (op, after)) :
    Spells op text after ∧ op.level = announced.level := by
  cases text with
  | nil => simp [Lead.ofText?] at hlead
  | cons c start =>
    simp only [Lead.ofText?, List.head?_cons, Option.bind_some] at hlead
    unfold Lead.ofChar? at hlead
    split at hlead <;> simp only [Option.some.injEq, reduceCtorEq, Lead.operator.injEq] at hlead
    all_goals
      subst hlead
      rw [readOperator_cons] at h
    case h_7 | h_8 =>
      -- Only these two signs may go on with `=`.
      by_cases hequals : start.head? = some '='
      · obtain ⟨start, rfl⟩ := List.head?_eq_some_iff.1 hequals
        obtain ⟨rfl, rfl⟩ := by simpa using h
        exact ⟨⟨rfl, by simp⟩, rfl⟩
      · obtain ⟨rfl, rfl⟩ := by simpa [hequals] using h
        exact ⟨⟨rfl, fun _ => hequals⟩, rfl⟩
    case h_9 | h_10 =>
      simp only [bind_eq_ok_iff, pure_eq_ok_iff, expect_singleton_eq_ok_iff] at h
      obtain ⟨_, hstart, h⟩ := h
      obtain ⟨rfl, rfl⟩ := Prod.mk.inj h
      exact ⟨⟨congrArg _ hstart, by simp⟩, rfl⟩
    all_goals
      obtain ⟨rfl, rfl⟩ := Prod.mk.inj (Except.ok.inj h)
      exact ⟨⟨rfl, by simp⟩, rfl⟩

theorem Spells.length_lt {op : Operator} {after : List Char} (h : Spells op text after) :
    after.length < text.length := by
  obtain ⟨rfl, -⟩ := h
  have : 0 < op.symbol.length := by cases op <;> decide
  rw [List.length_append]
  omega

theorem readOperator_length_lt {announced op : Operator} {after : List Char}
    (hlead : Lead.ofText? text = some (.operator announced))
    (h : readOperator announced text = .ok (op, after)) : after.length < text.length :=
  (spells_of_readOperator hlead h).1.length_lt

/-! ## One round -/

/-- No operator above the level is ahead. -/
def Stops (level : Int) (text : List Char) : Prop :=
  ∀ op, Lead.ofText? text = some (.operator op) → op.level ≤ level

theorem exists_lead_of_not_stops {level : Int} (h : ¬ Stops level text) :
    ∃ announced, Lead.ofText? text = some (.operator announced) ∧ level < announced.level := by
  simpa [Stops] using h

section

variable {operand : Int → Nested} {level : Int}

theorem climb_of_stops (h : Stops level text) (left : Formula) :
    Engine.climb operand level left text = .ok (none, text) := by
  rw [climb_apply]
  split
  · next announced hlead => rw [if_pos (h announced hlead)]
  · rfl

theorem climb_of_lead {announced : Operator}
    (hlead : Lead.ofText? text = some (.operator announced)) (hlevel : level < announced.level)
    (left : Formula) :
    Engine.climb operand level left text = (do
      let (joined, rest) ← Engine.operation operand announced announced.level left text
      return (some joined, dropBlanks rest)) := by
  rw [climb_apply, hlead]
  exact if_neg (Int.not_le.2 hlevel)

theorem operation_length_lt (h : ∀ level, Shortens (operand level)) {announced : Operator}
    (hlead : Lead.ofText? text = some (.operator announced)) {found : Int} {left : Formula}
    (hoperation : Engine.operation operand announced found left text = .ok (tree, rest)) :
    rest.length < text.length := by
  simp only [operation_apply, bind_eq_ok_iff, Prod.exists] at hoperation
  obtain ⟨op, after, hread, right, left', hright, hbinary⟩ := hoperation
  obtain ⟨-, rfl⟩ := Prod.mk.inj (Except.ok.inj hbinary)
  have h₁ := readOperator_length_lt hlead hread
  have h₂ := length_dropBlanks_le after
  have h₃ := h found hright
  omega

/-- A round has the same outcome with any operands that do the same to the texts it gives them. -/
theorem climb_congr {operand' : Int → Nested}
    (h : ∀ level left, left.length < text.length → operand level left = operand' level left)
    (tree : Formula) :
    Engine.climb operand level tree text = Engine.climb operand' level tree text := by
  by_cases hstops : Stops level text
  · rw [climb_of_stops hstops, climb_of_stops hstops]
  · obtain ⟨announced, hlead, hlevel⟩ := exists_lead_of_not_stops hstops
    rw [climb_of_lead hlead hlevel, climb_of_lead hlead hlevel, operation_apply, operation_apply]
    congr 1
    refine bind_congr_ok fun ⟨op, after⟩ hread => ?_
    have h₁ := readOperator_length_lt hlead hread
    have h₂ := length_dropBlanks_le after
    simp only [h announced.level (dropBlanks after) (by omega)]

/-- A round that takes in an operator shortens the text. -/
theorem climb_progresses (h : ∀ level, Shortens (operand level)) (level : Int) :
    Progresses (Engine.climb operand level) := by
  refine progresses_of_cases fun left text => ?_
  by_cases hstops : Stops level text
  · exact .inl (climb_of_stops hstops left)
  · obtain ⟨announced, hlead, hlevel⟩ := exists_lead_of_not_stops hstops
    exact .inr ⟨_, climb_of_lead hlead hlevel left, fun _ _ => operation_length_lt h hlead⟩

end

/-! ## Operands -/

theorem operandOf_apply (operand : Int → Nested) (level : Int) (text : List Char) :
    Engine.operandOf nested operand level text = (do
      let (first, left) ← atom nested text
      Engine.looping (Engine.climb operand level) first (dropBlanks left)) := rfl

theorem operandOf_shortens (h : Shortens nested) {operand : Int → Nested}
    (hoperand : ∀ level, Shortens (operand level)) (level : Int) :
    Shortens (Engine.operandOf nested operand level) := by
  intro text tree rest h'
  rw [operandOf_apply, bind_eq_ok_iff] at h'
  obtain ⟨⟨first, left⟩, hatom, hloop⟩ := h'
  have h₁ := atom_shortens h hatom
  have h₂ := length_dropBlanks_le left
  have h₃ := looping_length_le (climb_progresses hoperand level) hloop
  omega

theorem operandWithin_shortens (h : Shortens nested) (rounds : Nat) (level : Int) :
    Shortens (Engine.operandWithin nested rounds level) := by
  induction rounds generalizing level with
  | zero =>
    intro text tree rest hatom
    obtain ⟨⟨first, left⟩, hfirst, hrest⟩ := bind_eq_ok_iff.1 hatom
    obtain ⟨-, rfl⟩ := Prod.mk.inj (Except.ok.inj hrest)
    exact atom_shortens h hfirst
  | succ rounds ih => exact operandOf_shortens h ih level

theorem operand_eq_operandWithin (nested : Nested) (level : Int) (text : List Char) :
    operand nested level text = Engine.operandWithin nested (text.length + 1) level text := by
  rw [operand]
  rfl

theorem operand_shortens (h : Shortens nested) (level : Int) : Shortens (operand nested level) := by
  intro text tree rest hoperand
  rw [operand_eq_operandWithin] at hoperand
  exact operandWithin_shortens h (text.length + 1) level hoperand

/-- One round more than the text is long is enough for the operands on the right. -/
theorem operandWithin_congr (h : Shortens nested) {rounds rounds' : Nat} (level : Int)
    (hrounds : text.length < rounds) (hrounds' : text.length < rounds') :
    Engine.operandWithin nested rounds level text =
      Engine.operandWithin nested rounds' level text := by
  induction rounds generalizing rounds' level text with
  | zero => omega
  | succ rounds ih =>
    obtain ⟨rounds', rfl⟩ := Nat.exists_eq_add_one.2 (Nat.zero_lt_of_lt hrounds')
    simp only [Engine.operandWithin, operandOf_apply]
    refine bind_congr_ok fun ⟨first, left⟩ hatom => ?_
    have h₁ := atom_shortens h hatom
    have h₂ := length_dropBlanks_le left
    apply looping_congr (climb_progresses (operandWithin_shortens h rounds) level)
    intro tree left' hleft'
    dsimp only at hleft'
    exact climb_congr (fun level left'' hleft'' => ih level (by omega) (by omega)) tree

theorem operand_apply (nested : Nested) (level : Int) (text : List Char) :
    operand nested level text = (do
      let (first, left) ← atom nested text
      Engine.looping (Engine.climb (Engine.operandWithin nested text.length) level) first
        (dropBlanks left)) :=
  operand_eq_operandWithin nested level text

/-- An operand is no more than an atom where no operator above the level follows. -/
theorem operand_of_stops {level : Int} (hatom : atom nested text = .ok (tree, rest))
    (hstops : Stops level (dropBlanks rest)) :
    operand nested level text = .ok (tree, dropBlanks rest) := by
  rw [operand_apply, hatom]
  exact looping_of_none (climb_of_stops hstops tree)

/-- The loop over the operators above a level. -/
def climbs (nested : Nested) (level : Int) (left : Formula) : Nested :=
  Engine.looping (Engine.climb (operand nested) level) left

/-- An operand is an atom, and the operators after it with operands on their right. -/
theorem operand_eq (h : Shortens nested) (level : Int) (text : List Char) :
    operand nested level text =
      (do let (first, left) ← atom nested text; climbs nested level first (dropBlanks left)) := by
  rw [operand_apply]
  refine bind_congr_ok fun ⟨first, left⟩ hatom => ?_
  have h₁ := atom_shortens h hatom
  have h₂ := length_dropBlanks_le left
  apply looping_congr (climb_progresses (operandWithin_shortens h text.length) level)
  intro tree left' hleft'
  apply climb_congr
  intro level left'' hleft''
  rw [operand_eq_operandWithin]
  exact operandWithin_congr h level (by omega) (Nat.lt_succ_self _)

theorem climbs_progresses (h : Shortens nested) (level : Int) :
    Progresses (Engine.climb (operand nested) level) :=
  climb_progresses (operand_shortens h) level

theorem climbs_of_stops {level : Int} (h : Stops level text) (left : Formula) :
    climbs nested level left text = .ok (left, text) :=
  looping_of_none (climb_of_stops h left)

/-- The loop ends before a character that is no blank and announces no operator above its level. -/
theorem climbs_done (h : Shortens nested) {level : Int} {left : Formula}
    (htext : dropBlanks text = text) (hclimbs : climbs nested level left text = .ok (tree, rest)) :
    dropBlanks rest = rest ∧ Stops level rest := by
  induction hlength : text.length using Nat.strongRecOn generalizing left text with
  | ind n ih =>
    by_cases hstops : Stops level text
    · rw [climbs_of_stops hstops] at hclimbs
      obtain ⟨-, rfl⟩ := Prod.mk.inj (Except.ok.inj hclimbs)
      exact ⟨htext, hstops⟩
    · obtain ⟨announced, hlead, hlevel⟩ := exists_lead_of_not_stops hstops
      rw [climbs, looping_eq (climbs_progresses h level), bind_eq_ok_iff] at hclimbs
      obtain ⟨⟨grown, left'⟩, hclimb, hclimbs⟩ := hclimbs
      rw [climb_of_lead hlead hlevel] at hclimb
      obtain ⟨⟨joined, rest'⟩, hoperation, hgrown⟩ := bind_eq_ok_iff.1 hclimb
      obtain ⟨rfl, rfl⟩ := Prod.mk.inj (Except.ok.inj hgrown)
      have h₁ := operation_length_lt (operand_shortens h) hlead hoperation
      have h₂ := length_dropBlanks_le rest'
      exact ih _ (by omega) (dropBlanks_dropBlanks _) hclimbs rfl

theorem operand_done (h : Shortens nested) {level : Int}
    (hoperand : operand nested level text = .ok (tree, rest)) :
    dropBlanks rest = rest ∧ Stops level rest := by
  rw [operand_eq h, bind_eq_ok_iff] at hoperand
  obtain ⟨⟨first, left⟩, -, hclimbs⟩ := hoperand
  exact climbs_done h (dropBlanks_dropBlanks _) hclimbs

/-- Where an operator is announced, the loop goes on with an operand on its right. -/
theorem climbs_of_lead (h : Shortens nested) {level : Int} {announced : Operator}
    (hlead : Lead.ofText? text = some (.operator announced)) (hlevel : level < announced.level)
    (left : Formula) :
    climbs nested level left text = (do
      let (op, after) ← readOperator announced text
      let (right, text) ← operand nested op.level (dropBlanks after)
      climbs nested level (.binary left op right) text) := by
  rw [climbs, looping_eq (climbs_progresses h level), climb_of_lead hlead hlevel,
    operation_apply, bind_assoc, bind_assoc]
  refine bind_congr_ok fun ⟨op, after⟩ hread => ?_
  simp only [(spells_of_readOperator hlead hread).2, bind_assoc]
  refine bind_congr_ok fun ⟨right, rest⟩ hoperand => ?_
  simp only [(operand_done h hoperand).1, pure_bind]
  rfl

/-- Where the loop goes on, it reads an operand on the right of the operator. -/
theorem climbs_of_spells (h : Shortens nested) {level : Int} {op : Operator} {after : List Char}
    (hop : Spells op text after) (hlevel : level < op.level) (left : Formula) :
    climbs nested level left text = (do
      let (right, text) ← operand nested op.level (dropBlanks after)
      climbs nested level (.binary left op right) text) := by
  obtain ⟨announced, hlead, hannounced⟩ := hop.lead
  rw [climbs_of_lead h hlead (hannounced ▸ hlevel), readOperator_of_spells hop hlead]
  rfl

/-- The loop stops where it is, or takes an operator with its operand. -/
theorem climbs_cases (h : Shortens nested) {level : Int} {left : Formula}
    (hclimbs : climbs nested level left text = .ok (tree, rest)) :
    Stops level text ∧ tree = left ∧ rest = text ∨
      ∃ op after right text', level < op.level ∧ Spells op text after ∧
        operand nested op.level (dropBlanks after) = .ok (right, text') ∧
        climbs nested level (.binary left op right) text' = .ok (tree, rest) := by
  by_cases hstops : Stops level text
  · rw [climbs_of_stops hstops] at hclimbs
    obtain ⟨rfl, rfl⟩ := Prod.mk.inj (Except.ok.inj hclimbs)
    exact .inl ⟨hstops, rfl, rfl⟩
  · obtain ⟨announced, hlead, hlevel⟩ := exists_lead_of_not_stops hstops
    simp only [climbs_of_lead h hlead hlevel, bind_eq_ok_iff, Prod.exists] at hclimbs
    obtain ⟨op, after, hread, right, text', hoperand, hclimbs⟩ := hclimbs
    obtain ⟨hspells, hop⟩ := spells_of_readOperator hlead hread
    exact .inr ⟨op, after, right, text', hop ▸ hlevel, hspells, hoperand, hclimbs⟩

end Drafting.Grammar
