import Drafting.Proofs.Grammar.Chains
import Drafting.Proofs.Grammar.Unambiguous
import Drafting.Proofs.Refusal.Within
import Drafting.Proofs.Stepping.Follows
import Drafting.Session

/-!
# How readings group

What a reading from a level builds, and where it stops. In its tree no operation stands inside an
operation that binds tighter, operations of one level group to the left, and a conditional is no
operand and no condition. The reading stops before the first operator that its level leaves to
others.

The formula that a loop has put together so far can always be the left side of whatever is ahead.
This is what each round of the two loops keeps, and it is why they group as they do: the right side
of an operator stops only before an operator that binds no tighter.

## Main definitions

* `Formula.Above`, `Formula.From` — what may stand at the root of a tree for a level.
* `Formula.Grouped` — the trees that are grouped so.
* `Grammar.Precedes` — a formula that can be the left side of what is ahead.

Main statement: `Session.run_grouped`.
-/

namespace Drafting

open Grammar

namespace Formula

/-- The formula is no conditional, and no operation of the level or below. -/
def Above (level : Int) : Formula → Prop
  | binary _ op _ => level < op.level
  | conditional .. => False
  | _ => True

/-- The formula is no operation below the level, and no conditional unless the level is at most that
of the conditional. -/
def From (level : Int) : Formula → Prop
  | binary _ op _ => level ≤ op.level
  | conditional .. => level ≤ Operator.conditionalLevel
  | _ => True

/-- The left side of each operation is no conditional and binds at least as tightly as the operation,
the right side is no conditional and binds tighter, and no condition is a conditional. -/
def Grouped : Formula → Prop
  | integer _ | decimal _ | reference .. => True
  | parenthesized inner => inner.Grouped
  | call _ argument => argument.Grouped
  | callPair _ first second => first.Grouped ∧ second.Grouped
  | binary left op right =>
    left.Grouped ∧ right.Grouped ∧ left.Above (op.level - 1) ∧ right.Above op.level
  | conditional condition whenTrue whenFalse =>
    condition.Grouped ∧ whenTrue.Grouped ∧ whenFalse.Grouped ∧
      ∀ c t f, condition ≠ conditional c t f

variable {formula : Formula} {level : Int}

theorem Above.from (h : formula.Above level) : formula.From level := by
  cases formula with
  | binary _ op _ => exact Int.le_of_lt h
  | conditional => exact h.elim
  | _ => trivial

theorem Above.ne_conditional (h : formula.Above level) (c t f : Formula) :
    formula ≠ conditional c t f := by
  rintro rfl
  exact h

theorem above_of_rank (h : formula.rank = 6) (level : Int) : formula.Above level := by
  cases formula with
  | binary _ op _ =>
    have := op.level_le_five
    rw [rank] at h
    omega
  | conditional =>
    rw [rank] at h
    exact absurd h (by decide)
  | _ => trivial

theorem Grouped.signed (h : formula.Grouped) (negative : Bool) :
    (signed negative formula).Grouped := by
  cases negative <;> exact h

end Formula

namespace Grammar

variable {nested : Nested} {text rest : List Char} {level : Int} {left tree : Formula}

/-! ## Atoms -/

/-- The reading builds grouped trees only. -/
def Groups (reading : Nested) : Prop :=
  ∀ ⦃text tree rest⦄, reading text = .ok (tree, rest) → tree.Grouped

theorem callOf_grouped (h : Groups nested) {function : List Char}
    (hcall : callOf nested function text = .ok (tree, rest)) : tree.Grouped ∧ tree.rank = 6 := by
  obtain ⟨start, first, finish, -, hfirst, ⟨-, rfl⟩ |
    ⟨-, separator, middle, second, finish', -, -, hsecond, -, rfl⟩⟩ := callOf_eq_ok_iff.1 hcall
  · have hargument : first.Grouped := h hfirst
    exact ⟨hargument, rfl⟩
  · exact ⟨⟨h hfirst, h hsecond⟩, rfl⟩

theorem value_grouped (h : Groups nested) {negative : Bool}
    (hvalue : value nested negative text = .ok (tree, rest)) : tree.Grouped ∧ tree.rank = 6 := by
  obtain ⟨token, after, -, -, -, ⟨hliteral, -⟩ | ⟨-, operand, hnamed, rfl⟩⟩ :=
    value_eq_ok_iff.1 hvalue
  · rcases literal?_cases hliteral with ⟨number, rfl, -⟩ | ⟨number, rfl, -⟩ <;>
      exact ⟨trivial, rfl⟩
  · have hoperand : operand.Grouped ∧ operand.rank = 6 := by
      rcases named_eq_ok_iff.1 hnamed with ⟨-, rfl, -⟩ | hcall
      · exact ⟨trivial, rfl⟩
      · exact callOf_grouped h hcall
    exact ⟨hoperand.1.signed negative, rank_signed hoperand.2⟩

theorem group_grouped (h : Groups nested) (hgroup : group nested text = .ok (tree, rest)) :
    tree.Grouped := by
  obtain ⟨start, finish, -, hinner, -⟩ := group_eq_ok_iff.1 hgroup
  exact h hinner

theorem negated_grouped (h : Groups nested) (hnegated : negated nested text = .ok (tree, rest)) :
    tree.Grouped ∧ tree.rank = 6 := by
  obtain ⟨c, start, -, ⟨-, inner, hgroup, rfl⟩ | ⟨mark, reference, -, hmarked, rfl⟩ | ⟨-, hvalue⟩⟩ :=
    negated_eq_ok_iff.1 hnegated
  · exact ⟨(group_grouped h hgroup).signed true, rfl⟩
  · obtain ⟨stem, rfl, -⟩ := markedName_eq_ok_iff.1 hmarked
    exact ⟨trivial, rfl⟩
  · exact value_grouped h hvalue

/-- An atom is grouped inside, and is neither an operation nor a conditional. -/
theorem atom_grouped (h : Groups nested) (hatom : atom nested text = .ok (tree, rest)) :
    tree.Grouped ∧ tree.rank = 6 := by
  obtain ⟨c, start, -, ⟨-, inner, hgroup, rfl⟩ | ⟨-, hnegated⟩ | ⟨mark, -, hmarked⟩ | ⟨-, hvalue⟩⟩ :=
    atom_eq_ok_iff.1 hatom
  · have hinner : inner.Grouped := group_grouped h hgroup
    exact ⟨hinner, rfl⟩
  · exact negated_grouped h hnegated
  · obtain ⟨stem, rfl, -⟩ := markedName_eq_ok_iff.1 hmarked
    exact ⟨trivial, rfl⟩
  · exact value_grouped h hvalue

/-! ## The loops -/

/-- The formula can be the left side of the operator ahead, or the condition of the conditional. -/
structure Precedes (left : Formula) (text : List Char) : Prop where
  operator : ∀ op, Lead.ofText? text = some (.operator op) → left.Above (op.level - 1)
  question : Lead.ofText? text = some .question → ∀ c t f, left ≠ .conditional c t f

theorem precedes_of_above (h : ∀ level, left.Above level) (text : List Char) :
    Precedes left text :=
  ⟨fun _ _ => h _, fun _ => (h 0).ne_conditional⟩

theorem Stops.precedes_binary {op : Operator} (h : Stops op.level text) (left right : Formula) :
    Precedes (.binary left op right) text where
  operator op' hlead := Int.sub_one_lt_of_le (h op' hlead)
  question _ _ _ _ := by simp

/-- An operator takes its two sides to a grouped operation, which can be the left side of whatever
its right side stopped before. -/
theorem Precedes.join {op : Operator} {after : List Char} {right : Formula}
    (hop : Spells op text after) (hleft : left.Grouped) (hprecedes : Precedes left text)
    (hright : right.Grouped) (habove : right.Above op.level) (hstops : Stops op.level rest) :
    (Formula.binary left op right).Grouped ∧ Precedes (.binary left op right) rest := by
  obtain ⟨announced, hlead, hlevel⟩ := hop.lead
  have hside : left.Above (op.level - 1) := hlevel ▸ hprecedes.operator announced hlead
  exact ⟨⟨hleft, hright, hside, habove⟩, hstops.precedes_binary left right⟩

theorem climbs_grouped (h : Groups nested) (hshortens : Shortens nested) (hleft : left.Grouped)
    (habove : left.Above level) (hprecedes : Precedes left text)
    (hclimbs : climbs nested level left text = .ok (tree, rest)) :
    tree.Grouped ∧ tree.Above level ∧ Precedes tree rest := by
  obtain ⟨n, hn⟩ : ∃ n, text.length ≤ n := ⟨_, Nat.le_refl _⟩
  induction n using Nat.strongRecOn generalizing level left text tree rest with
  | ind n ih =>
    obtain ⟨-, rfl, rfl⟩ | ⟨op, after, right, text', hlevel, hop, hoperand, hclimbs⟩ :=
      climbs_cases hshortens hclimbs
    · exact ⟨hleft, habove, hprecedes⟩
    have hstops := (operand_done hshortens hoperand).2
    have h₁ := hop.length_lt
    have h₂ := length_dropBlanks_le after
    have h₃ := operand_shortens hshortens op.level hoperand
    rw [operand_eq hshortens, bind_eq_ok_iff] at hoperand
    obtain ⟨⟨first, left'⟩, hatom, hright⟩ := hoperand
    have h₄ := atom_shortens hshortens hatom
    have h₅ := length_dropBlanks_le left'
    obtain ⟨hfirst, hrank⟩ := atom_grouped h hatom
    have hfirstAbove := Formula.above_of_rank hrank
    obtain ⟨hgrouped, hrightAbove, -⟩ := ih (n - 1) (by omega) hfirst (hfirstAbove _)
      (precedes_of_above hfirstAbove _) hright (by omega)
    obtain ⟨hjoined, hnext⟩ := hprecedes.join hop hleft hgrouped hrightAbove hstops
    exact ih (n - 1) (by omega) hjoined hlevel hnext hclimbs (by omega)

theorem operand_grouped (h : Groups nested) (hshortens : Shortens nested)
    (hoperand : operand nested level text = .ok (tree, rest)) :
    tree.Grouped ∧ tree.Above level ∧ Precedes tree rest := by
  rw [operand_eq hshortens, bind_eq_ok_iff] at hoperand
  obtain ⟨⟨first, left⟩, hatom, hclimbs⟩ := hoperand
  obtain ⟨hfirst, hrank⟩ := atom_grouped h hatom
  have habove := Formula.above_of_rank hrank
  exact climbs_grouped h hshortens hfirst (habove _) (precedes_of_above habove _) hclimbs

theorem branches_grouped (h : Groups nested) {condition : Formula} (hcondition : condition.Grouped)
    (hne : ∀ c t f, condition ≠ .conditional c t f)
    (hbranches : branches nested condition text = .ok (tree, rest)) : tree.Grouped := by
  obtain ⟨onTrue, whenTrue, finish, onFalse, whenFalse, -, htrue, -, hfalse, rfl⟩ :=
    branches_eq_ok_iff.1 hbranches
  exact ⟨hcondition, h htrue, h hfalse, hne⟩

theorem chains_grouped (h : Groups nested) (hsettles : Settles nested) (hleft : left.Grouped)
    (hfrom : left.From level) (hprecedes : Precedes left text) (htext : dropBlanks text = text)
    (hchains : chains nested level left text = .ok (tree, rest)) :
    tree.Grouped ∧ tree.From level ∧ dropBlanks rest = rest ∧ Passes level rest := by
  obtain ⟨n, hn⟩ : ∃ n, text.length ≤ n := ⟨_, Nat.le_refl _⟩
  induction n using Nat.strongRecOn generalizing left text with
  | ind n ih =>
    obtain ⟨hpasses, rfl, rfl⟩ | ⟨hlead, hlevel, hbranches⟩ |
      ⟨op, after, right, text', hlevel, hop, hoperand, hchains⟩ := chains_cases hsettles hchains
    · exact ⟨hleft, hfrom, htext, hpasses⟩
    · have hgrouped := branches_grouped h hleft (hprecedes.question hlead) hbranches
      obtain ⟨hblank, hnone⟩ := branches_done hsettles hbranches
      obtain ⟨onTrue, whenTrue, finish, onFalse, whenFalse, -, -, -, -, rfl⟩ :=
        branches_eq_ok_iff.1 hbranches
      exact ⟨hgrouped, hlevel, hblank, fun lead hlead => by simp [hnone] at hlead⟩
    · obtain ⟨hblank, hstops⟩ := operand_done hsettles.shortens hoperand
      obtain ⟨hgrouped, habove, -⟩ := operand_grouped h hsettles.shortens hoperand
      obtain ⟨hjoined, hnext⟩ := hprecedes.join hop hleft hgrouped habove hstops
      have h₁ := hop.length_lt
      have h₂ := length_dropBlanks_le after
      have h₃ := operand_shortens hsettles.shortens op.level hoperand
      exact ih (n - 1) (by omega) hjoined hlevel hnext hblank hchains (by omega)

/-- An expression is grouped if what is nested in it is. -/
theorem expression_grouped_succ {room : Nat}
    (h : Groups (expression room Operator.conditionalLevel))
    (hexpression : expression (room + 1) level text = .ok (tree, rest)) :
    tree.Grouped ∧ tree.From level ∧ dropBlanks rest = rest ∧ Passes level rest := by
  have hsettles := expression_settles room
  rw [expression_eq, bind_eq_ok_iff] at hexpression
  obtain ⟨⟨first, finish⟩, hoperand, hchains⟩ := hexpression
  obtain ⟨hblank, -⟩ := operand_done hsettles.shortens hoperand
  obtain ⟨hgrouped, habove, hprecedes⟩ := operand_grouped h hsettles.shortens hoperand
  simp only [hblank] at hchains
  exact chains_grouped h hsettles hgrouped habove.from hprecedes hblank hchains

theorem groups_expression (room : Nat) :
    Groups (expression room Operator.conditionalLevel) := by
  induction room with
  | zero =>
    intro text tree rest hexpression
    simp [expression_zero] at hexpression
  | succ room ih => exact fun text tree rest hexpression => (expression_grouped_succ ih hexpression).1

theorem expression_grouped {room : Nat}
    (hexpression : expression room level text = .ok (tree, rest)) :
    tree.Grouped ∧ tree.From level ∧ dropBlanks rest = rest ∧ Passes level rest := by
  cases room with
  | zero => simp [expression_zero] at hexpression
  | succ room => exact expression_grouped_succ (groups_expression room) hexpression

end Grammar

namespace Session

variable {session after : Session} {tree : Formula}

/-- A reading that ends with a tree leaves the text after it. -/
theorem rest_of_finish {reading : Result (Formula × List Char)}
    (hwithin : Within session.cursor.rest reading)
    (h : session.finish reading = (.ok (.tree tree), after)) :
    reading = .ok (tree, after.cursor.rest) := by
  cases reading with
  | error fault => simp [finish] at h
  | ok result =>
    obtain ⟨rfl, rfl⟩ := by simpa [finish] using h
    rw [Cursor.rest_movedTo (hwithin.ok rfl)]

/-- Wherever it starts, the reading of an operand above a level gives a grouped tree that is no
conditional and no operation of the level or below, and stops before no blank and no operator above
the level. The reading of an expression from a level upwards gives a grouped tree that is no operation
below the level, and a conditional only if the level allows it, and stops before no blank, and before
neither an operator nor a conditional from the level upwards. -/
theorem run_grouped (session : Session) (level : Int) (tree : Formula) (after : Session) :
    (session.run (.operand level) = (.ok (.tree tree), after) →
      tree.Grouped ∧ tree.Above level ∧
        (∀ c ∈ after.cursor.rest.head?, isBlank c = false) ∧ Stops level after.cursor.rest) ∧
    (session.run (.expression level) = (.ok (.tree tree), after) →
      tree.Grouped ∧ tree.From level ∧
        (∀ c ∈ after.cursor.rest.head?, isBlank c = false) ∧ Passes level after.cursor.rest) := by
  refine ⟨fun hrun => ?_, fun hrun => ?_⟩
  · have hoperand := rest_of_finish (operand_within _ _ _) hrun
    have hshortens := (expression_settles session.room).shortens
    obtain ⟨hblank, hstops⟩ := operand_done hshortens hoperand
    obtain ⟨hgrouped, habove, -⟩ := operand_grouped (groups_expression _) hshortens hoperand
    exact ⟨hgrouped, habove, dropBlanks_eq_self_iff.1 hblank, hstops⟩
  · have hexpression := rest_of_finish (expression_within _ _ _) hrun
    obtain ⟨hgrouped, hfrom, hblank, hpasses⟩ := expression_grouped hexpression
    exact ⟨hgrouped, hfrom, dropBlanks_eq_self_iff.1 hblank, hpasses⟩

-- Unfolded at closed texts, it would have them read in full.
attribute [local irreducible] run

/-- From the start of `a-b*c>d ? e : f;`, an operand above the level of `>` is the difference, and an
expression from the level of the conditional is all that stands before `;`. -/
theorem run_grouped_conditional :
    let session := start {} "a-b*c>d ? e : f;".toList
    let difference := Formula.binary (.reference .plain ['a']) .subtract
      (.binary (.reference .plain ['b']) .multiply (.reference .plain ['c']))
    let conditional := Formula.conditional
      (.binary difference .greater (.reference .plain ['d'])) (.reference .plain ['e'])
      (.reference .plain ['f'])
    (session.run (.operand 2)).1 = .ok (.tree difference) ∧
      (difference.Grouped ∧ difference.Above 2 ∧
        (∀ c ∈ (session.run (.operand 2)).2.cursor.rest.head?, isBlank c = false) ∧
        Stops 2 (session.run (.operand 2)).2.cursor.rest) ∧
      (session.run (.expression 1)).1 = .ok (.tree conditional) ∧
      conditional.Grouped ∧ conditional.From 1 ∧
        (∀ c ∈ (session.run (.expression 1)).2.cursor.rest.head?, isBlank c = false) ∧
        Passes 1 (session.run (.expression 1)).2.cursor.rest := by
  intro session difference conditional
  have hoperand : (session.run (.operand 2)).1 = .ok (.tree difference) := by decide +kernel
  have hexpression : (session.run (.expression 1)).1 = .ok (.tree conditional) := by decide +kernel
  exact ⟨hoperand, (run_grouped session 2 difference _).1 (Prod.ext hoperand rfl),
    hexpression, (run_grouped session 1 conditional _).2 (Prod.ext hexpression rfl)⟩

end Session

end Drafting
