import Drafting.Proofs.Grammar.Chains
import Drafting.Session

/-!
# One level between the two loops

Above the level of the conditional, an expression from a level upwards is an operand above the level
below it. The loop of an expression goes on where the loop of its operand ends, with the formula that
was put together so far, and takes in the operators of its own level; the loop of the operand above
the level below takes in both kinds.

## Main definitions

* `Grammar.Resumes` — the loops above two neighbouring levels agree from a place on.
* `Session.deeper` — a session with one more level counted in.

Main statement: `Session.run_operand_deeper`.
-/

namespace Drafting

namespace Grammar

variable {nested : Nested} {text : List Char} {level : Int} {left : Formula}

/-- From a formula and a place on, taking in the operators from a level upwards is taking in those
above the level first, and going on with those of the level. -/
def Resumes (nested : Nested) (level : Int) (left : Formula) (text : List Char) : Prop :=
  climbs nested (level - 1) left text = (do
    let (joined, rest) ← climbs nested level left text
    chains nested level joined (dropBlanks rest))

theorem resumes_of_stops (hlevel : Operator.conditionalLevel < level)
    (htext : dropBlanks text = text) (hstops : Stops (level - 1) text) :
    Resumes nested level left text := by
  have hstops' : Stops level text := fun op hlead => by
    have := hstops op hlead
    omega
  have hpasses : Passes level text := by
    rintro (_ | op) hlead
    · exact hlevel
    · exact Int.lt_of_le_sub_one (hstops op hlead)
  rw [Resumes, climbs_of_stops hstops, climbs_of_stops hstops']
  change _ = chains nested level left (dropBlanks text)
  rw [htext, chains_of_passes hpasses]

/-- The loops agree before an operator if they do after it and its right side. -/
theorem resumes_of_lead (h : Settles nested) (htext : dropBlanks text = text) {announced : Operator}
    (hlead : Lead.ofText? text = some (.operator announced)) (hlevel : level ≤ announced.level)
    (hnext : ∀ {op after right rest}, readOperator announced text = .ok (op, after) →
      operand nested op.level (dropBlanks after) = .ok (right, rest) →
      Resumes nested level (.binary left op right) rest) :
    Resumes nested level left text := by
  rw [Resumes, climbs_of_lead h.shortens hlead (Int.sub_one_lt_of_le hlevel)]
  by_cases htighter : level < announced.level
  · rw [climbs_of_lead h.shortens hlead htighter]
    simp only [bind_assoc]
    exact bind_congr_ok fun _ hread => bind_congr_ok fun _ hoperand => hnext hread hoperand
  · -- The operator is one of the level itself, which only the second loop takes in.
    have hstops : Stops level text := fun op hop => by
      obtain rfl : announced = op := by simpa [hlead] using hop
      exact Int.not_lt.1 htighter
    rw [climbs_of_stops hstops]
    change _ = chains nested level left (dropBlanks text)
    rw [htext, chains_of_operator h hlead hlevel]
    refine bind_congr_ok fun ⟨op, after⟩ hread => bind_congr_ok fun ⟨right, rest⟩ hoperand => ?_
    have hop : op.level = level := by
      have := (spells_of_readOperator hlead hread).2
      omega
    have hdone : Stops level rest := hop ▸ (operand_done h.shortens hoperand).2
    refine (hnext hread hoperand).trans ?_
    rw [climbs_of_stops hdone]
    rfl

/-- The loops agree from every place that is no blank. -/
theorem resumes (h : Settles nested) (hlevel : Operator.conditionalLevel < level)
    (htext : dropBlanks text = text) : Resumes nested level left text := by
  obtain ⟨n, hn⟩ : ∃ n, text.length ≤ n := ⟨_, Nat.le_refl _⟩
  induction n using Nat.strongRecOn generalizing left text with
  | ind n ih =>
    by_cases hstops : Stops (level - 1) text
    · exact resumes_of_stops hlevel htext hstops
    obtain ⟨announced, hlead, hannounced⟩ := exists_lead_of_not_stops hstops
    refine resumes_of_lead h htext hlead (Int.le_of_sub_one_lt hannounced) ?_
    intro op after right rest hread hoperand
    have h₁ := (spells_of_readOperator hlead hread).1.length_lt
    have h₂ := length_dropBlanks_le after
    have h₃ := operand_shortens h.shortens op.level hoperand
    exact ih (n - 1) (by omega) (operand_done h.shortens hoperand).1 (by omega)

theorem operand_pred_eq_expression {room : Nat} (hlevel : Operator.conditionalLevel < level)
    (htext : dropBlanks text = text) :
    operand (expression room Operator.conditionalLevel) (level - 1) text =
      expression (room + 1) level text := by
  have hshortens := (expression_settles room).shortens
  rw [expression_eq, operand_eq hshortens, operand_eq hshortens, htext, bind_assoc]
  exact bind_congr_ok fun ⟨first, rest⟩ _ =>
    resumes (expression_settles room) hlevel (dropBlanks_dropBlanks rest)

end Grammar

namespace Session

/-- The session with one more level counted in. -/
def deeper (session : Session) : Session := { session with depth := session.depth + 1 }

theorem finish_deeper (session : Session) (reading : Grammar.Result (Formula × List Char)) :
    session.deeper.finish reading =
      ((session.finish reading).1, (session.finish reading).2.deeper) := by
  cases reading with
  | ok result => rfl
  | error fault =>
    cases hkeeps : keepsLevel session.options fault.cause <;> simp [finish, deeper, hkeeps]

/-- Above the level of the conditional, reading an expression from a level upwards is reading an
operand above the level below it with one level more counted in: the reply is the same, and so is the
session after it but for that one level. The cursor must not stand before a blank, and a level must
be left. -/
theorem run_operand_deeper {session : Session} {level : Int} (hlevel : 2 ≤ level)
    (hdepth : session.depth < session.options.maxDepth)
    (hstack : ∀ limit, session.options.stackDepth = some limit → session.depth < limit)
    (hcursor : ∀ c ∈ session.cursor.rest.head?, isBlank c = false) :
    session.deeper.run (.operand (level - 1)) =
      ((session.run (.expression level)).1, (session.run (.expression level)).2.deeper) := by
  have hlimit : session.depth < session.options.limit := by
    unfold Options.limit
    split
    · exact hdepth
    · next limit hsome =>
      have := hstack limit hsome
      omega
  have hroom : session.room = session.deeper.room + 1 := by
    simp only [room, Options.room, deeper]
    omega
  rw [run, run, hroom,
    ← Grammar.operand_pred_eq_expression hlevel (dropBlanks_eq_self_iff.2 hcursor)]
  exact session.finish_deeper _

/-- In `8-a*b/2-c>d` both readings take in all operators before `>`, whose level is too low. -/
theorem run_operand_deeper_sum :
    let session := start {} "8-a*b/2-c>d".toList
    (session.depth < session.options.maxDepth ∧
      (∀ limit, session.options.stackDepth = some limit → session.depth < limit) ∧
      ∀ c ∈ session.cursor.rest.head?, isBlank c = false) ∧
    session.deeper.run (.operand (3 - 1)) =
      ((session.run (.expression 3)).1, (session.run (.expression 3)).2.deeper) := by
  intro session
  have hdepth : session.depth < session.options.maxDepth := by decide
  have hstack : ∀ limit, session.options.stackDepth = some limit → session.depth < limit := by
    rintro limit ⟨⟩
    decide
  have hcursor : ∀ c ∈ session.cursor.rest.head?, isBlank c = false := by
    rintro c ⟨⟩
    rfl
  exact ⟨⟨hdepth, hstack, hcursor⟩, run_operand_deeper (by decide) hdepth hstack hcursor⟩

end Session

end Drafting
