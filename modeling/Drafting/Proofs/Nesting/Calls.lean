import Drafting.Formula.Parse
import Drafting.Proofs.Grammar.Chains
import Drafting.Proofs.Session.Tally

/-!
# The stack that a formula needs

The counted reading of formulas call by call. An expression calls for operands and for the branches of
its conditionals, an operand calls for the right sides of its operators and for what stands inside its
parentheses; any number of operators is taken in by the loop of one call. Each call gets one less than
what is left of a budget, and knows the calls that have not ended. The reading gives up when the
budget is used up, or at calls that are not allowed.

The limit on the nesting bounds the calls, whatever the text: between two expressions the operands are
read above higher and higher levels, of which there are five.

## Main definitions

* `Call` — a call that has not ended.
* `Allowed` — what the limit leaves of the chains of such calls.
* `expression`, `operand` — the readings, call by call.
* `parse` — the formula of a text, unless the reading gave up.

Main statement: `parse_within_budget`.
-/

namespace Drafting

namespace Calling

open Counting (Counter Counted Stop Tallies Follows follows_id_iff tallying nesting outcome)

/-! ## Calls -/

/-- A call that has not ended: of an expression, or of an operand above a level. -/
inductive Call
  | expression
  | operand (level : Int)
deriving DecidableEq, Repr

/-- The levels of the operands since the last expression, the latest first. -/
def levels : List Call → List Int
  | .operand level :: chain => level :: levels chain
  | _ => []

/-- The chains of calls, the latest first, that a limit on the nesting leaves: there is at most one
expression more than the limit says, and the operands that follow an expression are at most five, each
above a higher level than the one before. -/
def Allowed (limit : Int) (chain : List Call) : Prop :=
  chain.count .expression ≤ limit.toNat + 1 ∧
    ∀ tail ∈ chain.tails, (levels tail).length ≤ 5 ∧ (levels tail).Pairwise (· > ·)

instance (limit : Int) : DecidablePred (Allowed limit) :=
  fun _ => inferInstanceAs (Decidable (_ ∧ _))

/-- A reading that is given up at once if its chain of calls is not allowed. -/
def entering {α : Type} (allowed : List Call → Bool) (chain : List Call) (text : List Char)
    (reading : Counter α) : Counter α :=
  if allowed chain then reading else throw (.exhausted text)

/-! ## Readings -/

section

variable (allowed : List Call → Bool) (limit : Int)

mutual

/-- An expression from a level upwards, called for by the calls of a chain. -/
def expression : Nat → List Call → Int → Counted Formula
  | 0, _, _ => fun text => throw (.exhausted text)
  | budget + 1, chain, level =>
    let chain := .expression :: chain
    let nested := expression budget chain Operator.conditionalLevel
    fun text => entering allowed chain text
      (nesting limit text (Engine.expressionOf nested (operand budget chain) level text))

/-- An operand above a level, called for by the calls of a chain. -/
def operand : Nat → List Call → Int → Counted Formula
  | 0, _, _ => fun text => throw (.exhausted text)
  | budget + 1, chain, level =>
    let chain := .operand level :: chain
    let nested := expression budget chain Operator.conditionalLevel
    fun text => entering allowed chain text
      (Engine.operandOf nested (operand budget chain) level text)

end

def formula (budget : Nat) (strict : Bool) : Counted Formula := do
  Engine.ending strict (← expression allowed limit budget [] Operator.conditionalLevel)

end

/-- The formula of a text, or nothing if the reading gave up. -/
def parse (allowed : List Call → Bool) (budget : Nat) (options : Options) (text : List Char) :
    Option (Except Failure Formula) :=
  match (outcome (formula allowed options.limit budget options.strict text) 0).1 with
  | .ok (tree, _) => some (.ok tree)
  | .error (.refused fault) =>
    some (.error ((Cursor.start options.filename text).failure options.limit fault))
  | .error (.exhausted _) => none

/-! ## Chains of calls -/

/-- Levels of operators or of the conditional that fall. -/
structure Falling (levels : List Int) : Prop where
  pairwise : levels.Pairwise (· > ·)
  low : ∀ level ∈ levels, Operator.conditionalLevel ≤ level
  high : ∀ level ∈ levels, level ≤ 5

theorem length_le_of_pairwise {levels : List Int} {high : Nat} (h : levels.Pairwise (· > ·))
    (hlow : ∀ level ∈ levels, 1 ≤ level) (hhigh : ∀ level ∈ levels, level ≤ high) :
    levels.length ≤ high := by
  induction levels generalizing high with
  | nil => exact Nat.zero_le _
  | cons level levels ih =>
    obtain ⟨hfirst, hpairwise⟩ := List.pairwise_cons.1 h
    have hlevel := hlow level List.mem_cons_self
    have hlevel' := hhigh level List.mem_cons_self
    have hlength : levels.length ≤ high - 1 := by
      apply ih hpairwise
      · intro lower hlower
        exact hlow lower (List.mem_cons_of_mem _ hlower)
      · intro lower hlower
        have hless := hfirst lower hlower
        omega
    rw [List.length_cons]
    omega

theorem Falling.length_le {levels : List Int} (h : Falling levels) : levels.length ≤ 5 :=
  length_le_of_pairwise h.pairwise h.low h.high

theorem falling_nil : Falling [] := ⟨.nil, by simp, by simp⟩

theorem Falling.cons {levels : List Int} {level : Int} (h : Falling levels)
    (hlow : Operator.conditionalLevel ≤ level) (hhigh : level ≤ 5)
    (hrises : ∀ lower ∈ levels, lower < level) : Falling (level :: levels) where
  pairwise := List.pairwise_cons.2 ⟨hrises, h.pairwise⟩
  low := List.forall_mem_cons.2 ⟨hlow, h.low⟩
  high := List.forall_mem_cons.2 ⟨hhigh, h.high⟩

/-- The calls that have not ended where some levels are counted in. -/
structure Active (depth : Nat) (chain : List Call) : Prop where
  count_eq : chain.count .expression = depth
  falling : ∀ tail ∈ chain.tails, Falling (levels tail)

namespace Active

variable {depth : Nat} {chain : List Call} {level limit : Int}

theorem nil : Active 0 [] := ⟨rfl, by simp [levels, falling_nil]⟩

theorem self (h : Active depth chain) : Falling (levels chain) :=
  h.falling chain ((List.mem_tails _ _).2 (List.suffix_refl chain))

theorem expression (h : Active depth chain) : Active (depth + 1) (.expression :: chain) where
  count_eq := by rw [List.count_cons_self, h.count_eq]
  falling := by
    rw [List.tails_cons]
    exact List.forall_mem_cons.2 ⟨falling_nil, h.falling⟩

theorem operand (h : Active depth chain) (hlow : Operator.conditionalLevel ≤ level)
    (hhigh : level ≤ 5) (hrises : ∀ lower ∈ levels chain, lower < level) :
    Active depth (.operand level :: chain) where
  count_eq := by rw [List.count_cons_of_ne (by simp), h.count_eq]
  falling := by
    rw [List.tails_cons]
    exact List.forall_mem_cons.2 ⟨h.self.cons hlow hhigh hrises, h.falling⟩

theorem allowed (h : Active depth chain) (hdepth : depth ≤ limit.toNat + 1) :
    Allowed limit chain := by
  refine ⟨h.count_eq ▸ hdepth, ?_⟩
  intro tail htail
  exact ⟨(h.falling tail htail).length_le, (h.falling tail htail).pairwise⟩

end Active

/-! ## The budget -/

section

variable {allowed : List Call → Bool} {limit : Int} {budget : Nat}

theorem entering_tallies {α : Type} {depth : Nat} {chain : List Call} {text : List Char}
    {counter : Counter α} {reading : Grammar.Result α} (hallowed : allowed chain = true)
    (h : Tallies false depth counter reading) :
    Tallies false depth (entering allowed chain text counter) reading := by
  rwa [entering, if_pos hallowed]

/-- The expressions for which the budget is enough are read. -/
def ReadsExpressions (allowed : List Call → Bool) (limit : Int) (budget : Nat) : Prop :=
  ∀ ⦃depth chain⦄, Active depth chain → depth ≤ limit.toNat →
    6 * (limit - depth).toNat < budget → ∀ text,
      Follows false depth id (expression allowed limit budget chain Operator.conditionalLevel)
        (Grammar.expression (limit - depth).toNat Operator.conditionalLevel) text

/-- The operands for which the budget is enough are read. An operand above a higher level needs less:
fewer levels are left for the right sides of its operators. -/
def ReadsOperands (allowed : List Call → Bool) (limit : Int) (budget : Nat) : Prop :=
  ∀ ⦃depth chain level⦄, Active depth chain → depth ≤ limit.toNat →
    Operator.conditionalLevel ≤ level → level ≤ 5 → (∀ lower ∈ levels chain, lower < level) →
    6 * (limit - depth).toNat + 6 < budget + level → ∀ text,
      Follows false depth id (operand allowed limit budget chain level)
        (Grammar.operand (Grammar.expression (limit - depth).toNat Operator.conditionalLevel) level)
        text

variable (hallowed : ∀ chain, Allowed limit chain → allowed chain = true)
include hallowed

theorem expressions_succ (hexpressions : ReadsExpressions allowed limit budget)
    (hoperands : ReadsOperands allowed limit budget) :
    ReadsExpressions allowed limit (budget + 1) := by
  intro depth chain hactive hdepth hbudget text
  have hinside := hactive.expression
  rw [follows_id_iff, expression]
  apply entering_tallies (hallowed _ (hinside.allowed (Nat.succ_le_succ hdepth)))
  apply Counting.nesting_tallies
  · intro hlimit
    have hroom : (limit - depth).toNat = 0 := by omega
    exact ⟨rfl, by rw [hroom, Grammar.expression_zero]⟩
  · intro hlimit
    have hroom : (limit - depth).toNat = (limit - (depth + 1 : Nat)).toNat + 1 := by omega
    have hdepth' : depth + 1 ≤ limit.toNat := by omega
    have hsettles := Grammar.expression_settles (limit - (depth + 1 : Nat)).toNat
    have hnested := hexpressions hinside hdepth' (by omega)
    have hoperand {level : Int} (hlow : Operator.conditionalLevel ≤ level) (hhigh : level ≤ 5) :=
      have hpositive : 1 ≤ level := hlow
      hoperands hinside hdepth' hlow hhigh (by simp [levels]) (by omega)
    have hfirst := hoperand (Int.le_refl Operator.conditionalLevel) (by decide)
    have hright (op : Operator) :=
      hoperand (Int.le_of_lt op.conditionalLevel_lt_level) op.level_le_five
    have hshortens := Grammar.operand_shortens hsettles.shortens
    rw [hroom]
    exact follows_id_iff.1 ((tallying false (depth + 1)).expressionOf hnested hsettles hshortens
      hfirst hright text)

theorem operands_succ (hexpressions : ReadsExpressions allowed limit budget)
    (hoperands : ReadsOperands allowed limit budget) :
    ReadsOperands allowed limit (budget + 1) := by
  intro depth chain level hactive hdepth hlow hhigh hrises hbudget text
  have hinside := hactive.operand hlow hhigh hrises
  have hshortens := (Grammar.expression_settles (limit - depth).toNat).shortens
  rw [follows_id_iff, operand, Grammar.operand_eq hshortens]
  apply entering_tallies (hallowed _ (hinside.allowed (Nat.le_succ_of_le hdepth)))
  have hnested := hexpressions hinside hdepth (by omega)
  refine follows_id_iff.1 ((tallying false depth).operandOf hnested hshortens
    (Grammar.operand_shortens hshortens) fun op hlevel left _ => ?_)
  apply hoperands hinside hdepth (by omega) op.level_le_five
  · exact List.forall_mem_cons.2 ⟨hlevel, fun lower hlower => (hrises lower hlower).trans hlevel⟩
  · omega

theorem reads (budget : Nat) :
    ReadsExpressions allowed limit budget ∧ ReadsOperands allowed limit budget := by
  induction budget with
  | zero =>
    refine ⟨fun depth chain _ _ hbudget => ?_, fun depth chain level _ _ _ hhigh _ hbudget => ?_⟩
    all_goals omega
  | succ budget ih =>
    exact ⟨expressions_succ hallowed ih.1 ih.2, operands_succ hallowed ih.1 ih.2⟩

theorem formula_tallies (hbudget : 6 * limit.toNat < budget) (strict : Bool) (text : List Char) :
    Tallies false 0 (formula allowed limit budget strict text)
      (Grammar.formula limit.toNat strict text) := by
  have hexpression := (reads hallowed budget).1 .nil (Nat.zero_le _) (by simpa using hbudget) text
  simp only [Nat.cast_zero, Int.sub_zero] at hexpression
  refine follows_id_iff.1 (hexpression.bind fun tree left _ => ?_)
  exact (tallying false 0).ending strict tree left

theorem parse_eq_some {options : Options} (hlimit : options.limit = limit)
    (hbudget : 6 * limit.toNat < budget) (text : List Char) :
    parse allowed budget options text = some (Formula.parse options text) := by
  subst hlimit
  have hroom : options.room 0 = options.limit.toNat := by simp [Options.room]
  rw [parse, Formula.parse, hroom, formula_tallies hallowed hbudget]
  rcases Grammar.formula options.limit.toNat options.strict text with ⟨cause, left⟩ | result
  · cases cause <;> rfl
  · rfl

end

theorem Allowed.mono {limit limit' : Int} {chain : List Call} (h : Allowed limit chain)
    (hlimit : limit ≤ limit') : Allowed limit' chain :=
  ⟨h.1.trans (by omega), h.2⟩

theorem limit_le_maxDepth (options : Options) : options.limit ≤ options.maxDepth := by
  unfold Options.limit
  split
  · exact Int.le_refl _
  · exact Int.min_le_left _ _

end Calling

/-- Every text, however long, is read to its end with a budget of six calls for each level of nesting
that the limit allows, and one more. It makes no difference that the reading would give up as soon as
the limit does not allow the calls that have not ended. -/
theorem parse_within_budget (options : Options) (text : List Char) (more : Nat) :
    let budget := 6 * options.maxDepth.toNat + 1 + more
    Calling.parse (fun _ => true) budget options text = some (Formula.parse options text) ∧
      Calling.parse (fun chain => Calling.Allowed options.maxDepth chain) budget options text =
        some (Formula.parse options text) := by
  have hlimit := Calling.limit_le_maxDepth options
  have hbudget : 6 * options.limit.toNat < 6 * options.maxDepth.toNat + 1 + more := by omega
  refine ⟨Calling.parse_eq_some (fun _ _ => rfl) rfl hbudget text,
    Calling.parse_eq_some (fun chain hchain => ?_) rfl hbudget text⟩
  exact decide_eq_true (hchain.mono hlimit)

/-- Four right sides and a group inside the last of them use up all seven calls. -/
example : Calling.parse (fun _ => true) 6 { maxDepth := 1 } "a<b+c*d^(e)".toList = none := by
  decide +kernel

end Drafting
