import Drafting.Proofs.Grammar.Chains

/-!
# Engines that follow the text

What an engine does where a text is ahead is what the engine of the text does to it, as soon as
each of its operations does so: the grammar is put together from the operations in the same way. The
operations need to do so only where the grammar uses them. A character is taken where one is ahead,
a call with two arguments is never a negation, and there are always rounds enough for a tree to
grow.

How deep the nesting may go is no matter of the operations. That a nested formula follows its
reading is assumed, and so it is of the operands on the right of operators, which an engine may read
otherwise than by the recursion of the grammar.

## Main definitions

* `Simulation` — an engine whose operations follow those of the text.

Main statements: `Simulation.atom`, `Simulation.operandOf`, `Simulation.operand`,
`Simulation.expressionOf` and `Simulation.ending`.
-/

namespace Drafting

namespace Engine.Node

variable {σ τ : Type}

/-- The node with other trees in its places. -/
def map (f : σ → τ) : Engine.Node σ → Engine.Node τ
  | number literal => number literal
  | reference mark stem => reference mark stem
  | parenthesized inner => parenthesized (f inner)
  | call function argument => call function (f argument)
  | callPair function first second => callPair function (f first) (f second)
  | binary left operator right => binary (f left) operator (f right)
  | conditional condition whenTrue whenFalse =>
    conditional (f condition) (f whenTrue) (f whenFalse)

/-- The function of a negation takes a single argument. -/
def Proper : Engine.Node τ → Prop
  | callPair function _ _ => function ≠ minusName
  | _ => True

end Engine.Node

namespace Grammar

/-- An engine that does what the readings of a text say where the text is ahead. Results and places
of its actions are images of those of the readings. -/
structure Simulation (m : Type → Type) {π τ : Type} [Monad m] [Engine m π τ] where
  tree : Formula → τ
  place : List Char → π
  /-- The action does what the reading says of the text, with the image of its result. -/
  Follows {α β : Type} (f : β → α) (action : m α) (reading : Reading β) (text : List Char) :
    Prop
  pure_follows {α β : Type} (f : β → α) (b : β) (text : List Char) :
    Follows f (pure (f b)) (pure b) text
  bind_follows {α β γ δ : Type} {f : β → α} {k : δ → γ} {first : m γ} {reading : Reading δ}
    {next : γ → m α} {after : δ → Reading β} {text : List Char}
    (h : Follows k first reading text)
    (hnext : ∀ d left, reading text = .ok (d, left) →
      Follows f (next (k d)) (after d) left) :
    Follows f (first >>= next) (reading >>= after) text
  peek_follows (text : List Char) : Follows id Engine.peek Engine.peek text
  advance_follows (c : Char) (text : List Char) :
    Follows id Engine.advance Engine.advance (c :: text)
  skipBlanks_follows (text : List Char) : Follows id Engine.skipBlanks Engine.skipBlanks text
  take_follows (wanted : Char) (text : List Char) :
    Follows id (Engine.take wanted) (Engine.take wanted) text
  takeToken_follows (text : List Char) : Follows id Engine.takeToken Engine.takeToken text
  place_follows (text : List Char) : Follows place Engine.place Engine.place text
  refuse_follows {α β : Type} (f : β → α) {cause : Cause} (hcause : cause ≠ .tooDeep)
    (text : List Char) :
    Follows f (Engine.refuse cause (place text)) (Engine.refuse cause text)
      (Fault.unread ⟨cause, text⟩)
  levelOf_follows (lead : Lead) (text : List Char) :
    Follows id (Engine.levelOf lead) (Engine.levelOf lead) text
  build_follows (node : Engine.Node Formula) (hnode : node.Proper) (text : List Char) :
    Follows tree (Engine.build (node.map tree)) (Engine.build node) text
  rounds_follows (text : List Char) : Follows id Engine.rounds Engine.rounds text

namespace Simulation

variable {m : Type → Type} {π τ : Type} [Monad m] [Engine m π τ] (S : Simulation m)
  {α β : Type} {f : β → α} {text : List Char}

/-! ## Operations and what comes after them -/

theorem peeking {next : Option Char → m α} {after : Option Char → Reading β}
    (h : S.Follows f (next text.head?) (after text.head?) text) :
    S.Follows f (Engine.peek >>= next) (Engine.peek >>= after) text := by
  refine S.bind_follows (S.peek_follows text) ?_
  rintro _ _ ⟨⟩
  exact h

theorem advancing {next : Char → m α} {after : Char → Reading β} {c : Char} {left : List Char}
    (h : S.Follows f (next c) (after c) left) :
    S.Follows f (Engine.advance >>= next) (Engine.advance >>= after) (c :: left) := by
  refine S.bind_follows (S.advance_follows c left) ?_
  rintro _ _ ⟨⟩
  exact h

theorem skipping {next : Unit → m α} {after : Unit → Reading β}
    (h : S.Follows f (next ()) (after ()) (dropBlanks text)) :
    S.Follows f (Engine.skipBlanks >>= next) (Engine.skipBlanks >>= after) text := by
  refine S.bind_follows (S.skipBlanks_follows text) ?_
  rintro _ _ ⟨⟩
  exact h

theorem taking {c : Char} {next : Unit → m α} {after : Unit → Reading β}
    (h : ∀ left, text = c :: left → S.Follows f (next ()) (after ()) left) :
    S.Follows f (Engine.take c >>= next) (Engine.take c >>= after) text := by
  refine S.bind_follows (S.take_follows c text) fun _ left htake => ?_
  obtain ⟨_, hexpect, hleft⟩ := bind_eq_ok_iff.1 htake
  obtain ⟨-, rfl⟩ := Prod.mk.inj (Except.ok.inj hleft)
  exact h _ (expect_singleton_eq_ok_iff.1 hexpect)

theorem takingToken {next : List Char → m α} {after : List Char → Reading β}
    (h : ∀ token left, text = token ++ left → S.Follows f (next token) (after token) left) :
    S.Follows f (Engine.takeToken >>= next) (Engine.takeToken >>= after) text :=
  S.bind_follows (S.takeToken_follows text) fun token left hread =>
    h token left (append_of_readToken hread).2.symm

theorem placing {next : π → m α} {after : List Char → Reading β}
    (h : S.Follows f (next (S.place text)) (after text) text) :
    S.Follows f (Engine.place >>= next) (Engine.place >>= after) text := by
  refine S.bind_follows (S.place_follows text) ?_
  rintro _ _ ⟨⟩
  exact h

theorem levelling {lead : Lead} {next : Int → m α} {after : Int → Reading β}
    (h : S.Follows f (next lead.level) (after lead.level) text) :
    S.Follows f (Engine.levelOf lead >>= next) (Engine.levelOf lead >>= after) text := by
  refine S.bind_follows (S.levelOf_follows lead text) ?_
  rintro _ _ ⟨⟩
  exact h

theorem counting {next : Nat → m α} {after : Nat → Reading β}
    (h : S.Follows f (next (text.length + 1)) (after (text.length + 1)) text) :
    S.Follows f (Engine.rounds >>= next) (Engine.rounds >>= after) text := by
  refine S.bind_follows (S.rounds_follows text) ?_
  rintro _ _ ⟨⟩
  exact h

/-- A refusal where the reading has come to. -/
theorem refuseHere (f : β → α) {cause : Cause} (hdeep : cause ≠ .tooDeep)
    (htoken : cause.token = []) (text : List Char) :
    S.Follows f (Engine.refuseHere cause) (Engine.refuseHere cause) text := by
  have hrefuse := S.refuse_follows f hdeep text
  rw [Fault.unread, htoken] at hrefuse
  exact S.placing hrefuse

/-! ## Atoms -/

theorem negation (operand : Formula) (text : List Char) :
    S.Follows S.tree (Engine.negation (S.tree operand)) (Engine.negation operand) text :=
  S.build_follows (.call minusName operand) trivial text

theorem markedName (mark : Mark) (text : List Char) :
    S.Follows S.tree (Engine.markedName mark) (Engine.markedName mark) text :=
  S.takingToken fun stem left _ => S.build_follows (.reference mark stem) trivial left

section

variable {action : m τ} {nested : Nested}
  (hnested : ∀ text, S.Follows S.tree action nested text)
include hnested

theorem group (text : List Char) :
    S.Follows S.tree (Engine.group action) (Engine.group nested) text := by
  refine S.taking fun left _ => S.bind_follows (hnested left) fun inner rest _ => ?_
  exact S.skipping (S.taking fun end_ _ => S.pure_follows _ inner end_)

theorem callOf (function text : List Char) :
    S.Follows S.tree (Engine.callOf action function) (Engine.callOf nested function) text := by
  refine S.taking fun left _ => S.bind_follows (hnested left) fun first rest _ => ?_
  refine S.skipping (S.peeking ?_)
  split
  · next hseparator =>
    obtain ⟨c, middle, hmiddle, -⟩ := separatorAhead_iff.1 (any_separates _ ▸ hseparator.1)
    rw [hmiddle]
    refine S.advancing (S.bind_follows (hnested middle) fun second finish _ => ?_)
    refine S.skipping (S.taking fun end_ _ => ?_)
    exact S.build_follows (.callPair function first second) hseparator.2 end_
  · exact S.taking fun end_ _ => S.build_follows (.call function first) trivial end_

theorem named (name text : List Char) :
    S.Follows S.tree (Engine.named action name) (Engine.named nested name) text := by
  refine S.skipping (S.peeking ?_)
  split
  · exact S.callOf hnested name _
  · exact S.build_follows (.reference .plain name) trivial _

theorem value (negative : Bool) (text : List Char) :
    S.Follows S.tree (Engine.value action negative) (Engine.value nested negative) text := by
  refine S.placing (S.takingToken fun token left htext => ?_)
  cases hliteral : literal? negative token with
  | error cause =>
    -- The number was read before it is refused.
    have hleft : Fault.unread ⟨cause, text⟩ = left ∧ cause ≠ .tooDeep := by
      rcases literal?_error hliteral with rfl | ⟨digits, rfl⟩ <;>
        simp [Fault.unread, Cause.token, htext]
    exact hleft.1 ▸ S.refuse_follows S.tree hleft.2 text
  | ok found =>
    cases found with
    | some literal => exact S.build_follows (.number literal) trivial left
    | none =>
      refine S.bind_follows (S.named hnested token left) fun operand rest _ => ?_
      cases negative with
      | true => exact S.negation operand rest
      | false => exact S.pure_follows _ operand rest

theorem negated (text : List Char) :
    S.Follows S.tree (Engine.negated action) (Engine.negated nested) text := by
  refine S.peeking ?_
  cases text with
  | nil => exact S.value hnested true []
  | cons c left =>
    simp only [List.head?_cons]
    split
    · exact S.bind_follows (S.group hnested _) fun inner rest _ => S.negation inner rest
    · cases Mark.ofSign? c with
      | some mark =>
        refine S.advancing (S.bind_follows (S.markedName mark left) fun reference rest _ => ?_)
        exact S.negation reference rest
      | none => exact S.value hnested true _

theorem atom (text : List Char) :
    S.Follows S.tree (Engine.atom action) (Engine.atom nested) text := by
  refine S.peeking ?_
  cases text with
  | nil => exact S.value hnested false []
  | cons c left =>
    simp only [List.head?_cons]
    split
    · exact S.refuseHere _ (by simp) rfl _
    split
    · refine S.bind_follows (S.group hnested _) fun inner rest _ => ?_
      exact S.build_follows (.parenthesized inner) trivial rest
    split
    · exact S.advancing (S.skipping (S.negated hnested _))
    · cases Mark.ofSign? c with
      | some mark => exact S.advancing (S.markedName mark left)
      | none => exact S.value hnested false _

theorem branches (condition : Formula) (text : List Char) :
    S.Follows S.tree (Engine.branches action (S.tree condition))
      (Engine.branches nested condition) text := by
  refine S.taking fun left _ => S.skipping (S.bind_follows (hnested _) fun whenTrue rest _ => ?_)
  refine S.skipping (S.taking fun left' _ => S.skipping ?_)
  refine S.bind_follows (hnested _) fun whenFalse rest' _ => ?_
  exact S.build_follows (.conditional condition whenTrue whenFalse) trivial rest'

end

/-! ## Operators -/

theorem peekingLead {next : Option Lead → m α} {after : Option Lead → Reading β}
    (h : S.Follows f (next (Lead.ofText? text)) (after (Lead.ofText? text)) text) :
    S.Follows f (Engine.peekLead >>= next) (Engine.peekLead >>= after) text := by
  have hlead : S.Follows id Engine.peekLead Engine.peekLead text :=
    S.peeking (S.pure_follows id _ text)
  refine S.bind_follows hlead ?_
  rintro _ _ ⟨⟩
  exact h

theorem orEqual (alone withEqual : Operator) (text : List Char) :
    S.Follows id (Engine.orEqual alone withEqual) (Engine.orEqual alone withEqual) text := by
  refine S.peeking ?_
  split
  · next hhead =>
    obtain ⟨left, rfl⟩ := List.head?_eq_some_iff.1 hhead
    exact S.advancing (S.pure_follows id withEqual left)
  · exact S.pure_follows id alone text

theorem readOperator (announced : Operator) (c : Char) (left : List Char) :
    S.Follows id (Engine.readOperator announced) (Engine.readOperator announced) (c :: left) := by
  refine S.advancing ?_
  cases announced with
  | greater | less => exact S.orEqual _ _ left
  | equal | notEqual => exact S.taking fun rest _ => S.pure_follows id _ rest
  | _ => exact S.pure_follows id _ left

section

variable {action : m τ} {nested : Nested} {actions : Int → m τ} {readings : Int → Nested}
  {level : Int}

/-- The operation of an operator that was announced, if its right side follows. -/
theorem operation {announced : Operator} (hlead : Lead.ofText? text = some (.operator announced))
    {found : Int}
    (hoperand : ∀ left : List Char, left.length < text.length →
      S.Follows S.tree (actions found) (readings found) left) (left : Formula) :
    S.Follows S.tree (Engine.operation actions announced found (S.tree left))
      (Engine.operation readings announced found left) text := by
  obtain ⟨c, rest, rfl⟩ : ∃ c rest, text = c :: rest := by
    cases text with
    | nil => simp [Lead.ofText?] at hlead
    | cons c rest => exact ⟨c, rest, rfl⟩
  refine S.bind_follows (S.readOperator announced c rest) fun op after hread => S.skipping ?_
  have h₁ := readOperator_length_lt hlead hread
  have h₂ := length_dropBlanks_le after
  refine S.bind_follows (hoperand _ (by omega)) fun right rest' _ => ?_
  exact S.build_follows (.binary left op right) trivial rest'

/-! ## Loops -/

/-- The rounds of a tree that grows follow each other. They do not run out, as each that takes
something in shortens the text. -/
theorem repeating {step : τ → m (Option τ)} {round : Formula → Reading (Option Formula)}
    (hprogresses : Progresses round) {rounds : Nat} (hrounds : text.length < rounds)
    (hround : ∀ tree (left : List Char), left.length ≤ text.length →
      S.Follows (Option.map S.tree) (step (S.tree tree)) (round tree) left) (tree : Formula) :
    S.Follows S.tree (Engine.repeating step rounds (S.tree tree))
      (Engine.repeating round rounds tree) text := by
  induction rounds generalizing text tree with
  | zero => omega
  | succ rounds ih =>
    refine S.bind_follows (hround tree text (Nat.le_refl _)) fun grown left hgrown => ?_
    cases grown with
    | none => exact S.pure_follows _ tree left
    | some grown =>
      have hleft := hprogresses.grows hgrown
      exact ih (by omega) (fun tree rest hrest => hround tree rest (by omega)) grown

theorem looping {step : τ → m (Option τ)} {round : Formula → Reading (Option Formula)}
    (hprogresses : Progresses round)
    (hround : ∀ tree (left : List Char), left.length ≤ text.length →
      S.Follows (Option.map S.tree) (step (S.tree tree)) (round tree) left) (tree : Formula) :
    S.Follows S.tree (Engine.looping step (S.tree tree)) (Engine.looping round tree) text :=
  S.counting (S.repeating hprogresses (Nat.lt_succ_self _) hround tree)

/-- A round over the operators above a level, if their right sides follow. -/
theorem climb
    (hoperand : ∀ op : Operator, level < op.level → ∀ left : List Char, left.length < text.length →
      S.Follows S.tree (actions op.level) (readings op.level) left) (left : Formula) :
    S.Follows (Option.map S.tree) (Engine.climb actions level (S.tree left))
      (Engine.climb readings level left) text := by
  refine S.peekingLead ?_
  cases hlead : Lead.ofText? text with
  | none => exact S.pure_follows (Option.map S.tree) none text
  | some lead =>
    cases lead with
    | question => exact S.pure_follows (Option.map S.tree) none text
    | operator announced =>
      refine S.levelling ?_
      split
      · exact S.pure_follows (Option.map S.tree) none text
      · next hlevel =>
        have hoperation := S.operation hlead (hoperand announced (Int.not_le.1 hlevel)) left
        refine S.bind_follows hoperation fun joined rest _ => S.skipping ?_
        exact S.pure_follows (Option.map S.tree) (some joined) _

/-- A round over the operators from a level upwards and conditionals, if what these are put together
from follows. -/
theorem chain (hnested : ∀ text, S.Follows S.tree action nested text)
    (hoperand : ∀ op : Operator, level ≤ op.level → ∀ left : List Char, left.length < text.length →
      S.Follows S.tree (actions op.level) (readings op.level) left) (left : Formula) :
    S.Follows (Option.map S.tree) (Engine.chain action actions level (S.tree left))
      (Engine.chain nested readings level left) text := by
  refine S.peekingLead ?_
  cases hlead : Lead.ofText? text with
  | none => exact S.pure_follows (Option.map S.tree) none text
  | some lead =>
    refine S.levelling ?_
    split
    · exact S.pure_follows (Option.map S.tree) none text
    · next hlevel =>
      have hjoined (joined : Formula) (rest : List Char) :
          S.Follows (Option.map S.tree)
            (do Engine.skipBlanks; return some (S.tree joined))
            (do Engine.skipBlanks; return some joined) rest :=
        S.skipping (S.pure_follows (Option.map S.tree) (some joined) _)
      cases lead with
      | question =>
        exact S.bind_follows (S.branches hnested left text) fun joined rest _ => hjoined joined rest
      | operator announced =>
        have hoperation := S.operation hlead (hoperand announced (Int.not_lt.1 hlevel)) left
        exact S.bind_follows hoperation fun joined rest _ => hjoined joined rest

/-! ## Operands and expressions -/

/-- An atom and the operators above a level, if their right sides follow. -/
theorem operandOf (hnested : ∀ text, S.Follows S.tree action nested text) (h : Shortens nested)
    (hshortens : ∀ level, Shortens (readings level))
    (hoperand : ∀ op : Operator, level < op.level → ∀ left : List Char, left.length < text.length →
      S.Follows S.tree (actions op.level) (readings op.level) left) :
    S.Follows S.tree (Engine.operandOf action actions level)
      (Engine.operandOf nested readings level) text := by
  refine S.bind_follows (S.atom hnested text) fun first rest hatom => S.skipping ?_
  have h₁ := atom_shortens h hatom
  have h₂ := length_dropBlanks_le rest
  refine S.looping (climb_progresses hshortens level) (fun tree left hleft => ?_) first
  exact S.climb (fun op hlevel left' hleft' => hoperand op hlevel left' (by omega)) tree

/-- An operand with the right sides of its operators read by the recursion of the grammar. -/
theorem operand (hnested : ∀ text, S.Follows S.tree action nested text) (h : Shortens nested)
    (level : Int) (text : List Char) :
    S.Follows S.tree (Engine.operand action level) (Engine.operand nested level) text := by
  refine S.counting ?_
  generalize hrounds : text.length + 1 = rounds
  replace hrounds : text.length < rounds := by omega
  induction rounds generalizing level text with
  | zero => omega
  | succ rounds ih =>
    apply S.operandOf hnested h (operandWithin_shortens h rounds)
    intro op _ left hleft
    exact ih op.level left (by omega)

/-- An operand from a level upwards and a loop after it, if what these are put together from
follows. -/
theorem expressionOf (hnested : ∀ text, S.Follows S.tree action nested text) (h : Settles nested)
    (hshortens : ∀ level, Shortens (readings level))
    (hfirst : ∀ text, S.Follows S.tree (actions level) (readings level) text)
    (hoperand : ∀ (op : Operator) text,
      S.Follows S.tree (actions op.level) (readings op.level) text)
    (text : List Char) :
    S.Follows S.tree (Engine.expressionOf action actions level)
      (Engine.expressionOf nested readings level) text := by
  refine S.skipping (S.bind_follows (hfirst _) fun first rest _ => S.skipping ?_)
  refine S.looping (chain_progresses h hshortens level) (fun tree left _ => ?_) first
  exact S.chain hnested (fun op _ left _ => hoperand op left) tree

theorem ending (strict : Bool) (tree : Formula) (text : List Char) :
    S.Follows S.tree (Engine.ending strict (S.tree tree)) (Engine.ending strict tree) text := by
  cases strict with
  | false => exact S.pure_follows _ tree text
  | true =>
    refine S.skipping (S.peeking ?_)
    cases dropBlanks text with
    | nil => exact S.pure_follows _ tree []
    | cons c rest => exact S.refuseHere _ (by simp) rfl _

end

end Simulation

end Grammar

end Drafting
