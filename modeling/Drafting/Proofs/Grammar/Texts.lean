import Drafting.Grammar.Basic

/-!
# Readings of a text

What the engine of a text does to it: the operations of the engine, and the readings of atoms and of
branches spelled out for the text ahead.

## Main definitions

* `group`, `callOf`, `named`, `value`, `negated`, `atom` — the readings of atoms.
* `readOperator`, `branches` — those of an operator and of the branches of a conditional.
* `separatorAhead`, `Lead.ofText?` — what is ahead in a text.
-/

namespace Drafting.Grammar

variable {α β : Type} {nested : Nested} {text left : List Char}

/-! ## Operations -/

@[simp] theorem bind_apply (reading : Reading β) (next : β → Reading α) :
    (reading >>= next) text = (do let (b, left) ← reading text; next b left) := rfl

@[simp] theorem pure_apply (a : α) : (pure a : Reading α) text = pure (a, text) := rfl

@[simp] theorem peek_apply : (Engine.peek : Reading _) text = pure (text.head?, text) := rfl

@[simp] theorem advance_apply (c : Char) :
    (Engine.advance : Reading _) (c :: left) = pure (c, left) := rfl

@[simp] theorem skipBlanks_apply :
    (Engine.skipBlanks : Reading _) text = pure ((), dropBlanks text) := rfl

@[simp] theorem take_apply (c : Char) :
    (Engine.take c : Reading _) text = (do return ((), ← expect [c] text)) := rfl

@[simp] theorem takeToken_apply :
    (Engine.takeToken : Reading _) text = readToken isDelimiter text := rfl

@[simp] theorem place_apply : (Engine.place : Reading _) text = pure (text, text) := rfl

@[simp] theorem levelOf_apply (lead : Lead) :
    (Engine.levelOf lead : Reading _) text = pure (lead.level, text) := rfl

@[simp] theorem build_apply (node : Engine.Node Formula) :
    (Engine.build node : Nested) text = pure (nodeOf node, text) := rfl

@[simp] theorem if_apply (condition : Prop) [Decidable condition] (reading reading' : Reading α) :
    (if condition then reading else reading') text =
      if condition then reading text else reading' text := by
  split <;> rfl

/-! ## Atoms -/

/-- Whether a text starts with a separator of arguments. -/
def separatorAhead : List Char → Bool
  | c :: _ => c = ',' || c = ';'
  | [] => false

theorem any_separates (text : List Char) : text.head?.any separates = separatorAhead text := by
  cases text <;> rfl

theorem separatorAhead_iff : separatorAhead text = true ↔
    ∃ c middle, text = c :: middle ∧ (c = ',' ∨ c = ';') := by
  cases text <;> simp [separatorAhead]

def markedName (mark : Mark) : Nested := Engine.markedName mark

def group (nested : Nested) : Nested := Engine.group nested

def callOf (nested : Nested) (function : List Char) : Nested := Engine.callOf nested function

def named (nested : Nested) (name : List Char) : Nested := Engine.named nested name

def value (nested : Nested) (negative : Bool) : Nested := Engine.value nested negative

def negated (nested : Nested) : Nested := Engine.negated nested

def atom (nested : Nested) : Nested := Engine.atom nested

theorem markedName_eq (mark : Mark) (text : List Char) :
    markedName mark text = (do
      let (stem, text) ← readToken isDelimiter text
      return (.reference mark stem, text)) := rfl

theorem group_eq (nested : Nested) (text : List Char) :
    group nested text = (do
      let text ← expect ['('] text
      let (inner, text) ← nested text
      let text ← expect [')'] (dropBlanks text)
      return (inner, text)) := by
  simp only [group, Engine.group, bind_apply, take_apply, skipBlanks_apply, pure_apply, bind_assoc,
    pure_bind]

theorem callOf_eq (nested : Nested) (function text : List Char) :
    callOf nested function text = (do
      let text ← expect ['('] text
      let (first, text) ← nested text
      let text := dropBlanks text
      if separatorAhead text ∧ function ≠ minusName then
        let (second, text) ← nested text.tail
        let text ← expect [')'] (dropBlanks text)
        return (.callPair function first second, text)
      else
        let text ← expect [')'] text
        return (.call function first, text)) := by
  simp only [callOf, Engine.callOf, bind_apply, take_apply, skipBlanks_apply, peek_apply, if_apply,
    build_apply, bind_assoc, pure_bind, any_separates]
  congr 1
  funext text
  congr 1
  funext result
  split
  · next hseparator =>
    obtain ⟨c, middle, hrest, -⟩ := separatorAhead_iff.1 hseparator.1
    rw [hrest]
    rfl
  · rfl

theorem named_eq (nested : Nested) (name text : List Char) :
    named nested name text =
      if (dropBlanks text).head? = some '(' then callOf nested name (dropBlanks text)
      else .ok (.reference .plain name, dropBlanks text) := by
  simp only [named, Engine.named, bind_apply, skipBlanks_apply, peek_apply, if_apply, build_apply,
    pure_bind]
  rfl

/-- A number is refused for what it is, and not for what comes after it. -/
theorem literal?_error {negative : Bool} {token : List Char} {cause : Cause}
    (h : literal? negative token = .error cause) :
    cause = .outOfRange token ∨ ∃ digits, cause = .tooManyDigits token digits := by
  unfold literal? at h
  split at h
  · simp at h
  · split at h
    · exact .inr ⟨_, (Except.error.inj h).symm⟩
    · simp at h
  · dsimp only at h
    split at h
    · simp at h
    · exact .inl (Except.error.inj h).symm

theorem value_eq (nested : Nested) (negative : Bool) (text : List Char) :
    value nested negative text = (do
      let (token, rest) ← readToken isDelimiter text
      match literal? negative token with
      | .error cause => .error ⟨cause, text⟩
      | .ok (some literal) => return (literal, rest)
      | .ok none =>
        let (operand, rest) ← named nested token rest
        return (if negative then operand.negation else operand, rest)) := by
  simp only [value, Engine.value, bind_apply, place_apply, takeToken_apply, pure_bind]
  congr 1
  funext result
  cases literal? negative result.1 with
  | error cause => rfl
  | ok found =>
    cases found with
    | some literal => rfl
    | none => cases negative <;> rfl

theorem negated_nil (nested : Nested) : negated nested [] = value nested true [] := rfl

theorem negated_cons (nested : Nested) (c : Char) (rest : List Char) :
    negated nested (c :: rest) =
      if c = '(' then do
        let (inner, rest) ← group nested (c :: rest)
        return (inner.negation, rest)
      else match Mark.ofSign? c with
        | some mark => do
          let (reference, rest) ← markedName mark rest
          return (reference.negation, rest)
        | none => value nested true (c :: rest) := by
  simp only [negated, Engine.negated, bind_apply, peek_apply, pure_bind, List.head?_cons, if_apply]
  cases Mark.ofSign? c <;> rfl

theorem atom_nil (nested : Nested) : atom nested [] = value nested false [] := rfl

theorem atom_cons (nested : Nested) (c : Char) (rest : List Char) :
    atom nested (c :: rest) =
      if startsNoOperand c then .error ⟨.misplacedOperator c, c :: rest⟩
      else if c = '(' then do
        let (inner, rest) ← group nested (c :: rest)
        return (.parenthesized inner, rest)
      else if c = '-' then negated nested (dropBlanks rest)
      else match Mark.ofSign? c with
        | some mark => markedName mark rest
        | none => value nested false (c :: rest) := by
  simp only [atom, Engine.atom, bind_apply, peek_apply, pure_bind, List.head?_cons, if_apply]
  cases Mark.ofSign? c <;> rfl

/-! ## Operators and conditionals -/

/-- What the first character of a text announces. -/
def Lead.ofText? (text : List Char) : Option Lead := text.head?.bind ofChar?

theorem peekLead_apply :
    (Engine.peekLead : Reading (Option Lead)) text = pure (Lead.ofText? text, text) := rfl

def readOperator (announced : Operator) : Reading Operator := Engine.readOperator announced

def branches (nested : Nested) (condition : Formula) : Nested := Engine.branches nested condition

theorem readOperator_cons (announced : Operator) (c : Char) (rest : List Char) :
    readOperator announced (c :: rest) =
      match announced with
      | .greater =>
        .ok (if rest.head? = some '=' then (.greaterOrEqual, rest.tail) else (.greater, rest))
      | .less => .ok (if rest.head? = some '=' then (.lessOrEqual, rest.tail) else (.less, rest))
      | .equal | .notEqual => do
        let rest ← expect ['='] rest
        return (announced, rest)
      | _ => .ok (announced, rest) := by
  have hequal (alone withEqual : Operator) : Engine.orEqual (m := Reading) alone withEqual rest =
      .ok (if rest.head? = some '=' then (withEqual, rest.tail) else (alone, rest)) := by
    simp only [Engine.orEqual, bind_apply, peek_apply, if_apply, pure_apply, pure_bind]
    split
    · next hhead =>
      obtain ⟨left, rfl⟩ := List.head?_eq_some_iff.1 hhead
      rfl
    · rfl
  simp only [readOperator, Engine.readOperator, bind_apply, advance_apply, pure_bind]
  cases announced <;>
    simp only [hequal, bind_apply, take_apply, pure_apply, bind_assoc, pure_bind] <;> rfl

theorem operation_apply (operand : Int → Nested) (announced : Operator) (found : Int)
    (left : Formula) (text : List Char) :
    Engine.operation operand announced found left text = (do
      let (op, text) ← readOperator announced text
      let (right, text) ← operand found (dropBlanks text)
      return (.binary left op right, text)) := rfl

theorem climb_apply (operand : Int → Nested) (level : Int) (left : Formula) (text : List Char) :
    Engine.climb operand level left text =
      match Lead.ofText? text with
      | some (.operator announced) =>
        if announced.level ≤ level then .ok (none, text)
        else do
          let (joined, text) ← Engine.operation operand announced announced.level left text
          return (some joined, dropBlanks text)
      | _ => .ok (none, text) := by
  rw [Engine.climb, bind_apply, peekLead_apply, pure_bind]
  cases Lead.ofText? text with
  | none => rfl
  | some lead =>
    cases lead with
    | question => rfl
    | operator announced =>
      simp only [bind_apply, levelOf_apply, pure_bind, if_apply, Lead.level]
      rfl

theorem branches_eq (nested : Nested) (condition : Formula) (text : List Char) :
    branches nested condition text = (do
      let text ← expect ['?'] text
      let (whenTrue, text) ← nested (dropBlanks text)
      let text ← expect [':'] (dropBlanks text)
      let (whenFalse, text) ← nested (dropBlanks text)
      return (.conditional condition whenTrue whenFalse, text)) := by
  simp only [branches, Engine.branches, bind_apply, take_apply, skipBlanks_apply, build_apply,
    bind_assoc, pure_bind]
  rfl

theorem chain_apply (nested : Nested) (operand : Int → Nested) (level : Int) (left : Formula)
    (text : List Char) :
    Engine.chain nested operand level left text =
      match Lead.ofText? text with
      | none => .ok (none, text)
      | some lead =>
        if lead.level < level then .ok (none, text)
        else do
          let (joined, text) ← match lead with
            | .question => branches nested left text
            | .operator announced => Engine.operation operand announced announced.level left text
          return (some joined, dropBlanks text) := by
  rw [Engine.chain, bind_apply, peekLead_apply, pure_bind]
  cases Lead.ofText? text with
  | none => rfl
  | some lead =>
    simp only [bind_apply, levelOf_apply, pure_bind, if_apply]
    cases lead <;> rfl

theorem ending_apply (strict : Bool) (tree : Formula) (text : List Char) :
    (Engine.ending strict tree : Nested) text =
      if strict then
        if dropBlanks text = [] then .ok (tree, dropBlanks text)
        else .error ⟨.trailingText, dropBlanks text⟩
      else .ok (tree, text) := by
  rw [Engine.ending, if_apply, bind_apply, skipBlanks_apply, pure_bind]
  cases dropBlanks text <;> rfl

theorem formula_eq (room : Nat) (strict : Bool) (text : List Char) :
    formula room strict text = (do
      let (tree, text) ← expression room Operator.conditionalLevel text
      if strict then
        let text := dropBlanks text
        if text = [] then return (tree, text) else .error ⟨.trailingText, text⟩
      else return (tree, text)) := by
  simp only [formula, expression, Engine.formula, bind_apply, ending_apply]
  rfl

end Drafting.Grammar
