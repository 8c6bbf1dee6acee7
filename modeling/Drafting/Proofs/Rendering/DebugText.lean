import Drafting.Proofs.Canonical.Proper
import Drafting.Proofs.Document.Decoding
import Drafting.Rendering.Debug

/-!
# Debug text is unambiguous

No two formulas that are read from texts have the same debug text. The first two characters tell what
kind of formula is ahead. A name is not marked off from what follows it, and may hold brackets and
begin with any sign that ends another name, so that it is found by its length: it is a token, and what
follows it is a delimiter, except that the closing bracket of an operation belongs to the last token
before it.

## Main definitions

* `Shape` — what the first characters of debug text tell.
* `Trails` — what follows a formula inside debug text.
* `Recovers` — a formula that its debug text determines.

Main statement: `eq_of_debug_eq`.
-/

namespace Drafting

theorem Operator.symbol_injective : Function.Injective Operator.symbol := by
  intro op op' h
  cases op <;> cases op' <;> first | rfl | cases h

namespace Rendering

open Grammar

variable {rest rest' : List Char} {negated negated' bracket : Bool} {tree tree' : Formula}

/-! ## Debug text, piece by piece -/

/-- The letter after a number. -/
def numberLetter : Formula → Char
  | .integer _ => 'I'
  | _ => 'D'

theorem debug_literal_append {literal : Formula} (h : literal.Literal) :
    debug literal ++ rest =
      ' ' :: (canonical literal ++ numberLetter literal :: ' ' :: rest) := by
  cases literal with
  | integer | decimal => simp [debug, Formula.render, debugStyle, Number.text, numberLetter]
  | _ => exact h.elim

theorem debug_reference (mark : Mark) (stem : List Char) :
    debug (.reference mark stem) = mark.sign ++ stem := rfl

theorem debug_parenthesized_append (inner : Formula) :
    debug (.parenthesized inner) ++ rest = '(' :: (debug inner ++ ')' :: rest) := by
  simp [debug, Formula.render, debugStyle]

theorem debug_call_append (function : List Char) (argument : Formula) :
    debug (.call function argument) ++ rest =
      function ++ '(' :: (debug argument ++ ')' :: rest) := by
  simp [debug, Formula.render, debugStyle]

theorem debug_callPair_append (function : List Char) (first second : Formula) :
    debug (.callPair function first second) ++ rest =
      function ++ '(' :: (debug first ++ ',' :: (debug second ++ ')' :: rest)) := by
  simp [debug, Formula.render, debugStyle]

theorem debug_binary_append (left : Formula) (op : Operator) (right : Formula) :
    debug (.binary left op right) ++ rest =
      ' ' :: '[' :: (debug left ++
        ' ' :: (op.symbol ++ ' ' :: (debug right ++ ']' :: ' ' :: rest))) := by
  simp [debug, Formula.render, debugStyle]

theorem debug_conditional_append (condition whenTrue whenFalse : Formula) :
    debug (.conditional condition whenTrue whenFalse) ++ rest =
      ' ' :: '[' :: (debug condition ++ ' ' :: (['?'] ++ ' ' :: (debug whenTrue ++
        ':' :: ' ' :: (debug whenFalse ++ ']' :: ' ' :: rest)))) := by
  simp [debug, Formula.render, debugStyle]

/-! ## Shapes -/

/-- What the first characters of debug text tell of a formula. -/
inductive Shape
  | number
  | operation
  | group
  | marked
  | named
deriving DecidableEq, Repr

def Shape.ofText : List Char → Shape
  | ' ' :: '[' :: _ => operation
  | ' ' :: _ => number
  | '(' :: _ => group
  | '@' :: _ | '#' :: _ => marked
  | _ => named

def Shape.ofFormula : Formula → Shape
  | .integer _ | .decimal _ => number
  | .reference .plain _ | .call .. | .callPair .. => named
  | .reference .custom _ | .reference .hashed _ => marked
  | .parenthesized _ => group
  | .binary .. | .conditional .. => operation

/-- A literal begins with a digit or a minus sign, and so with no bracket. -/
theorem shape_literal (literal : Formula) (h : literal.Literal) (rest : List Char) :
    Shape.ofText (debug literal ++ rest) = .number := by
  have hhead : ∀ text, canonical literal ++ numberLetter literal :: ' ' :: rest ≠ '[' :: text := by
    intro text
    by_cases hunsigned : literal.Unsigned
    · obtain ⟨c, body, htext, hc, -⟩ := exists_digits h hunsigned
      rw [htext]
      rintro ⟨⟩
      exact absurd hc (by decide)
    · rw [(canonical_of_signed h hunsigned).1]
      simp
  rw [debug_literal_append h]
  unfold Shape.ofText
  split <;> simp_all

theorem shape_name {name : List Char} (h : Formula.BareName negated name) (text : List Char) :
    Shape.ofText (name ++ text) = .named := by
  obtain ⟨c, body, rfl⟩ := List.exists_cons_of_ne_nil h.ne_nil
  obtain ⟨hblank, hopen⟩ := h.head c rfl
  have hspace : c ≠ ' ' := by
    rintro rfl
    exact absurd hblank (by decide)
  rw [List.cons_append]
  unfold Shape.ofText
  split <;> simp_all

theorem shape_debug_append (h : tree.Proper negated) (rest : List Char) :
    Shape.ofText (debug tree ++ rest) = .ofFormula tree := by
  cases tree with
  | integer value => exact shape_literal (.integer value) h rest
  | decimal value => exact shape_literal (.decimal value) h rest
  | reference mark stem =>
    cases mark with
    | plain => exact shape_name (h.bare rfl) rest
    | custom | hashed => rfl
  | parenthesized inner => rw [debug_parenthesized_append, Shape.ofText, Shape.ofFormula]
  | call function argument => exact debug_call_append function argument ▸ shape_name h.1 _
  | callPair function first second =>
    exact debug_callPair_append function first second ▸ shape_name h.2.1 _
  | binary left op right => rw [debug_binary_append, Shape.ofText, Shape.ofFormula]
  | conditional condition whenTrue whenFalse =>
    rw [debug_conditional_append, Shape.ofText, Shape.ofFormula]

/-! ## What follows a formula -/

/-- The bracket that closes an operation. -/
def closing (bracket : Bool) : List Char := if bracket then [']'] else []

/-- What follows a formula inside debug text: the closing bracket, if the formula is the last part of
an operation, and a delimiter that opens no parentheses, or nothing. -/
def Trails (bracket : Bool) (rest : List Char) : Prop :=
  ∃ after, rest = closing bracket ++ after ∧ AtDelimiter after ∧ after.head? ≠ some '('

theorem trails_nil : Trails false [] := ⟨[], rfl, atDelimiter_nil, by simp⟩

theorem trails_cons {c : Char} (hc : isDelimiter c = true) (hopen : c ≠ '(') :
    Trails false (c :: rest) :=
  ⟨c :: rest, rfl, atDelimiter_cons.2 hc, by simpa using hopen⟩

theorem trails_blank : Trails false (' ' :: rest) := trails_cons rfl (by decide)

theorem trails_close : Trails false (')' :: rest) := trails_cons rfl (by decide)

theorem trails_comma : Trails false (',' :: rest) := trails_cons rfl (by decide)

theorem trails_colon : Trails false (':' :: rest) := trails_cons rfl (by decide)

theorem trails_bracket : Trails true (']' :: ' ' :: rest) :=
  ⟨' ' :: rest, rfl, atDelimiter_cons.2 rfl, by simp⟩

theorem isToken_concat {token : List Char} {c : Char} (h : IsToken token)
    (hc : isDelimiter c = false) : IsToken (token ++ [c]) := by
  obtain ⟨d, body, rfl, hd, hbody⟩ := h
  refine ⟨d, body ++ [c], rfl, hd, ?_⟩
  intro e he
  rcases List.mem_append.1 he with he | he
  · exact hbody e he
  · rwa [List.mem_singleton.1 he]

theorem isToken_closing {token : List Char} (h : IsToken token) (bracket : Bool) :
    IsToken (token ++ closing bracket) := by
  cases bracket with
  | false => simpa [closing] using h
  | true => exact isToken_concat h rfl

/-- Where names are followed alike, their ends are found alike. -/
theorem Trails.name_inj {name name' : List Char} (hrest : Trails bracket rest)
    (hrest' : Trails bracket rest') (h : IsToken name) (h' : IsToken name')
    (heq : name ++ rest = name' ++ rest') : name = name' ∧ rest = rest' := by
  obtain ⟨after, rfl, hend, -⟩ := hrest
  obtain ⟨after', rfl, hend', -⟩ := hrest'
  rw [← List.append_assoc, ← List.append_assoc] at heq
  obtain ⟨hname, rfl⟩ :=
    (isToken_closing h bracket).unique (isToken_closing h' bracket) hend hend' heq
  exact ⟨List.append_cancel_right hname, rfl⟩

/-- A name that parentheses follow is that of a function. -/
theorem Trails.name_ne_call {name function text : List Char} (hrest : Trails bracket rest)
    (h : IsToken name) (h' : IsToken function) : name ++ rest ≠ function ++ '(' :: text := by
  obtain ⟨after, rfl, hend, hopen⟩ := hrest
  rw [← List.append_assoc]
  intro heq
  obtain ⟨-, rfl⟩ := (isToken_closing h bracket).unique h' hend (atDelimiter_cons.2 rfl) heq
  exact hopen rfl

theorem function_inj {function function' text text' : List Char} (h : IsToken function)
    (h' : IsToken function') (heq : function ++ '(' :: text = function' ++ '(' :: text') :
    function = function' ∧ text = text' := by
  obtain ⟨hfunction, htext⟩ := h.unique h' (atDelimiter_cons.2 rfl) (atDelimiter_cons.2 rfl) heq
  exact ⟨hfunction, (List.cons.inj htext).2⟩

/-- The letter after a number is part of its token. -/
theorem literal_inj (h : tree.Literal) (h' : tree'.Literal)
    (heq : debug tree ++ rest = debug tree' ++ rest') : tree = tree' ∧ rest = rest' := by
  have hletter (formula : Formula) : isDelimiter (numberLetter formula) = false := by
    cases formula <;> rfl
  rw [debug_literal_append h, debug_literal_append h', List.append_cons,
    List.append_cons (canonical tree')] at heq
  obtain ⟨htoken, hrest⟩ := (isToken_concat (isToken_literal h) (hletter tree)).unique
    (isToken_concat (isToken_literal h') (hletter tree')) (atDelimiter_cons.2 rfl)
    (atDelimiter_cons.2 rfl) (List.cons.inj heq).2
  have hliteral := literal?_canonical_self h
  rw [(List.append_inj' htoken rfl).1, literal?_canonical_self h'] at hliteral
  exact ⟨by simpa using hliteral.symm, (List.cons.inj hrest).2⟩

theorem isToken_symbol (op : Operator) : IsToken op.symbol := by
  cases op <;> exact ⟨_, _, rfl, rfl, by simp <;> rfl⟩

theorem isToken_question : IsToken ['?'] := ⟨'?', [], rfl, rfl, by simp⟩

/-- The sign between two operands stands between blanks. -/
theorem joint_inj {sign sign' text text' : List Char} (h : IsToken sign) (h' : IsToken sign')
    (heq : ' ' :: (sign ++ ' ' :: text) = ' ' :: (sign' ++ ' ' :: text')) :
    sign = sign' ∧ text = text' := by
  obtain ⟨hsign, htext⟩ := h.unique h' (atDelimiter_cons.2 rfl) (atDelimiter_cons.2 rfl)
    (List.cons.inj heq).2
  exact ⟨hsign, (List.cons.inj htext).2⟩

theorem symbol_ne_question (op : Operator) : op.symbol ≠ ['?'] := by
  cases op <;> decide

/-! ## Reading back -/

/-- Formulas whose debug texts go on alike are of one shape. -/
theorem shape_eq (h : tree.Proper negated) (h' : tree'.Proper negated')
    (heq : debug tree ++ rest = debug tree' ++ rest') :
    Shape.ofFormula tree = .ofFormula tree' := by
  rw [← shape_debug_append h rest, heq, shape_debug_append h']

theorem literal_of_shape (h : tree.Proper negated) (hshape : Shape.number = .ofFormula tree) :
    tree.Literal := by
  cases tree with
  | integer | decimal => exact h
  | reference mark => cases mark <;> cases hshape
  | _ => cases hshape

theorem parenthesized_of_shape (h : tree.Proper negated) (hshape : Shape.group = .ofFormula tree) :
    ∃ inner, tree = .parenthesized inner ∧ inner.Proper false := by
  cases tree with
  | parenthesized inner => exact ⟨inner, rfl, h⟩
  | reference mark => cases mark <;> cases hshape
  | _ => cases hshape

theorem reference_of_shape (hshape : Shape.marked = .ofFormula tree) :
    ∃ mark sign stem, tree = .reference mark stem ∧ Mark.ofSign? sign = some mark := by
  cases tree with
  | reference mark stem =>
    cases mark with
    | plain => cases hshape
    | custom => exact ⟨.custom, '@', stem, rfl, rfl⟩
    | hashed => exact ⟨.hashed, '#', stem, rfl, rfl⟩
  | _ => cases hshape

/-- A name stands alone, or parentheses with one or two arguments follow it. -/
theorem named_of_shape (h : tree.Proper negated) (hshape : Shape.named = .ofFormula tree) :
    (∃ name, tree = .reference .plain name ∧ IsToken name) ∨
    (∃ function argument, tree = .call function argument ∧ IsToken function ∧
      argument.Proper (function = minusName)) ∨
    ∃ function first second, tree = .callPair function first second ∧ IsToken function ∧
      first.Proper false ∧ second.Proper false := by
  cases tree with
  | reference mark name =>
    cases mark with
    | plain => exact .inl ⟨name, rfl, (h.bare rfl).isToken⟩
    | custom | hashed => cases hshape
  | call function argument => exact .inr (.inl ⟨function, argument, rfl, h.1.isToken, h.2⟩)
  | callPair function first second =>
    exact .inr (.inr ⟨function, first, second, rfl, h.2.1.isToken, h.2.2⟩)
  | _ => cases hshape

theorem operation_of_shape (h : tree.Proper negated)
    (hshape : Shape.operation = .ofFormula tree) :
    (∃ left op right, tree = .binary left op right ∧ left.Proper false ∧ right.Proper false) ∨
    ∃ condition whenTrue whenFalse, tree = .conditional condition whenTrue whenFalse ∧
      condition.Proper false ∧ whenTrue.Proper false ∧ whenFalse.Proper false := by
  cases tree with
  | binary left op right => exact .inl ⟨left, op, right, rfl, h⟩
  | conditional condition whenTrue whenFalse =>
    exact .inr ⟨condition, whenTrue, whenFalse, rfl, h⟩
  | reference mark => cases mark <;> cases hshape
  | _ => cases hshape

/-- Debug text that goes on like that of the formula, and is followed alike, is that of the formula. -/
def Recovers (tree : Formula) : Prop :=
  ∀ ⦃tree' negated negated' bracket rest rest'⦄, tree.Proper negated → tree'.Proper negated' →
    Trails bracket rest → Trails bracket rest' →
    debug tree ++ rest = debug tree' ++ rest' → tree = tree' ∧ rest = rest'

namespace Recovers

theorem literal (h : ∀ ⦃negated⦄, tree.Proper negated → tree.Literal) : Recovers tree := by
  intro tree' negated negated' bracket rest rest' hproper hproper' _ _ heq
  have hliteral := h hproper
  have hshape : Shape.number = .ofFormula tree' := by
    rw [← shape_eq hproper hproper' heq]
    cases tree with
    | integer | decimal => rfl
    | _ => exact hliteral.elim
  exact literal_inj hliteral (literal_of_shape hproper' hshape) heq

theorem name (name : List Char) : Recovers (.reference .plain name) := by
  intro tree' negated negated' bracket rest rest' h h' hrest hrest' heq
  have hname : IsToken name := (h.bare rfl).isToken
  rcases named_of_shape h' (shape_eq h h' heq) with ⟨name', rfl, hname'⟩ |
    ⟨function, argument, rfl, hfunction, -⟩ | ⟨function, first, second, rfl, hfunction, -⟩
  · obtain ⟨rfl, rfl⟩ := hrest.name_inj hrest' hname hname' heq
    exact ⟨rfl, rfl⟩
  · rw [debug_call_append] at heq
    exact absurd heq (hrest.name_ne_call hname hfunction)
  · rw [debug_callPair_append] at heq
    exact absurd heq (hrest.name_ne_call hname hfunction)

theorem marked {mark : Mark} {sign : Char} (hmark : Mark.ofSign? sign = some mark)
    (stem : List Char) : Recovers (.reference mark stem) := by
  intro tree' negated negated' bracket rest rest' h h' hrest hrest' heq
  have hshape : Shape.marked = .ofFormula tree' := by
    rw [← shape_eq h h' heq]
    unfold Mark.ofSign? at hmark
    split at hmark <;> cases hmark <;> rfl
  obtain ⟨mark', sign', stem', rfl, hmark'⟩ := reference_of_shape hshape
  rw [debug_reference, debug_reference, (sign_of_ofSign? hmark).1, (sign_of_ofSign? hmark').1] at heq
  obtain ⟨rfl, htext⟩ := List.cons.inj heq
  obtain rfl := Option.some.inj (hmark.symm.trans hmark')
  obtain ⟨rfl, rfl⟩ := hrest.name_inj hrest' (h.isToken hmark) (h'.isToken hmark) htext
  exact ⟨rfl, rfl⟩

theorem parenthesized {inner : Formula} (hinner : Recovers inner) :
    Recovers (.parenthesized inner) := by
  intro tree' negated negated' bracket rest rest' h h' hrest hrest' heq
  obtain ⟨inner', rfl, hproper'⟩ := parenthesized_of_shape h' (shape_eq h h' heq)
  rw [debug_parenthesized_append, debug_parenthesized_append] at heq
  obtain ⟨rfl, htext⟩ := hinner h hproper' trails_close trails_close (List.cons.inj heq).2
  exact ⟨rfl, (List.cons.inj htext).2⟩

theorem call {function : List Char} {argument : Formula} (hargument : Recovers argument) :
    Recovers (.call function argument) := by
  intro tree' negated negated' bracket rest rest' h h' hrest hrest' heq
  have hshape := shape_eq h h' heq
  have hfunction := h.1.isToken
  rw [debug_call_append] at heq
  rcases named_of_shape h' hshape with ⟨name, rfl, hname⟩ |
    ⟨function', argument', rfl, hfunction', hproper'⟩ |
    ⟨function', first, second, rfl, hfunction', hproper', -⟩
  · exact absurd heq.symm (hrest'.name_ne_call hname hfunction)
  · rw [debug_call_append] at heq
    obtain ⟨rfl, htext⟩ := function_inj hfunction hfunction' heq
    obtain ⟨rfl, hend⟩ := hargument h.2 hproper' trails_close trails_close htext
    exact ⟨rfl, (List.cons.inj hend).2⟩
  · -- a comma follows where a parenthesis should
    rw [debug_callPair_append] at heq
    obtain ⟨rfl, htext⟩ := function_inj hfunction hfunction' heq
    obtain ⟨-, hend⟩ := hargument h.2 hproper' trails_close trails_comma htext
    cases hend

theorem callPair {function : List Char} {first second : Formula} (hfirst : Recovers first)
    (hsecond : Recovers second) : Recovers (.callPair function first second) := by
  intro tree' negated negated' bracket rest rest' h h' hrest hrest' heq
  have hshape := shape_eq h h' heq
  obtain ⟨-, hname, h₁, h₂⟩ := h
  have hfunction := hname.isToken
  rw [debug_callPair_append] at heq
  rcases named_of_shape h' hshape with ⟨name', rfl, hname'⟩ |
    ⟨function', argument, rfl, hfunction', hproper'⟩ |
    ⟨function', first', second', rfl, hfunction', h₁', h₂'⟩
  · exact absurd heq.symm (hrest'.name_ne_call hname' hfunction)
  · rw [debug_call_append] at heq
    obtain ⟨rfl, htext⟩ := function_inj hfunction hfunction' heq
    obtain ⟨-, hend⟩ := hfirst h₁ hproper' trails_comma trails_close htext
    cases hend
  · rw [debug_callPair_append] at heq
    obtain ⟨rfl, htext⟩ := function_inj hfunction hfunction' heq
    obtain ⟨rfl, hmiddle⟩ := hfirst h₁ h₁' trails_comma trails_comma htext
    obtain ⟨rfl, hend⟩ := hsecond h₂ h₂' trails_close trails_close (List.cons.inj hmiddle).2
    exact ⟨rfl, (List.cons.inj hend).2⟩

/-- The first part of an operation and the sign after it. -/
theorem joint {first other : Formula} {sign sign' text text' : List Char} (hfirst : Recovers first)
    (h : first.Proper negated) (h' : other.Proper negated') (hsign : IsToken sign)
    (hsign' : IsToken sign')
    (heq : ' ' :: '[' :: (debug first ++ ' ' :: (sign ++ ' ' :: text)) =
      ' ' :: '[' :: (debug other ++ ' ' :: (sign' ++ ' ' :: text'))) :
    first = other ∧ sign = sign' ∧ text = text' := by
  obtain ⟨rfl, hjoint⟩ := hfirst h h' trails_blank trails_blank (List.cons.inj (List.cons.inj heq).2).2
  exact ⟨rfl, joint_inj hsign hsign' hjoint⟩

theorem binary {left right : Formula} {op : Operator} (hleft : Recovers left)
    (hright : Recovers right) : Recovers (.binary left op right) := by
  intro tree' negated negated' bracket rest rest' h h' hrest hrest' heq
  have hshape := shape_eq h h' heq
  rw [debug_binary_append] at heq
  rcases operation_of_shape h' hshape with ⟨left', op', right', rfl, h₁', h₂'⟩ |
    ⟨condition, whenTrue, whenFalse, rfl, hproper', -⟩
  · rw [debug_binary_append] at heq
    obtain ⟨rfl, hsymbol, htext⟩ := hleft.joint h.1 h₁' (isToken_symbol op) (isToken_symbol op') heq
    obtain rfl := Operator.symbol_injective hsymbol
    obtain ⟨rfl, hend⟩ := hright h.2 h₂' trails_bracket trails_bracket htext
    exact ⟨rfl, by simpa using hend⟩
  · rw [debug_conditional_append] at heq
    have hsign := hleft.joint h.1 hproper' (isToken_symbol op) isToken_question heq
    exact absurd hsign.2.1 (symbol_ne_question op)

theorem conditional {condition whenTrue whenFalse : Formula} (hcondition : Recovers condition)
    (htrue : Recovers whenTrue) (hfalse : Recovers whenFalse) :
    Recovers (.conditional condition whenTrue whenFalse) := by
  intro tree' negated negated' bracket rest rest' h h' hrest hrest' heq
  have hshape := shape_eq h h' heq
  rw [debug_conditional_append] at heq
  rcases operation_of_shape h' hshape with ⟨left, op, right, rfl, hproper', -⟩ |
    ⟨condition', whenTrue', whenFalse', rfl, h₁', h₂', h₃'⟩
  · rw [debug_binary_append] at heq
    have hsign := hcondition.joint h.1 hproper' isToken_question (isToken_symbol op) heq
    exact absurd hsign.2.1.symm (symbol_ne_question op)
  · rw [debug_conditional_append] at heq
    obtain ⟨rfl, -, htext⟩ := hcondition.joint h.1 h₁' isToken_question isToken_question heq
    obtain ⟨rfl, hmiddle⟩ := htrue h.2.1 h₂' trails_colon trails_colon htext
    obtain ⟨rfl, hend⟩ := hfalse h.2.2 h₃' trails_bracket trails_bracket
      (List.cons.inj (List.cons.inj hmiddle).2).2
    exact ⟨rfl, by simpa using hend⟩

end Recovers

theorem recovers (tree : Formula) : Recovers tree := by
  induction tree with
  | integer value => exact .literal fun _ h => h
  | decimal value => exact .literal fun _ h => h
  | reference mark stem =>
    cases mark with
    | plain => exact .name stem
    | custom => exact .marked (show Mark.ofSign? '@' = some .custom from rfl) stem
    | hashed => exact .marked (show Mark.ofSign? '#' = some .hashed from rfl) stem
  | parenthesized inner ih => exact ih.parenthesized
  | call function argument ih => exact ih.call
  | callPair function first second ih ih' => exact ih.callPair ih'
  | binary left op right ih ih' => exact ih.binary ih'
  | conditional condition whenTrue whenFalse ih ih₁ ih₂ => exact ih.conditional ih₁ ih₂

end Rendering

open Rendering

/-- Texts that are read as formulas of one debug text are read as one formula. -/
theorem eq_of_debug_eq {options options' : Options} {text text' : List Char} {tree tree' : Formula}
    (h : Formula.parse options text = .ok tree) (h' : Formula.parse options' text' = .ok tree')
    (heq : debug tree = debug tree') : tree = tree' := by
  obtain ⟨rest, d, rfl, -⟩ := Grammar.exists_derivation_of_parse h
  obtain ⟨rest', d', rfl, -⟩ := Grammar.exists_derivation_of_parse h'
  have happend : debug d.tree ++ [] = debug d'.tree ++ [] := by rw [heq]
  exact (recovers d.tree (d.proper trivial) (d'.proper trivial) trails_nil trails_nil happend).1

/-- Two layouts of one formula whose names end in a bracket and begin with a comma. -/
theorem eq_of_debug_eq_layout :
    ∃ tree tree', Formula.parse {} "f(a]*b],,c]) rest".toList = .ok tree ∧
      Formula.parse { strict := true } " f( a] * b] ; ,c] )".toList = .ok tree' ∧
      debug tree = debug tree' ∧ tree = tree' := by
  let tree := Formula.callPair ['f']
    (.binary (.reference .plain "a]".toList) .multiply (.reference .plain "b]".toList))
    (.reference .plain ",c]".toList)
  have h : Formula.parse {} "f(a]*b],,c]) rest".toList = .ok tree := by decide +kernel
  have h' : Formula.parse { strict := true } " f( a] * b] ; ,c] )".toList = .ok tree := by
    decide +kernel
  exact ⟨tree, tree, h, h', rfl, eq_of_debug_eq h h' rfl⟩

end Drafting
