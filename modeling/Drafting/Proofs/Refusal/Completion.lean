import Drafting.Proofs.Grammar.Acceptance
import Drafting.Proofs.Refusal.Decided
import Drafting.Proofs.Refusal.Mending

/-!
# Refused texts can be completed

What was read before a refusal is the beginning of an accepted text, unless the text was refused for
its depth or for a number. The completion supplies a missing operand, the second half of an
operator, the signs that close what is open, and a second branch. It never nests deeper than what
was read: where a formula is open, there was room for it.

## Main definitions

* `completableCodes` — the codes of the refusals before which a text can be completed.

Main statement: `exists_parse_of_prefix`.
-/

namespace Drafting

namespace Grammar

variable {α : Type} {text left : List Char} {nested : Nested}

open Mends

/-! ## Atoms -/

theorem completes_ok (a : α) : Completes (fun text => .ok (a, text)) [] := ⟨a, fun _ _ => rfl⟩

/-- A closing parenthesis after blanks. -/
theorem closing_mends (a : α) (text : List Char) :
    Mends (fun text => do let text ← expect [')'] (dropBlanks text); return (a, text)) text :=
  closing (by decide) (fun left => .pure a left) (completes_ok a) text

theorem closing_meets (a : α) :
    Meets fun text => do let text ← expect [')'] (dropBlanks text); return (a, text) :=
  meets_closing (by decide) (completes_ok a)

theorem group_mends (h : Viable nested) (text : List Char) :
    Mends (group nested) ('(' :: text) := by
  rw [funext (group_eq nested)]
  exact (nesting h (fun _ tree => closing_mends tree) (fun _ tree => closing_meets tree)
    text).after ['('] fun ahead _ => expect_cons '(' _ ahead

theorem fresh_name : Fresh ['b'] := by
  rintro c ⟨⟩
  decide

/-- A token and a reading after it, which may also refer to the text from the token on. -/
theorem Mends.tokenizing {next : List Char → List Char × List Char → Result (α × List Char)}
    (hname : Completes (fun text => readToken isDelimiter text >>= next text) ['b'])
    (hnext : ∀ token rest, Mends (fun rest => next (token ++ rest) (token, rest)) rest)
    (hstart : ∀ token rest cause, next (token ++ rest) (token, rest) = .error ⟨cause, rest⟩ →
      cause.Mendable → Completes (fun rest => next (token ++ rest) (token, rest)) [])
    (text : List Char) : Mends (fun text => readToken isDelimiter text >>= next text) text := by
  cases text with
  | nil => exact of_error rfl (fun _ _ => rfl) fresh_name hname
  | cons c text =>
    cases hblank : isBlank c with
    | true =>
      have hrefused : (readToken isDelimiter (c :: text) >>= next (c :: text)) =
          .error ⟨.blankToken, c :: text⟩ := by
        simp [readToken, hblank, Bind.bind, Except.bind]
      exact of_error hrefused (by simp) fresh_name hname
    | false =>
      obtain ⟨token, rest, htoken⟩ : ∃ token rest, readToken isDelimiter (c :: text) =
          .ok (token, rest) := by
        simp [readToken, hblank]
      obtain ⟨htext, htoken, hend⟩ := readToken_eq_ok_iff.1 htoken
      rw [htext]
      have heq : ∀ ahead, ahead.head? = rest.head? ∨ Closed ahead →
          (readToken isDelimiter (token ++ ahead) >>= next (token ++ ahead)) =
            next (token ++ ahead) (token, ahead) := by
        intro ahead hahead
        have hread : readToken isDelimiter (token ++ ahead) = .ok (token, ahead) := by
          refine readToken_eq_ok_iff.2 ⟨rfl, htoken, ?_⟩
          rcases hahead with hhead | hclosed
          · rwa [AtDelimiter, hhead]
          · exact hclosed.atDelimiter
        rw [hread]
        rfl
      refine (hnext token rest).after_of token heq fun cause hfault hcause => ?_
      obtain ⟨a, hmore⟩ := hstart token rest cause hfault hcause
      refine ⟨[], by simp [Fresh], a, fun after hafter => ?_⟩
      rw [List.append_nil]
      exact (heq after (.inr hafter)).trans (hmore after hafter)

theorem completes_markedName (mark : Mark) : Completes (markedName mark) ['b'] := by
  refine ⟨.reference mark ['b'], fun after hafter => ?_⟩
  refine markedName_eq_ok_iff.2 ⟨['b'], rfl, rfl, ⟨'b', [], rfl, rfl, by simp⟩, hafter.atDelimiter⟩

theorem markedName_mends (mark : Mark) (text : List Char) : Mends (markedName mark) text :=
  tokenizing (completes_markedName mark) (fun _ rest => .pure _ rest)
    (fun _ _ _ _ _ => completes_ok _) text

theorem arguments_closing (function : List Char) (first : Formula) (text : List Char) :
    arguments nested function first (')' :: text) = .ok (.call function first, text) := by
  rw [arguments_of_not_separator (by simp [separatorAhead]), expect_cons]
  rfl

theorem completes_arguments (function : List Char) (first : Formula) :
    Completes (arguments nested function first) [')'] :=
  ⟨.call function first, fun after _ => arguments_closing function first after⟩

theorem arguments_meets (function : List Char) (first : Formula) :
    Meets fun text => arguments nested function first (dropBlanks text) :=
  ⟨[')'], closed_closer (by decide) [], (completes_arguments function first).skipping
    (closed_closer (by decide) []).fresh⟩

theorem arguments_mends (h : Viable nested) (function : List Char) (first : Formula)
    (text : List Char) : Mends (arguments nested function first) text := by
  by_cases hsep : separatorAhead text ∧ function ≠ minusName
  · obtain ⟨separator, middle, rfl, hseparator⟩ := separatorAhead_iff.1 hsep.1
    exact (nesting h (fun _ second => closing_mends (Formula.callPair function first second))
      (fun _ second => closing_meets (Formula.callPair function first second)) middle).after
      [separator] fun ahead _ => arguments_separator hsep.2 hseparator first ahead
  · have hmore : Completes (arguments nested function first) [')'] :=
      completes_arguments function first
    have hfresh : Fresh [')'] := (closed_closer (by decide) []).fresh
    have hone : arguments nested function first text = _ := arguments_of_not_separator hsep first
    cases text with
    | nil => exact of_error hone (fun _ _ => rfl) hfresh hmore
    | cons c text =>
      by_cases hc : c = ')'
      · subst hc
        exact (Mends.pure _ text).after [')'] fun ahead _ => arguments_closing function first ahead
      · have hrefused : arguments nested function first (c :: text) =
            .error ⟨.unexpected [')'] c, c :: text⟩ := by
          simp [hone, expect, Bind.bind, Except.bind, Ne.symm hc]
        exact of_error hrefused (by simp) hfresh hmore

theorem callOf_mends (h : Viable nested) (function text : List Char) :
    Mends (callOf nested function) ('(' :: text) := by
  rw [funext (callOf_eq nested function)]
  exact (nesting h (fun _ first _ => (arguments_mends h function first _).skipping)
    (fun _ first => arguments_meets function first) text).after ['(']
    fun ahead _ => expect_cons '(' _ ahead

/-- A name alone is a name before any closed text. -/
theorem completes_named (nested : Nested) (name : List Char) : Completes (named nested name) [] := by
  refine ⟨.reference .plain name, fun after hafter => named_eq_ok_iff.2 (.inl ?_)⟩
  rw [List.nil_append, hafter.fresh.dropBlanks_eq]
  exact ⟨hafter.head?_ne (by decide), rfl, rfl⟩

theorem named_mends (h : Viable nested) (name text : List Char) :
    Mends (named nested name) text := by
  have hclose : CompletesAs (fun text => if text.head? = some '(' then callOf nested name text
      else .ok (Formula.reference .plain name, text)) [] (.reference .plain name) :=
    fun after hafter => if_neg (hafter.head?_ne (by decide))
  have hblanks : Mends (fun text => if text.head? = some '(' then callOf nested name text
      else .ok (.reference .plain name, text)) (dropBlanks text) := by
    by_cases hopen : (dropBlanks text).head? = some '('
    · obtain ⟨start, hstart⟩ := List.head?_eq_some_iff.1 hopen
      rw [hstart]
      exact (callOf_mends h name start).of_head (fun ahead hahead => if_pos hahead)
        (callOf_shortens h.shortens name).ne_ok closed_nil.fresh ⟨_, hclose⟩
    · exact of_ok (if_neg hopen) hclose
  rw [funext (named_eq nested name)]
  exact hblanks.skipping

theorem completes_value (nested : Nested) (negative : Bool) :
    Completes (value nested negative) ['b'] := by
  have hname : literal? negative ['b'] = .ok none := by cases negative <;> rfl
  obtain ⟨name, hnamed⟩ := completes_named nested ['b']
  refine ⟨signed negative name, fun after hafter => value_eq_ok_iff.2 ?_⟩
  exact ⟨['b'], after, rfl, ⟨'b', [], rfl, rfl, by simp⟩, hafter.atDelimiter,
    .inr ⟨literal?_eq_none_iff.1 hname, name, hnamed after hafter, rfl⟩⟩

theorem value_mends (h : Viable nested) (negative : Bool) (text : List Char) :
    Mends (value nested negative) text := by
  have hname := completes_value nested negative
  rw [funext (value_eq nested negative)] at hname ⊢
  refine tokenizing hname (fun token rest => ?_)
    (fun token rest cause hfault hcause => ?_) text
  · rcases hliteral : literal? negative token with cause | (_ | literal) <;> simp only [hliteral]
    · have hcause : ¬ cause.Mendable := by
        rcases literal?_error hliteral with rfl | ⟨digits, rfl⟩ <;> exact id
      exact of_not_mendable rfl hcause
    · exact (named_mends h token rest).map (signed negative) (named_looksAhead h.bounded token rest)
    · exact .pure literal rest
  · rcases hliteral : literal? negative token with cause' | (_ | literal) <;>
      simp only [hliteral] at hfault ⊢
    · obtain ⟨rfl, -⟩ := Fault.mk.inj (Except.error.inj hfault)
      rcases literal?_error hliteral with rfl | ⟨digits, rfl⟩ <;> exact hcause.elim
    · exact (completes_named nested token).map (signed negative)
    · exact completes_ok literal

theorem completes_negated (nested : Nested) : Completes (negated nested) ['b'] := by
  obtain ⟨name, hname⟩ := completes_value nested true
  exact ⟨name, fun after hafter => hname after hafter⟩

theorem negated_mends (h : Viable nested) (text : List Char) : Mends (negated nested) text := by
  have hname := completes_negated nested
  cases text with
  | nil => exact of_error rfl (fun _ _ => rfl) fresh_name hname
  | cons c text =>
    by_cases hopen : c = '('
    · subst hopen
      exact ((group_mends h text).map Formula.negation (group_looksAhead h.bounded _)).of_cons
        (fun _ => rfl) ((group_shortens h.shortens).map _).ne_ok fresh_name hname
    · cases hmark : Mark.ofSign? c with
      | none =>
        refine (value_mends h true (c :: text)).of_cons (fun tail => ?_)
          (value_shortens h.shortens true).ne_ok fresh_name hname
        simp [negated_cons, hopen, hmark]
      | some mark =>
        refine ((markedName_mends mark text).map Formula.negation
          (markedName_looksAhead mark text)).after [c] fun ahead _ => ?_
        simp [negated_cons, hopen, hmark]

theorem completes_atom (nested : Nested) : Completes (atom nested) ['b'] := by
  obtain ⟨name, hname⟩ := completes_value nested false
  exact ⟨name, fun after hafter => hname after hafter⟩

theorem atom_mends (h : Viable nested) (text : List Char) : Mends (atom nested) text := by
  have hname := completes_atom nested
  cases text with
  | nil => exact of_error rfl (fun _ _ => rfl) fresh_name hname
  | cons c text =>
    by_cases hoperator : startsNoOperand c = true
    · have hrefused : atom nested (c :: text) = .error ⟨.misplacedOperator c, c :: text⟩ := by
        rw [atom_cons, if_pos hoperator]
      exact of_error hrefused (by simp) fresh_name hname
    by_cases hopen : c = '('
    · subst hopen
      exact ((group_mends h text).map Formula.parenthesized (group_looksAhead h.bounded _)).of_cons
        (fun _ => rfl) ((group_shortens h.shortens).map _).ne_ok fresh_name hname
    by_cases hminus : c = '-'
    · subst hminus
      exact (negated_mends h _).skipping.after ['-'] fun ahead _ => rfl
    cases hmark : Mark.ofSign? c with
    | none =>
      refine (value_mends h false (c :: text)).of_cons (fun tail => ?_)
        (value_shortens h.shortens false).ne_ok fresh_name hname
      simp [atom_cons, hoperator, hopen, hminus, hmark]
    | some mark =>
      refine (markedName_mends mark text).after [c] fun ahead _ => ?_
      simp [atom_cons, hoperator, hopen, hminus, hmark]

/-! ## Operators and conditionals -/

theorem Closed.stops (h : Closed text) (level : Int) : Stops level text := by
  intro op hop
  rw [h.lead_eq_none] at hop
  simp at hop

theorem completes_climbs (nested : Nested) (level : Int) (tree : Formula) :
    Completes (climbs nested level tree) [] :=
  ⟨tree, fun _ hafter => climbs_of_stops (hafter.stops level) tree⟩

theorem climbs_meets (nested : Nested) (level : Int) (tree : Formula) :
    Meets fun text => climbs nested level tree (dropBlanks text) :=
  ⟨[], closed_nil, (completes_climbs nested level tree).skipping closed_nil.fresh⟩

theorem completes_operand (nested : Nested) (level : Int) :
    Completes (operand nested level) ['b'] := by
  obtain ⟨name, hname⟩ := completes_atom nested
  refine ⟨name, fun after hafter => ?_⟩
  have hblank := hafter.fresh.dropBlanks_eq
  rw [operand_of_stops (hname after hafter) (hblank.symm ▸ hafter.stops level), hblank]

/-- The first half of `==` or `!=` is refused for what comes after it. -/
theorem readOperator_error {announced : Operator} {fault : Fault}
    (hlead : Lead.ofText? text = some (.operator announced))
    (h : readOperator announced text = .error fault) :
    ∃ c rest cause, text = c :: rest ∧ fault = ⟨cause, rest⟩ ∧
      (∀ wanted, cause = .endOfText wanted → rest = []) ∧
      ∀ after, Spells announced (c :: '=' :: after) after := by
  obtain ⟨c, hc, hchar⟩ := Option.bind_eq_some_iff.1 hlead
  obtain ⟨rest, rfl⟩ := List.head?_eq_some_iff.1 hc
  rw [readOperator_cons] at h
  have hsymbol : announced = .equal ∨ announced = .notEqual →
      ∀ after, Spells announced (c :: '=' :: after) after := by
    rintro (rfl | rfl) after <;> unfold Lead.ofChar? at hchar <;> split at hchar <;>
      simp at hchar <;> exact ⟨rfl, by simp⟩
  cases announced with
  | equal | notEqual =>
    replace hsymbol := hsymbol (by simp)
    cases rest with
    | nil => exact ⟨c, [], _, rfl, (Except.error.inj h).symm, fun _ _ => rfl, hsymbol⟩
    | cons d rest =>
      by_cases hd : d = '='
      · subst hd
        simp [expect, Bind.bind, Except.bind, Pure.pure, Except.pure] at h
      · refine ⟨c, d :: rest, .unexpected ['='] d, rfl, ?_, by simp, hsymbol⟩
        have hexpect : expect ['='] (d :: rest) = .error ⟨.unexpected ['='] d, d :: rest⟩ := by
          simp [expect, Ne.symm hd]
        simp only [hexpect] at h
        exact (Except.error.inj h).symm
  | _ => simp at h

/-- An operand, where the loop over operators can be completed after its first atom. -/
theorem operand_mends_of (h : Viable nested) {level : Int} {text : List Char}
    (hclimbs : ∀ first left, atom nested text = .ok (first, left) →
      Mends (climbs nested level first) (dropBlanks left)) :
    Mends (operand nested level) text := by
  rw [funext (operand_eq h.shortens level)]
  exact (atom_mends h text).bind (atom_looksAhead h.bounded text)
    (fun first left hatom => (hclimbs first left hatom).skipping) (climbs_meets nested level)

/-- The loop over operators, refused after the first half of an operator. -/
theorem climbs_mends_of_error (h : Viable nested) {level : Int} {announced : Operator}
    (hlead : Lead.ofText? text = some (.operator announced)) (hlevel : level < announced.level)
    (tree : Formula) {fault : Fault} (hread : readOperator announced text = .error fault) :
    Mends (climbs nested level tree) text := by
  obtain ⟨c, rest, cause, rfl, rfl, hends, hspells⟩ := readOperator_error hlead hread
  have hrefused : climbs nested level tree (c :: rest) = .error ⟨cause, rest⟩ := by
    rw [climbs_of_lead h.shortens hlead hlevel, hread]
    rfl
  obtain ⟨right, hright⟩ := completes_operand nested announced.level
  have hmore : Completes (climbs nested level tree) [c, '=', 'b'] := by
    refine ⟨.binary tree announced right, fun after hafter => ?_⟩
    have hoperand : operand nested announced.level (dropBlanks ('b' :: after)) =
        .ok (right, after) := hright after hafter
    refine (climbs_of_spells h.shortens (hspells ('b' :: after)) hlevel tree).trans ?_
    rw [hoperand]
    exact climbs_of_stops (hafter.stops level) _
  exact of_error_after [c] hrefused hends (by simp) hmore

theorem climbs_mends (h : Viable nested) (level : Int) (tree : Formula) (text : List Char) :
    Mends (climbs nested level tree) text := by
  -- an operator and its operand shorten the text, on whose length the induction is
  obtain ⟨n, hn⟩ : ∃ n, text.length ≤ n := ⟨_, Nat.le_refl _⟩
  induction n using Nat.strongRecOn generalizing level tree text with
  | ind n ih =>
    by_cases hstops : Stops level text
    · exact of_ok (climbs_of_stops hstops tree) fun after hafter =>
        climbs_of_stops (hafter.stops level) tree
    obtain ⟨announced, hlead, hlevel⟩ := exists_lead_of_not_stops hstops
    cases hread : readOperator announced text with
    | ok result =>
      obtain ⟨op, after⟩ := result
      obtain ⟨hspells, hop⟩ := spells_of_readOperator hlead hread
      have h₁ := hspells.length_lt
      have h₂ := length_dropBlanks_le after
      have hstep : Mends (fun text => operand nested op.level text >>= fun q =>
          climbs nested level (.binary tree op q.1) q.2) (dropBlanks after) := by
        refine (operand_mends_of h fun first rest hatom => ?_).bind
          (operand_looksAhead h.bounded h.shortens _ _) (fun right rest hoperand => ?_)
          fun right => ⟨[], closed_nil, completes_climbs nested level (.binary tree op right)⟩
        · have h₃ := atom_shortens h.shortens hatom
          have h₄ := length_dropBlanks_le rest
          exact ih (n - 1) (by omega) _ _ _ (by omega)
        · have h₃ := operand_shortens h.shortens _ hoperand
          exact ih (n - 1) (by omega) level (.binary tree op right) rest (by omega)
      obtain ⟨rfl, halone⟩ := id hspells
      refine hstep.skipping.after op.symbol fun ahead hahead =>
        climbs_of_spells h.shortens ⟨rfl, fun hop => ?_⟩ (hop ▸ hlevel) tree
      -- `>` and `<` must not be completed to `>=` and `<=`
      rcases hahead with hhead | hfresh
      · exact hhead ▸ halone hop
      · exact fun hequals => (hfresh '=' hequals).2 rfl
    | error fault => exact climbs_mends_of_error h hlead hlevel tree hread

theorem operand_mends (h : Viable nested) (level : Int) (text : List Char) :
    Mends (operand nested level) text :=
  operand_mends_of h fun first _ _ => climbs_mends h level first _

/-- The second branch of a conditional. -/
theorem branch_completes (h : Roomy nested) (condition whenTrue : Formula) :
    Completes (fun text => do
      let (whenFalse, text) ← nested (dropBlanks text)
      return (Formula.conditional condition whenTrue whenFalse, text)) ['b'] := by
  have hname := h.completes.map (Formula.conditional condition whenTrue)
  exact hname.skipping fresh_name

theorem branches_mends (h : Viable nested) (condition : Formula) (text : List Char) :
    Mends (branches nested condition) ('?' :: text) := by
  have hfalse (whenTrue : Formula) (text : List Char) : Mends (fun text =>
      nested (dropBlanks text) >>= fun p =>
        .ok (Formula.conditional condition whenTrue p.1, p.2)) text := by
    have hnested : Mends (fun text => nested text >>= fun p =>
        .ok (Formula.conditional condition whenTrue p.1, p.2)) (dropBlanks text) :=
      nesting h (fun _ whenFalse => .pure (Formula.conditional condition whenTrue whenFalse))
        (fun _ whenFalse => ⟨[], closed_nil,
          completes_ok (Formula.conditional condition whenTrue whenFalse)⟩) (dropBlanks text)
    exact hnested.skipping
  have hbranches : Mends (fun text => nested text >>= fun p =>
      expect [':'] (dropBlanks p.2) >>= fun text => do
        let (whenFalse, text) ← nested (dropBlanks text)
        return (Formula.conditional condition p.1 whenFalse, text)) (dropBlanks text) :=
    nesting h
      (fun hroomy whenTrue => closing (by decide) (hfalse whenTrue)
        (branch_completes hroomy condition whenTrue))
      (fun hroomy whenTrue =>
        meets_closing (by decide) (branch_completes hroomy condition whenTrue))
      (dropBlanks text)
  rw [funext (branches_eq nested condition)]
  exact hbranches.skipping.after ['?'] fun ahead _ => expect_cons '?' _ ahead

/-- Nothing more is read after the first operand before any closed text. -/
theorem follow_completes (nested : Nested) (first : Formula) :
    CompletesAs (fun text => if text.head? = some '?' then branches nested first text
      else .ok (first, text)) [] first :=
  fun _ hafter => if_neg (hafter.head?_ne (by decide))

/-- What an expression reads after its first operand. -/
theorem follow_mends (h : Viable nested) (hsettles : Settles nested) (first : Formula)
    (text : List Char) :
    Mends (fun text => if text.head? = some '?' then branches nested first text
      else .ok (first, text)) text := by
  by_cases hquestion : text.head? = some '?'
  · obtain ⟨onTrue, rfl⟩ := List.head?_eq_some_iff.1 hquestion
    exact (branches_mends h first onTrue).of_head (fun ahead hahead => if_pos hahead)
      (branches_shortens hsettles first).ne_ok closed_nil.fresh
      ⟨first, follow_completes nested first⟩
  · exact of_ok (if_neg hquestion) (follow_completes nested first)

theorem expression_mends {room : Nat} (h : Viable (expression room Operator.conditionalLevel))
    (text : List Char) : Mends (expression (room + 1) Operator.conditionalLevel) text := by
  have hsettles := expression_settles room
  have hoperand : Mends (fun text => do
      let (first, text) ← operand (expression room Operator.conditionalLevel)
        Operator.conditionalLevel text
      if text.head? = some '?' then
        branches (expression room Operator.conditionalLevel) first text
      else .ok (first, text)) (dropBlanks text) :=
    (operand_mends h _ _).bind (operand_looksAhead h.bounded h.shortens _ _)
      (fun first left _ => follow_mends h hsettles first left)
      fun first => ⟨[], closed_nil, first, follow_completes _ first⟩
  rw [funext (expression_succ hsettles)]
  exact hoperand.skipping

theorem completes_expression (room : Nat) :
    Completes (expression (room + 1) Operator.conditionalLevel) ['b'] := by
  obtain ⟨first, hoperand⟩ :=
    completes_operand (expression room Operator.conditionalLevel) Operator.conditionalLevel
  refine ⟨first, fun after hafter => ?_⟩
  have hblank : dropBlanks (['b'] ++ after) = ['b'] ++ after := rfl
  rw [expression_succ (expression_settles room), hblank, hoperand after hafter]
  exact follow_completes _ first after hafter

theorem expression_viable (room : Nat) : Viable (expression room Operator.conditionalLevel) := by
  induction room with
  | zero => exact .inr (expression_zero _)
  | succ room ih =>
    exact .inl ⟨(expression_settles (room + 1)).shortens, expression_looksAhead ih.bounded,
      expression_mends ih, completes_expression room⟩

/-! ## Texts -/

variable {options : Options} {d : Diagnostic}

/-- A formula is refused where an expression is, or for the text after an expression. -/
theorem expression_of_formula_error {room : Nat} {strict : Bool} {cause : Cause}
    (h : formula room strict text = .error ⟨cause, left⟩) :
    expression room Operator.conditionalLevel text = .error ⟨cause, left⟩ ∨
      cause = .trailingText ∧
        ∃ tree, expression room Operator.conditionalLevel text = .ok (tree, left) := by
  rw [formula_eq] at h
  cases hexpression : expression room Operator.conditionalLevel text with
  | error fault =>
    rw [hexpression] at h
    exact .inl h
  | ok result =>
    obtain ⟨tree, finish⟩ := result
    have hblank := ((expression_settles room).done hexpression).1
    rw [hexpression] at h
    cases strict with
    | false => simp [Bind.bind, Except.bind, Pure.pure, Except.pure] at h
    | true =>
      simp only [Bind.bind, Except.bind, if_true, hblank] at h
      split at h
      · simp [Pure.pure, Except.pure] at h
      · obtain ⟨rfl, rfl⟩ := Fault.mk.inj (Except.error.inj h)
        exact .inr ⟨rfl, tree, rfl⟩

/-- What was taken of a refused formula can be completed to a whole formula. -/
theorem formula_completable {room : Nat} {strict : Bool} {cause : Cause}
    (h : formula room strict text = .error ⟨cause, left⟩) (hcause : cause.Mendable) :
    ∃ taken more tree, text = taken ++ left ∧
      formula room strict (taken ++ more) = .ok (tree, []) ∧
      ∀ wanted, cause = .endOfText wanted → left = [] := by
  rcases expression_viable room with hroomy | hdeep
  · rcases expression_of_formula_error h with hfault | ⟨rfl, tree, hok⟩
    · obtain ⟨taken, more, htext, -, tree, hmore⟩ := (hroomy.mends text).mend hfault hcause
      have hexpression := hmore [] closed_nil
      rw [List.append_nil] at hexpression
      refine ⟨taken, more, tree, htext, formula_eq_ok_iff.2 ⟨hexpression, fun _ => rfl⟩, ?_⟩
      rintro wanted rfl
      exact (hroomy.mends text).ends hfault
    · obtain ⟨taken, htext, hclose⟩ := (hroomy.mends text).close hok
      have hexpression := hclose [] closed_nil
      exact ⟨taken, [], tree, htext, formula_eq_ok_iff.2 ⟨hexpression, fun _ => rfl⟩, by simp⟩
  · have hrefused : formula room strict text = .error ⟨.tooDeep, text⟩ := by
      rw [formula_eq, hdeep]
      rfl
    obtain ⟨rfl, -⟩ := fault_inj hrefused h
    exact hcause.elim

/-- The codes of the refusals before which a text can be completed. -/
def completableCodes : List ErrorCode :=
  [.unexpectedCharacter, .unexpectedEnd, .blankToken, .misplacedOperator, .trailingText]

theorem mendable_of_code? {cause : Cause} {code : ErrorCode} (h : cause.code? = some code)
    (hcode : code ∈ completableCodes) : cause.Mendable := by
  cases cause <;> cases code <;> simp_all [Cause.code?, Cause.Mendable, completableCodes]

/-- The text before a refusal is the beginning of a text that is accepted with the same options. A
text that ends too early is refused at its end, so that it is itself the beginning of a longer one. -/
theorem exists_parse_of_prefix (h : Formula.parse options text = .error (.invalid d))
    (hcode : d.code ∈ completableCodes.map (some ·.label)) :
    ∃ more tree, Formula.parse options (text.take d.location.offset.toNat ++ more) = .ok tree ∧
      (d.code = some ErrorCode.unexpectedEnd.label →
        d.location.offset = text.length ∧ more ≠ []) := by
  obtain ⟨cause, left, hfault, hreports⟩ := exists_fault_of_parse h
  obtain ⟨code, hmem, hcause⟩ := hreports.exists_code_mem hcode
  obtain ⟨taken, more, tree, rfl, hformula, hends⟩ :=
    formula_completable hfault (mendable_of_code? hcause hmem)
  have htake : (taken ++ left).take d.location.offset.toNat = taken := by
    rw [hreports.offset_eq, Int.toNat_natCast, List.take_left]
  refine ⟨more, tree, ?_, fun hend => ?_⟩
  · rw [htake]
    exact parse_eq_ok_iff.2 ⟨[], hformula⟩
  · obtain ⟨wanted, rfl⟩ := hreports.endOfText hend
    obtain rfl := hends wanted rfl
    refine ⟨by rw [hreports.offset_eq, List.append_nil], ?_⟩
    rintro rfl
    exact absurd (hformula.symm.trans hfault) (by simp)

/-- `f(a` ends too early, and can be completed. -/
theorem exists_parse_of_prefix_call :
    ∃ d, Formula.parse {} ['f', '(', 'a'] = .error (.invalid d) ∧
      d.code = some ErrorCode.unexpectedEnd.label ∧
      ∃ more tree, Formula.parse {} (['f', '(', 'a'] ++ more) = .ok tree ∧ more ≠ [] := by
  obtain ⟨d, h, hcode, hoffset⟩ : ∃ d, Formula.parse {} ['f', '(', 'a'] = .error (.invalid d) ∧
      d.code = some ErrorCode.unexpectedEnd.label ∧ d.location.offset = 3 := ⟨_, rfl, rfl, rfl⟩
  have hcompletable : d.code ∈ completableCodes.map (some ·.label) := by
    rw [hcode]
    decide
  obtain ⟨more, tree, hparse, hend⟩ := exists_parse_of_prefix h hcompletable
  rw [hoffset] at hparse
  exact ⟨d, h, hcode, more, tree, hparse, (hend hcode).2⟩

end Grammar

end Drafting
