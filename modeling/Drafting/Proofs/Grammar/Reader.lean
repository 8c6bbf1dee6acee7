import Drafting.Proofs.Grammar.Derivation
import Drafting.Proofs.Grammar.Texts

/-!
# What the readings of atoms take

One statement for each reading of an atom: exactly when it succeeds, and with what. A reading that
succeeds leaves less text than it was given.

## Main definitions

* `Shortens` — a reading that leaves less text.

Main statement: `atom_eq_ok_iff`.
-/

namespace Drafting.Grammar

/-! ## Steps -/

theorem bind_eq_ok_iff {α β : Type} {x : Result α} {f : α → Result β} {b : β} :
    (x >>= f) = .ok b ↔ ∃ a, x = .ok a ∧ f a = .ok b := by
  cases x with
  | error fault => simp [bind, Except.bind]
  | ok a => simp [bind, Except.bind]

theorem pure_eq_ok_iff {α : Type} {a b : α} : (pure a : Result α) = .ok b ↔ a = b := by
  simp [pure, Except.pure]

/-- One outcome is refused for one cause at one place. -/
theorem fault_inj {α : Type} {x : Result α} {cause cause' : Cause} {left left' : List Char}
    (h : x = .error ⟨cause, left⟩) (h' : x = .error ⟨cause', left'⟩) :
    cause = cause' ∧ left = left' :=
  Fault.mk.inj (Except.error.inj (h.symm.trans h'))

theorem bind_pure_eq_ok_iff {x : Result (Formula × List Char)} {f : Formula → Formula}
    {tree : Formula} {rest : List Char} :
    (do let (a, left) ← x; return (f a, left)) = (.ok (tree, rest) : Result _) ↔
      ∃ a, x = .ok (a, rest) ∧ tree = f a := by
  simp only [bind_eq_ok_iff, pure_eq_ok_iff, Prod.exists, Prod.mk.injEq]
  constructor
  · rintro ⟨a, _, h, rfl, rfl⟩
    exact ⟨a, h, rfl⟩
  · rintro ⟨a, h, rfl⟩
    exact ⟨a, rest, h, rfl, rfl⟩

theorem expect_singleton_eq_ok_iff {c : Char} {text rest : List Char} :
    expect [c] text = .ok rest ↔ text = c :: rest := by
  rw [expect_eq_ok_iff]
  constructor
  · rintro ⟨_, hc, htext⟩
    rw [htext, List.singleton_inj.1 hc]
  · intro htext
    exact ⟨c, rfl, htext⟩

variable {nested : Nested} {text rest : List Char} {tree : Formula}

/-! ## Atoms -/

theorem group_eq_ok_iff :
    group nested text = .ok (tree, rest) ↔ ∃ start finish, text = '(' :: start ∧
      nested start = .ok (tree, finish) ∧ dropBlanks finish = ')' :: rest := by
  simp only [group_eq, bind_eq_ok_iff, pure_eq_ok_iff, expect_singleton_eq_ok_iff, Prod.exists,
    Prod.mk.injEq]
  constructor
  · rintro ⟨start, htext, _, finish, hnested, _, hfinish, rfl, rfl⟩
    exact ⟨start, finish, htext, hnested, hfinish⟩
  · rintro ⟨start, finish, htext, hnested, hfinish⟩
    exact ⟨start, htext, tree, finish, hnested, rest, hfinish, rfl, rfl⟩

theorem markedName_eq_ok_iff {mark : Mark} :
    markedName mark text = .ok (tree, rest) ↔ ∃ stem, tree = .reference mark stem ∧
      text = stem ++ rest ∧ IsToken stem ∧ AtDelimiter rest := by
  simp only [markedName_eq, bind_eq_ok_iff, pure_eq_ok_iff, Prod.exists, Prod.mk.injEq,
    readToken_eq_ok_iff]
  constructor
  · rintro ⟨stem, _, h, rfl, rfl⟩
    exact ⟨stem, rfl, h⟩
  · rintro ⟨stem, rfl, h⟩
    exact ⟨stem, rest, h, rfl, rfl⟩

theorem callOf_eq_ok_iff {function : List Char} :
    callOf nested function text = .ok (tree, rest) ↔ ∃ start first finish, text = '(' :: start ∧
      nested start = .ok (first, finish) ∧
      (dropBlanks finish = ')' :: rest ∧ tree = .call function first ∨
        function ≠ minusName ∧ ∃ separator middle second finish',
          dropBlanks finish = separator :: middle ∧ (separator = ',' ∨ separator = ';') ∧
          nested middle = .ok (second, finish') ∧ dropBlanks finish' = ')' :: rest ∧
          tree = .callPair function first second) := by
  simp only [callOf_eq, bind_eq_ok_iff, expect_singleton_eq_ok_iff, Prod.exists]
  constructor
  · rintro ⟨start, htext, first, finish, hnested, h⟩
    refine ⟨start, first, finish, htext, hnested, ?_⟩
    split at h
    · next hsep =>
      obtain ⟨separator, middle, hfinish, hseparator⟩ := separatorAhead_iff.1 hsep.1
      simp only [bind_eq_ok_iff, pure_eq_ok_iff, expect_singleton_eq_ok_iff, Prod.exists,
        Prod.mk.injEq, hfinish, List.tail_cons] at h
      obtain ⟨second, finish', hnested', _, hfinish', rfl, rfl⟩ := h
      exact .inr ⟨hsep.2, separator, middle, second, finish', hfinish, hseparator, hnested',
        hfinish', rfl⟩
    · simp only [bind_eq_ok_iff, pure_eq_ok_iff, expect_singleton_eq_ok_iff, Prod.mk.injEq] at h
      obtain ⟨_, hfinish, rfl, rfl⟩ := h
      exact .inl ⟨hfinish, rfl⟩
  · rintro ⟨start, first, finish, htext, hnested, h⟩
    refine ⟨start, htext, first, finish, hnested, ?_⟩
    rcases h with ⟨hfinish, rfl⟩ |
      ⟨hminus, separator, middle, second, finish', hfinish, hseparator, hnested', hfinish', rfl⟩
    · rw [if_neg fun h => by simp [hfinish, separatorAhead] at h]
      simp only [bind_eq_ok_iff, pure_eq_ok_iff, expect_singleton_eq_ok_iff]
      exact ⟨rest, hfinish, rfl⟩
    · have hsep : separatorAhead (dropBlanks finish) = true :=
        separatorAhead_iff.2 ⟨separator, middle, hfinish, hseparator⟩
      rw [if_pos ⟨hsep, hminus⟩, hfinish, List.tail_cons]
      simp only [bind_eq_ok_iff, pure_eq_ok_iff, expect_singleton_eq_ok_iff]
      exact ⟨(second, finish'), hnested', rest, hfinish', rfl⟩

theorem named_eq_ok_iff {name : List Char} :
    named nested name text = .ok (tree, rest) ↔
      (dropBlanks text).head? ≠ some '(' ∧ tree = .reference .plain name ∧
        rest = dropBlanks text ∨ callOf nested name (dropBlanks text) = .ok (tree, rest) := by
  rw [named_eq]
  split
  · next h => simp [h]
  · next h =>
    have hcall : callOf nested name (dropBlanks text) ≠ .ok (tree, rest) := by
      rw [ne_eq, callOf_eq_ok_iff]
      rintro ⟨start, -, -, hstart, -⟩
      exact h (by rw [hstart]; rfl)
    simp [h, hcall, eq_comm]

theorem literal?_eq_none_iff {negative : Bool} {token : List Char} :
    literal? negative token = .ok none ↔ ¬ Numeral.IsNumeral token := by
  rw [← Numeral.ofToken?_eq_none_iff, literal?]
  split
  · next h => simp [h]
  · next h => split <;> simp [h]
  · next h => simp only [h]; split <;> simp

theorem isNumeral_of_literal? {negative : Bool} {token : List Char} {number : Formula}
    (h : literal? negative token = .ok (some number)) : Numeral.IsNumeral token := by
  by_contra hname
  simp [literal?_eq_none_iff.2 hname] at h

theorem value_eq_ok_iff {negative : Bool} :
    value nested negative text = .ok (tree, rest) ↔ ∃ token after, text = token ++ after ∧
      IsToken token ∧ AtDelimiter after ∧
      (literal? negative token = .ok (some tree) ∧ rest = after ∨
        ¬ Numeral.IsNumeral token ∧ ∃ operand, named nested token after = .ok (operand, rest) ∧
          tree = signed negative operand) := by
  simp only [value_eq, bind_eq_ok_iff, Prod.exists, readToken_eq_ok_iff, and_assoc]
  refine exists_congr fun token => exists_congr fun after => and_congr_right fun _ =>
    and_congr_right fun _ => and_congr_right fun _ => ?_
  rw [← literal?_eq_none_iff]
  cases h : literal? negative token with
  | error cause => simp
  | ok found =>
    cases found with
    | none =>
      simp only [Except.ok.injEq, reduceCtorEq, false_and, false_or, true_and]
      exact bind_pure_eq_ok_iff (f := signed negative)
    | some number =>
      simp only [pure_eq_ok_iff, Prod.mk.injEq, Except.ok.injEq, Option.some.injEq, reduceCtorEq,
        false_and, or_false]
      exact and_congr_right fun _ => eq_comm

theorem exists_cons_iff {c : Char} {start : List Char} {P : Char → List Char → Prop} :
    (∃ d left, c :: start = d :: left ∧ P d left) ↔ P c start := by
  simp [and_assoc]

theorem ofSign?_eq_none_iff {c : Char} : Mark.ofSign? c = none ↔ c ≠ '@' ∧ c ≠ '#' := by
  unfold Mark.ofSign?
  split <;> simp_all

theorem sign_of_ofSign? {c : Char} {mark : Mark} (h : Mark.ofSign? c = some mark) :
    mark.sign = [c] ∧ (c = '@' ∨ c = '#') := by
  unfold Mark.ofSign? at h
  split at h
  · obtain rfl := Option.some.inj h
    exact ⟨rfl, .inl rfl⟩
  · obtain rfl := Option.some.inj h
    exact ⟨rfl, .inr rfl⟩
  · simp at h

theorem not_blank_of_ofSign? {c : Char} {mark : Mark} (h : Mark.ofSign? c = some mark) :
    isBlank c = false := by
  rcases (sign_of_ofSign? h).2 with rfl | rfl <;> rfl

theorem startsNoNegated_eq_false_iff {c : Char} :
    startsNoNegated c = false ↔ c ≠ '(' ∧ Mark.ofSign? c = none := by
  simp [startsNoNegated, ofSign?_eq_none_iff]

theorem startsNoValue_eq_false_iff {c : Char} : startsNoValue c = false ↔
    startsNoOperand c = false ∧ c ≠ '(' ∧ c ≠ '-' ∧ Mark.ofSign? c = none := by
  simp only [startsNoValue, startsNoOperand, ofSign?_eq_none_iff, List.contains_eq_mem,
    List.mem_cons, List.not_mem_nil, or_false, decide_eq_false_iff_not, not_or]
  tauto

/-- What may follow a minus sign. -/
theorem negated_eq_ok_iff :
    negated nested text = .ok (tree, rest) ↔ ∃ c start, text = c :: start ∧
      (c = '(' ∧ (∃ inner, group nested text = .ok (inner, rest) ∧ tree = inner.negation) ∨
        (∃ mark reference, Mark.ofSign? c = some mark ∧
          markedName mark start = .ok (reference, rest) ∧ tree = reference.negation) ∨
        startsNoNegated c = false ∧ value nested true text = .ok (tree, rest)) := by
  cases text with
  | nil => simp [negated_nil, value_eq, readToken, bind, Except.bind]
  | cons c start =>
    rw [exists_cons_iff, startsNoNegated_eq_false_iff, negated_cons]
    by_cases hopen : c = '('
    · rw [if_pos hopen]
      refine bind_pure_eq_ok_iff.trans ?_
      simp [hopen, Mark.ofSign?]
    · rw [if_neg hopen]
      cases hmark : Mark.ofSign? c with
      | none => simp [hopen]
      | some mark =>
        refine bind_pure_eq_ok_iff.trans ?_
        simp [hopen]

theorem atom_eq_ok_iff :
    atom nested text = .ok (tree, rest) ↔ ∃ c start, text = c :: start ∧
      (c = '(' ∧ (∃ inner, group nested text = .ok (inner, rest) ∧ tree = .parenthesized inner) ∨
        c = '-' ∧ negated nested (dropBlanks start) = .ok (tree, rest) ∨
        (∃ mark, Mark.ofSign? c = some mark ∧ markedName mark start = .ok (tree, rest)) ∨
        startsNoValue c = false ∧ value nested false text = .ok (tree, rest)) := by
  cases text with
  | nil => simp [atom_nil, value_eq, readToken, bind, Except.bind]
  | cons c start =>
    rw [exists_cons_iff, startsNoValue_eq_false_iff, atom_cons]
    by_cases hoperator : startsNoOperand c = true
    · have hnone : c ≠ '(' ∧ c ≠ '-' ∧ Mark.ofSign? c = none := by
        rw [ofSign?_eq_none_iff]
        refine ⟨?_, ?_, ?_, ?_⟩ <;> (rintro rfl; revert hoperator; decide)
      simp [hoperator, hnone]
    · rw [if_neg hoperator]
      by_cases hopen : c = '('
      · rw [if_pos hopen]
        refine bind_pure_eq_ok_iff.trans ?_
        simp [hopen, Mark.ofSign?]
      · rw [if_neg hopen]
        by_cases hminus : c = '-'
        · simp [hminus, Mark.ofSign?]
        · rw [if_neg hminus]
          cases hmark : Mark.ofSign? c with
          | none => simp [hoperator, hopen, hminus]
          | some mark => simp [hopen, hminus]

/-! ## Less text -/

/-- The reading leaves less text than it is given. -/
def Shortens (reading : Nested) : Prop :=
  ∀ ⦃text tree rest⦄, reading text = .ok (tree, rest) → rest.length < text.length

theorem Shortens.ne_ok {reading : Nested} (h : Shortens reading) (tree : Formula) :
    reading text ≠ .ok (tree, text) := fun hok => Nat.lt_irrefl _ (h hok)

theorem Shortens.map {reading : Nested} (h : Shortens reading) (f : Formula → Formula) :
    Shortens fun text => do let (a, left) ← reading text; return (f a, left) := by
  intro text tree rest hmap
  obtain ⟨a, hreading, -⟩ := bind_pure_eq_ok_iff.1 hmap
  exact h hreading

theorem group_shortens (h : Shortens nested) : Shortens (group nested) := by
  intro text tree rest hgroup
  obtain ⟨start, finish, rfl, hnested, hfinish⟩ := group_eq_ok_iff.1 hgroup
  have hstart := h hnested
  have hrest := length_dropBlanks_le finish
  simp only [hfinish, List.length_cons] at hrest ⊢
  omega

theorem markedName_shortens (mark : Mark) : Shortens (markedName mark) := by
  intro text tree rest hmarked
  obtain ⟨stem, -, rfl, hstem, -⟩ := markedName_eq_ok_iff.1 hmarked
  have := List.length_pos_of_ne_nil hstem.ne_nil
  rw [List.length_append]
  omega

theorem callOf_shortens (h : Shortens nested) (function : List Char) :
    Shortens (callOf nested function) := by
  intro text tree rest hcall
  obtain ⟨start, first, finish, rfl, hnested, ⟨hfinish, -⟩ |
    ⟨-, separator, middle, second, finish', hfinish, -, hnested', hfinish', -⟩⟩ :=
    callOf_eq_ok_iff.1 hcall
  · have hstart := h hnested
    have hrest := length_dropBlanks_le finish
    simp only [hfinish, List.length_cons] at hrest ⊢
    omega
  · have hstart := h hnested
    have hmiddle := length_dropBlanks_le finish
    have hsecond := h hnested'
    have hrest := length_dropBlanks_le finish'
    simp only [hfinish, hfinish', List.length_cons] at hmiddle hrest ⊢
    omega

theorem value_shortens (h : Shortens nested) (negative : Bool) :
    Shortens (value nested negative) := by
  intro text tree rest hvalue
  obtain ⟨token, after, rfl, htoken, -, ⟨-, rfl⟩ | ⟨-, operand, hnamed, -⟩⟩ :=
    value_eq_ok_iff.1 hvalue
  · have := List.length_pos_of_ne_nil htoken.ne_nil
    rw [List.length_append]
    omega
  · have htoken := List.length_pos_of_ne_nil htoken.ne_nil
    have hafter := length_dropBlanks_le after
    rw [List.length_append]
    rcases named_eq_ok_iff.1 hnamed with ⟨-, -, rfl⟩ | hcall
    · omega
    · have := callOf_shortens h token hcall
      omega

theorem negated_shortens (h : Shortens nested) : Shortens (negated nested) := by
  intro text tree rest hnegated
  obtain ⟨c, start, rfl, ⟨-, inner, hgroup, -⟩ | ⟨mark, reference, -, hmarked, -⟩ | ⟨-, hvalue⟩⟩ :=
    negated_eq_ok_iff.1 hnegated
  · exact group_shortens h hgroup
  · exact Nat.lt_succ_of_lt (markedName_shortens mark hmarked)
  · exact value_shortens h true hvalue

theorem atom_shortens (h : Shortens nested) : Shortens (atom nested) := by
  intro text tree rest hatom
  obtain ⟨c, start, rfl, ⟨-, inner, hgroup, -⟩ | ⟨-, hnegated⟩ | ⟨mark, -, hmarked⟩ | ⟨-, hvalue⟩⟩ :=
    atom_eq_ok_iff.1 hatom
  · exact group_shortens h hgroup
  · have := negated_shortens h hnegated
    have := length_dropBlanks_le start
    rw [List.length_cons]
    omega
  · exact Nat.lt_succ_of_lt (markedName_shortens mark hmarked)
  · exact value_shortens h false hvalue

end Drafting.Grammar
