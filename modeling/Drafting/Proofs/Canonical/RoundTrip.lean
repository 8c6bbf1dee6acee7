import Drafting.Proofs.Canonical.Faithful
import Drafting.Proofs.Grammar.Acceptance

/-!
# Canonical text round trips

The canonical text of a canonical formula is read as that formula, when it is nested no deeper than the
limit. A formula is canonical when its names can be told from numbers, marks and operators, when its
minus signs stand before names and calls, when its operations stand where their precedence puts them,
and when a parenthesis closes whatever stands before `==` and `!=`, which are no delimiters.

## Main definitions

* `Formula.IsCanonical` — the formulas that their canonical text stands for.

Main statement: `parse_canonical_iff`.
-/

namespace Drafting

open Grammar Rendering

namespace Formula

/-- A name that can stand anywhere without a mark. -/
structure PlainName (name : List Char) : Prop where
  ne_nil : name ≠ []
  no_delimiter : ∀ c ∈ name, isDelimiter c = false
  start : ∀ c ∈ name.head?, c ≠ '@' ∧ c ≠ '#' ∧ c ≠ '='
  no_numeral : ¬ Numeral.IsNumeral name

/-- The formulas that a minus sign may stand before: names, and calls of named functions. -/
def Negatable : Formula → Prop
  | reference .. => True
  | call function _ | callPair function _ _ => function ≠ minusName
  | _ => False

/-- The formulas that their canonical text stands for. -/
def IsCanonical : Formula → Prop
  | integer value => (integer value).Literal
  | decimal value => (decimal value).Literal
  | reference .plain name => PlainName name
  | reference _ stem => stem ≠ [] ∧ ∀ c ∈ stem, isDelimiter c = false
  | parenthesized inner => inner.IsCanonical
  | call function argument =>
    argument.IsCanonical ∧ if function = minusName then argument.Negatable else PlainName function
  | callPair function first second =>
    PlainName function ∧ first.IsCanonical ∧ second.IsCanonical
  | binary left op right =>
    left.IsCanonical ∧ right.IsCanonical ∧ op.level ≤ left.rank ∧ op.level < right.rank ∧
      (op = .equal ∨ op = .notEqual → (canonical left).getLast? = some ')')
  | conditional condition whenTrue whenFalse =>
    condition.IsCanonical ∧ whenTrue.IsCanonical ∧ whenFalse.IsCanonical ∧
      Operator.conditionalLevel < condition.rank

theorem cases_startsNoName {negative : Bool} {c : Char} (h : startsNoName negative c = true) :
    isDelimiter c = true ∨ c = '@' ∨ c = '#' := by
  cases negative
  · have hmem : c ∈ ['(', '@', '#', '+', '*', '/', '^', '-'] := List.contains_iff_mem.1 h
    simp only [List.mem_cons, List.not_mem_nil, or_false] at hmem
    rcases hmem with rfl | rfl | rfl | rfl | rfl | rfl | rfl | rfl <;> decide
  · have hmem : c ∈ ['(', '@', '#'] := List.contains_iff_mem.1 h
    simp only [List.mem_cons, List.not_mem_nil, or_false] at hmem
    rcases hmem with rfl | rfl | rfl <;> decide

theorem isToken_of_no_delimiter {name : List Char} (hne : name ≠ [])
    (h : ∀ c ∈ name, isDelimiter c = false) : IsToken name := by
  obtain ⟨c, body, rfl⟩ := List.exists_cons_of_ne_nil hne
  exact ⟨c, body, rfl, isBlank_of_not_delimiter (h c (by simp)), fun d hd => h d (by simp [hd])⟩

namespace PlainName

variable {name : List Char}

theorem nameToken (h : PlainName name) (negative : Bool) :
    NameToken (startsNoName negative) name := by
  refine ⟨isToken_of_no_delimiter h.ne_nil h.no_delimiter, h.no_numeral, fun c hc => ?_⟩
  obtain ⟨hcustom, hhashed, -⟩ := h.start c hc
  have hdelimiter := h.no_delimiter c (List.mem_of_mem_head? hc)
  by_contra hstart
  rcases cases_startsNoName (Bool.not_eq_false _ ▸ hstart) with hforbidden | hforbidden | hforbidden
  · exact absurd (hdelimiter.symm.trans hforbidden) (by simp)
  · exact hcustom hforbidden
  · exact hhashed hforbidden

theorem ne_minusName (h : PlainName name) : name ≠ minusName := by
  rintro rfl
  exact absurd (h.no_delimiter '-' (by simp [minusName])) (by decide)

end PlainName

theorem Literal.getLast_canonical {formula : Formula} (h : formula.Literal) :
    ∀ c ∈ (canonical formula).getLast?, isDelimiter c = false := by
  have hunsigned {formula : Formula} (h : formula.Literal) (hunsigned : formula.Unsigned) :
      ∀ c ∈ (canonical formula).getLast?, isDelimiter c = false := by
    obtain ⟨d, body, htext, hd, hbody⟩ := exists_digits h hunsigned
    intro c hc
    rw [htext] at hc
    rcases List.mem_cons.1 (List.mem_of_getLast? hc) with rfl | hc
    · exact isDelimiter_of_isDigit hd
    · exact hbody c hc
  by_cases hsign : formula.Unsigned
  · exact hunsigned h hsign
  · obtain ⟨htext, hliteral, hopposite, -⟩ := canonical_of_signed h hsign
    rw [htext, List.getLast?_cons_of_ne_nil hliteral.canonical_ne_nil]
    exact hunsigned hliteral hopposite

/-- A canonical formula whose text ends with a closing parenthesis ends with a group or a call. -/
theorem IsCanonical.closed {formula : Formula} {negative : Bool} (h : formula.IsCanonical)
    (hfaithful : formula.Faithful negative) (hlast : (canonical formula).getLast? = some ')') :
    formula.Closed := by
  induction formula generalizing negative with
  | integer | decimal =>
    exact absurd (Literal.getLast_canonical h ')' hlast) (by decide)
  | reference mark stem =>
    have hstem : ∀ c ∈ stem, isDelimiter c = false := by
      cases mark with
      | plain => exact PlainName.no_delimiter h
      | custom | hashed => exact h.2
    have hmem := List.mem_of_getLast? hlast
    rw [canonical_reference, List.mem_append] at hmem
    rcases hmem with hmem | hmem
    · cases mark <;> simp [Mark.sign] at hmem
    · exact absurd (hstem _ hmem) (by decide)
  | parenthesized | callPair => trivial
  | call function argument ih =>
    by_cases hminus : function = minusName
    · subst hminus
      obtain ⟨negative', hf⟩ := hfaithful.argument
      rw [← negation, canonical_negation, List.getLast?_cons_of_ne_nil hf.canonical_ne_nil] at hlast
      exact ih h.1 hf hlast
    · rw [Closed, if_neg hminus]
      trivial
  | binary left op right ih ih' =>
    obtain ⟨-, hfl, hfr, -⟩ := hfaithful
    rw [canonical_binary, ← List.append_assoc,
      List.getLast?_append_of_ne_nil _ hfr.canonical_ne_nil] at hlast
    exact ih' h.2.1 hfr hlast
  | conditional condition whenTrue whenFalse ih ih₁ ih₂ =>
    obtain ⟨-, -, -, hf, -⟩ := hfaithful
    rw [canonical_conditional, List.getLast?_append_cons, List.getLast?_cons_of_ne_nil (by simp),
      List.getLast?_append_cons, List.getLast?_cons_of_ne_nil hf.canonical_ne_nil] at hlast
    exact ih₂ h.2.2.1 hf hlast

theorem Literal.head_ne {formula : Formula} (h : formula.Literal) :
    (canonical formula).head? ≠ some '=' := by
  by_cases hunsigned : formula.Unsigned
  · obtain ⟨c, body, htext, hc, -⟩ := exists_digits h hunsigned
    rw [htext]
    rintro ⟨⟩
    exact absurd hc (by decide)
  · rw [(canonical_of_signed h hunsigned).1]
    simp

/-- The canonical text of a canonical formula begins with no equals sign. -/
theorem IsCanonical.head_ne {formula : Formula} {negative : Bool} (h : formula.IsCanonical)
    (hfaithful : formula.Faithful negative) : (canonical formula).head? ≠ some '=' := by
  induction formula generalizing negative with
  | integer | decimal => exact Literal.head_ne h
  | reference mark stem =>
    cases mark with
    | plain => exact fun hhead => (PlainName.start h _ hhead).2.2 rfl
    | custom | hashed => simp [Mark.sign]
  | parenthesized => simp [canonical_parenthesized]
  | call function argument ih =>
    by_cases hminus : function = minusName
    · subst hminus
      rw [← negation, canonical_negation]
      simp
    · have hname : PlainName function := by simpa [hminus] using h.2
      rw [canonical_call hminus, List.head?_append_of_ne_nil _ hname.ne_nil]
      exact fun hhead => (hname.start _ hhead).2.2 rfl
  | callPair function first second =>
    rw [canonical_callPair h.1.ne_minusName, List.head?_append_of_ne_nil _ h.1.ne_nil]
    exact fun hhead => (h.1.start _ hhead).2.2 rfl
  | binary left op right ih ih' =>
    rw [canonical_binary, List.head?_append_of_ne_nil _ hfaithful.2.1.canonical_ne_nil]
    exact ih h.1 hfaithful.2.1
  | conditional condition whenTrue whenFalse ih ih₁ ih₂ =>
    rw [canonical_conditional, List.head?_append_of_ne_nil _ hfaithful.2.1.canonical_ne_nil]
    exact ih h.1 hfaithful.2.1

/-- The text of a canonical formula is derived, also after a minus sign if one may stand there. -/
theorem IsCanonical.faithful {formula : Formula} (h : formula.IsCanonical) :
    formula.Faithful false ∧ (formula.Negatable → formula.Faithful true) := by
  induction formula with
  | integer | decimal => exact ⟨h, fun hnegatable => hnegatable.elim⟩
  | reference mark stem =>
    cases mark with
    | plain => exact ⟨PlainName.nameToken h _, fun _ => PlainName.nameToken h _⟩
    | custom | hashed =>
      have hstem : IsToken stem := isToken_of_no_delimiter h.1 h.2
      exact ⟨hstem, fun _ => hstem⟩
  | parenthesized inner ih => exact ⟨(ih h).1, fun hnegatable => hnegatable.elim⟩
  | call function argument ih =>
    obtain ⟨hargument, hfunction⟩ := h
    by_cases hminus : function = minusName
    · subst hminus
      exact ⟨(ih hargument).2 hfunction, fun hnegatable => absurd rfl hnegatable⟩
    · rw [if_neg hminus] at hfunction
      simp only [Faithful, if_neg hminus]
      exact ⟨⟨hfunction.nameToken _, (ih hargument).1⟩,
        fun _ => ⟨hfunction.nameToken _, (ih hargument).1⟩⟩
  | callPair function first second ih ih' =>
    obtain ⟨hname, hfirst, hsecond⟩ := h
    have hrest (negative : Bool) : (callPair function first second).Faithful negative :=
      ⟨hname.ne_minusName, hname.nameToken _, (ih hfirst).1, (ih' hsecond).1⟩
    exact ⟨hrest false, fun _ => hrest true⟩
  | binary left op right ih ih' =>
    obtain ⟨hl, hr, hlevel, hlevel', hlast⟩ := h
    have hleft := (ih hl).1
    have hright := (ih' hr).1
    exact ⟨⟨rfl, hleft, hright, hlevel, hlevel', fun _ => hr.head_ne hright,
      fun hop => hl.closed hleft (hlast hop)⟩, fun hnegatable => hnegatable.elim⟩
  | conditional condition whenTrue whenFalse ih ih₁ ih₂ =>
    obtain ⟨hc, ht, hf, hlevel⟩ := h
    exact ⟨⟨rfl, (ih hc).1, (ih₁ ht).1, (ih₂ hf).1, hlevel⟩, fun hnegatable => hnegatable.elim⟩

/-- The text of a canonical formula is read as the formula. -/
theorem IsCanonical.reread_eq {formula : Formula} (h : formula.IsCanonical) :
    formula.reread false = formula ∧ (formula.Negatable → formula.reread true = formula.negation) := by
  induction formula with
  | integer | decimal => exact ⟨rfl, fun hnegatable => hnegatable.elim⟩
  | reference => exact ⟨rfl, fun _ => rfl⟩
  | parenthesized inner ih =>
    refine ⟨?_, fun hnegatable => hnegatable.elim⟩
    exact congrArg parenthesized (ih h).1
  | call function argument ih =>
    obtain ⟨hargument, hfunction⟩ := h
    by_cases hminus : function = minusName
    · subst hminus
      exact ⟨(ih hargument).2 hfunction, fun hnegatable => absurd rfl hnegatable⟩
    · simp only [reread, if_neg hminus, (ih hargument).1]
      exact ⟨rfl, fun _ => rfl⟩
  | callPair function first second ih ih' =>
    simp only [reread, (ih h.2.1).1, (ih' h.2.2).1]
    exact ⟨rfl, fun _ => rfl⟩
  | binary left op right ih ih' =>
    simp only [reread, (ih h.1).1, (ih' h.2.1).1]
    exact ⟨trivial, fun hnegatable => hnegatable.elim⟩
  | conditional condition whenTrue whenFalse ih ih₁ ih₂ =>
    simp only [reread, (ih h.1).1, (ih₁ h.2.1).1, (ih₂ h.2.2.1).1]
    exact ⟨trivial, fun hnegatable => hnegatable.elim⟩

end Formula

/-! ## Depth -/

namespace Grammar

theorem nest_signed (negative : Bool) (operand : Formula) :
    (signed negative operand).nest = operand.nest := by
  cases negative <;> rfl

/-- A formula is nested once more than what is in it. -/
def Category.layers : Category → Nat
  | formula => 1
  | _ => 0

/-- A derivation is at least as deep as its tree is nested, and deeper if it is one of a formula. -/
theorem Derivation.nest_le_depth {category : Category} {text rest : List Char}
    (d : Derivation category text rest) : d.tree.nest + category.layers ≤ d.depth := by
  induction d with
  | plain before body after ih => exact Nat.succ_le_succ ih
  | conditional before condition after whenTrue whenFalse ih ih₁ ih₂ =>
    simp only [tree, depth, Formula.nest, Category.layers] at ih ih₁ ih₂ ⊢
    omega
  | operand body ih => exact (Nat.le_add_right _ _).trans ih
  | join op htier left before spells after right ih ih' =>
    exact max_le_max ((Nat.le_add_right _ _).trans ih) ((Nat.le_add_right _ _).trans ih')
  | group inner ih => exact ih
  | marked | negatedMarked => exact Nat.le_refl _
  | unsigned hstart body ih => exact ih
  | negatedGroup before inner ih => exact (Nat.le_add_right _ _).trans ih
  | negatedValue before hstart body ih => exact ih
  | literal token htoken hend number hnumber =>
    rcases literal?_cases hnumber with ⟨value, rfl, -⟩ | ⟨value, rfl, -⟩ <;> exact Nat.le_refl _
  | name => exact Nat.le_of_eq (nest_signed _ _)
  | @call negative _ _ _ token _ _ _ _ argument ih =>
    have hnest : (Formula.call token argument.tree).nest ≤ argument.tree.nest + 1 := by
      rw [Formula.nest]
      split <;> omega
    exact (nest_signed _ _).le.trans (hnest.trans ih)
  | callPair token _ _ _ _ _ first _ second ih ih' =>
    refine (nest_signed _ _).le.trans ?_
    simp only [Formula.nest, Category.layers, depth] at ih ih' ⊢
    omega

end Grammar

/-! ## The round trip -/

theorem Formula.Faithful.exists_derivation {formula : Formula} (h : formula.Faithful false) :
    ∃ d : Derivation .formula (canonical formula) [],
      d.tree = formula.reread false ∧ d.depth ≤ formula.nest + 1 := by
  have hderives := derives_formula (h.derives (Nat.le_refl _) (.inl atDelimiter_nil))
  rw [List.append_nil] at hderives
  exact hderives

/-- The canonical text of a canonical formula is read as the formula exactly when the limit allows
one more level than the formula is nested. -/
theorem parse_canonical_iff (options : Options) {formula : Formula} (h : formula.IsCanonical) :
    Formula.parse options (canonical formula) = .ok formula ↔ (formula.nest : Int) < options.limit := by
  constructor
  · intro hparse
    obtain ⟨rest, d, htree, hdepth, -⟩ := exists_derivation_of_parse hparse
    have hnest : d.tree.nest + 1 ≤ d.depth := d.nest_le_depth
    rw [htree] at hnest
    omega
  · intro hlimit
    obtain ⟨d, htree, hdepth⟩ := h.faithful.1.exists_derivation
    have hparse := parse_of_derivation d (by omega : (d.depth : Int) ≤ options.limit)
    rw [htree, h.reread_eq.1] at hparse
    exact hparse

/-- `(a)==-#b` -/
theorem parse_canonical_equation :
    (Formula.binary (.parenthesized (.reference .plain ['a'])) .equal
        (.call minusName (.reference .hashed ['b']))).IsCanonical ∧
      (Formula.parse { maxDepth := 2 } (canonical (.binary (.parenthesized (.reference .plain ['a']))
          .equal (.call minusName (.reference .hashed ['b'])))) =
        .ok (.binary (.parenthesized (.reference .plain ['a'])) .equal
          (.call minusName (.reference .hashed ['b']))) ↔ (1 : Int) < 2) := by
  have hname : Formula.PlainName ['a'] :=
    ⟨by simp, by simp [isDelimiter, delimiters], by rintro c ⟨⟩; decide,
      Numeral.ofToken?_eq_none_iff.1 rfl⟩
  have hcanonical : (Formula.binary (.parenthesized (.reference .plain ['a'])) .equal
      (.call minusName (.reference .hashed ['b']))).IsCanonical :=
    ⟨hname, ⟨⟨by simp, by simp [isDelimiter, delimiters]⟩, trivial⟩, by decide, by decide,
      fun _ => rfl⟩
  exact ⟨hcanonical, parse_canonical_iff _ hcanonical⟩

end Drafting
