import Drafting.Proofs.Canonical.Idempotence
import Drafting.Proofs.Canonical.Stripped

/-!
# The shape of formulas that are read from texts

Every name in such a formula can be told from the numbers, marks and parentheses around it, although
the first character of a token is taken whatever it is. An operator sign at the start of a name is
left to the places right behind a minus sign, where it is no operator.

## Main definitions

* `Formula.BareName`, `Formula.MarkedName` — the names without a mark, and with one.
* `Formula.Refers` — the full names of references.
* `Formula.Proper` — the formulas that texts hold.

Main statement: `parse_proper`.
-/

namespace Drafting

open Grammar Rendering

namespace Formula

/-- The operator signs that no name starts with, but for names behind a minus sign. -/
def operatorSigns : List Char := ['+', '*', '/', '^', '-']

/-- A name without a mark, of a reference or a function; with `negated`, right behind a minus sign. -/
structure BareName (negated : Bool) (name : List Char) : Prop where
  ne_nil : name ≠ []
  head : ∀ c ∈ name.head?, isBlank c = false ∧ c ∉ ['(', '@', '#']
  sign : ∀ c ∈ name.head?, c ∈ operatorSigns → negated = true
  tail : ∀ c ∈ name.tail, isDelimiter c = false
  notNumeral : ¬ Numeral.IsNumeral name

/-- A name with the sign of its mark. -/
structure MarkedName (name : List Char) : Prop where
  two_le_length : 2 ≤ name.length
  second : ∀ c ∈ name.tail.head?, isBlank c = false
  tail : ∀ c ∈ name.drop 2, isDelimiter c = false

/-- The name of a reference, the sign of its mark included, tells the mark. -/
structure Refers (negated : Bool) (mark : Mark) (name : List Char) : Prop where
  custom_iff : mark = .custom ↔ name.head? = some '@'
  hashed_iff : mark = .hashed ↔ name.head? = some '#'
  bare : mark = .plain → BareName negated name
  marked : mark ≠ .plain → MarkedName name

/-- The formulas that texts hold; with `negated`, right behind a minus sign. -/
def Proper (negated : Bool) : Formula → Prop
  | integer value => (integer value).Literal
  | decimal value => value.isFinite = true
  | reference mark stem => Refers negated mark (mark.sign ++ stem)
  | parenthesized inner => inner.Proper false
  | call function argument =>
    BareName (negated || function = minusName) function ∧ argument.Proper (function = minusName)
  | callPair function first second =>
    function ≠ minusName ∧ BareName negated function ∧ first.Proper false ∧ second.Proper false
  | binary left _ right => left.Proper false ∧ right.Proper false
  | conditional condition whenTrue whenFalse =>
    condition.Proper false ∧ whenTrue.Proper false ∧ whenFalse.Proper false

variable {negated : Bool} {name stem : List Char} {formula operand : Formula}

/-! ## Names -/

theorem BareName.isToken (h : BareName negated name) : IsToken name := by
  obtain ⟨c, body, rfl⟩ := List.exists_cons_of_ne_nil h.ne_nil
  exact ⟨c, body, rfl, (h.head c rfl).1, h.tail⟩

/-- What may stand alone may stand behind a minus sign. -/
theorem BareName.weaken (h : BareName negated name) (negated' : Bool) :
    BareName (negated || negated') name where
  ne_nil := h.ne_nil
  head := h.head
  sign c hc hsign := by simp [h.sign c hc hsign]
  tail := h.tail
  notNumeral := h.notNumeral

/-- A token that is no number and starts like none of the other atoms is a name. -/
theorem NameToken.bareName (h : NameToken (startsNoName negated) name) : BareName negated name := by
  obtain ⟨⟨c, body, rfl, hblank, hbody⟩, hnumeral, hstart⟩ := h
  have hc : startsNoName negated c = false := hstart c rfl
  have hopen : c ∉ ['(', '@', '#'] := by
    cases negated <;> simp_all [startsNoName, startsNoValue, startsNoNegated]
  have hsign : c ∈ operatorSigns → negated = true := by
    intro hmem
    by_contra hfalse
    obtain rfl : negated = false := by simpa using hfalse
    simp_all [startsNoName, startsNoValue, operatorSigns]
  refine ⟨by simp, ?_, ?_, hbody, hnumeral⟩
  · rintro _ ⟨⟩
    exact ⟨hblank, hopen⟩
  · rintro _ ⟨⟩
    exact hsign

theorem bareName_minusName : BareName true minusName where
  ne_nil := by decide
  head := by
    rintro _ ⟨⟩
    exact ⟨rfl, by decide⟩
  sign _ _ _ := rfl
  tail := by simp [minusName]
  notNumeral := Numeral.ofToken?_eq_none_iff.1 rfl

theorem BareName.refers (h : BareName negated name) : Refers negated .plain name where
  custom_iff := by
    have hat : name.head? ≠ some '@' := fun hhead => by simpa using (h.head _ hhead).2
    simp [hat]
  hashed_iff := by
    have hhash : name.head? ≠ some '#' := fun hhead => by simpa using (h.head _ hhead).2
    simp [hhash]
  bare _ := h
  marked hmark := absurd rfl hmark

theorem refers_of_mark {mark : Mark} {sign : Char} (hmark : Mark.ofSign? sign = some mark)
    (hstem : IsToken stem) : Refers negated mark (mark.sign ++ stem) := by
  obtain ⟨c, body, rfl, hc, hbody⟩ := hstem
  have hname : MarkedName (sign :: c :: body) := by
    refine ⟨by simp, ?_, hbody⟩
    rintro _ ⟨⟩
    exact hc
  rw [(sign_of_ofSign? hmark).1]
  unfold Mark.ofSign? at hmark
  split at hmark <;> cases hmark
  · exact ⟨by simp, by simp, by simp, fun _ => hname⟩
  · exact ⟨by simp, by simp, by simp, fun _ => hname⟩

/-- The stem of a marked name is a token. -/
theorem Refers.isToken {mark : Mark} {sign : Char} (hmark : Mark.ofSign? sign = some mark)
    (h : Refers negated mark (mark.sign ++ stem)) : IsToken stem := by
  have hplain : mark ≠ .plain := by
    rintro rfl
    exact absurd (sign_of_ofSign? hmark).1 (by simp [Mark.sign])
  obtain ⟨hlength, hsecond, htail⟩ := h.marked hplain
  rw [(sign_of_ofSign? hmark).1] at hlength hsecond htail
  cases stem with
  | nil => simp at hlength
  | cons c body => exact ⟨c, body, rfl, hsecond c rfl, htail⟩

/-! ## Minus signs -/

theorem Proper.behind (h : formula.Proper false) : formula.Proper true := by
  cases formula with
  | reference mark stem =>
    exact ⟨h.custom_iff, h.hashed_iff, fun hplain => (h.bare hplain).weaken true, h.marked⟩
  | call function argument =>
    obtain ⟨hfunction, hargument⟩ := h
    have hname := hfunction.weaken true
    rw [Bool.or_assoc, Bool.or_true, Bool.or_true] at hname
    exact ⟨by simpa using hname, hargument⟩
  | callPair function first second => exact ⟨h.1, h.2.1.weaken true, h.2.2⟩
  | _ => exact h

theorem Proper.negation (h : operand.Proper true) : operand.negation.Proper false :=
  ⟨bareName_minusName, h⟩

theorem Proper.signed (h : operand.Proper negated) : (signed negated operand).Proper false := by
  cases negated with
  | false => exact h
  | true => exact h.negation

theorem Literal.proper (h : formula.Literal) : formula.Proper negated := by
  cases formula with
  | integer | decimal => exact h
  | _ => exact h.elim

end Formula

namespace Grammar

/-- What a text is read as is proper, if its first character may begin it. -/
theorem Derivation.proper {category : Category} {text rest : List Char}
    (d : Derivation category text rest) (hadmits : category.Admits text) :
    d.tree.Proper false := by
  induction d with
  | plain before body after ih => exact ih trivial
  | conditional before condition after whenTrue whenFalse ih ih₁ ih₂ =>
    exact ⟨ih trivial, ih₁ trivial, ih₂ trivial⟩
  | @operand tier text _ body ih => exact ih (tier.admits_operand text)
  | @join _ _ _ _ _ start _ op htier left before spells after right ih ih' =>
    subst htier
    exact ⟨ih trivial, ih' (op.tier.admits_operand start)⟩
  | group inner ih => exact ih trivial
  | marked mark hmark stem hstem => exact Formula.refers_of_mark hmark hstem
  | unsigned hstart body ih =>
    apply ih
    rintro c ⟨⟩
    exact hstart
  | negatedGroup before inner ih => exact (ih trivial).behind.negation
  | negatedMarked mark hmark stem before hstem =>
    have hreference : (Formula.reference mark stem).Proper true :=
      Formula.refers_of_mark hmark hstem
    exact hreference.negation
  | negatedValue before hstart body ih =>
    apply ih
    rintro c ⟨⟩
    exact hstart
  | literal token htoken hend number hnumber => exact (literal_of_token hnumber).proper
  | @name negative rest token htoken hend hname =>
    have hreference : (Formula.reference .plain token).Proper negative :=
      (hadmits.nameToken htoken hname).bareName.refers
    exact hreference.signed
  | @call negative _ _ _ token htoken hend hname before argument ih =>
    have hfunction := (hadmits.nameToken htoken hname).bareName
    have hargument : argument.tree.Proper (token = minusName) := by
      cases decide (token = minusName) with
      | false => exact ih trivial
      | true => exact (ih trivial).behind
    have hcall : (Formula.call token argument.tree).Proper negative :=
      ⟨hfunction.weaken _, hargument⟩
    exact hcall.signed
  | @callPair negative _ _ _ _ _ token htoken hend hname hminus before first _ second ih ih' =>
    have hfunction := (hadmits.nameToken htoken hname).bareName
    have hcall : (Formula.callPair token first.tree second.tree).Proper negative :=
      ⟨hminus, hfunction, ih trivial, ih' trivial⟩
    exact hcall.signed

end Grammar

/-- What a text is read as is proper, and its canonical text has no blanks. -/
theorem parse_proper {options : Options} {text : List Char} {tree : Formula}
    (h : Formula.parse options text = .ok tree) :
    tree.Proper false ∧ NoBlanks (canonical tree) := by
  obtain ⟨rest, d, rfl, -⟩ := exists_derivation_of_parse h
  exact ⟨d.proper trivial, d.noBlanks⟩

/-- A function behind a minus sign may have a name that starts with an operator sign, and a marked
name may go on with one. -/
theorem parse_proper_signs :
    let tree := (Formula.callPair "+f]".toList (.reference .hashed "(a".toList)
      (.decimal (.ofBits 0xbfe0000000000000))).negation
    Formula.parse {} "- +f] ( #(a ; -.5 ) rest".toList = .ok tree ∧ tree.Proper false ∧
      NoBlanks (canonical tree) := by
  intro tree
  have hparse : Formula.parse {} "- +f] ( #(a ; -.5 ) rest".toList = .ok tree := by decide +kernel
  exact ⟨hparse, parse_proper hparse⟩

end Drafting
