import Drafting.Proofs.Grammar.Chains
import Drafting.Proofs.Refusal.Lookahead
import Drafting.Proofs.Respelling.Texts

/-!
# Coupled readings

A relation between the outcomes of two readings, each of its own text, where one text is the other
spelt anew. If it holds of what is read in nested formulas, and is kept up by the few ways in which
readings are put together, then it holds of atoms, operands and expressions. The induction over the
grammar is made once here; what differs from use to use is the relation.

## Main definitions

* `Coupling` — a relation between outcomes that is kept up.

Main statement: `Coupling.expression`.
-/

namespace Drafting.Grammar

open Respelling

/-- A relation between the outcomes at two texts, with a clause for each way in which an outcome
comes about. -/
structure Coupling (ρ : Respelling) where
  Holds : List Char → List Char → Result (Formula × List Char) → Result (Formula × List Char) → Prop
  taken : ∀ ⦃text text'⦄, ρ.Respells text text' → ∀ tree,
    Holds text text' (.ok (tree, text)) (.ok (tree.mapNames ρ.char, text'))
  refused : ∀ ⦃text text' cause cause'⦄, ρ.Respells text text' →
    Cause.Matches text text' cause cause' → cause.Fits text → cause ≠ .tooDeep →
    Holds text text' (.error ⟨cause, text⟩) (.error ⟨cause', text'⟩)
  /-- One text has ended, and something follows in the other. -/
  ended : ∀ ⦃text' wanted⦄, ρ.tail text' → text' ≠ [] →
    ∀ outcome', Holds [] text' (.error ⟨.endOfText wanted, []⟩) outcome'
  widen : ∀ ⦃text text' left left' outcome outcome'⦄, ρ.Respells text text' → left <:+ text →
    left' <:+ text' → Holds left left' outcome outcome' → Holds text text' outcome outcome'
  bind : ∀ ⦃text text' outcome outcome' next next'⦄, Holds text text' outcome outcome' →
    (∀ tree left left', ρ.Respells left left' → left <:+ text → left' <:+ text' →
      Holds left left' (next (tree, left)) (next' (tree.mapNames ρ.char, left'))) →
    Holds text text' (outcome >>= next) (outcome' >>= next')

namespace Coupling

variable {ρ : Respelling} {text text' : List Char} {tree : Formula}
  {outcome outcome' : Result (Formula × List Char)}

/-! ## Readings put together -/

section

variable (C : Coupling ρ)

theorem skipping (h : ρ.Respells text text')
    (hnext : C.Holds (dropBlanks text) (dropBlanks text') outcome outcome') :
    C.Holds text text' outcome outcome' :=
  C.widen h (dropBlanks_suffix text) (dropBlanks_suffix text') hnext

theorem map {f : Formula → Formula}
    (hf : ∀ tree, f (tree.mapNames ρ.char) = (f tree).mapNames ρ.char)
    (h : C.Holds text text' outcome outcome') :
    C.Holds text text' (do let (tree, left) ← outcome; return (f tree, left))
      (do let (tree, left) ← outcome'; return (f tree, left)) := by
  refine C.bind h fun tree left left' hleft _ _ => ?_
  simp only [hf]
  exact C.taken hleft (f tree)

/-- A wanted sign and what is read after it. -/
theorem expecting {c : Char} (hc : c ∈ signs) (h : ρ.Respells text text')
    {next next' : List Char → Result (Formula × List Char)}
    (hnext : ∀ left left', ρ.Respells left left' → left <:+ text → left' <:+ text' →
      left.length < text.length → C.Holds left left' (next left) (next' left')) :
    C.Holds text text' (expect [c] text >>= next) (expect [c] text' >>= next') := by
  have hunexpected {d : Char} {rest : List Char} (hd : d ≠ c)
      (next : List Char → Result (Formula × List Char)) :
      (expect [c] (d :: rest) >>= next) = .error ⟨.unexpected [c] d, d :: rest⟩ := by
    simp [expect, Bind.bind, Except.bind, hd.symm]
  have hblank {d : Char} (hd : isBlank d = true) : d ≠ c := fun heq => by
    simp [heq, not_blank_of_mem_signs hc] at hd
  have hmatches {d d' : Char} {rest rest' : List Char} :
      Cause.Matches (d :: rest) (d' :: rest') (.unexpected [c] d) (.unexpected [c] d') :=
    .inr ⟨[c], d, d', rfl, rfl, rfl, rfl⟩
  rcases h.cases_head with ⟨rfl, htail⟩ | ⟨d, rest, rest', -, rfl, rfl, hrest⟩ |
    ⟨d, d', rest, rest', hd, hd', rfl, rfl⟩
  · cases text' with
    | nil => exact C.refused h (.inl rfl) rfl (by simp)
    | cons d rest' => exact C.ended htail (by simp) _
  · by_cases hd : d = c
    · subst hd
      rw [char_sign hc, expect_cons, expect_cons]
      rw [char_sign hc] at h hnext
      have hsuffix := List.suffix_cons d rest
      have hsuffix' := List.suffix_cons d rest'
      exact C.widen h hsuffix hsuffix'
        (hnext rest rest' hrest hsuffix hsuffix' (Nat.lt_succ_self _))
    · have hd' : ρ.char d ≠ c := fun heq => hd ((ρ.char_eq_iff c hc d).1 heq)
      rw [hunexpected hd, hunexpected hd']
      exact C.refused h hmatches rfl (by simp)
  · rw [hunexpected (hblank hd), hunexpected (hblank hd')]
    exact C.refused h hmatches rfl (by simp)

/-- A closing sign after blanks. -/
theorem closing {c : Char} (hc : c ∈ signs) (h : ρ.Respells text text') (tree : Formula) :
    C.Holds text text' (do let text ← expect [c] (dropBlanks text); return (tree, text))
      (do let text ← expect [c] (dropBlanks text'); return (tree.mapNames ρ.char, text)) :=
  C.skipping h (C.expecting hc h.dropBlanks fun _ _ hleft _ _ _ => C.taken hleft tree)

/-- A token and what is read after it. -/
theorem tokenizing (h : ρ.Respells text text')
    {next next' : List Char × List Char → Result (Formula × List Char)}
    (hnext : ∀ token rest rest', text = token ++ rest → text' = token.map ρ.char ++ rest' →
      ρ.Respells rest rest' →
      C.Holds text text' (next (token, rest)) (next' (token.map ρ.char, rest'))) :
    C.Holds text text' (readToken isDelimiter text >>= next)
      (readToken isDelimiter text' >>= next') := by
  rcases h.cases_head with ⟨rfl, htail⟩ | ⟨c, rest, rest', hc, rfl, rfl, hrest⟩ |
    ⟨c, c', rest, rest', hc, hc', rfl, rfl⟩
  · cases text' with
    | nil => exact C.refused h (.inl rfl) rfl (by simp)
    | cons d rest' => exact C.ended htail (by simp) _
  · obtain ⟨token, after, hread⟩ : ∃ token after,
        readToken isDelimiter (c :: rest) = .ok (token, after) := by simp [readToken, hc]
    obtain ⟨htext, htoken, hend⟩ := readToken_eq_ok_iff.1 hread
    obtain ⟨after', htext', hafter⟩ := (htext ▸ h).exists_append htoken.noBlanks
    have hread' : readToken isDelimiter (ρ.char c :: rest') = .ok (token.map ρ.char, after') :=
      readToken_eq_ok_iff.2 ⟨htext', isToken_map htoken, hafter.atDelimiter hend⟩
    rw [hread, hread']
    exact hnext token after after' htext htext' hafter
  · have hrefused {d : Char} (hd : isBlank d = true) (rest : List Char)
        (next : List Char × List Char → Result (Formula × List Char)) :
        (readToken isDelimiter (d :: rest) >>= next) = .error ⟨.blankToken, d :: rest⟩ := by
      simp [readToken, hd, Bind.bind, Except.bind]
    rw [hrefused hc, hrefused hc']
    exact C.refused h (.inl rfl) ⟨c, rfl, hc⟩ (by simp)

/-- An operator and what is read after it. -/
theorem operating {announced : Operator} (hlead : Lead.ofText? text = some (.operator announced))
    (h : ρ.Respells text text')
    {next next' : Operator × List Char → Result (Formula × List Char)}
    (hnext : ∀ op left left', ρ.Respells left left' → left <:+ text → left' <:+ text' →
      left.length < text.length → C.Holds left left' (next (op, left)) (next' (op, left'))) :
    C.Holds text text' (readOperator announced text >>= next)
      (readOperator announced text' >>= next') := by
  obtain ⟨c, rest, rfl⟩ : ∃ c rest, text = c :: rest := by
    cases text with
    | nil => simp [Lead.ofText?] at hlead
    | cons c rest => exact ⟨c, rest, rfl⟩
  have hc : c ∈ signs := by
    by_contra hc
    have hnone : Lead.ofChar? c = none := by
      unfold Lead.ofChar?
      split <;> simp_all [signs]
    simp [Lead.ofText?, hnone] at hlead
  obtain ⟨rest', rfl, hrest⟩ := h.cons_sign hc
  have hafter {left left' : List Char} (hleft : left <:+ rest) (hleft' : left' <:+ rest') :
      left <:+ c :: rest ∧ left' <:+ c :: rest' ∧ left.length < (c :: rest).length :=
    ⟨hleft.trans (List.suffix_cons c rest), hleft'.trans (List.suffix_cons c rest'),
      Nat.lt_succ_of_le hleft.length_le⟩
  obtain ⟨hsuffix, hsuffix', hlength⟩ := hafter (List.suffix_refl rest) (List.suffix_refl rest')
  have hplain (op : Operator) :
      C.Holds (c :: rest) (c :: rest') (next (op, rest)) (next' (op, rest')) :=
    C.widen h hsuffix hsuffix' (hnext op rest rest' hrest hsuffix hsuffix' hlength)
  -- the signs `>` and `<` may go on with `=`
  have hcomparison (op orEqual : Operator) : C.Holds (c :: rest) (c :: rest')
      (next (if rest.head? = some '=' then (orEqual, rest.tail) else (op, rest)))
      (next' (if rest'.head? = some '=' then (orEqual, rest'.tail) else (op, rest'))) := by
    have hequals := hrest.head?_eq_iff (c := '=') (by decide)
    by_cases hhead : rest.head? = some '='
    · rw [if_pos hhead, if_pos (hequals.2 hhead)]
      obtain ⟨start, rfl⟩ := List.head?_eq_some_iff.1 hhead
      obtain ⟨start', rfl, hstart⟩ := hrest.cons_sign (by decide)
      obtain ⟨hsuffix, hsuffix', hlength⟩ :=
        hafter (List.suffix_cons '=' start) (List.suffix_cons '=' start')
      exact C.widen h hsuffix hsuffix' (hnext orEqual _ _ hstart hsuffix hsuffix' hlength)
    · rw [if_neg hhead, if_neg (hequals.not.2 hhead)]
      exact hplain op
  have hdouble : C.Holds (c :: rest) (c :: rest')
      (expect ['='] rest >>= fun left => next (announced, left))
      (expect ['='] rest' >>= fun left => next' (announced, left)) := by
    refine C.widen h hsuffix hsuffix' (C.expecting (by decide) hrest
      fun left left' hleft hl hl' _ => ?_)
    obtain ⟨hsuffix, hsuffix', hlength⟩ := hafter hl hl'
    exact hnext announced left left' hleft hsuffix hsuffix' hlength
  rw [readOperator_cons, readOperator_cons]
  cases announced with
  | greater => exact hcomparison .greater .greaterOrEqual
  | less => exact hcomparison .less .lessOrEqual
  | equal | notEqual =>
    simp only [bind_assoc, pure_bind]
    exact hdouble
  | _ => exact hplain _

end

/-! ## Atoms -/

/-- What two nested readings make of two texts is related. -/
def Nests (C : Coupling ρ) (nested nested' : Nested) : Prop :=
  ∀ ⦃text text'⦄, ρ.Respells text text' → C.Holds text text' (nested text) (nested' text')

variable {C : Coupling ρ} {nested nested' : Nested}

theorem group (hnested : C.Nests nested nested') (h : ρ.Respells text text') :
    C.Holds text text' (group nested text) (group nested' text') := by
  rw [group_eq, group_eq]
  exact C.expecting (by decide) h fun _ _ hstart _ _ _ =>
    C.bind (hnested hstart) fun inner _ _ hfinish _ _ => C.closing (by decide) hfinish inner

theorem markedName (mark : Mark) (h : ρ.Respells text text') :
    C.Holds text text' (markedName mark text) (markedName mark text') := by
  refine C.tokenizing h fun token rest rest' htext htext' hrest => ?_
  subst htext htext'
  exact C.widen h (List.suffix_append _ _) (List.suffix_append _ _)
    (C.taken hrest (.reference mark token))

theorem arguments (hnested : C.Nests nested nested') (function : List Char) (first : Formula)
    (h : ρ.Respells text text') :
    C.Holds text text' (arguments nested function first text)
      (arguments nested' (function.map ρ.char) (first.mapNames ρ.char) text') := by
  have hsecond : separatorAhead text' ∧ function.map ρ.char ≠ minusName ↔
      separatorAhead text ∧ function ≠ minusName := by
    rw [h.separatorAhead_eq, ne_eq, map_eq_minusName_iff]
  by_cases hsep : separatorAhead text ∧ function ≠ minusName
  · obtain ⟨separator, middle, rfl, hseparator⟩ := separatorAhead_iff.1 hsep.1
    have hsolid : isBlank separator = false := by rcases hseparator with rfl | rfl <;> decide
    obtain ⟨middle', rfl, hmiddle⟩ := h.cons hsolid
    have hseparator' := (ρ.separator_char separator).2 hseparator
    rw [arguments_separator hsep.2 hseparator,
      arguments_separator (hsecond.2 hsep).2 hseparator']
    exact C.widen h (List.suffix_cons _ _) (List.suffix_cons _ _)
      (C.bind (hnested hmiddle) fun second _ _ hfinish _ _ =>
        C.closing (by decide) hfinish (.callPair function first second))
  · rw [arguments_of_not_separator hsep, arguments_of_not_separator (hsecond.not.2 hsep)]
    exact C.expecting (by decide) h fun _ _ hleft _ _ _ => C.taken hleft (.call function first)

theorem callOf (hnested : C.Nests nested nested') (function : List Char)
    (h : ρ.Respells text text') :
    C.Holds text text' (callOf nested function text)
      (callOf nested' (function.map ρ.char) text') := by
  rw [callOf_eq, callOf_eq]
  exact C.expecting (by decide) h fun _ _ hstart _ _ _ =>
    C.bind (hnested hstart) fun first _ _ hfinish _ _ =>
      C.skipping hfinish (arguments hnested function first hfinish.dropBlanks)

theorem named (hnested : C.Nests nested nested') (name : List Char) (h : ρ.Respells text text') :
    C.Holds text text' (named nested name text) (named nested' (name.map ρ.char) text') := by
  have hopen := h.dropBlanks.head?_eq_iff (c := '(') (by decide)
  rw [named_eq, named_eq]
  refine C.skipping h ?_
  by_cases hhead : (dropBlanks text).head? = some '('
  · rw [if_pos hhead, if_pos (hopen.2 hhead)]
    exact callOf hnested name h.dropBlanks
  · rw [if_neg hhead, if_neg (hopen.not.2 hhead)]
    exact C.taken h.dropBlanks (.reference .plain name)

theorem negation_mapNames (tree : Formula) :
    (tree.mapNames ρ.char).negation = tree.negation.mapNames ρ.char :=
  congrArg (Formula.call · _) (map_eq_minusName_iff.2 rfl).symm

theorem signed_mapNames (negative : Bool) (tree : Formula) :
    signed negative (tree.mapNames ρ.char) = (signed negative tree).mapNames ρ.char := by
  cases negative with
  | false => rfl
  | true => exact negation_mapNames tree

/-- A number has no names. -/
theorem mapNames_of_literal? {negative : Bool} {token : List Char} {number : Formula}
    (h : literal? negative token = .ok (some number)) (f : Char → Char) :
    number.mapNames f = number := by
  unfold literal? at h
  split at h
  · simp at h
  · split at h
    · simp at h
    · obtain rfl := Option.some.inj (Except.ok.inj h)
      rfl
  · dsimp only at h
    split at h
    · obtain rfl := Option.some.inj (Except.ok.inj h)
      rfl
    · simp at h

/-- A number is refused for what it is. -/
theorem fits_of_literal? {negative : Bool} {token : List Char} {cause : Cause}
    (h : literal? negative token = .error cause) (rest : List Char) :
    cause.Fits (token ++ rest) ∧ cause ≠ .tooDeep := by
  unfold literal? at h
  split at h
  · simp at h
  · next minus digits htoken =>
    split at h
    · next hlimit =>
      obtain rfl := Except.error.inj h
      exact ⟨⟨List.prefix_append _ _, minus, digits, htoken, rfl, hlimit⟩, by simp⟩
    · simp at h
  · next minus coefficient exponent htoken =>
    dsimp only at h
    split at h
    · simp at h
    · obtain rfl := Except.error.inj h
      exact ⟨⟨List.prefix_append _ _, minus, coefficient, exponent, htoken⟩, by simp⟩

theorem value (hnested : C.Nests nested nested') (negative : Bool) (h : ρ.Respells text text') :
    C.Holds text text' (value nested negative text) (value nested' negative text') := by
  rw [value_eq, value_eq]
  refine C.tokenizing h fun token rest rest' htext htext' hrest => ?_
  have hsuffix : rest <:+ text := htext ▸ List.suffix_append _ _
  have hsuffix' : rest' <:+ text' := htext' ▸ List.suffix_append _ _
  have hmap := ρ.literal?_map negative token
  cases hliteral : literal? negative token with
  | error cause =>
    simp only [hliteral, hmap]
    obtain ⟨hfits, hdeep⟩ := fits_of_literal? hliteral rest
    exact C.refused h (.inl rfl) (htext ▸ hfits) hdeep
  | ok found =>
    simp only [hliteral, hmap]
    cases found with
    | some literal =>
      have htaken := C.taken hrest literal
      rw [mapNames_of_literal? hliteral] at htaken
      exact C.widen h hsuffix hsuffix' htaken
    | none =>
      exact C.widen h hsuffix hsuffix'
        (C.map (signed_mapNames negative) (named hnested token hrest))

/-- Before a blank or the end of the text there is no group and no mark, and no operator. -/
theorem starts_of_blank (h : ∀ c ∈ text.head?, isBlank c = true) (nested : Nested) :
    negated nested text = Grammar.value nested true text ∧
      atom nested text = Grammar.value nested false text := by
  cases text with
  | nil => exact ⟨rfl, rfl⟩
  | cons c rest =>
    have hc : c ∉ signs := fun hsign => by
      have hblank := h c rfl
      simp [not_blank_of_mem_signs hsign] at hblank
    simp only [signs, List.mem_cons, List.not_mem_nil, or_false, not_or] at hc
    have hmark : Mark.ofSign? c = none := ofSign?_eq_none_iff.2 ⟨by tauto, by tauto⟩
    have hoperator : startsNoOperand c = false := by simp [startsNoOperand]; tauto
    simp [negated_cons, atom_cons, hmark, hoperator, hc]

/-- Two texts of which one begins with a blank or ends begin so together. -/
theorem blank_or_solid (h : ρ.Respells text text') :
    (∀ c ∈ text.head?, isBlank c = true) ∧ (∀ c ∈ text'.head?, isBlank c = true) ∨
      ∃ c rest rest', text = c :: rest ∧ text' = ρ.char c :: rest' ∧ ρ.Respells rest rest' := by
  rcases h.cases_head with ⟨rfl, htail⟩ | ⟨c, rest, rest', -, rfl, rfl, hrest⟩ |
    ⟨c, c', rest, rest', hc, hc', rfl, rfl⟩
  · exact .inl ⟨by simp, fun c hc => ρ.isBlank_of_tail htail c (List.mem_of_mem_head? hc)⟩
  · exact .inr ⟨c, rest, rest', rfl, rfl, hrest⟩
  · exact .inl ⟨by simpa using hc, by simpa using hc'⟩

theorem ofSign?_char (c : Char) : Mark.ofSign? (ρ.char c) = Mark.ofSign? c := by
  have hnone : ∀ c ∉ signs, Mark.ofSign? c = none := by
    intro c hc
    refine ofSign?_eq_none_iff.2 ⟨?_, ?_⟩ <;> (rintro rfl; exact hc (by decide))
  exact apply_char hnone c

theorem startsNoOperand_char (c : Char) : startsNoOperand (ρ.char c) = startsNoOperand c := by
  refine apply_char (b := false) (fun c hc => ?_) c
  simp only [signs, List.mem_cons, List.not_mem_nil, or_false, not_or] at hc
  simp [startsNoOperand]
  tauto

theorem negated (hnested : C.Nests nested nested') (h : ρ.Respells text text') :
    C.Holds text text' (negated nested text) (negated nested' text') := by
  rcases blank_or_solid h with ⟨hblank, hblank'⟩ | ⟨c, rest, rest', rfl, rfl, hrest⟩
  · rw [(starts_of_blank hblank nested).1, (starts_of_blank hblank' nested').1]
    exact value hnested true h
  rw [negated_cons, negated_cons, ofSign?_char]
  by_cases hopen : c = '('
  · rw [if_pos hopen, if_pos ((ρ.char_eq_iff '(' (by decide) c).2 hopen)]
    exact C.map negation_mapNames (group hnested h)
  rw [if_neg hopen, if_neg fun heq => hopen ((ρ.char_eq_iff '(' (by decide) c).1 heq)]
  cases Mark.ofSign? c with
  | none => exact value hnested true h
  | some mark =>
    exact C.widen h (List.suffix_cons _ _) (List.suffix_cons _ _)
      (C.map negation_mapNames (markedName mark hrest))

theorem atom (hnested : C.Nests nested nested') (h : ρ.Respells text text') :
    C.Holds text text' (atom nested text) (atom nested' text') := by
  rcases blank_or_solid h with ⟨hblank, hblank'⟩ | ⟨c, rest, rest', rfl, rfl, hrest⟩
  · rw [(starts_of_blank hblank nested).2, (starts_of_blank hblank' nested').2]
    exact value hnested false h
  rw [atom_cons, atom_cons, ofSign?_char, startsNoOperand_char]
  by_cases hoperator : startsNoOperand c = true
  · rw [if_pos hoperator, if_pos hoperator]
    have hsign : c ∈ signs := by
      have hsubset : ['+', '*', '/', '^'] ⊆ signs := by decide
      exact hsubset (List.contains_iff_mem.1 hoperator)
    rw [char_sign hsign] at h ⊢
    exact C.refused h (.inl rfl) rfl (by simp)
  rw [if_neg hoperator, if_neg hoperator]
  by_cases hopen : c = '('
  · rw [if_pos hopen, if_pos ((ρ.char_eq_iff '(' (by decide) c).2 hopen)]
    exact C.map (fun _ => rfl) (group hnested h)
  rw [if_neg hopen, if_neg fun heq => hopen ((ρ.char_eq_iff '(' (by decide) c).1 heq)]
  by_cases hminus : c = '-'
  · rw [if_pos hminus, if_pos ((ρ.char_eq_iff '-' (by decide) c).2 hminus)]
    exact C.widen h (List.suffix_cons _ _) (List.suffix_cons _ _)
      (C.skipping hrest (negated hnested hrest.dropBlanks))
  rw [if_neg hminus, if_neg fun heq => hminus ((ρ.char_eq_iff '-' (by decide) c).1 heq)]
  cases Mark.ofSign? c with
  | none => exact value hnested false h
  | some mark =>
    exact C.widen h (List.suffix_cons _ _) (List.suffix_cons _ _) (markedName mark hrest)

/-! ## Operators and conditionals -/

theorem stops_iff (h : ρ.Respells text text') (level : Int) :
    Stops level text' ↔ Stops level text := by
  rw [Stops, Stops, h.lead_eq]

/-- The loop over operators, where it is related at all shorter texts. -/
theorem operand_of (hnested : C.Nests nested nested') (hshortens : Shortens nested)
    (hshortens' : Shortens nested') {level : Int}
    (hclimbs : ∀ first left left', ρ.Respells left left' → left.length ≤ text.length →
      C.Holds left left' (climbs nested level first left)
        (climbs nested' level (first.mapNames ρ.char) left'))
    (h : ρ.Respells text text') :
    C.Holds text text' (operand nested level text) (operand nested' level text') := by
  rw [operand_eq hshortens, operand_eq hshortens']
  refine C.bind (atom hnested h) fun first left left' hleft hsuffix _ => ?_
  have hlength := (length_dropBlanks_le left).trans hsuffix.length_le
  exact C.skipping hleft (hclimbs first _ _ hleft.dropBlanks hlength)

theorem climbs (hnested : C.Nests nested nested') (hshortens : Shortens nested)
    (hshortens' : Shortens nested') (level : Int) (left : Formula) (h : ρ.Respells text text') :
    C.Holds text text' (climbs nested level left text)
      (climbs nested' level (left.mapNames ρ.char) text') := by
  obtain ⟨n, hn⟩ : ∃ n, text.length ≤ n := ⟨_, Nat.le_refl _⟩
  induction n using Nat.strongRecOn generalizing level left text text' with
  | ind n ih =>
    by_cases hstops : Stops level text
    · rw [climbs_of_stops hstops, climbs_of_stops ((stops_iff h level).2 hstops)]
      exact C.taken h left
    obtain ⟨announced, hlead, hlevel⟩ := exists_lead_of_not_stops hstops
    rw [climbs_of_lead hshortens hlead hlevel,
      climbs_of_lead hshortens' (h.lead_eq.trans hlead) hlevel]
    refine C.operating hlead h fun op after after' hafter _ _ hlength => ?_
    have hblanks := length_dropBlanks_le after
    refine C.skipping hafter (C.bind (operand_of hnested hshortens hshortens'
      (fun first rest rest' hrest hle => ?_) hafter.dropBlanks)
      fun right rest rest' hrest hsuffix _ => ?_)
    · exact ih (n - 1) (by omega) op.level first hrest (by omega)
    · have hle := hsuffix.length_le
      exact ih (n - 1) (by omega) level (.binary left op right) hrest (by omega)

theorem operand (hnested : C.Nests nested nested') (hshortens : Shortens nested)
    (hshortens' : Shortens nested') (level : Int) (h : ρ.Respells text text') :
    C.Holds text text' (operand nested level text) (operand nested' level text') :=
  operand_of hnested hshortens hshortens' (fun first _ _ hleft _ =>
    climbs hnested hshortens hshortens' level first hleft) h

/-- The branches of a conditional and what is read after them. -/
theorem branching (hnested : C.Nests nested nested') (condition : Formula)
    (h : ρ.Respells text text')
    {next next' : Formula × List Char → Result (Formula × List Char)}
    (hnext : ∀ tree left left', ρ.Respells left left' → left.length < text.length →
      C.Holds left left' (next (tree, left)) (next' (tree.mapNames ρ.char, left'))) :
    C.Holds text text' (branches nested condition text >>= next)
      (branches nested' (condition.mapNames ρ.char) text' >>= next') := by
  simp only [branches_eq, bind_assoc, pure_bind]
  refine C.expecting (by decide) h fun onTrue onTrue' honTrue _ _ hlength => ?_
  have h₁ := length_dropBlanks_le onTrue
  refine C.skipping honTrue (C.bind (hnested honTrue.dropBlanks)
    fun whenTrue finish finish' hfinish hsuffix _ => ?_)
  have h₂ := length_dropBlanks_le finish
  have h₃ := hsuffix.length_le
  refine C.skipping hfinish (C.expecting (by decide) hfinish.dropBlanks
    fun onFalse onFalse' honFalse _ _ hlength => ?_)
  have h₄ := length_dropBlanks_le onFalse
  refine C.skipping honFalse (C.bind (hnested honFalse.dropBlanks)
    fun whenFalse rest rest' hrest hsuffix _ => ?_)
  have h₅ := hsuffix.length_le
  exact hnext (.conditional condition whenTrue whenFalse) rest rest' hrest (by omega)

theorem passes_iff (h : ρ.Respells text text') (level : Int) :
    Passes level text' ↔ Passes level text := by
  rw [Passes, Passes, h.lead_eq]

theorem chains (hnested : C.Nests nested nested') (hsettles : Settles nested)
    (hsettles' : Settles nested') (level : Int) (left : Formula) (h : ρ.Respells text text') :
    C.Holds text text' (chains nested level left text)
      (chains nested' level (left.mapNames ρ.char) text') := by
  obtain ⟨n, hn⟩ : ∃ n, text.length ≤ n := ⟨_, Nat.le_refl _⟩
  induction n using Nat.strongRecOn generalizing left text text' with
  | ind n ih =>
    by_cases hpasses : Passes level text
    · rw [chains_of_passes hpasses, chains_of_passes ((passes_iff h level).2 hpasses)]
      exact C.taken h left
    have hrepeats (joined : Formula) {rest rest' : List Char} (hrest : ρ.Respells rest rest')
        (hlength : rest.length < text.length) :
        C.Holds rest rest' (Grammar.chains nested level joined (dropBlanks rest))
          (Grammar.chains nested' level (joined.mapNames ρ.char) (dropBlanks rest')) := by
      have hblanks := length_dropBlanks_le rest
      exact C.skipping hrest (ih (n - 1) (by omega) joined hrest.dropBlanks (by omega))
    obtain ⟨lead, hlead, hlevel⟩ := exists_lead_of_not_passes hpasses
    have hlead' := h.lead_eq.trans hlead
    cases lead with
    | question =>
      rw [chains_of_question hsettles hlead hlevel, chains_of_question hsettles' hlead' hlevel]
      exact branching hnested left h fun joined _ _ hrest hlength => hrepeats joined hrest hlength
    | operator announced =>
      rw [chains_of_operator hsettles hlead hlevel, chains_of_operator hsettles' hlead' hlevel]
      refine C.operating hlead h fun op after after' hafter _ _ hlength => ?_
      have hblanks := length_dropBlanks_le after
      refine C.skipping hafter (C.bind (operand hnested hsettles.shortens hsettles'.shortens
        op.level hafter.dropBlanks) fun right rest rest' hrest hsuffix _ => ?_)
      have hle := hsuffix.length_le
      exact hrepeats (.binary left op right) hrest (by omega)

/-- An expression with one level of room more than what is nested in it. -/
theorem expression {room room' : Nat}
    (hnested : C.Nests (expression room Operator.conditionalLevel)
      (expression room' Operator.conditionalLevel)) (level : Int) :
    C.Nests (expression (room + 1) level) (expression (room' + 1) level) := by
  intro text text' h
  have hsettles := expression_settles room
  have hsettles' := expression_settles room'
  rw [expression_eq, expression_eq]
  exact C.skipping h (C.bind
    (operand hnested hsettles.shortens hsettles'.shortens level h.dropBlanks)
    fun first left left' hleft _ _ =>
      C.skipping hleft (chains hnested hsettles hsettles' level first hleft.dropBlanks))

/-- Expressions, from the refusal of those without room. -/
theorem rooms (more : Nat)
    (hzero : C.Nests (Grammar.expression 0 Operator.conditionalLevel)
      (Grammar.expression more Operator.conditionalLevel)) (room : Nat) :
    C.Nests (Grammar.expression room Operator.conditionalLevel)
      (Grammar.expression (room + more) Operator.conditionalLevel) := by
  induction room with
  | zero => rwa [Nat.zero_add]
  | succ room ih =>
    rw [Nat.add_right_comm]
    exact expression ih _

/-- A whole formula text. -/
theorem formula {room room' : Nat}
    (hexpression : C.Nests (Grammar.expression room Operator.conditionalLevel)
      (Grammar.expression room' Operator.conditionalLevel)) (strict : Bool) :
    C.Nests (Grammar.formula room strict) (Grammar.formula room' strict) := by
  intro text text' h
  rw [formula_eq, formula_eq]
  refine C.bind (hexpression h) fun tree left left' hleft _ _ => ?_
  cases strict with
  | false => exact C.taken hleft tree
  | true =>
    refine C.skipping hleft ?_
    have hnil := hleft.dropBlanks_eq_nil_iff
    by_cases hend : dropBlanks left = []
    · simp only [hend, hnil.2 hend, if_true]
      exact C.taken (.tail ρ.tail_nil) tree
    · simp only [if_true, if_neg hend, if_neg (hnil.not.2 hend)]
      exact C.refused hleft.dropBlanks (.inl rfl) hend (by simp)

/-! ## One text -/

/-- The coupling of two outcomes of one text. -/
def sameText
    (P : List Char → Result (Formula × List Char) → Result (Formula × List Char) → Prop)
    (taken : ∀ text tree, P text (.ok (tree, text)) (.ok (tree, text)))
    (refused : ∀ text cause, cause.Fits text → cause ≠ .tooDeep →
      P text (.error ⟨cause, text⟩) (.error ⟨cause, text⟩))
    (widen : ∀ text left outcome outcome', left <:+ text → P left outcome outcome' →
      P text outcome outcome')
    (bind : ∀ text outcome outcome' next next', P text outcome outcome' →
      (∀ tree left, left <:+ text → P left (next (tree, left)) (next' (tree, left))) →
      P text (outcome >>= next) (outcome' >>= next')) : Coupling verbatim where
  Holds text text' outcome outcome' := text' = text ∧ P text outcome outcome'
  taken text text' h tree := by
    obtain rfl := verbatim_respells_iff.1 h
    rw [verbatim_char, Formula.mapNames_id]
    exact ⟨rfl, taken _ tree⟩
  refused text text' cause cause' h hmatches hfits hdeep := by
    obtain rfl := verbatim_respells_iff.1 h
    rw [hmatches.eq]
    exact ⟨rfl, refused _ cause hfits hdeep⟩
  ended text' wanted htail hne := absurd htail hne
  widen text text' left left' outcome outcome' h hleft _ hholds := by
    obtain ⟨rfl, hholds⟩ := hholds
    exact ⟨verbatim_respells_iff.1 h, widen text _ _ _ hleft hholds⟩
  bind text text' outcome outcome' next next' h hnext := by
    obtain ⟨rfl, hholds⟩ := h
    refine ⟨rfl, bind _ _ _ next next' hholds fun tree left hleft => ?_⟩
    have h := (hnext tree left left (respells_self left) hleft hleft).2
    rwa [verbatim_char, Formula.mapNames_id] at h

end Coupling

end Drafting.Grammar
