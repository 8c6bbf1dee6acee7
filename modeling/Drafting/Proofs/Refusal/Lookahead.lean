import Drafting.Proofs.Grammar.Chains

/-!
# How far readings look ahead

No reading looks past the next character: what it takes, and where it is refused, is decided by the
text up to and including the character that comes next. A reading that went too deep is decided even
without that character, except that a branch of a conditional starts after any blanks.

## Main definitions

* `Cause.AtCharacter` — the causes about the character that comes next.
* `Opened`, `Branched` — the texts after which a nested formula starts.
* `LooksAhead` — a reading of a text is decided by what it takes and the next character.
* `Bounded` — a reading that looks ahead everywhere, or for which there is no room.

Main statements: `expression_bounded` and `formula_bounded`.
-/

namespace Drafting

/-- The causes that are about one character, the next one. -/
def Cause.AtCharacter : Cause → Prop
  | unexpected .. | blankToken | misplacedOperator _ | trailingText => True
  | endOfText _ | tooDeep | outOfRange _ | tooManyDigits .. => False

namespace Grammar

/-- A nested formula starts right after the text. -/
def Opened (taken : List Char) : Prop :=
  ∃ before sign, sign ∈ ['(', ',', ';'] ∧ taken = before ++ [sign]

/-- A branch of a conditional starts after the text, past all blanks. -/
def Branched (taken : List Char) : Prop :=
  ∃ before sign after, sign ∈ ['?', ':'] ∧ Skips after [] ∧ taken = before ++ sign :: after

variable {α β : Type} {taken text : List Char}

theorem Opened.append_left (h : Opened taken) (before : List Char) : Opened (before ++ taken) := by
  obtain ⟨between, sign, hsign, rfl⟩ := h
  exact ⟨before ++ between, sign, hsign, by simp⟩

theorem Branched.append_left (h : Branched taken) (before : List Char) :
    Branched (before ++ taken) := by
  obtain ⟨between, sign, after, hsign, hafter, rfl⟩ := h
  exact ⟨before ++ between, sign, after, hsign, hafter, by simp⟩

theorem Opened.ne_nil (h : Opened taken) : taken ≠ [] := by
  obtain ⟨between, sign, -, rfl⟩ := h
  simp

theorem Branched.ne_nil (h : Branched taken) : taken ≠ [] := by
  obtain ⟨between, sign, after, -, -, rfl⟩ := h
  simp

/-- After the text the reading is refused as too deep, whatever comes next. -/
def Descends (reading : List Char → Result α) (taken : List Char) : Prop :=
  Opened taken ∧ (∀ ahead, reading (taken ++ ahead) = .error ⟨.tooDeep, ahead⟩) ∨
    Branched taken ∧ ∀ ahead, reading (taken ++ ahead) = .error ⟨.tooDeep, dropBlanks ahead⟩

theorem Descends.ne_nil {reading : List Char → Result α} (h : Descends reading taken) :
    taken ≠ [] := h.elim (·.1.ne_nil) (·.1.ne_nil)

theorem expect_cons (c : Char) (next : List Char → Result α) (text : List Char) :
    (expect [c] (c :: text) >>= next) = next text := by
  simp [expect, Bind.bind, Except.bind]

/-- Nothing is skipped before the character after some blanks. -/
theorem dropBlanks_eq_of_head? {ahead : List Char} (h : ahead.head? = (dropBlanks text).head?) :
    dropBlanks ahead = ahead := by
  cases ahead with
  | nil => rfl
  | cons c ahead =>
    obtain ⟨rest, hrest⟩ := List.head?_eq_some_iff.1 h.symm
    exact dropBlanks_cons_of_not_blank (isBlank_of_dropBlanks_eq_cons hrest)

/-- The outcome is decided by what is taken and by the character that comes next, if any. -/
structure LooksAhead (reading : List Char → Result (α × List Char)) (text : List Char) : Prop where
  ok : ∀ ⦃a left⦄, reading text = .ok (a, left) → ∃ taken, text = taken ++ left ∧
    ∀ ahead, ahead.head? = left.head? → reading (taken ++ ahead) = .ok (a, ahead)
  fault : ∀ ⦃cause left⦄, reading text = .error ⟨cause, left⟩ → cause.AtCharacter →
    ∃ taken, text = taken ++ left ∧ left ≠ [] ∧
      ∀ ahead, ahead.head? = left.head? → reading (taken ++ ahead) = .error ⟨cause, ahead⟩
  deep : ∀ ⦃left⦄, reading text = .error ⟨.tooDeep, left⟩ → ∃ taken, text = taken ++ left ∧
    Descends reading taken

namespace LooksAhead

variable {reading reading' : List Char → Result (α × List Char)}

theorem head?_append {before ahead left : List Char} (h : ahead.head? = left.head?) :
    (before ++ ahead).head? = (before ++ left).head? := by
  simp [List.head?_append, h]

/-! ### Readings put together -/

theorem pure (a : α) (text : List Char) : LooksAhead (fun text => .ok (a, text)) text where
  ok := by
    rintro _ left ⟨⟩
    exact ⟨[], rfl, fun _ _ => rfl⟩
  fault := by simp
  deep := by simp

/-- A refusal about the next character. -/
theorem refusedAt (cause : Cause) (hcause : cause.AtCharacter) {c : Char}
    (h : ∀ tail, reading (c :: tail) = .error ⟨cause, c :: tail⟩) (text : List Char) :
    LooksAhead reading (c :: text) where
  ok := by simp [h]
  fault := by
    intro _ left hfault _
    obtain ⟨rfl, rfl⟩ := fault_inj (h text) hfault
    refine ⟨[], rfl, by simp, fun ahead hahead => ?_⟩
    obtain ⟨tail, rfl⟩ := List.head?_eq_some_iff.1 hahead
    exact h tail
  deep := by
    intro left hdeep
    obtain ⟨rfl, -⟩ := fault_inj (h text) hdeep
    exact hcause.elim

/-- A refusal for another reason, but for depth. -/
theorem refused {fault : Fault} (h : reading text = .error fault)
    (hcause : ¬ fault.cause.AtCharacter) (hdeep : fault.cause ≠ .tooDeep) :
    LooksAhead reading text where
  ok := by simp [h]
  fault := by
    intro cause left hfault hat
    obtain rfl := Except.error.inj (h.symm.trans hfault)
    exact absurd hat hcause
  deep := by
    intro left hfault
    obtain rfl := Except.error.inj (h.symm.trans hfault)
    exact absurd rfl hdeep

/-- A reading that goes on like another one after some text. -/
theorem after (before : List Char) {left : List Char} (h : LooksAhead reading left)
    (heq : ∀ ahead, ahead.head? = left.head? → reading' (before ++ ahead) = reading ahead) :
    LooksAhead reading' (before ++ left) where
  ok := by
    intro a rest hok
    rw [heq left rfl] at hok
    obtain ⟨taken, rfl, hreading⟩ := h.ok hok
    refine ⟨before ++ taken, by simp, fun ahead hahead => ?_⟩
    rw [List.append_assoc, heq _ (head?_append hahead), hreading ahead hahead]
  fault := by
    intro cause rest hfault hcause
    rw [heq left rfl] at hfault
    obtain ⟨taken, rfl, hne, hreading⟩ := h.fault hfault hcause
    refine ⟨before ++ taken, by simp, hne, fun ahead hahead => ?_⟩
    rw [List.append_assoc, heq _ (head?_append hahead), hreading ahead hahead]
  deep := by
    intro rest hdeep
    rw [heq left rfl] at hdeep
    obtain ⟨taken, rfl, hdescends⟩ := h.deep hdeep
    have hsame (ahead : List Char) :
        reading' (before ++ taken ++ ahead) = reading (taken ++ ahead) := by
      rw [List.append_assoc]
      exact heq _ (by simp [List.head?_append_of_ne_nil _ hdescends.ne_nil])
    refine ⟨before ++ taken, by simp, ?_⟩
    rcases hdescends with ⟨hopened, hreading⟩ | ⟨hbranched, hreading⟩
    · exact .inl ⟨hopened.append_left before, fun ahead => by rw [hsame, hreading]⟩
    · exact .inr ⟨hbranched.append_left before, fun ahead => by rw [hsame, hreading]⟩

/-- A reading that is another one wherever the same character comes next. -/
theorem congr_head (h : LooksAhead reading text)
    (heq : ∀ ahead, ahead.head? = text.head? → reading' ahead = reading ahead) :
    LooksAhead reading' text :=
  h.after [] heq

theorem congr_cons {c : Char} (h : LooksAhead reading (c :: text))
    (heq : ∀ tail, reading' (c :: tail) = reading (c :: tail)) : LooksAhead reading' (c :: text) := by
  refine h.congr_head fun ahead hahead => ?_
  obtain ⟨tail, rfl⟩ := List.head?_eq_some_iff.1 hahead
  exact heq tail

/-- One reading after another. -/
theorem bind {next : α × List Char → Result (β × List Char)} (h : LooksAhead reading text)
    (hnext : ∀ a left, reading text = .ok (a, left) → LooksAhead (fun text => next (a, text)) left) :
    LooksAhead (fun text => reading text >>= next) text := by
  cases hreading : reading text with
  | ok result =>
    obtain ⟨a, left⟩ := result
    obtain ⟨taken, rfl, htaken⟩ := h.ok hreading
    refine (hnext a left hreading).after taken fun ahead hahead => ?_
    simp only [htaken ahead hahead]
    rfl
  | error found =>
    have hfound : (reading text >>= next) = .error found := by rw [hreading]; rfl
    refine ⟨fun a left hok => ?_, fun cause left hfault hcause => ?_, fun left hdeep => ?_⟩
    · simp [hfound] at hok
    · obtain rfl := Except.error.inj (hfound.symm.trans hfault)
      obtain ⟨taken, rfl, hne, htaken⟩ := h.fault hreading hcause
      refine ⟨taken, rfl, hne, fun ahead hahead => ?_⟩
      simp only [htaken ahead hahead]
      rfl
    · obtain rfl := Except.error.inj (hfound.symm.trans hdeep)
      obtain ⟨taken, rfl, ⟨hopened, htaken⟩ | ⟨hbranched, htaken⟩⟩ := h.deep hreading
      · refine ⟨taken, rfl, .inl ⟨hopened, fun ahead => ?_⟩⟩
        simp only [htaken ahead]
        rfl
      · refine ⟨taken, rfl, .inr ⟨hbranched, fun ahead => ?_⟩⟩
        simp only [htaken ahead]
        rfl

theorem map (f : α → β) (h : LooksAhead reading text) :
    LooksAhead (fun text => do let (a, left) ← reading text; return (f a, left)) text :=
  h.bind fun a left _ => .pure (f a) left

theorem skipping (h : LooksAhead reading (dropBlanks text)) :
    LooksAhead (fun text => reading (dropBlanks text)) text := by
  obtain ⟨gap, hgap, htext⟩ := skips_dropBlanks text
  have hreading : ∀ ahead, ahead.head? = (dropBlanks text).head? →
      reading (dropBlanks (gap ++ ahead)) = reading ahead := by
    intro ahead hahead
    rw [dropBlanks_append hgap, dropBlanks_eq_of_head? hahead]
  rw [htext]
  exact h.after gap hreading

/-- A wanted character and a reading after it. -/
theorem expecting {c : Char} {next : List Char → Result (α × List Char)}
    (hnext : ∀ left, text = c :: left → LooksAhead next left) :
    LooksAhead (fun text => expect [c] text >>= next) text := by
  cases text with
  | nil => exact refused rfl id (by simp)
  | cons d text =>
    by_cases hd : d = c
    · subst hd
      exact (hnext text rfl).after [d] fun ahead _ => expect_cons d next ahead
    · have hrefused (tail : List Char) : (expect [c] (d :: tail) >>= next) =
          .error ⟨.unexpected [c] d, d :: tail⟩ := by
        simp [expect, Bind.bind, Except.bind, Ne.symm hd]
      exact refusedAt (.unexpected [c] d) trivial hrefused text

/-- A reading that goes too deep after what was taken. -/
theorem descending (taken : List Char) (h : Descends reading taken) (left : List Char) :
    LooksAhead reading (taken ++ left) := by
  obtain ⟨place, hplace⟩ : ∃ place, reading (taken ++ left) = .error ⟨.tooDeep, place⟩ := by
    rcases h with ⟨-, hreading⟩ | ⟨-, hreading⟩ <;> exact ⟨_, hreading left⟩
  refine ⟨by simp [hplace], fun cause rest hfault hcause => ?_, fun rest hdeep => ?_⟩
  · obtain ⟨rfl, -⟩ := fault_inj hplace hfault
    exact hcause.elim
  rcases h with ⟨hopened, hreading⟩ | ⟨hbranched, hreading⟩
  · obtain ⟨-, rfl⟩ := fault_inj (hreading left) hdeep
    exact ⟨taken, rfl, .inl ⟨hopened, hreading⟩⟩
  · obtain ⟨-, rfl⟩ := fault_inj (hreading left) hdeep
    obtain ⟨gap, hgap, hleft⟩ := skips_dropBlanks left
    refine ⟨taken ++ gap, by rw [List.append_assoc, ← hleft], .inr ⟨?_, fun ahead => ?_⟩⟩
    · obtain ⟨before, sign, after, hsign, ⟨gap', hgap', rfl⟩, rfl⟩ := hbranched
      refine ⟨before, sign, gap' ++ gap, hsign, ⟨gap' ++ gap, ?_, by simp⟩, by simp⟩
      exact List.forall_mem_append.2 ⟨hgap', hgap⟩
    · rw [List.append_assoc, hreading, dropBlanks_append hgap]

end LooksAhead

/-! ## Nested formulas -/

/-- What is nested looks ahead, or there is no room for it at all. -/
def Bounded (nested : Nested) : Prop :=
  (∀ text, LooksAhead nested text) ∨ ∀ text, nested text = .error ⟨.tooDeep, text⟩

variable {nested : Nested}

namespace LooksAhead

variable {next : Formula × List Char → Result (α × List Char)} {c : Char}

/-- A nested formula right after a sign. -/
theorem opening (h : Bounded nested) (hc : c ∈ ['(', ',', ';'])
    (hnext : ∀ tree text, LooksAhead (fun text => next (tree, text)) text) (text : List Char) :
    LooksAhead (fun text => expect [c] text >>= fun text => nested text >>= next) text := by
  rcases h with hnested | hdeep
  · exact expecting fun left _ => (hnested left).bind fun tree rest _ => hnext tree rest
  by_cases htext : ∃ left, text = c :: left
  · obtain ⟨left, rfl⟩ := htext
    refine descending [c] (.inl ⟨⟨[], c, hc, rfl⟩, fun ahead => ?_⟩) left
    exact (expect_cons c _ ahead).trans (by rw [hdeep]; rfl)
  · exact expecting fun left hleft => absurd ⟨left, hleft⟩ htext

/-- A branch of a conditional after its sign. -/
theorem branching (h : Bounded nested) (hc : c ∈ ['?', ':'])
    (hnext : ∀ tree text, LooksAhead (fun text => next (tree, text)) text) (text : List Char) :
    LooksAhead (fun text => expect [c] text >>= fun text => nested (dropBlanks text) >>= next)
      text := by
  rcases h with hnested | hdeep
  · exact expecting fun left _ => ((hnested _).bind fun tree rest _ => hnext tree rest).skipping
  by_cases htext : ∃ left, text = c :: left
  · obtain ⟨left, rfl⟩ := htext
    refine descending [c] (.inr ⟨⟨[], c, [], hc, .refl _, rfl⟩, fun ahead => ?_⟩) left
    exact (expect_cons c _ ahead).trans (by rw [hdeep]; rfl)
  · exact expecting fun left hleft => absurd ⟨left, hleft⟩ htext

end LooksAhead

/-! ## Atoms -/

open LooksAhead

/-- A token and a reading after it, which may also refer to the text from the token on. -/
theorem LooksAhead.tokenizing {next : List Char → List Char × List Char → Result (α × List Char)}
    (hnext : ∀ token rest, IsToken token → AtDelimiter rest →
      LooksAhead (fun rest => next (token ++ rest) (token, rest)) rest) (text : List Char) :
    LooksAhead (fun text => readToken isDelimiter text >>= next text) text := by
  cases text with
  | nil => exact refused rfl id (by simp)
  | cons c text =>
    cases hblank : isBlank c with
    | true =>
      have hrefused (tail : List Char) : (readToken isDelimiter (c :: tail) >>= next (c :: tail)) =
          .error ⟨.blankToken, c :: tail⟩ := by
        simp [readToken, hblank, Bind.bind, Except.bind]
      exact refusedAt .blankToken trivial hrefused text
    | false =>
      obtain ⟨token, rest, htoken⟩ : ∃ token rest, readToken isDelimiter (c :: text) =
          .ok (token, rest) := by
        simp [readToken, hblank]
      obtain ⟨htext, htoken, hend⟩ := readToken_eq_ok_iff.1 htoken
      rw [htext]
      refine (hnext token rest htoken hend).after token fun ahead hahead => ?_
      have hread : readToken isDelimiter (token ++ ahead) = .ok (token, ahead) := by
        refine readToken_eq_ok_iff.2 ⟨rfl, htoken, ?_⟩
        rw [AtDelimiter, hahead]
        exact hend
      rw [hread]
      rfl

/-- A closing sign after blanks. -/
theorem closing_looksAhead (c : Char) (a : α) (text : List Char) :
    LooksAhead (fun text => do let text ← expect [c] (dropBlanks text); return (a, text)) text :=
  skipping (expecting fun left _ => .pure a left)

theorem group_looksAhead (h : Bounded nested) (text : List Char) :
    LooksAhead (group nested) text := by
  rw [funext (group_eq nested)]
  exact opening h (by simp) (fun tree text => closing_looksAhead ')' tree text) text

theorem markedName_looksAhead (mark : Mark) (text : List Char) :
    LooksAhead (markedName mark) text :=
  tokenizing (fun _ rest _ _ => .pure _ rest) text

/-- What follows the first argument of a call, past blanks. -/
def arguments (nested : Nested) (function : List Char) (first : Formula) (text : List Char) :
    Result (Formula × List Char) :=
  if separatorAhead text ∧ function ≠ minusName then do
    let (second, text) ← nested text.tail
    let text ← expect [')'] (dropBlanks text)
    return (.callPair function first second, text)
  else do
    let text ← expect [')'] text
    return (.call function first, text)

theorem arguments_separator {function : List Char} (hminus : function ≠ minusName)
    {separator : Char} (hseparator : separator = ',' ∨ separator = ';') (first : Formula)
    (text : List Char) :
    arguments nested function first (separator :: text) = (do
      let (second, text) ← nested text
      let text ← expect [')'] (dropBlanks text)
      return (.callPair function first second, text)) :=
  if_pos ⟨separatorAhead_iff.2 ⟨separator, text, rfl, hseparator⟩, hminus⟩

theorem arguments_of_not_separator {function : List Char}
    (h : ¬ (separatorAhead text ∧ function ≠ minusName)) (first : Formula) :
    arguments nested function first text = (do
      let text ← expect [')'] text
      return (.call function first, text)) := if_neg h

theorem arguments_looksAhead (h : Bounded nested) (function : List Char) (first : Formula)
    (text : List Char) : LooksAhead (arguments nested function first) text := by
  by_cases hsep : separatorAhead text ∧ function ≠ minusName
  · obtain ⟨separator, middle, rfl, hseparator⟩ := separatorAhead_iff.1 hsep.1
    have hsign : separator ∈ ['(', ',', ';'] := by rcases hseparator with rfl | rfl <;> decide
    have hpair : LooksAhead (fun text => expect [separator] text >>= fun text =>
        nested text >>= fun p => do
          let text ← expect [')'] (dropBlanks p.2)
          return (Formula.callPair function first p.1, text)) (separator :: middle) :=
      opening h hsign (fun second => closing_looksAhead ')' (Formula.callPair function first second))
        (separator :: middle)
    refine hpair.congr_cons fun tail => ?_
    rw [arguments_separator hsep.2 hseparator, expect_cons]
  · have hone : LooksAhead (fun text => do
        let text ← expect [')'] text
        return (Formula.call function first, text)) text := expecting fun left _ => .pure _ left
    refine hone.congr_head fun ahead hahead => arguments_of_not_separator ?_ first
    cases text <;> cases ahead <;> simp_all [separatorAhead]

theorem callOf_looksAhead (h : Bounded nested) (function text : List Char) :
    LooksAhead (callOf nested function) text := by
  rw [funext (callOf_eq nested function)]
  exact opening h (by simp) (fun first _ => (arguments_looksAhead h function first _).skipping) text

theorem named_looksAhead (h : Bounded nested) (name text : List Char) :
    LooksAhead (named nested name) text := by
  have hblanks : LooksAhead (fun text => if text.head? = some '(' then callOf nested name text
      else .ok (.reference .plain name, text)) (dropBlanks text) := by
    by_cases hopen : (dropBlanks text).head? = some '('
    · obtain ⟨start, hstart⟩ := List.head?_eq_some_iff.1 hopen
      rw [hstart]
      refine (callOf_looksAhead h name _).congr_head fun ahead hahead => ?_
      exact if_pos hahead
    · have hname := LooksAhead.pure (Formula.reference .plain name) (dropBlanks text)
      refine hname.congr_head fun ahead hahead => ?_
      rw [if_neg (hahead ▸ hopen)]
  rw [funext (named_eq nested name)]
  exact hblanks.skipping

theorem value_looksAhead (h : Bounded nested) (negative : Bool) (text : List Char) :
    LooksAhead (value nested negative) text := by
  rw [funext (value_eq nested negative)]
  refine tokenizing (fun token rest _ _ => ?_) text
  cases hliteral : literal? negative token with
  | error cause =>
    simp only [hliteral]
    rcases literal?_error hliteral with rfl | ⟨digits, rfl⟩ <;> exact refused rfl id (by simp)
  | ok found =>
    simp only [hliteral]
    cases found with
    | some literal => exact .pure literal rest
    | none => exact (named_looksAhead h token rest).map (signed negative)

theorem negated_looksAhead (h : Bounded nested) (text : List Char) :
    LooksAhead (negated nested) text := by
  cases text with
  | nil => exact refused rfl id (by simp)
  | cons c text =>
    by_cases hopen : c = '('
    · subst hopen
      exact ((group_looksAhead h _).map Formula.negation).congr_cons fun _ => rfl
    · cases hmark : Mark.ofSign? c with
      | none =>
        refine (value_looksAhead h true _).congr_cons fun tail => ?_
        simp [negated_cons, hopen, hmark]
      | some mark =>
        refine ((markedName_looksAhead mark text).map Formula.negation).after [c] fun ahead _ => ?_
        simp [negated_cons, hopen, hmark]

theorem atom_looksAhead (h : Bounded nested) (text : List Char) :
    LooksAhead (atom nested) text := by
  cases text with
  | nil => exact refused rfl id (by simp)
  | cons c text =>
    by_cases hoperator : startsNoOperand c = true
    · refine refusedAt (.misplacedOperator c) trivial (fun tail => ?_) text
      rw [atom_cons, if_pos hoperator]
    by_cases hopen : c = '('
    · subst hopen
      exact ((group_looksAhead h _).map Formula.parenthesized).congr_cons fun _ => rfl
    by_cases hminus : c = '-'
    · subst hminus
      refine (negated_looksAhead h _).skipping.after ['-'] fun ahead _ => ?_
      rfl
    cases hmark : Mark.ofSign? c with
    | none =>
      refine (value_looksAhead h false _).congr_cons fun tail => ?_
      simp [atom_cons, hoperator, hopen, hminus, hmark]
    | some mark =>
      refine (markedName_looksAhead mark text).after [c] fun ahead _ => ?_
      simp [atom_cons, hoperator, hopen, hminus, hmark]

/-! ## Operators and conditionals -/

/-- The signs `>` and `<` are told by the character after them. -/
theorem comparison_looksAhead (op orEqual : Operator) (c : Char) (text : List Char) :
    LooksAhead (fun text => .ok (if text.tail.head? = some '=' then (orEqual, text.tail.tail)
      else (op, text.tail))) (c :: text) := by
  by_cases hequals : text.head? = some '='
  · obtain ⟨text, rfl⟩ := List.head?_eq_some_iff.1 hequals
    exact (LooksAhead.pure orEqual text).after [c, '='] fun ahead _ => rfl
  · refine (LooksAhead.pure op text).after [c] fun ahead hahead => ?_
    simp [hahead, hequals]

theorem readOperator_looksAhead (announced : Operator) (c : Char) (text : List Char) :
    LooksAhead (readOperator announced) (c :: text) := by
  cases announced with
  | greater =>
    refine (comparison_looksAhead .greater .greaterOrEqual c text).congr_cons fun tail => ?_
    rw [readOperator_cons]
    rfl
  | less =>
    refine (comparison_looksAhead .less .lessOrEqual c text).congr_cons fun tail => ?_
    rw [readOperator_cons]
    rfl
  | equal | notEqual =>
    have hequals (op : Operator) : LooksAhead (fun text => do
        let text ← expect ['='] text
        return (op, text)) text := expecting fun left _ => .pure op left
    exact (hequals _).after [c] fun ahead _ => readOperator_cons _ c ahead
  | _ => exact (LooksAhead.pure _ text).after [c] fun ahead _ => rfl

/-- The loop over operators, where it looks ahead in all shorter texts. -/
theorem operand_looksAhead_of (h : Bounded nested) (hshortens : Shortens nested) {level : Int}
    {text : List Char}
    (hclimbs : ∀ first left, atom nested text = .ok (first, left) →
      LooksAhead (climbs nested level first) (dropBlanks left)) :
    LooksAhead (operand nested level) text := by
  rw [funext (operand_eq hshortens level)]
  exact (atom_looksAhead h text).bind fun first left hatom => (hclimbs first left hatom).skipping

theorem climbs_looksAhead (h : Bounded nested) (hshortens : Shortens nested) (level : Int)
    (left : Formula) (text : List Char) : LooksAhead (climbs nested level left) text := by
  obtain ⟨n, hn⟩ : ∃ n, text.length ≤ n := ⟨_, Nat.le_refl _⟩
  induction n using Nat.strongRecOn generalizing level left text with
  | ind n ih =>
    by_cases hstops : Stops level text
    · refine (LooksAhead.pure left text).congr_head fun ahead hahead => climbs_of_stops ?_ left
      intro op hop
      rw [Lead.ofText?, hahead] at hop
      exact hstops op hop
    · obtain ⟨announced, hlead, hlevel⟩ := exists_lead_of_not_stops hstops
      have hstep : LooksAhead (fun text => readOperator announced text >>= fun p =>
          operand nested p.1.level (dropBlanks p.2) >>= fun q =>
            climbs nested level (.binary left p.1 q.1) q.2) text := by
        obtain ⟨c, start, rfl⟩ : ∃ c start, text = c :: start := by
          cases text with
          | nil => simp [Lead.ofText?] at hlead
          | cons c start => exact ⟨c, start, rfl⟩
        refine (readOperator_looksAhead announced c start).bind fun op after hread => ?_
        have h₁ := (spells_of_readOperator hlead hread).1.length_lt
        have h₂ := length_dropBlanks_le after
        have hright : LooksAhead (fun text => operand nested op.level text >>= fun q =>
            climbs nested level (.binary left op q.1) q.2) (dropBlanks after) := by
          refine (operand_looksAhead_of h hshortens fun first rest hatom => ?_).bind
            fun right rest hoperand => ?_
          · have h₃ := atom_shortens hshortens hatom
            have h₄ := length_dropBlanks_le rest
            exact ih (n - 1) (by omega) _ _ _ (by omega)
          · have h₃ := operand_shortens hshortens _ hoperand
            exact ih (n - 1) (by omega) level (.binary left op right) rest (by omega)
        exact hright.skipping
      refine hstep.congr_head fun ahead hahead => climbs_of_lead hshortens ?_ hlevel left
      rw [Lead.ofText?, hahead]
      exact hlead

theorem operand_looksAhead (h : Bounded nested) (hshortens : Shortens nested) (level : Int)
    (text : List Char) : LooksAhead (operand nested level) text :=
  operand_looksAhead_of h hshortens fun first _ _ => climbs_looksAhead h hshortens level first _

theorem branches_looksAhead (h : Bounded nested) (condition : Formula) (text : List Char) :
    LooksAhead (branches nested condition) text := by
  have hfalse (whenTrue : Formula) (text : List Char) : LooksAhead (fun text => do
      let text ← expect [':'] text
      let (whenFalse, text) ← nested (dropBlanks text)
      return (Formula.conditional condition whenTrue whenFalse, text)) text :=
    branching h (by simp)
      (fun whenFalse text => .pure (Formula.conditional condition whenTrue whenFalse) text) text
  rw [funext (branches_eq nested condition)]
  exact branching h (by simp) (fun whenTrue text => (hfalse whenTrue _).skipping) text

/-- An expression for which there is room looks ahead. -/
theorem expression_looksAhead {room : Nat} (h : Bounded (expression room Operator.conditionalLevel))
    (text : List Char) : LooksAhead (expression (room + 1) Operator.conditionalLevel) text := by
  have hsettles := expression_settles room
  have hfollow (first : Formula) (left : List Char) : LooksAhead (fun text =>
      if text.head? = some '?' then
        branches (expression room Operator.conditionalLevel) first text
      else .ok (first, text)) left := by
    by_cases hquestion : left.head? = some '?'
    · refine (branches_looksAhead h first left).congr_head fun ahead hahead => ?_
      rw [if_pos (hahead.trans hquestion)]
    · refine (LooksAhead.pure first left).congr_head fun ahead hahead => ?_
      rw [if_neg (hahead ▸ hquestion)]
  have hoperand : LooksAhead (fun text => do
      let (first, text) ← operand (expression room Operator.conditionalLevel)
        Operator.conditionalLevel text
      if text.head? = some '?' then
        branches (expression room Operator.conditionalLevel) first text
      else .ok (first, text)) (dropBlanks text) :=
    (operand_looksAhead h hsettles.shortens _ _).bind fun first left _ => hfollow first left
  rw [funext (expression_succ hsettles)]
  exact hoperand.skipping

theorem expression_bounded (room : Nat) : Bounded (expression room Operator.conditionalLevel) := by
  induction room with
  | zero => exact .inr (expression_zero _)
  | succ room ih => exact .inl (expression_looksAhead ih)

/-- A whole formula text looks ahead, unless there is no room for it. -/
theorem formula_bounded (room : Nat) (strict : Bool) : Bounded (formula room strict) := by
  rcases expression_bounded room with hexpression | hdeep
  · refine .inl fun text => ?_
    rw [funext (formula_eq room strict)]
    refine (hexpression text).bind fun tree left _ => ?_
    cases strict with
    | false => exact .pure tree left
    | true =>
      have hend : LooksAhead (fun text => if text = [] then .ok (tree, text)
          else .error ⟨.trailingText, text⟩) (dropBlanks left) := by
        cases dropBlanks left with
        | nil =>
          refine (LooksAhead.pure tree []).congr_head fun ahead hahead => ?_
          rw [if_pos (List.head?_eq_none_iff.1 hahead)]
        | cons c rest => exact refusedAt .trailingText trivial (fun _ => if_neg (by simp)) rest
      exact hend.skipping
  · exact .inr fun text => by simp [formula_eq, hdeep, Bind.bind, Except.bind]

end Grammar

end Drafting
