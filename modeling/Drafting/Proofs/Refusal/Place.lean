import Drafting.Proofs.Refusal.Decided
import Drafting.Proofs.Refusal.Within

/-!
# Diagnostics point at the mistake

A diagnostic tells an offset in the text, by itself and by line and column, which give it back. What
the help text and the message show of the text is what stands at that offset.

## Main definitions

* `Location.linesLength` — the length of the first lines of a text, newlines included.
* `shownChar` — a character as a message shows it, from which it can be told.
* `bracketed` — a text with the character at an offset in brackets.
* `Diagnostic.PointsAt` — a diagnostic is about an offset of a text.

Main statement: `exists_pointsAt_of_parse`.
-/

namespace Drafting

/-! ## Lines and columns -/

namespace Location

variable {c : Char} {text before : List Char} {lines offset offset' : Nat}

/-- The length of the first lines of a text, each with its newline. -/
def linesLength (text : List Char) (lines : Nat) : Nat :=
  (((text.splitOn '\n').take lines).map (·.length + 1)).sum

@[simp] theorem linesLength_zero (text : List Char) : linesLength text 0 = 0 := rfl

theorem linesLength_newline (text : List Char) (lines : Nat) :
    linesLength ('\n' :: text) (lines + 1) = linesLength text lines + 1 := by
  simp [linesLength, List.splitOn_cons_eq_if_modifyHead, Nat.add_comm]

/-- A character that ends no line makes the first one longer. -/
theorem linesLength_cons (hc : c ≠ '\n') (text : List Char) (lines : Nat) :
    linesLength (c :: text) (lines + 1) = linesLength text (lines + 1) + 1 := by
  obtain ⟨first, others, hlines⟩ := List.exists_cons_of_ne_nil (List.splitOn_ne_nil '\n' text)
  simp [linesLength, List.splitOn_cons_eq_if_modifyHead, hc, hlines]
  omega

/-- The length of the last line. -/
def lastLength (before : List Char) : Nat := (before.reverse.takeWhile (· ≠ '\n')).length

theorem lastLength_eq_length (h : '\n' ∉ before) : lastLength before = before.length := by
  have hall : ∀ c ∈ before.reverse, decide (c ≠ '\n') = true := by grind
  rw [lastLength, List.takeWhile_eq_self_iff.2 hall, List.length_reverse]

theorem lastLength_newline (before : List Char) :
    lastLength ('\n' :: before) = lastLength before := by
  have hnone : ['\n'].takeWhile (· ≠ '\n') = [] := by simp
  simp only [lastLength, List.reverse_cons, List.takeWhile_append, hnone]
  grind

theorem lastLength_cons_of_mem (c : Char) (h : '\n' ∈ before) :
    lastLength (c :: before) = lastLength before := by
  have hstops : (before.reverse.takeWhile (· ≠ '\n')).length ≠ before.reverse.length := by
    intro hlength
    have hself := (List.takeWhile_prefix (· ≠ '\n')).eq_of_length hlength
    have hnot := List.takeWhile_eq_self_iff.1 hself '\n' (List.mem_reverse.2 h)
    simp at hnot
  rw [lastLength, lastLength, List.reverse_cons, List.takeWhile_append, if_neg hstops]

theorem linesLength_add_lastLength (h : offset ≤ text.length) :
    linesLength text ((text.take offset).count '\n') + lastLength (text.take offset) = offset := by
  induction text generalizing offset with
  | nil => simp_all [lastLength]
  | cons c text ih =>
    cases offset with
    | zero => simp [lastLength]
    | succ offset =>
      have hrest := ih (Nat.le_of_succ_le_succ h)
      rw [List.take_succ_cons]
      by_cases hc : c = '\n'
      · rw [hc, List.count_cons_self, linesLength_newline, lastLength_newline]
        omega
      · rw [List.count_cons_of_ne hc]
        by_cases hmem : '\n' ∈ text.take offset
        · obtain ⟨lines, hlines⟩ := Nat.exists_eq_add_one_of_ne_zero (List.count_pos_iff.2 hmem).ne'
          rw [hlines] at hrest
          rw [hlines, lastLength_cons_of_mem c hmem, linesLength_cons hc]
          omega
        · have hfirst : '\n' ∉ c :: text.take offset := by grind
          rw [List.count_eq_zero.2 hmem, linesLength_zero, lastLength_eq_length hfirst,
            List.length_cons, List.length_take_of_le (Nat.le_of_succ_le_succ h), Nat.zero_add]

theorem columnAt_eq (h : offset ≤ text.length) :
    columnAt text offset = lastLength (text.take offset) + 1 := by
  simp [columnAt, lastLength, h]

/-- The lines before and the column make up the offset. -/
theorem linesLength_add_columnAt (h : offset ≤ text.length) :
    linesLength text (lineAt text offset - 1) + (columnAt text offset - 1) = offset := by
  rw [columnAt_eq h, lineAt]
  exact linesLength_add_lastLength h

/-- Line and column determine the offset. -/
theorem offset_unique (h : offset ≤ text.length) (h' : offset' ≤ text.length)
    (hline : lineAt text offset = lineAt text offset')
    (hcolumn : columnAt text offset = columnAt text offset') : offset = offset' := by
  rw [← linesLength_add_columnAt h, hline, hcolumn, linesLength_add_columnAt h']

end Location

open Location

/-! ## What is shown of the text -/

variable {options : Options} {text taken left : List Char} {d : Diagnostic} {cause : Cause}
  {code : ErrorCode} {offset : Nat}

/-- A character as it stands between the quotes of a message, a newline or a tab by its escape. -/
def shownChar (c : Char) : List Char :=
  if c = '\n' then ['\\', 'n'] else if c = '\t' then ['\\', 't'] else [c]

/-- A message tells which character it is about. -/
theorem shownChar_injective : Function.Injective shownChar := by
  intro c c' h
  unfold shownChar at h
  split_ifs at h <;> simp_all

theorem nameOfText_singleton (c : Char) :
    nameOfText [c] = "'" ++ String.ofList (shownChar c) ++ "'" := by
  simp only [nameOfText, shownChar, List.cons.injEq, and_true]
  split_ifs <;> rfl

/-- The text with the character at an offset in brackets, which are empty at the end. -/
def bracketed (text : List Char) (offset : Nat) : List Char :=
  text.take offset ++ '[' :: ((text.drop offset).take 1 ++ ']' :: text.drop (offset + 1))

theorem bracketed_length (text : List Char) : bracketed text text.length = text ++ ['[', ']'] := by
  simp [bracketed]

theorem Cursor.marked_eq (cursor : Cursor) (h : cursor.offset ≤ cursor.text.length) :
    cursor.marked = bracketed cursor.text cursor.offset := by
  unfold Cursor.marked
  split
  · next hrest =>
    have hend : cursor.offset = cursor.text.length :=
      Nat.le_antisymm h (List.drop_eq_nil_iff.1 hrest)
    rw [hend, bracketed_length]
  · next c after hrest =>
    rw [Cursor.rest] at hrest
    have hafter : cursor.text.drop (cursor.offset + 1) = after := by
      rw [← List.drop_drop, hrest, List.drop_one, List.tail_cons]
    rw [bracketed, hrest, hafter]
    rfl

/-- The codes of the mistakes that are shown inside the text. -/
def shownCodes : List ErrorCode :=
  [.unexpectedCharacter, .unexpectedEnd, .blankToken, .misplacedOperator, .trailingText]

theorem Cause.showsPlace_iff (h : cause.code? = some code) :
    cause.showsPlace = true ↔ code ∈ shownCodes := by
  cases cause <;> cases h <;> simp [showsPlace, shownCodes]

theorem Numeral.ne_nil_of_ofToken? {token : List Char} {numeral : Numeral}
    (h : Numeral.ofToken? token = some numeral) : token ≠ [] := by
  rintro rfl
  cases h

/-- A refusal stands at the end of the text when something is missing there. -/
theorem Cause.Fits.eq_nil_iff (h : cause.Fits left) (hcode : cause.code? = some code)
    (hdeep : code ≠ .tooDeep) : left = [] ↔ code = .unexpectedEnd := by
  cases cause with
  | outOfRange token =>
    cases hcode
    obtain ⟨hstart, negative, coefficient, exponent, htoken⟩ := h
    have hleft : left ≠ [] := hstart.ne_nil (Numeral.ne_nil_of_ofToken? htoken)
    simp [hleft]
  | _ => cases hcode <;> cases left <;> simp_all [Cause.Fits]

/-- A diagnostic is about an offset of the text: the place of a character, or the end. -/
structure Diagnostic.PointsAt (d : Diagnostic) (text : List Char) (offset : Nat) : Prop where
  offset_eq : d.location.offset = offset
  offset_le : offset ≤ text.length
  line_eq : d.location.line = 1 + (text.take offset).count '\n'
  column_pos : 1 ≤ d.location.column
  lines_add_column :
    linesLength text (d.location.line - 1).toNat + (d.location.column - 1) = offset
  /-- Line and column are those of no other place. -/
  unique : ∀ other ≤ text.length, d.location.line = lineAt text other →
    d.location.column = columnAt text other → other = offset
  help_eq : d.code ∈ shownCodes.map (some ·.label) →
    d.help = some (String.ofList (bracketed text offset))
  atEnd_iff : d.code = some ErrorCode.unexpectedEnd.label ↔
    offset = text.length ∧ d.code ≠ some ErrorCode.tooDeep.label
  unexpected : d.code = some ErrorCode.unexpectedCharacter.label → ∃ wanted found,
    text[offset]? = some found ∧
      d.message = "Expected " ++ nameOfText wanted ++ " found " ++
        ("'" ++ String.ofList (shownChar found) ++ "'")
  misplaced : d.code = some ErrorCode.misplacedOperator.label → ∃ found,
    text[offset]? = some found ∧
      d.message = "Unexpected token (operator not expected here): " ++
        ("'" ++ String.ofList (shownChar found) ++ "'")
  outOfRange : d.code = some ErrorCode.outOfRange.label → ∃ token, token ≠ [] ∧
    token <+: text.drop offset ∧
      d.message = "Numeric literal out of range: " ++ String.ofList token

/-- The report of a cause, at a place in a text. -/
def Cause.report (cause : Cause) (options : Options) (code : ErrorCode) (taken left : List Char) :
    Diagnostic where
  message := cause.message options.limit
  location := .ofOffset options.filename (taken ++ left) taken.length
  code := some code.label
  help := if cause.showsPlace then
    some (String.ofList (bracketed (taken ++ left) taken.length)) else none

theorem failure_eq_invalid_iff :
    (Cursor.start options.filename (taken ++ left)).failure options.limit ⟨cause, left⟩ =
      .invalid d ↔ ∃ code, cause.code? = some code ∧ d = cause.report options code taken left := by
  have hplace : (Cursor.start options.filename (taken ++ left)).movedTo left =
      ⟨options.filename, taken ++ left, taken.length⟩ := by
    simp [Cursor.movedTo, Cursor.start, Cursor.rest]
  have hmarked := Cursor.marked_eq ⟨options.filename, taken ++ left, taken.length⟩ (by simp)
  simp only [Cursor.failure, hplace, hmarked]
  cases hcode : cause.code? with
  | none => simp
  | some code =>
    simp only [Failure.invalid.injEq, Option.some.injEq, exists_eq_left']
    exact eq_comm

@[simp] theorem label_eq_label_iff {code code' : ErrorCode} :
    code.label = code'.label ↔ code = code' := ErrorCode.label_injective.eq_iff

theorem getElem?_length (taken left : List Char) :
    (taken ++ left)[taken.length]? = left.head? := by
  rw [List.getElem?_append_right (Nat.le_refl _), Nat.sub_self, List.head?_eq_getElem?]

/-- What a cause says of the text is shown in its report. -/
theorem Cause.Fits.pointsAt (h : cause.Fits left) (hcode : cause.code? = some code) :
    (cause.report options code taken left).PointsAt (taken ++ left) taken.length where
  offset_eq := rfl
  offset_le := by simp
  line_eq := by simp [report, ofOffset, lineAt, Int.add_comm]
  column_pos := by simp [report, ofOffset, columnAt]
  lines_add_column := by
    have hle : taken.length ≤ (taken ++ left).length := by simp
    have hoffset := linesLength_add_columnAt hle
    have hline : (report cause options code taken left).location.line - 1 =
      ((lineAt (taken ++ left) taken.length - 1 : Nat) : Int) := by simp [report, ofOffset, lineAt]
    have hcolumn : (report cause options code taken left).location.column - 1 =
      ((columnAt (taken ++ left) taken.length - 1 : Nat) : Int) := by
      simp [report, ofOffset, columnAt]
    rw [hline, hcolumn, Int.toNat_natCast]
    exact_mod_cast hoffset
  unique other hother hline hcolumn :=
    (offset_unique (by simp) hother (Int.ofNat_inj.1 hline) (Int.ofNat_inj.1 hcolumn)).symm
  help_eq hshown := by
    have hmem : code ∈ shownCodes := by simpa [report] using hshown
    exact if_pos ((Cause.showsPlace_iff hcode).2 hmem)
  atEnd_iff := by
    have hend : taken.length = (taken ++ left).length ↔ left = [] := by simp
    rw [hend]
    by_cases hdeep : code = .tooDeep
    · simp [report, hdeep]
    · simpa [report, hdeep] using (h.eq_nil_iff hcode hdeep).symm
  unexpected hunexpected := by
    obtain rfl : code = .unexpectedCharacter := by simpa [report] using hunexpected
    cases cause with
    | unexpected wanted found =>
      have hmessage := congrArg ("Expected " ++ nameOfText wanted ++ " found " ++ ·)
        (nameOfText_singleton found)
      exact ⟨wanted, found, (getElem?_length taken left).trans h, hmessage⟩
    | _ => cases hcode
  misplaced hmisplaced := by
    obtain rfl : code = .misplacedOperator := by simpa [report] using hmisplaced
    cases cause with
    | misplacedOperator found =>
      have hmessage := congrArg ("Unexpected token (operator not expected here): " ++ ·)
        (nameOfText_singleton found)
      exact ⟨found, (getElem?_length taken left).trans h, hmessage⟩
    | _ => cases hcode
  outOfRange hrange := by
    obtain rfl : code = .outOfRange := by simpa [report] using hrange
    cases cause with
    | outOfRange token =>
      obtain ⟨hstart, negative, coefficient, exponent, htoken⟩ := h
      exact ⟨token, Numeral.ne_nil_of_ofToken? htoken, by simpa using hstart, rfl⟩
    | _ => cases hcode

/-- A text that is refused for its syntax is refused at one of its characters or at its end, and the
diagnostic tells that place and shows what stands there. -/
theorem exists_pointsAt_of_parse (h : Formula.parse options text = .error (.invalid d)) :
    ∃ offset, d.location = .ofOffset options.filename text offset ∧ d.PointsAt text offset := by
  obtain ⟨⟨cause, left⟩, hfault, hfailure⟩ := Grammar.parse_eq_error_iff.1 h
  obtain ⟨⟨taken, rfl⟩, hfits⟩ := (Grammar.formula_within _ _ text).fault hfault
  obtain ⟨code, hcode, rfl⟩ := failure_eq_invalid_iff.1 hfailure
  exact ⟨taken.length, rfl, hfits.pointsAt hcode⟩

/-- A wrong character on the second line. -/
theorem exists_pointsAt_second_line :
    ∃ d, Formula.parse {} "(a\n +b ]c".toList = .error (.invalid d) ∧ d.location.line = 2 ∧
      d.location.column = 5 ∧ d.help = some "(a\n +b []]c" ∧
      d.message = "Expected ')' found ']'" ∧
      ∃ offset, d.location = .ofOffset "<formula>" "(a\n +b ]c".toList offset ∧
        d.PointsAt "(a\n +b ]c".toList offset := by
  let d := (Cause.unexpected [')'] ']').report {} .unexpectedCharacter "(a\n +b ".toList "]c".toList
  have h : Formula.parse {} "(a\n +b ]c".toList = .error (.invalid d) := by decide +kernel
  exact ⟨d, h, by decide, by decide, by decide, by decide, exists_pointsAt_of_parse h⟩

end Drafting
