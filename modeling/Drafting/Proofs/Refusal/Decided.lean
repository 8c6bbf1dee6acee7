import Drafting.Formula.Parse
import Drafting.Proofs.Refusal.Lookahead

/-!
# Refusals are decided where they are reported

A text that is refused for its syntax is refused in the same way whatever comes after the reported
character. The one exception is a branch of a conditional for which there is no room, at the end of
the text: in a longer text it is reported after the blanks before it.

## Main definitions

* `Reports` — what is reported of a refusal.
* `decidedCodes` — the codes of the refusals that are decided where they are reported.
* `AtBranch` — the text ends where a branch of a conditional goes too deep.

Main statement: `parse_eq_invalid_of_prefix`.
-/

namespace Drafting

/-- The place after some text does not depend on what comes next. -/
theorem Location.ofOffset_append (filename : String) (taken left left' : List Char) :
    ofOffset filename (taken ++ left) taken.length =
      ofOffset filename (taken ++ left') taken.length := by
  simp [ofOffset, lineAt, columnAt]

namespace Grammar

variable {options : Options} {text text' taken : List Char} {d : Diagnostic}

/-- What is reported of a refusal: its cause, and the place where the unread text begins. -/
def Reports (options : Options) (text : List Char) (cause : Cause) (left : List Char)
    (d : Diagnostic) : Prop :=
  ∃ code, cause.code? = some code ∧ d.code = some code.label ∧
    d.message = cause.message options.limit ∧
    d.location = .ofOffset options.filename text (text.length - left.length)

theorem parse_eq_error_iff {failure : Failure} :
    Formula.parse options text = .error failure ↔
      ∃ fault, formula (options.room 0) options.strict text = .error fault ∧
        (Cursor.start options.filename text).failure options.limit fault = failure := by
  unfold Formula.parse
  split <;> simp_all

theorem exists_fault_of_parse (h : Formula.parse options text = .error (.invalid d)) :
    ∃ cause left, formula (options.room 0) options.strict text = .error ⟨cause, left⟩ ∧
      Reports options text cause left d := by
  obtain ⟨fault, hfault, hfailure⟩ := parse_eq_error_iff.1 h
  refine ⟨fault.cause, fault.left, hfault, ?_⟩
  unfold Cursor.failure at hfailure
  simp only at hfailure
  split at hfailure
  · simp at hfailure
  · next code hcode =>
    obtain rfl := Failure.invalid.inj hfailure
    refine ⟨code, hcode, rfl, rfl, ?_⟩
    simp [Cursor.location, Cursor.movedTo, Cursor.start, Cursor.rest]

theorem parse_of_fault {cause : Cause} {left : List Char} {code : ErrorCode}
    (h : formula (options.room 0) options.strict text = .error ⟨cause, left⟩)
    (hcode : cause.code? = some code) :
    ∃ d, Formula.parse options text = .error (.invalid d) ∧ Reports options text cause left d := by
  unfold Formula.parse
  rw [h]
  simp only [Cursor.failure, hcode]
  refine ⟨_, rfl, code, hcode, rfl, rfl, ?_⟩
  simp [Cursor.location, Cursor.movedTo, Cursor.start, Cursor.rest]

/-- The codes of the refusals that are decided where they are reported. The end of a text is none. -/
def decidedCodes : List ErrorCode :=
  [.unexpectedCharacter, .blankToken, .misplacedOperator, .trailingText, .tooDeep]

theorem atCharacter_or_tooDeep {cause : Cause} {code : ErrorCode} (h : cause.code? = some code)
    (hcode : code ∈ decidedCodes) : cause.AtCharacter ∨ cause = .tooDeep := by
  cases cause <;> cases code <;> simp_all [Cause.code?, Cause.AtCharacter, decidedCodes]

/-- A text that starts with another one up to some place and with its next character, if any. -/
theorem exists_append_of_prefix {left : List Char}
    (h : (taken ++ left).take (taken.length + 1) <+: text') :
    ∃ left', text' = taken ++ left' ∧ (left ≠ [] → left'.head? = left.head?) := by
  obtain ⟨tail, rfl⟩ := h
  cases left with
  | nil => exact ⟨tail, by simp, by simp⟩
  | cons c left => exact ⟨c :: tail, by simp [List.take_append], by simp⟩

namespace Reports

variable {cause : Cause} {left left' : List Char} {d' : Diagnostic}

/-- A reported code is the code of the cause. -/
theorem exists_code_mem {codes : List ErrorCode} (h : Reports options text cause left d)
    (hcode : d.code ∈ codes.map (some ·.label)) : ∃ code ∈ codes, cause.code? = some code := by
  obtain ⟨code, hcause, hd, -⟩ := h
  obtain ⟨code', hmem, hlabel⟩ := List.mem_map.1 hcode
  rw [hd, Option.some_inj] at hlabel
  exact ⟨code, ErrorCode.label_injective hlabel ▸ hmem, hcause⟩

/-- Only the end of the text is reported as such. -/
theorem endOfText (h : Reports options text cause left d)
    (hcode : d.code = some ErrorCode.unexpectedEnd.label) : ∃ wanted, cause = .endOfText wanted := by
  have hend : d.code ∈ [ErrorCode.unexpectedEnd].map (some ·.label) := by simp [hcode]
  obtain ⟨code, hmem, hcause⟩ := h.exists_code_mem hend
  obtain rfl := List.mem_singleton.1 hmem
  cases cause <;> simp_all [Cause.code?]

theorem offset_eq (h : Reports options (taken ++ left) cause left d) :
    d.location.offset = taken.length := by
  obtain ⟨code, -, -, -, hlocation⟩ := h
  simp [hlocation, Location.ofOffset]

/-- One cause is reported in one way, apart from its place. -/
theorem same_message (h : Reports options text cause left d)
    (h' : Reports options text' cause left' d') : d'.code = d.code ∧ d'.message = d.message := by
  obtain ⟨code, hcode, hd, hmessage, -⟩ := h
  obtain ⟨code', hcode', hd', hmessage', -⟩ := h'
  obtain rfl := Option.some.inj (hcode.symm.trans hcode')
  exact ⟨hd'.trans hd.symm, hmessage'.trans hmessage.symm⟩

/-- The place after some text is reported in one way. -/
theorem same_location (h : Reports options (taken ++ left) cause left d)
    (h' : Reports options (taken ++ left') cause left' d') : d'.location = d.location := by
  obtain ⟨-, -, -, -, hlocation⟩ := h
  obtain ⟨-, -, -, -, hlocation'⟩ := h'
  rw [hlocation, hlocation', List.length_append, List.length_append, Nat.add_sub_cancel,
    Nat.add_sub_cancel]
  exact Location.ofOffset_append ..

/-- A text that is refused for one cause at one place is reported in one way. -/
theorem exists_parse (h : Reports options (taken ++ left) cause left d)
    (hfault : formula (options.room 0) options.strict (taken ++ left') = .error ⟨cause, left'⟩) :
    ∃ d', Formula.parse options (taken ++ left') = .error (.invalid d') ∧ d'.code = d.code ∧
      d'.message = d.message ∧ d'.location = d.location := by
  obtain ⟨code, hcode, -⟩ := id h
  obtain ⟨d', hparse, hreports⟩ := parse_of_fault hfault hcode
  obtain ⟨hcode', hmessage'⟩ := h.same_message hreports
  exact ⟨d', hparse, hcode', hmessage', h.same_location hreports⟩

end Reports

/-- The last character that is no blank is either before a branch or before another formula. -/
theorem Opened.not_branched (h : Opened taken) : ¬ Branched taken := by
  rintro ⟨before, sign, after, hsign, ⟨gap, hgap, rfl⟩, rfl⟩
  obtain ⟨before', sign', hsign', heq⟩ := h
  have hlast := congrArg List.getLast? heq
  rw [List.append_nil, List.getLast?_concat, List.getLast?_append, List.getLast?_cons] at hlast
  cases hgap' : gap.getLast? with
  | none => grind
  | some c =>
    have hblank := hgap c (List.mem_of_getLast? hgap')
    have hsolid : ∀ c ∈ ['(', ',', ';'], isBlank c = false := by simp [isBlank, blanks]
    grind

namespace Bounded

variable {reading : Nested} {cause : Cause} {left : List Char}

theorem fault (h : Bounded reading) (hfault : reading text = .error ⟨cause, left⟩)
    (hcause : cause.AtCharacter) : ∃ taken, text = taken ++ left ∧ left ≠ [] ∧
      ∀ ahead, ahead.head? = left.head? → reading (taken ++ ahead) = .error ⟨cause, ahead⟩ := by
  rcases h with hahead | hdeep
  · exact (hahead text).fault hfault hcause
  · obtain ⟨rfl, -⟩ := fault_inj (hdeep text) hfault
    exact hcause.elim

theorem deep (h : Bounded reading) (hdeep : reading text = .error ⟨.tooDeep, left⟩) :
    ∃ taken, text = taken ++ left ∧
      (¬ Branched taken ∧ (∀ ahead, reading (taken ++ ahead) = .error ⟨.tooDeep, ahead⟩) ∨
        Branched taken ∧
          ∀ ahead, reading (taken ++ ahead) = .error ⟨.tooDeep, dropBlanks ahead⟩) := by
  rcases h with hahead | hnone
  · obtain ⟨taken, htext, hdescends⟩ := (hahead text).deep hdeep
    exact ⟨taken, htext, hdescends.imp_left fun hopened => ⟨hopened.1.not_branched, hopened.2⟩⟩
  · obtain ⟨-, rfl⟩ := fault_inj (hnone text) hdeep
    exact ⟨[], rfl, .inl ⟨fun hbranched => hbranched.ne_nil rfl, hnone⟩⟩

end Bounded

/-- At the end of the text there is no room for a branch of a conditional. -/
def AtBranch (text : List Char) (d : Diagnostic) : Prop :=
  d.code = some ErrorCode.tooDeep.label ∧ d.location.offset = text.length ∧ Branched text

theorem Reports.atBranch_iff {cause : Cause} {left : List Char}
    (h : Reports options (taken ++ left) cause left d) :
    AtBranch (taken ++ left) d ↔ cause = .tooDeep ∧ left = [] ∧ Branched taken := by
  have hoffset : d.location.offset = (taken ++ left).length ↔ left = [] := by
    rw [h.offset_eq, List.length_append, ← List.length_eq_zero_iff]
    omega
  obtain ⟨code, hcode, hd, -⟩ := h
  have hdeep : d.code = some ErrorCode.tooDeep.label ↔ cause = .tooDeep := by
    rw [hd, Option.some_inj, ErrorCode.label_injective.eq_iff]
    cases cause <;> simp_all [Cause.code?, eq_comm]
  rw [AtBranch, hdeep, hoffset]
  refine and_congr_right fun _ => and_congr_right ?_
  rintro rfl
  rw [List.append_nil]

/-- A refusal is decided by the text up to and including the reported character: any text that starts
so is refused in the same way and at the same place. Only at the end of a text, where a branch of a
conditional goes too deep, a longer text is refused after the blanks before that branch. -/
theorem parse_eq_invalid_of_prefix (h : Formula.parse options text = .error (.invalid d))
    (hcode : d.code ∈ decidedCodes.map (some ·.label))
    (hstart : text.take (d.location.offset.toNat + 1) <+: text') :
    ∃ d', Formula.parse options text' = .error (.invalid d') ∧ d'.code = d.code ∧
      d'.message = d.message ∧ (¬ AtBranch text d → d'.location = d.location) ∧
      (AtBranch text d → d'.location = .ofOffset options.filename text'
        (text'.length - (dropBlanks (text'.drop text.length)).length)) := by
  obtain ⟨cause, left, hfault, hreports⟩ := exists_fault_of_parse h
  obtain ⟨code, hdecided, hcause⟩ := hreports.exists_code_mem hcode
  have hbounded := formula_bounded (options.room 0) options.strict
  rcases atCharacter_or_tooDeep hcause hdecided with hat | rfl
  · obtain ⟨taken, rfl, hne, hreading⟩ := hbounded.fault hfault hat
    rw [hreports.offset_eq, Int.toNat_natCast] at hstart
    obtain ⟨left', rfl, hhead⟩ := exists_append_of_prefix hstart
    obtain ⟨d', hparse', hcode', hmessage', hlocation'⟩ :=
      hreports.exists_parse (hreading left' (hhead hne))
    exact ⟨d', hparse', hcode', hmessage', fun _ => hlocation',
      fun h => absurd (hreports.atBranch_iff.1 h).2.1 hne⟩
  obtain ⟨taken, rfl, ⟨hbranched, hreading⟩ | ⟨hbranched, hreading⟩⟩ := hbounded.deep hfault
  all_goals
    rw [hreports.offset_eq, Int.toNat_natCast] at hstart
    obtain ⟨left', rfl, hhead⟩ := exists_append_of_prefix hstart
  · obtain ⟨d', hparse', hcode', hmessage', hlocation'⟩ := hreports.exists_parse (hreading left')
    exact ⟨d', hparse', hcode', hmessage', fun _ => hlocation',
      fun h => absurd (hreports.atBranch_iff.1 h).2.2 hbranched⟩
  by_cases hleft : left = []
  · subst hleft
    obtain ⟨d', hparse', hreports'⟩ := parse_of_fault (hreading left') hcause
    obtain ⟨hcode', hmessage'⟩ := hreports.same_message hreports'
    obtain ⟨-, -, -, -, hlocation'⟩ := hreports'
    have hdrop : (taken ++ left').drop (taken ++ []).length = left' := by simp
    refine ⟨d', hparse', hcode', hmessage',
      fun h => absurd (hreports.atBranch_iff.2 ⟨rfl, rfl, hbranched⟩) h, fun _ => ?_⟩
    rw [hlocation', hdrop]
  · -- the character of the branch is reported, which is no blank
    have hsolid : dropBlanks left = left :=
      (fault_inj (hreading left) hfault).2
    have hsolid' : dropBlanks left' = left' :=
      dropBlanks_eq_of_head? ((hhead hleft).trans (congrArg List.head? hsolid).symm)
    obtain ⟨d', hparse', hcode', hmessage', hlocation'⟩ :=
      hreports.exists_parse (hsolid' ▸ hreading left')
    exact ⟨d', hparse', hcode', hmessage', fun _ => hlocation',
      fun h => absurd (hreports.atBranch_iff.1 h).2.1 hleft⟩

/-- `(a b` is refused at its `b`, and so is `(a b)`. -/
theorem parse_eq_invalid_of_prefix_group :
    ∃ d d', Formula.parse {} ['(', 'a', ' ', 'b'] = .error (.invalid d) ∧
      d.code = some ErrorCode.unexpectedCharacter.label ∧
      Formula.parse {} ['(', 'a', ' ', 'b', ')'] = .error (.invalid d') ∧
      d'.message = d.message ∧ d'.location = d.location := by
  obtain ⟨d, h, hcode, hoffset⟩ : ∃ d, Formula.parse {} ['(', 'a', ' ', 'b'] = .error (.invalid d) ∧
      d.code = some ErrorCode.unexpectedCharacter.label ∧ d.location.offset = 3 := ⟨_, rfl, rfl, rfl⟩
  have hdecided : d.code ∈ decidedCodes.map (some ·.label) := by
    rw [hcode]
    decide
  have hstart : ['(', 'a', ' ', 'b'].take (d.location.offset.toNat + 1) <+:
      ['(', 'a', ' ', 'b', ')'] := by
    rw [hoffset]
    decide
  have hbranch : ¬ AtBranch ['(', 'a', ' ', 'b'] d := by
    rintro ⟨hdeep, -⟩
    rw [hcode] at hdeep
    exact absurd hdeep (by decide)
  obtain ⟨d', hparse', -, hmessage', hlocation', -⟩ := parse_eq_invalid_of_prefix h hdecided hstart
  exact ⟨d, d', h, hcode, hparse', hmessage', hlocation' hbranch⟩

/-- `a?` and `a? b` are refused at different places where there is no room for a branch. -/
theorem parse_branch_moved :
    ∃ d d', Formula.parse { maxDepth := 1 } ['a', '?'] = .error (.invalid d) ∧
      d.code = some ErrorCode.tooDeep.label ∧
      ['a', '?'].take (d.location.offset.toNat + 1) <+: ['a', '?', ' ', 'b'] ∧
      Formula.parse { maxDepth := 1 } ['a', '?', ' ', 'b'] = .error (.invalid d') ∧
      d'.location ≠ d.location := by
  refine ⟨_, _, rfl, rfl, by decide, rfl, by decide⟩

end Grammar

end Drafting
