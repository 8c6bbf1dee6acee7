import Drafting.Proofs.Grammar.Acceptance
import Drafting.Proofs.Grammar.Chains
import Drafting.Proofs.Respelling.Alike

/-!
# Layout

How many blanks stand in a gap and of which kind they are does not matter, nor do blanks at the start
of a text. Whether there is a gap at all does: it ends a token and is refused after a mark. Blanks at
the end of an accepted text do not matter either, but a text that was refused at its end may be
refused otherwise when blanks follow.

## Main definitions

* `layout`, `trailing` — the two ways of writing a text with other blanks, as respellings.
* `Relaid` — one text is another laid out anew.
* `SameKind` — results that differ at most in what a report says and where.

Main statement: `parse_relaid`.
-/

namespace Drafting

namespace Grammar

open Respelling

/-- Every gap may be replaced by any other. -/
def layout : Respelling := ofGapsOnly (fun before after => IsGap before ∧ IsGap after) fun _ _ h => h

/-- Blanks may be added at the end. -/
def trailing : Respelling :=
  .ofGaps SameGap (fun added => ∀ c ∈ added, isBlank c = true) (fun _ _ => SameGap.isGap)
    (isBlank_of_eq_nil rfl) fun _ h => h

/-- One text is another with its gaps replaced by other gaps, and with any blanks at its start. -/
def Relaid (text text' : List Char) : Prop :=
  ∃ start start', Skips text start ∧ Skips text' start' ∧ layout.Respells start start'

theorem respells_trailing (text : List Char) {added : List Char}
    (h : ∀ c ∈ added, isBlank c = true) : trailing.Respells text (text ++ added) := by
  have hself (c : Char) (hc : isBlank c = true) : trailing.gap [c] [c] := sameGap_singleton hc
  exact respells_append (fun _ => rfl) hself h text

/-! ## Verdicts -/

/-- What is said of a text, without a place. -/
def verdict : Result (Formula × List Char) → Except (Option ErrorCode) Formula
  | .ok (tree, _) => .ok tree
  | .error fault => .error fault.cause.code?

theorem Alike.verdict_eq {text text' : List Char} {outcome outcome' : Result (Formula × List Char)}
    (h : Alike layout text text' outcome outcome') : verdict outcome' = verdict outcome := by
  cases houtcome : outcome with
  | ok result =>
    obtain ⟨left', houtcome', -⟩ := h.ok houtcome
    rw [houtcome']
    exact congrArg Except.ok (Formula.mapNames_id result.1)
  | error fault =>
    obtain ⟨fault', houtcome', hcode, -⟩ := h.fault (fun _ hadded => hadded) houtcome
    rw [houtcome']
    exact congrArg Except.error hcode

/-- Blanks at the start are skipped, but for a text that is refused before they are. -/
theorem verdict_formula_dropBlanks (room : Nat) (strict : Bool) (text : List Char) :
    verdict (formula room strict (dropBlanks text)) = verdict (formula room strict text) := by
  cases room with
  | zero => simp [formula_eq, expression_zero, verdict, Bind.bind, Except.bind]
  | succ room =>
    have hsame : expression (room + 1) Operator.conditionalLevel (dropBlanks text) =
        expression (room + 1) Operator.conditionalLevel text := by
      rw [expression_eq, expression_eq, dropBlanks_dropBlanks]
    rw [formula_eq, formula_eq, hsame]

theorem verdict_formula_of_relaid {text text' : List Char} (h : Relaid text text') (room : Nat)
    (strict : Bool) : verdict (formula room strict text') = verdict (formula room strict text) := by
  obtain ⟨start, start', hskips, hskips', hrespells⟩ := h
  have hdropped := hrespells.dropBlanks
  rw [← hskips.dropBlanks_eq, ← hskips'.dropBlanks_eq] at hdropped
  calc verdict (formula room strict text')
      = verdict (formula room strict (dropBlanks text')) :=
        (verdict_formula_dropBlanks room strict text').symm
    _ = verdict (formula room strict (dropBlanks text)) :=
        (formula_alike room strict hdropped).verdict_eq
    _ = verdict (formula room strict text) := verdict_formula_dropBlanks room strict text

end Grammar

/-! ## Results -/

open Grammar

/-- The same formula, or reports of the same kind of mistake. -/
def SameKind : Except Failure Formula → Except Failure Formula → Prop
  | .ok tree, .ok tree' => tree = tree'
  | .error (.invalid d), .error (.invalid d') => d.code = d'.code
  | .error (.tooManyDigits _), .error (.tooManyDigits _) => True
  | _, _ => False

theorem sameKind_of_verdict {options : Options} {text text' : List Char}
    (h : verdict (formula (options.room 0) options.strict text') =
      verdict (formula (options.room 0) options.strict text)) :
    SameKind (Formula.parse options text) (Formula.parse options text') := by
  rw [Formula.parse, Formula.parse]
  cases houtcome : formula (options.room 0) options.strict text with
  | ok result =>
    cases houtcome' : formula (options.room 0) options.strict text' with
    | ok result' => simpa [SameKind, houtcome, houtcome', verdict] using h.symm
    | error fault' => simp [houtcome, houtcome', verdict] at h
  | error fault =>
    cases houtcome' : formula (options.room 0) options.strict text' with
    | ok result' => simp [houtcome, houtcome', verdict] at h
    | error fault' =>
      have hcode : fault'.cause.code? = fault.cause.code? := by
        simpa [houtcome, houtcome', verdict] using h
      cases hkind : fault.cause.code? <;> simp [SameKind, Cursor.failure, hcode, hkind]

/-- A text laid out anew is read as the same formula, or refused for the same kind of mistake. Blanks
after an accepted text change nothing. -/
theorem parse_relaid (options : Options) :
    (∀ text text', Relaid text text' →
      SameKind (Formula.parse options text) (Formula.parse options text')) ∧
      ∀ text added tree, (∀ c ∈ added, isBlank c = true) →
        Formula.parse options text = .ok tree →
        Formula.parse options (text ++ added) = .ok tree := by
  refine ⟨fun text text' h => sameKind_of_verdict (verdict_formula_of_relaid h _ _), ?_⟩
  intro text added tree hadded hparse
  obtain ⟨left, hformula⟩ := parse_eq_ok_iff.1 hparse
  have halike := formula_alike (options.room 0) options.strict (respells_trailing text hadded)
  obtain ⟨left', hformula', -⟩ := halike.ok hformula
  have hsame : tree.mapNames trailing.char = tree := Formula.mapNames_id tree
  rw [hsame] at hformula'
  exact parse_eq_ok_iff.2 ⟨left', hformula'⟩

-- Unfolded at closed texts, it would have them read in full.
attribute [local irreducible] SameKind

/-- `a + b` over two lines, and with a blank at its end. -/
theorem parse_relaid_sum :
    Relaid "a + b".toList "\ta \n +  b".toList ∧
      SameKind (Formula.parse {} "a + b".toList) (Formula.parse {} "\ta \n +  b".toList) ∧
      Formula.parse {} "a + b ".toList =
        .ok (.binary (.reference .plain ['a']) .add (.reference .plain ['b'])) := by
  have hblank {gap : List Char} (h : gap.all isBlank = true) : ∀ c ∈ gap, isBlank c = true :=
    List.all_eq_true.1 h
  have hrelaid : Relaid "a + b".toList "\ta \n +  b".toList := by
    refine ⟨"a + b".toList, "a \n +  b".toList, .refl _, ⟨['\t'], hblank rfl, rfl⟩, ?_⟩
    have hfirst : layout.gap [' '] [' ', '\n', ' '] :=
      ⟨⟨by simp, hblank rfl⟩, by simp, hblank rfl⟩
    have hsecond : layout.gap [' '] [' ', ' '] := ⟨⟨by simp, hblank rfl⟩, by simp, hblank rfl⟩
    refine .char rfl (.gap hfirst (.char rfl (.gap hsecond ?_)))
    exact .char rfl (.tail rfl)
  obtain ⟨hlayout, htrailing⟩ := parse_relaid {}
  exact ⟨hrelaid, hlayout _ _ hrelaid,
    htrailing "a + b".toList [' '] _ (hblank rfl) (by decide +kernel)⟩

end Drafting
