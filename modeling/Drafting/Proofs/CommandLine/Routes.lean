import Drafting.CommandLine.Run
import Drafting.Proofs.CommandLine.Integer

/-!
# The two routes of a formula

A formula reaches the program as the operand after the separator, where it may be any text, or as
the input, where newlines may follow it. By either route it is read and rendered as the words before
it ask for, of which the last of each kind counts.

## Main definitions

* `Setting` — the words that say how the formula is read and rendered.
* `Setting.asked` — the settings that such words ask for.

Main statement: `run_operand_eq_run_input`.
-/

namespace Drafting.CommandLine

/-- A word that says how the formula is read or rendered, with its value attached. -/
inductive Setting
  | format (rendering : Format)
  | maxDepth (depth : Int)
  | strict
deriving DecidableEq, Repr

namespace Setting

/-- The word as it is written. -/
def argument : Setting → List Char
  | format rendering => "--format=".toList ++ rendering.name
  | maxDepth depth => "--max-depth=".toList ++ wholeText depth
  | strict => "--strict".toList

def format? : Setting → Option Format
  | format rendering => some rendering
  | _ => none

def maxDepth? : Setting → Option Int
  | maxDepth depth => some depth
  | _ => none

/-- What the words ask for together: the last rendering and the last limit among them, and
strictness if it is among them. -/
def asked (words : List Setting) : Settings where
  format := (words.filterMap format?).getLast?.getD .xml
  strict := words.contains strict
  maxDepth := (words.filterMap maxDepth?).getLast?.getD 64

/-- The limit of the word, if it is one, has no more digits than are read. -/
def Readable : Setting → Prop
  | maxDepth depth => (decimalDigits depth.natAbs).length ≤ Numeral.digitLimit
  | _ => True

instance : DecidablePred Readable
  | maxDepth _ => inferInstanceAs (Decidable (_ ≤ _))
  | format _ | strict => isTrue trivial

/-! ## Words and items -/

def word : Setting → Word
  | format rendering => .option .format false (some rendering.name)
  | maxDepth depth => .option .maxDepth false (some (wholeText depth))
  | strict => .option .strict false none

def item : Setting → Item
  | format rendering => .setting .format rendering.name
  | maxDepth depth => .setting .maxDepth (wholeText depth)
  | strict => .flag .strict

theorem ofArgument_argument (setting : Setting) :
    Word.ofArgument setting.argument = .ok setting.word := by
  cases setting with
  | format rendering => cases rendering <;> rfl
  | maxDepth depth => rfl
  | strict => rfl

theorem argument_ne_separatorText (setting : Setting) : setting.argument ≠ separatorText := by
  intro h
  have hthird := congrArg (·.drop 2) h
  cases setting <;> cases hthird

/-- The words before the rest of the arguments are the switches they name. -/
theorem ofArguments_append (words : List Setting) (rest : List (List Char)) :
    Word.ofArguments (words.map argument ++ rest) =
      (Word.ofArguments rest).map (words.map word ++ ·) := by
  induction words with
  | nil => cases h : Word.ofArguments rest <;> simp [h, Except.map]
  | cons setting words ih =>
    simp only [List.map_cons, List.cons_append, Word.ofArguments, argument_ne_separatorText,
      if_false, ofArgument_argument, ih]
    cases Word.ofArguments rest <;> rfl

theorem ofWords_cons (setting : Setting) (words : List Word) :
    Item.ofWords (setting.word :: words) = setting.item :: Item.ofWords words := by
  cases setting with
  | strict =>
    match words with
    | [] => rfl
    | .operand text :: words => rfl
    | .separator :: words => rfl
    | .option .. :: words => rfl
    | .unknown text :: words => rfl
  | _ => rfl

theorem ofWords_append (words : List Setting) (rest : List Word) :
    Item.ofWords (words.map word ++ rest) = words.map item ++ Item.ofWords rest := by
  induction words with
  | nil => rfl
  | cons setting words ih => simp [ofWords_cons, ih]

/-! ## Settings -/

/-- The settings with one of them changed by a word. -/
def apply (settings : Settings) : Setting → Settings
  | format rendering => { settings with format := rendering }
  | maxDepth depth => { settings with maxDepth := depth }
  | strict => { settings with strict := true }

theorem foldl_apply (words : List Setting) (settings : Settings) :
    words.foldl apply settings =
      { settings with
        format := (words.filterMap format?).getLast?.getD settings.format
        strict := settings.strict || words.contains strict
        maxDepth := (words.filterMap maxDepth?).getLast?.getD settings.maxDepth } := by
  induction words generalizing settings with
  | nil => simp
  | cons setting words ih =>
    rw [List.foldl_cons, ih]
    cases setting <;> simp [apply, format?, maxDepth?, List.getLast?_cons]

theorem foldl_apply_default (words : List Setting) : words.foldl apply {} = asked words := by
  rw [foldl_apply]
  simp [asked]

theorem step_item {setting : Setting} (h : setting.Readable) (settings : Settings) :
    Progress.step { settings := settings } setting.item =
      .ok { settings := apply settings setting } := by
  cases setting with
  | format rendering => cases rendering <;> rfl
  | maxDepth depth =>
    simp only [item, Progress.step, Progress.set, readInteger?_wholeText h]
    rfl
  | strict => rfl

/-- Readable words take effect one after the other. -/
theorem foldlM_items {words : List Setting} (h : ∀ setting ∈ words, setting.Readable)
    (rest : List Item) (settings : Settings) :
    (words.map item ++ rest).foldlM Progress.step { settings := settings } =
      rest.foldlM Progress.step { settings := words.foldl apply settings } := by
  induction words generalizing settings with
  | nil => rfl
  | cons setting words ih =>
    rw [List.forall_mem_cons] at h
    rw [List.map_cons, List.cons_append, List.foldlM_cons, step_item h.1]
    exact ih h.2 (apply settings setting)

end Setting

/-! ## Routes -/

open Setting

variable {words : List Setting}

/-- What is asked for by readable words and other arguments after them. -/
theorem request_of_words (h : ∀ setting ∈ words, setting.Readable) (rest : List (List Char))
    (left : List Word) (progress : Progress) (hrest : Word.ofArguments rest = .ok left)
    (hleft : (Item.ofWords left).foldlM Progress.step { settings := asked words } = .ok progress) :
    Request.ofArguments (words.map argument ++ rest) = progress.request := by
  have hsteps := foldlM_items h (Item.ofWords left) {}
  rw [foldl_apply_default, hleft] at hsteps
  rw [Request.ofArguments, ofArguments_append, hrest]
  simp only [Except.map, ofWords_append, hsteps]

/-- With nothing after the words the formula is to be read from the input. -/
theorem request_of_words_alone (h : ∀ setting ∈ words, setting.Readable) :
    Request.ofArguments (words.map argument) = .convert (asked words) ['-'] := by
  have hrequest := request_of_words h [] [] { settings := asked words } rfl rfl
  rwa [List.append_nil] at hrequest

/-- Anything after the separator is the formula. -/
theorem request_of_operand (h : ∀ setting ∈ words, setting.Readable) (formula : List Char) :
    Request.ofArguments (words.map argument ++ [separatorText, formula]) =
      .convert (asked words) formula :=
  request_of_words h [separatorText, formula] [.separator, .operand formula]
    { settings := asked words, formula := some formula, atFormula := true } rfl rfl

theorem dropFinalNewlines_append {formula : List Char} (h : formula.getLast? ≠ some '\n')
    (newlines : Nat) : dropFinalNewlines (formula ++ List.replicate newlines '\n') = formula := by
  have hkept : formula.reverse.dropWhile (· = '\n') = formula.reverse := by
    rw [List.getLast?_eq_head?_reverse] at h
    cases hreverse : formula.reverse with
    | nil => rfl
    | cons c rest =>
      have hc : c ≠ '\n' := by simpa [hreverse] using h
      simp [hc]
  rw [dropFinalNewlines, List.reverse_append, List.reverse_replicate]
  simp [hkept]

/-- A formula other than `-` that does not end in a newline has the same outcome as an operand after
the separator and as the input, whatever it looks like and however many newlines end the input: the
rendering that is asked for, or what is wrong with it. -/
theorem run_operand_eq_run_input (h : ∀ setting ∈ words, setting.Readable) {formula : List Char}
    (hdash : formula ≠ ['-']) (hend : formula.getLast? ≠ some '\n') (newlines : Nat)
    (input : List Char) :
    let settings := asked words
    let options : Options := { strict := settings.strict, maxDepth := settings.maxDepth }
    let outcome := run (words.map argument ++ [separatorText, formula]) input
    run (words.map argument) (formula ++ List.replicate newlines '\n') = outcome ∧
      (∀ tree, Formula.parse options formula = .ok tree → ∃ rendering,
        outcome = ⟨.exited 0, String.ofList rendering ++ "\n", ""⟩ ∧
          (settings.format = .xml → rendering = Rendering.document tree) ∧
          (settings.format = .normative → rendering = Rendering.canonical tree) ∧
          (settings.format = .debug → rendering = Rendering.debug tree)) ∧
      ∀ d, Formula.parse options formula = .error (.invalid d) →
        outcome =
          ⟨.exited 1, "", "error: " ++ d.summary (some formula) ++ "\n" ++ d.text⟩ := by
  intro settings options outcome
  have houtcome : outcome = convert settings formula := by
    simp only [outcome, run, request_of_operand h, Request.outcome, if_neg hdash, settings]
  refine ⟨?_, ?_, ?_⟩
  · rw [houtcome, run, request_of_words_alone h, Request.outcome, if_pos rfl,
      dropFinalNewlines_append hend]
  · intro tree hparse
    refine ⟨settings.format.render tree, ?_, ?_, ?_, ?_⟩
    · rw [houtcome, convert, show settings.options = options from rfl, hparse]
      rfl
    all_goals
      intro hformat
      simp [hformat]
  · intro d hparse
    rw [houtcome, convert, show settings.options = options from rfl, hparse]
    rfl

/-- A formula that looks like a switch, in each of the three renderings. The words before it ask for
other settings first, or leave the rendering out. -/
theorem run_operand_eq_run_input_switch :
    let formula := "--strict".toList
    let normative := [format .debug, strict, maxDepth (-3), maxDepth 3, format .normative]
    let debug := [maxDepth 2, format .xml, format .debug]
    let xml := [maxDepth 1]
    let printed (words : List Setting) (text : String) : Prop :=
      (∀ setting ∈ words, setting.Readable) ∧
        run (words.map argument ++ [separatorText, formula]) [] = ⟨.exited 0, text, ""⟩ ∧
        run (words.map argument) (formula ++ ['\n', '\n']) = ⟨.exited 0, text, ""⟩
    formula ≠ ['-'] ∧ formula.getLast? ≠ some '\n' ∧
      printed normative "--strict\n" ∧ printed debug "-(-strict)\n" ∧
      printed xml ("<?xml version=\"1.0\" ?><function type=\"-\">" ++
        "<variable>-strict</variable></function>\n") := by
  intro formula normative debug xml printed
  have hdash : formula ≠ ['-'] := by decide
  have hend : formula.getLast? ≠ some '\n' := by decide
  let tree := (Formula.reference .plain "-strict".toList).negation
  have hprinted {words : List Setting} {text : String}
      (hreadable : ∀ setting ∈ words, setting.Readable)
      (htree : Formula.parse (asked words).options formula = .ok tree)
      (htext : String.ofList ((asked words).format.render tree) ++ "\n" = text) :
      printed words text := by
    obtain ⟨hsame, hok, -⟩ := run_operand_eq_run_input hreadable hdash hend 2 []
    obtain ⟨rendering, houtcome, hxml, hnormative, hdebug⟩ := hok tree htree
    have hrendering : rendering = (asked words).format.render tree := by
      cases hformat : (asked words).format with
      | xml => exact hxml hformat
      | normative => exact hnormative hformat
      | debug => exact hdebug hformat
    rw [hrendering, htext] at houtcome
    exact ⟨hreadable, houtcome, hsame.trans houtcome⟩
  exact ⟨hdash, hend, hprinted (by decide) (by decide +kernel) rfl,
    hprinted (by decide) (by decide +kernel) rfl, hprinted (by decide) (by decide +kernel) rfl⟩

end Drafting.CommandLine
