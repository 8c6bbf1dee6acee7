import Drafting.Formula.Parse
import Drafting.Proofs.Respelling.Alike

/-!
# Renaming

Names are opaque, and the two separators of arguments stand for each other. A text in which every
character is replaced by one of its own class is read as the same formula with the characters of its
names replaced, or is refused for the same kind of mistake at the same place. Different names may
become one.

## Main definitions

* `isFree` — the characters that mean nothing by themselves, wherever they stand.
* `Renames` — the replacements of characters that keep to the classes.
* `Renames.respelling` — such a replacement as a respelling.
* `Renamed` — results that correspond under a replacement.

Main statement: `parse_renamed`.
-/

namespace Drafting

namespace Grammar

open Respelling

/-- The characters other than blanks, delimiters, digits, and those of marks, equations and decimal
numbers. -/
def isFree (c : Char) : Bool :=
  !(isDelimiter c || c.isDigit || ['=', '!', '@', '#', '.', 'e', 'E'].contains c)

/-- A replacement of characters that nothing but names can tell. It need not be injective. -/
structure Renames (f : Char → Char) : Prop where
  separator : ∀ c, c = ',' ∨ c = ';' → f c = ',' ∨ f c = ';'
  kept : ∀ c, isFree c = false → c ≠ ',' → c ≠ ';' → f c = c
  free : ∀ c, isFree c = true → isFree (f c) = true

/-- The characters of numerals are not replaced. -/
theorem kept_of_numeral {c : Char} (h : c.isDigit = true ∨ c ∈ ['+', '-', '.', 'e', 'E']) :
    isFree c = false ∧ c ≠ ',' ∧ c ≠ ';' := by
  rcases h with hdigit | hmem
  · refine ⟨by simp [isFree, hdigit], ?_, ?_⟩ <;> (rintro rfl; revert hdigit; decide)
  · simp only [List.mem_cons, List.not_mem_nil, or_false] at hmem
    rcases hmem with rfl | rfl | rfl | rfl | rfl <;> decide

namespace Renames

variable {f : Char → Char} (h : Renames f)
include h

/-- What is said of characters is said of their replacements too, if it does not tell the free
characters apart and does not tell the separators apart. -/
theorem apply_eq {β : Type} {g : Char → β} {b : β} (hfree : ∀ c, isFree c = true → g c = b)
    (hseparators : g ',' = g ';') (c : Char) : g (f c) = g c := by
  by_cases hc : isFree c = true
  · rw [hfree c hc, hfree (f c) (h.free c hc)]
  by_cases hseparator : c = ',' ∨ c = ';'
  · have hsame : ∀ d, d = ',' ∨ d = ';' → g d = g ',' := by
      rintro d (rfl | rfl)
      · rfl
      · exact hseparators.symm
    rw [hsame c hseparator, hsame (f c) (h.separator c hseparator)]
  · rw [not_or] at hseparator
    rw [h.kept c (by simpa using hc) hseparator.1 hseparator.2]

theorem isDelimiter_eq (c : Char) : isDelimiter (f c) = isDelimiter c := by
  apply h.apply_eq (b := false)
  · intro d hd
    simp only [isFree, Bool.not_eq_true', Bool.or_eq_false_iff] at hd
    exact hd.1.1
  · rfl

theorem isBlank_eq (c : Char) : isBlank (f c) = isBlank c := by
  apply h.apply_eq (b := false)
  · intro d hd
    simp only [isFree, Bool.not_eq_true', Bool.or_eq_false_iff] at hd
    exact isBlank_of_not_delimiter hd.1.1
  · rfl

/-- A character with a meaning of its own, apart from the separators, takes the place of itself
alone. -/
theorem eq_iff {c : Char} (hfree : isFree c = false) (hcomma : c ≠ ',') (hsemicolon : c ≠ ';')
    (d : Char) : f d = c ↔ d = c := by
  apply iff_of_eq
  apply h.apply_eq (g := (· = c)) (b := False)
  · intro e he
    apply eq_false
    rintro rfl
    simp [hfree] at he
  · simp [hcomma.symm, hsemicolon.symm]

theorem separator_iff (c : Char) : f c = ',' ∨ f c = ';' ↔ c = ',' ∨ c = ';' := by
  apply iff_of_eq
  apply h.apply_eq (g := fun d => d = ',' ∨ d = ';') (b := False)
  · intro d hd
    apply eq_false
    rintro (rfl | rfl) <;> revert hd <;> decide
  · simp

/-- Signs are kept. -/
theorem eq_iff_of_mem_signs {c : Char} (hc : c ∈ signs) (d : Char) : f d = c ↔ d = c := by
  have hsigns : signs.all (fun c => !isFree c && c ≠ ',' && c ≠ ';') = true := by decide
  have hsign := List.all_eq_true.1 hsigns c hc
  simp only [Bool.and_eq_true, Bool.not_eq_true', decide_eq_true_eq] at hsign
  exact h.eq_iff hsign.1.1 hsign.1.2 hsign.2 d

/-- A numeral is kept, and takes the place of no other token. -/
theorem map_eq_self {token : List Char}
    (htoken : Numeral.IsNumeral token ∨ Numeral.IsNumeral (token.map f)) : token.map f = token := by
  have hchar : ∀ c ∈ token, f c = c := by
    intro c hc
    rcases htoken with htoken | htoken
    · obtain ⟨hfree, hcomma, hsemicolon⟩ := kept_of_numeral (htoken.mem hc)
      exact h.kept c hfree hcomma hsemicolon
    · obtain ⟨hfree, hcomma, hsemicolon⟩ := kept_of_numeral (htoken.mem (List.mem_map_of_mem hc))
      exact ((h.eq_iff hfree hcomma hsemicolon c).1 rfl).symm
  simpa using List.map_congr_left hchar

/-- A token is the same number after the replacement, or no number before and after it. -/
theorem literal?_map (negative : Bool) (token : List Char) :
    literal? negative (token.map f) = literal? negative token := by
  by_cases htoken : Numeral.IsNumeral token ∨ Numeral.IsNumeral (token.map f)
  · rw [h.map_eq_self htoken]
  · rw [not_or] at htoken
    rw [literal?_eq_none_iff.2 htoken.1, literal?_eq_none_iff.2 htoken.2]

/-- The replacement of characters alone, as a respelling: every gap stands for itself. -/
def respelling : Respelling :=
  { verbatim with
    char := f
    char_eq_iff := fun _ => h.eq_iff_of_mem_signs
    isBlank_char := h.isBlank_eq
    isDelimiter_char := h.isDelimiter_eq
    separator_char := h.separator_iff
    literal?_map := h.literal?_map }

variable {text text' : List Char}

theorem respells_map (text : List Char) : h.respelling.Respells text (text.map f) := by
  induction text with
  | nil => exact .tail rfl
  | cons c text ih =>
    cases hc : isBlank c with
    | false => exact .char hc ih
    | true =>
      have hkept : f c = c := by
        apply h.kept c
        · simp [isFree, isDelimiter_of_isBlank hc]
        all_goals
          rintro rfl
          revert hc
          decide
      rw [List.map_cons, hkept]
      exact .gap (sameGap_singleton hc) ih

theorem length_eq (hrespells : h.respelling.Respells text text') : text'.length = text.length := by
  induction hrespells with
  | tail hadded => rw [show _ = [] from hadded]
  | char _ _ ih => simp [ih]
  | gap hgap _ ih => simp [ih, hgap.1]

end Renames

end Grammar

/-! ## Places and results -/

open Grammar

variable {f : Char → Char}

/-- A place is counted out alike, where the ends of lines are kept. -/
theorem Location.ofOffset_map (h : ∀ c, f c = '\n' ↔ c = '\n') (filename : String)
    (text : List Char) (offset : Nat) :
    ofOffset filename (text.map f) offset = ofOffset filename text offset := by
  have hline : ((text.map f).take offset).count '\n' = (text.take offset).count '\n' := by
    rw [← List.map_take, List.count_eq_countP, List.count_eq_countP, List.countP_map]
    apply List.countP_congr
    simp [h]
  have hcolumn (before : List Char) :
      ((before.map f).takeWhile (· ≠ '\n')).length = (before.takeWhile (· ≠ '\n')).length := by
    have hsame : (fun c => decide (c ≠ '\n')) ∘ f = fun c => decide (c ≠ '\n') := by
      funext c
      simp [h]
    rw [List.takeWhile_map, hsame, List.length_map]
  have hreverse : ((text.map f).take offset).reverse = (text.take offset).reverse.map f := by simp
  simp only [ofOffset, lineAt, columnAt, hline, hreverse, hcolumn, List.length_take,
    List.length_map]

/-- The same formula with the characters of its names replaced, or the same kind of mistake at the
same place. -/
def Renamed (f : Char → Char) : Except Failure Formula → Except Failure Formula → Prop
  | .ok tree, .ok tree' => tree' = tree.mapNames f
  | .error (.invalid d), .error (.invalid d') => d'.code = d.code ∧ d'.location = d.location
  | .error (.tooManyDigits _), .error (.tooManyDigits _) => True
  | _, _ => False

/-- A text with its characters replaced is read as the same formula with its names replaced, or
refused for the same kind of mistake at the same place. -/
theorem parse_renamed (h : Renames f) (options : Options) (text : List Char) :
    Renamed f (Formula.parse options text) (Formula.parse options (text.map f)) := by
  have halike := formula_alike (options.room 0) options.strict (h.respells_map text)
  rw [Formula.parse, Formula.parse]
  cases houtcome : formula (options.room 0) options.strict text with
  | ok result =>
    obtain ⟨tree, left⟩ := result
    obtain ⟨left', houtcome', -⟩ := halike.ok houtcome
    rw [houtcome']
    rfl
  | error fault =>
    obtain ⟨fault', houtcome', hcode, hleft⟩ := halike.fault (fun _ hadded => hadded) houtcome
    have hlength := h.length_eq hleft
    have hnewline : ∀ c, f c = '\n' ↔ c = '\n' := by
      apply h.eq_iff <;> decide
    rw [houtcome']
    cases hkind : fault.cause.code? with
    | none => simp [Renamed, Cursor.failure, hcode, hkind]
    | some code =>
      have hplace := Location.ofOffset_map hnewline options.filename text
      simp only [Renamed, Cursor.failure, hcode, hkind, Cursor.location, Cursor.movedTo,
        Cursor.rest, Cursor.start, List.drop_zero, List.length_map, hlength, hplace, and_self]

-- Unfolded at closed texts, it would have them read in full.
attribute [local irreducible] Renamed

/-- The commas of a text become semicolons, and one name in it becomes another that is there too. -/
theorem parse_renamed_merging :
    let f : Char → Char := fun c => if c = ',' then ';' else if c = 'b' then 'a' else c
    Renames f ∧
      Renamed f (Formula.parse {} "b(b,@ba)".toList) (Formula.parse {} "a(a;@aa)".toList) ∧
      Formula.parse {} "a(a;@aa)".toList =
        .ok (.callPair ['a'] (.reference .plain ['a']) (.reference .custom ['a', 'a'])) := by
  intro f
  have hrenames : Renames f := by
    refine ⟨?_, ?_, ?_⟩
    · rintro c (rfl | rfl) <;> decide
    · intro c hfree hcomma _
      have hb : c ≠ 'b' := by
        rintro rfl
        exact absurd hfree (by decide)
      simp [f, hcomma, hb]
    · intro c hfree
      have hcomma : c ≠ ',' := by
        rintro rfl
        exact absurd hfree (by decide)
      by_cases hb : c = 'b'
      · subst hb
        decide
      · simpa [f, hcomma, hb] using hfree
  exact ⟨hrenames, parse_renamed hrenames {} "b(b,@ba)".toList, by decide +kernel⟩

end Drafting
