import Drafting.Proofs.Refusal.Completion
import Drafting.Session

/-!
# What a reading depends on

A reading that is not strict leaves a text in which nothing continues the formula, and depends on
nothing but what it took: this part alone is the same formula, and it is read as far before any sign
that closes a group, an argument or a branch.

## Main definitions

* `Session.ReadsTo` — a formula and the place where the reading of it ends.

Main statement: `parse_taken`.
-/

namespace Drafting

open Grammar

variable {options : Options} {text left : List Char} {tree : Formula} {offset : Nat}

/-- The formula at the start of a text is read, and the cursor is left at an offset. -/
def Session.ReadsTo (options : Options) (text : List Char) (tree : Formula) (offset : Nat) : Prop :=
  ∃ after, (start options text).run .formula = (.ok (.tree tree), after) ∧
    after.cursor.offset = offset

namespace Grammar

/-- The signs of operators and of the conditional. -/
def leadSigns : List Char := ['*', '+', '/', '-', '^', '?', '>', '<', '=', '!']

theorem not_mem_leadSigns (h : Lead.ofText? text = none) : ∀ c ∈ text.head?, c ∉ leadSigns := by
  have hsigns : leadSigns.all (fun c => (Lead.ofChar? c).isSome) = true := by decide
  intro c hc hmem
  have hsome := List.all_eq_true.1 hsigns c hmem
  simp_all [Lead.ofText?, Option.mem_def]

/-- Where nothing continues a formula, there is no blank, no operator and no conditional. -/
theorem Done.head? (h : Done text) : ∀ c ∈ text.head?, isBlank c = false ∧ c ∉ leadSigns := by
  intro c hc
  refine ⟨?_, not_mem_leadSigns h.2 c hc⟩
  obtain ⟨rest, rfl⟩ := List.head?_eq_some_iff.1 hc
  exact isBlank_of_dropBlanks_eq_cons h.1

/-- An expression is read the same where what is left is replaced by a closed text. -/
theorem expression_completesAs {room : Nat}
    (h : expression room Operator.conditionalLevel text = .ok (tree, left)) :
    ∃ taken, text = taken ++ left ∧
      CompletesAs (expression room Operator.conditionalLevel) taken tree := by
  rcases expression_viable room with hroomy | hdeep
  · exact (hroomy.mends text).close h
  · rw [hdeep] at h
    cases h

end Grammar

theorem Session.readsTo_iff :
    ReadsTo options text tree offset ↔
      ∃ left, formula (options.room 0) options.strict text = .ok (tree, left) ∧
        text.length - left.length = offset := by
  cases hformula : formula (options.room 0) options.strict text with
  | error fault => simp [ReadsTo, run, room, start, Cursor.rest, Cursor.start, finish, hformula]
  | ok result =>
    simp [ReadsTo, run, room, start, Cursor.rest, Cursor.start, finish, hformula, Cursor.movedTo,
      Prod.ext_iff]

/-- A reading that is not strict leaves nothing that continues the formula. What it took is the
formula in full, and is read to its end before any closed text. -/
theorem parse_taken (h : Session.ReadsTo { options with strict := false } text tree offset) :
    (∀ c ∈ (text.drop offset).head?, isBlank c = false ∧ c ∉ leadSigns) ∧
      Formula.parse { options with strict := true } (text.take offset) = .ok tree ∧
      ∀ ahead, Closed ahead →
        Session.ReadsTo { options with strict := false } (text.take offset ++ ahead) tree
          offset := by
  obtain ⟨left, hformula, hoffset⟩ := Session.readsTo_iff.1 h
  obtain ⟨hexpression, -⟩ := formula_eq_ok_iff.1 hformula
  have hdone : Done left := (expression_settles _).done hexpression
  obtain ⟨taken, rfl, hcompletes⟩ := expression_completesAs hexpression
  obtain rfl : taken.length = offset := by simpa using hoffset
  rw [List.take_left, List.drop_left]
  refine ⟨hdone.head?, ?_, ?_⟩
  · have halone := hcompletes [] closed_nil
    rw [List.append_nil] at halone
    exact parse_eq_ok_iff.2 ⟨[], formula_eq_ok_iff.2 ⟨halone, fun _ => rfl⟩⟩
  · intro ahead hahead
    apply Session.readsTo_iff.2
    exact ⟨ahead, formula_eq_ok_iff.2 ⟨hcompletes ahead hahead, by simp⟩, by simp⟩

/-- In `sin(a) b` the call is read, and the blank after it. -/
theorem parse_taken_call :
    let tree := Formula.call "sin".toList (.reference .plain ['a'])
    Session.ReadsTo {} "sin(a) b".toList tree 7 ∧
      Formula.parse { strict := true } "sin(a) ".toList = .ok tree ∧
      Session.ReadsTo {} "sin(a) :c".toList tree 7 := by
  intro tree
  have hreads : Session.ReadsTo {} "sin(a) b".toList tree 7 :=
    Session.readsTo_iff.2 ⟨['b'], by decide +kernel, rfl⟩
  obtain ⟨-, halone, hahead⟩ := @parse_taken {} _ _ _ hreads
  exact ⟨hreads, halone, hahead [':', 'c'] (closed_closer (by decide) ['c'])⟩

end Drafting
