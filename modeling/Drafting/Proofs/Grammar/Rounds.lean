import Drafting.Proofs.Grammar.Reader

/-!
# Rounds

A tree that grows round by round on a text. Every round that takes something in shortens the text, so
that there are rounds enough, and the number of rounds that are allowed does not matter.

## Main definitions

* `Progresses` — a round that shortens the text or leaves it as it is.

Main statement: `looping_eq`.
-/

namespace Drafting.Grammar

open Engine (repeating looping)

variable {round round' : Formula → Reading (Option Formula)} {text rest : List Char}
  {tree : Formula}

theorem bind_congr_ok {α β : Type} {x : Result α} {f g : α → Result β}
    (h : ∀ a, x = .ok a → f a = g a) : (x >>= f) = (x >>= g) := by
  cases x with
  | error fault => rfl
  | ok a => exact h a rfl

/-- A round that takes something in leaves less text, and any other leaves the text as it is. -/
structure Progresses (round : Formula → Reading (Option Formula)) : Prop where
  stops : ∀ ⦃tree text rest⦄, round tree text = .ok (none, rest) → rest = text
  grows : ∀ ⦃tree text grown rest⦄, round tree text = .ok (some grown, rest) →
    rest.length < text.length

/-- A round leaves the text as it is, or takes in what a reading that shortens the text finds, and the
blanks after it. -/
theorem progresses_of_cases
    (h : ∀ tree text, round tree text = .ok (none, text) ∨
      ∃ reading : Result (Formula × List Char),
        round tree text = (do
          let (joined, left) ← reading
          return (some joined, dropBlanks left)) ∧
        ∀ joined left, reading = .ok (joined, left) → left.length < text.length) :
    Progresses round where
  stops tree text rest hround := by
    obtain hnone | ⟨reading, hreading, -⟩ := h tree text
    · exact (Prod.mk.inj (Except.ok.inj (hnone.symm.trans hround))).2.symm
    · simp only [hreading, bind_eq_ok_iff, pure_eq_ok_iff] at hround
      simp at hround
  grows tree text grown rest hround := by
    obtain hnone | ⟨reading, hreading, hshorter⟩ := h tree text
    · simp [hnone] at hround
    · obtain ⟨⟨joined, left⟩, hjoined, hgrown⟩ := bind_eq_ok_iff.1 (hreading.symm.trans hround)
      obtain ⟨-, rfl⟩ := Prod.mk.inj (Except.ok.inj hgrown)
      have h₁ := hshorter joined left hjoined
      have h₂ := length_dropBlanks_le left
      omega

theorem repeating_succ (rounds : Nat) (tree : Formula) (text : List Char) :
    repeating round (rounds + 1) tree text = (do
      let (grown, left) ← round tree text
      match grown with
      | none => return (tree, left)
      | some grown => repeating round rounds grown left) := by
  rw [repeating, bind_apply]
  refine bind_congr_ok fun ⟨grown, left⟩ _ => ?_
  cases grown <;> rfl

/-- The number of rounds does not matter where there is one more than the text is long, nor does
anything that the rounds would do to a longer text. -/
theorem repeating_congr (h : Progresses round) {rounds rounds' : Nat}
    (hround : ∀ tree left, left.length ≤ text.length → round tree left = round' tree left)
    (hrounds : text.length < rounds) (hrounds' : text.length < rounds') (tree : Formula) :
    repeating round rounds tree text = repeating round' rounds' tree text := by
  induction rounds generalizing rounds' tree text with
  | zero => omega
  | succ rounds ih =>
    obtain ⟨rounds', rfl⟩ := Nat.exists_eq_add_one.2 (Nat.zero_lt_of_lt hrounds')
    rw [repeating_succ, repeating_succ, ← hround tree text (Nat.le_refl _)]
    refine bind_congr_ok fun ⟨grown, left⟩ hgrown => ?_
    cases grown with
    | none => rfl
    | some grown =>
      have hleft := h.grows hgrown
      exact ih (fun tree rest hrest => hround tree rest (by omega)) (by omega) (by omega) grown

theorem looping_congr (h : Progresses round)
    (hround : ∀ tree left, left.length ≤ text.length → round tree left = round' tree left)
    (tree : Formula) : looping round tree text = looping round' tree text :=
  repeating_congr h hround (Nat.lt_succ_self _) (Nat.lt_succ_self _) tree

/-- The loop is one round, and the loop again if that took something in. -/
theorem looping_eq (h : Progresses round) (tree : Formula) (text : List Char) :
    looping round tree text = (do
      let (grown, left) ← round tree text
      match grown with
      | none => return (tree, left)
      | some grown => looping round grown left) := by
  refine (repeating_succ text.length tree text).trans (bind_congr_ok fun ⟨grown, left⟩ hgrown => ?_)
  cases grown with
  | none => rfl
  | some grown =>
    exact repeating_congr h (fun _ _ _ => rfl) (h.grows hgrown) (Nat.lt_succ_self _) grown

theorem looping_of_none (h : round tree text = .ok (none, text)) :
    looping round tree text = .ok (tree, text) := by
  refine (repeating_succ text.length tree text).trans ?_
  rw [h]
  rfl

theorem looping_length_le (h : Progresses round) {result : Formula}
    (hloop : looping round tree text = .ok (result, rest)) : rest.length ≤ text.length := by
  induction hlength : text.length using Nat.strongRecOn generalizing tree text with
  | ind n ih =>
    rw [looping_eq h, bind_eq_ok_iff] at hloop
    obtain ⟨⟨grown, left⟩, hgrown, hloop⟩ := hloop
    cases grown with
    | none =>
      obtain ⟨-, rfl⟩ := Prod.mk.inj (Except.ok.inj hloop)
      rw [h.stops hgrown, hlength]
    | some grown =>
      have hleft := h.grows hgrown
      have hrest := ih left.length (by omega) hloop rfl
      omega

end Drafting.Grammar
