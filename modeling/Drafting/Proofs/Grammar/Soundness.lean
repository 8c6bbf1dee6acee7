import Drafting.Proofs.Grammar.Chains

/-!
# Soundness of the readings

Whatever a reading takes has a derivation with the tree that the reading results in. The loop over
operators keeps a derivation of what it has taken so far: of a text that binds tighter than the level
of the loop, and at least as tight as the next operator, so that it may stand on the left of it.

Main statement: `expression_sound`.
-/

namespace Drafting.Grammar

/-- A reading whose results are all derived within the room. -/
structure Sound (room : Nat) (reading : Nested) : Prop extends Settles reading where
  derives : ∀ ⦃text tree rest⦄, reading text = .ok (tree, rest) →
    Derives room .formula text rest tree

variable {room : Nat} {nested : Nested} {text rest : List Char} {tree : Formula}

/-- A formula that blanks may separate from a sign reaches up to the sign. -/
theorem Sound.derives_upTo {c : Char} {finish : List Char} (h : Sound room nested)
    (hnested : nested text = .ok (tree, finish)) (hfinish : dropBlanks finish = c :: rest) :
    Derives room .formula text (c :: rest) tree := by
  have hdone := (h.done hnested).1
  rw [hfinish] at hdone
  rw [hdone]
  exact h.derives hnested

theorem group_sound (h : Sound room nested) (hgroup : group nested text = .ok (tree, rest)) :
    ∃ start, text = '(' :: start ∧ Derives room .formula start (')' :: rest) tree := by
  obtain ⟨start, finish, rfl, hnested, hfinish⟩ := group_eq_ok_iff.1 hgroup
  exact ⟨start, rfl, h.derives_upTo hnested hfinish⟩

/-- A value, up to the blanks that are dropped after a name. -/
theorem value_sound {negative : Bool} (h : Sound room nested)
    (hvalue : value nested negative text = .ok (tree, rest)) :
    ∃ finish, Skips finish rest ∧ Derives room (.value negative) text finish tree := by
  obtain ⟨token, after, rfl, htoken, hend, ⟨hnumber, rfl⟩ | ⟨hname, operand, hnamed, rfl⟩⟩ :=
    value_eq_ok_iff.1 hvalue
  · exact ⟨rest, .refl rest, .literal htoken hend hnumber⟩
  rcases named_eq_ok_iff.1 hnamed with ⟨-, rfl, rfl⟩ | hcall
  · exact ⟨after, skips_dropBlanks after, .name htoken hend hname⟩
  obtain ⟨start, first, finish, hstart, hnested, ⟨hfinish, rfl⟩ |
    ⟨hminus, separator, middle, second, finish', hfinish, hseparator, hnested', hfinish', rfl⟩⟩ :=
    callOf_eq_ok_iff.1 hcall
  all_goals
    have hopen : Skips after ('(' :: start) := hstart ▸ skips_dropBlanks after
  · exact ⟨rest, .refl rest, .call htoken hend hname hopen (h.derives_upTo hnested hfinish)⟩
  · exact ⟨rest, .refl rest, .callPair htoken hend hname hminus hopen
      (h.derives_upTo hnested hfinish) hseparator (h.derives_upTo hnested' hfinish')⟩

theorem negated_sound {start : List Char} (h : Sound room nested) (hskip : Skips start text)
    (hnegated : negated nested text = .ok (tree, rest)) :
    ∃ finish, Skips finish rest ∧ Derives room .atom ('-' :: start) finish tree := by
  obtain ⟨c, start, rfl, ⟨rfl, inner, hgroup, rfl⟩ | ⟨mark, reference, hmark, hmarked, rfl⟩ |
    ⟨hstart, hvalue⟩⟩ := negated_eq_ok_iff.1 hnegated
  · obtain ⟨start', heq, hinner⟩ := group_sound h hgroup
    obtain ⟨-, rfl⟩ := List.cons.inj heq
    exact ⟨rest, .refl rest, .negatedGroup hskip hinner⟩
  · obtain ⟨stem, rfl, rfl, hstem, hend⟩ := markedName_eq_ok_iff.1 hmarked
    exact ⟨rest, .refl rest, .negatedMarked hmark hskip hstem hend⟩
  · obtain ⟨finish, hfinish, hbody⟩ := value_sound h hvalue
    exact ⟨finish, hfinish, .negatedValue hskip hstart hbody⟩

theorem atom_sound (h : Sound room nested) (hatom : atom nested text = .ok (tree, rest)) :
    ∃ finish, Skips finish rest ∧ Derives room .atom text finish tree := by
  obtain ⟨c, start, rfl, ⟨rfl, inner, hgroup, rfl⟩ | ⟨rfl, hnegated⟩ | ⟨mark, hmark, hmarked⟩ |
    ⟨hstart, hvalue⟩⟩ := atom_eq_ok_iff.1 hatom
  · obtain ⟨start', heq, hinner⟩ := group_sound h hgroup
    obtain ⟨-, rfl⟩ := List.cons.inj heq
    exact ⟨rest, .refl rest, .group hinner⟩
  · exact negated_sound h (skips_dropBlanks start) hnegated
  · obtain ⟨stem, rfl, rfl, hstem, hend⟩ := markedName_eq_ok_iff.1 hmarked
    exact ⟨rest, .refl rest, .marked hmark hstem hend⟩
  · obtain ⟨finish, hfinish, hbody⟩ := value_sound h hvalue
    exact ⟨finish, hfinish, .unsigned hstart hbody⟩

/-- The loop over operators, begun with a derived text that may stand on the left of the operator
ahead. -/
theorem climbs_sound (h : Sound room nested) {level : Int} {category : Category}
    {left : Formula} {start finish : List Char} (hleft : Derives room category start finish left)
    (hbinds : category.Binds level) (hskip : Skips finish text)
    (hahead : ∀ op, Lead.ofText? text = some (.operator op) → category.Binds (op.level - 1))
    (hclimbs : climbs nested level left text = .ok (tree, rest)) :
    ∃ category' finish', category'.Binds level ∧ Skips finish' rest ∧
      Derives room category' start finish' tree := by
  obtain ⟨n, hn⟩ : ∃ n, text.length ≤ n := ⟨_, Nat.le_refl _⟩
  induction n using Nat.strongRecOn generalizing level category left start finish text tree rest with
  | ind n ih =>
    obtain ⟨-, rfl, rfl⟩ | ⟨op, after, right, text', hlevel, hop, hoperand, hclimbs⟩ :=
      climbs_cases h.shortens hclimbs
    · exact ⟨category, finish, hbinds, hskip, hleft⟩
    · have h₁ := hop.length_lt
      have h₂ := length_dropBlanks_le after
      have h₃ := operand_shortens h.shortens op.level hoperand
      have hdone := operand_done h.shortens hoperand
      rw [operand_eq h.shortens, bind_eq_ok_iff] at hoperand
      obtain ⟨⟨first, left'⟩, hatom, hright⟩ := hoperand
      have h₄ := atom_shortens h.shortens hatom
      have h₅ := length_dropBlanks_le left'
      obtain ⟨middle, hmiddle, hfirst⟩ := atom_sound h hatom
      obtain ⟨category', finish', hbinds', hskip', hright⟩ :=
        ih (n - 1) (by omega) hfirst trivial (hmiddle.trans (skips_dropBlanks left'))
          (fun _ _ => trivial) hright (by omega)
      have hjoined : Derives room (.joined op.tier) start finish' (.binary left op right) := by
        obtain ⟨announced, hlead, hannounced⟩ := hop.lead
        rw [← op.level_tier] at hannounced hbinds'
        refine .join (hleft.joined_of_binds ?_) hskip hop (skips_dropBlanks after)
          (hright.operand_of_binds hbinds')
        exact hannounced ▸ hahead announced hlead
      refine ih (n - 1) (by omega) hjoined ?_ hskip' ?_ hclimbs (by omega)
      · rw [Category.Binds, op.level_tier]
        exact hlevel
      · intro next hnext
        exact Int.sub_one_lt_of_le (op.level_tier ▸ hdone.2 next hnext)

theorem operand_sound (h : Sound room nested) {level : Int}
    (hoperand : operand nested level text = .ok (tree, rest)) :
    ∃ category finish, category.Binds level ∧ Skips finish rest ∧
      Derives room category text finish tree := by
  rw [operand_eq h.shortens, bind_eq_ok_iff] at hoperand
  obtain ⟨⟨first, left⟩, hatom, hclimbs⟩ := hoperand
  obtain ⟨middle, hmiddle, hfirst⟩ := atom_sound h hatom
  exact climbs_sound h hfirst trivial (hmiddle.trans (skips_dropBlanks left)) (fun _ _ => trivial)
    hclimbs

/-- Whatever an expression reads has a derivation with the tree that it results in. -/
theorem expression_sound (room : Nat) :
    Sound room (expression room Operator.conditionalLevel) := by
  induction room with
  | zero => exact ⟨expression_settles 0, by simp [expression_zero]⟩
  | succ room ih =>
    refine ⟨expression_settles (room + 1), fun text tree rest hexpression => ?_⟩
    obtain ⟨first, finish, hoperand, hrest⟩ := (expression_eq_ok_iff ih.toSettles).1 hexpression
    obtain ⟨category, middle, hbinds, hmiddle, hfirst⟩ := operand_sound ih hoperand
    have hcomparison : Derives room (.joined .comparison) (dropBlanks text) middle first :=
      hfirst.joined_of_binds hbinds
    rcases hrest with ⟨-, rfl, rfl⟩ | hbranches
    · exact .plain (skips_dropBlanks text) hcomparison hmiddle
    · obtain ⟨onTrue, whenTrue, finish', onFalse, whenFalse, rfl, htrue, hfinish, hfalse, rfl⟩ :=
        branches_eq_ok_iff.1 hbranches
      exact .conditional (skips_dropBlanks text) hcomparison hmiddle
        ((ih.derives_upTo htrue hfinish).skip (skips_dropBlanks onTrue))
        ((ih.derives hfalse).skip (skips_dropBlanks onFalse))

end Drafting.Grammar
