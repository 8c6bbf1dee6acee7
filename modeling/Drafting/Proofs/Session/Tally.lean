import Drafting.Proofs.Grammar.Simulation
import Drafting.Proofs.Session.Counting

/-!
# The counter tallies with the room

A counted reading that starts with some levels open has the result of the reading that is given the
levels left up to the limit, or those that the stack holds if these are fewer. It leaves the counter as
it was, but for one level if the limit was exceeded, however deep that happened. When the stack gives
out first, it leaves the counter as it was.

## Main definitions

* `outcome` — what becomes of the counter.
* `leak` — what a reading adds to the counter.
* `Tallies` — a counted reading with the result of a reading.
* `tallying` — the engine of counted readings as one that follows the text.

Main statements: `operand_tallies`, `expression_tallies` and `formula_tallies`.
-/

namespace Drafting.Counting

open Grammar (Result Reading Simulation)

variable {α β : Type} {exhausts : Bool} {depth : Nat}

/-! ## Outcomes -/

/-- The end of what is done with the counter, and the counter after it. -/
def outcome (counted : Counter α) (depth : Nat) : Except Stop α × Nat := counted depth

theorem outcome_bind (counted : Counter α) (next : α → Counter β) (depth : Nat) :
    outcome (counted >>= next) depth =
      match outcome counted depth with
      | (.ok a, after) => outcome (next a) after
      | (.error stop, after) => (.error stop, after) := by
  change (match counted depth with | (a, after) => ExceptT.bindCont next a after) = _
  rw [outcome]
  rcases counted depth with ⟨_ | _, after⟩ <;> rfl

theorem outcome_modify (f : Nat → Nat) (next : Unit → Counter α) (depth : Nat) :
    outcome (modify f >>= next) depth = outcome (next ()) (f depth) := rfl

theorem outcome_get (next : Nat → Counter α) (depth : Nat) :
    outcome (get >>= next) depth = outcome (next depth) depth := rfl

theorem outcome_finally (counted : Counter α) (f : Nat → Nat) (depth : Nat) :
    outcome (tryFinally counted (modify f)) depth =
      ((outcome counted depth).1, f (outcome counted depth).2) := by
  simp only [tryFinally, tryFinally', MonadFinally.tryFinally', outcome, Functor.map, ExceptT.map,
    ExceptT.mk, bind, StateT.bind]
  rcases counted depth with ⟨_ | _, after⟩ <;> rfl

/-- A level that is refused stays counted in, any other is counted out after the reading. -/
theorem outcome_nesting (limit : Int) (text : List Char) (counted : Counter α) (depth : Nat) :
    outcome (nesting limit text counted) depth =
      if limit < (depth + 1 : Nat) then (.error (.refused ⟨.tooDeep, text⟩), depth + 1)
      else ((outcome counted (depth + 1)).1, (outcome counted (depth + 1)).2 - 1) := by
  rw [nesting, outcome_modify, outcome_get]
  split
  · rfl
  · exact outcome_finally counted (· - 1) (depth + 1)

/-! ## What a reading leaks -/

/-- Whether a reading was refused for its depth. -/
def tooDeep : Result α → Bool
  | .error ⟨.tooDeep, _⟩ => true
  | _ => false

theorem tooDeep_error {cause : Cause} (h : cause ≠ .tooDeep) (left : List Char) :
    tooDeep (.error ⟨cause, left⟩ : Result α) = false := by
  cases cause <;> simp_all [tooDeep]

theorem tooDeep_map (reading : Result α) (f : α → β) :
    tooDeep (do return f (← reading)) = tooDeep reading := by
  rcases reading with ⟨_ | _, _⟩ | _ <;> rfl

theorem tooDeep_expect (wanted text : List Char) : tooDeep (Grammar.expect wanted text) = false := by
  cases text with
  | nil => rfl
  | cons c text =>
    rw [Grammar.expect]
    split <;> rfl

theorem tooDeep_readToken (stops : Char → Bool) (text : List Char) :
    tooDeep (Grammar.readToken stops text) = false := by
  cases text with
  | nil => rfl
  | cons c text =>
    rw [Grammar.readToken]
    split <;> rfl

/-! ## Tallying -/

/-- How a counted reading stops at a fault. Where the stack gives out first, a text that is too deep
is not refused; the reading is given up there. -/
def stopOf (exhausts : Bool) : Grammar.Fault → Stop
  | ⟨.tooDeep, left⟩ => if exhausts then .exhausted left else .refused ⟨.tooDeep, left⟩
  | fault => .refused fault

theorem stopOf_of_ne {cause : Cause} (h : cause ≠ .tooDeep) (left : List Char) :
    stopOf exhausts ⟨cause, left⟩ = .refused ⟨cause, left⟩ := by
  cases cause <;> simp_all [stopOf]

/-- What a reading adds to the counter for good. -/
def leak (exhausts : Bool) (reading : Result α) : Nat := (tooDeep reading && !exhausts).toNat

/-- The counted reading has the result of the reading, and adds to the counter what that leaks. -/
def Tallies (exhausts : Bool) (depth : Nat) (counted : Counter α) (reading : Result α) : Prop :=
  outcome counted depth = (reading.mapError (stopOf exhausts), depth + leak exhausts reading)

/-- A reading that is never too deep is no matter of the counter. -/
theorem uncounted_tallies {reading : Reading α} {text : List Char}
    (h : tooDeep (reading text) = false) :
    Tallies exhausts depth (uncounted reading text) (reading text) := by
  rw [Tallies, uncounted, leak, h]
  cases hreading : reading text with
  | ok result => rfl
  | error fault =>
    obtain ⟨cause, left⟩ := fault
    have hcause : cause ≠ .tooDeep := by
      rintro rfl
      simp [hreading, tooDeep] at h
    rw [Except.mapError, Except.mapError, stopOf_of_ne hcause]
    rfl

/-- A level is counted in and out while it is within the limit, and leaks where it is not. -/
theorem nesting_tallies {limit : Int} {text : List Char} {counted : Counter α} {reading : Result α}
    (hrefused : limit < depth + 1 → exhausts = false ∧ reading = .error ⟨.tooDeep, text⟩)
    (hwithin : depth + 1 ≤ limit → Tallies exhausts (depth + 1) counted reading) :
    Tallies exhausts depth (nesting limit text counted) reading := by
  rw [Tallies, outcome_nesting]
  by_cases hlimit : limit < (depth + 1 : Nat)
  · obtain ⟨rfl, rfl⟩ := hrefused (by omega)
    rw [if_pos hlimit]
    rfl
  · rw [if_neg hlimit, hwithin (by omega)]
    congr 1
    omega

/-- Where the stack gives out, the level is counted out again. -/
theorem exhausted_tallies (text : List Char) :
    Tallies true depth (throw (.exhausted text) : Counter α) (.error ⟨.tooDeep, text⟩) := rfl

/-! ## The engine -/

/-- The counted reading tallies with the reading of a text, but for what it makes of the result. -/
def Follows (exhausts : Bool) (depth : Nat) (f : β → α) (counted : Counted α) (reading : Reading β)
    (text : List Char) : Prop :=
  Tallies exhausts depth (counted text) (do let (b, left) ← reading text; return (f b, left))

theorem follows_id_iff {counted : Counted α} {reading : Reading α} {text : List Char} :
    Follows exhausts depth id counted reading text ↔
      Tallies exhausts depth (counted text) (reading text) := by
  rw [Follows]
  exact Iff.of_eq (congrArg _ (bind_pure _))

theorem uncounted_follows {reading : Reading α} {text : List Char}
    (h : tooDeep (reading text) = false) :
    Follows exhausts depth id (uncounted reading) reading text :=
  follows_id_iff.2 (uncounted_tallies h)

theorem Follows.bind {γ δ : Type} {f : β → α} {k : δ → γ} {first : Counted γ} {reading : Reading δ}
    {next : γ → Counted α} {after : δ → Reading β} {text : List Char}
    (h : Follows exhausts depth k first reading text)
    (hnext : ∀ d left, reading text = .ok (d, left) →
      Follows exhausts depth f (next (k d)) (after d) left) :
    Follows exhausts depth f (first >>= next) (reading >>= after) text := by
  have hbind : outcome ((first >>= next) text) depth =
      match outcome (first text) depth with
      | (.ok (a, left), after) => outcome (next a left) after
      | (.error stop, after) => (.error stop, after) := by
    refine (outcome_bind (first text) (fun result => next result.1 result.2) depth).trans ?_
    rcases outcome (first text) depth with ⟨_ | ⟨_, _⟩, _⟩ <;> rfl
  rw [Follows, Tallies, hbind, h, Grammar.bind_apply]
  cases hreading : reading text with
  | ok result => exact hnext result.1 result.2 hreading
  | error fault =>
    obtain ⟨cause, left⟩ := fault
    cases cause <;> rfl

/-- None of the operations is a matter of the counter. -/
def tallying (exhausts : Bool) (depth : Nat) : Simulation Counted where
  tree := id
  place := id
  Follows := Follows exhausts depth
  pure_follows _ _ _ := rfl
  bind_follows := .bind
  peek_follows _ := uncounted_follows rfl
  advance_follows _ _ := uncounted_follows rfl
  skipBlanks_follows _ := uncounted_follows rfl
  take_follows wanted text := uncounted_follows ((tooDeep_map _ _).trans (tooDeep_expect _ _))
  takeToken_follows text := uncounted_follows (tooDeep_readToken _ _)
  place_follows _ := uncounted_follows rfl
  refuse_follows _ _ hcause text := uncounted_tallies (tooDeep_error hcause text)
  levelOf_follows _ _ := uncounted_follows rfl
  build_follows node _ _ := by cases node <;> exact uncounted_follows rfl
  rounds_follows _ := uncounted_follows rfl

/-! ## Formulas -/

section

variable {limit : Int} {levels room : Nat}

/-- No level is left up to the limit. -/
theorem expression_at_limit (hroom : room = min (limit - depth).toNat levels)
    (hexhausts : exhausts = decide (levels < (limit - depth).toNat)) (level : Int)
    (text : List Char) (hlimit : limit < depth + 1) :
    exhausts = false ∧ Grammar.expression room level text = .error ⟨.tooDeep, text⟩ := by
  obtain rfl : room = 0 := by omega
  exact ⟨hexhausts.trans (decide_eq_false (by omega)), rfl⟩

/-- The reading has the room that is left up to the limit, or the levels of the stack if there are
fewer. -/
theorem expression_tallies (hroom : room = min (limit - depth).toNat levels)
    (hexhausts : exhausts = decide (levels < (limit - depth).toNat)) (level : Int)
    (text : List Char) :
    Tallies exhausts depth (expression limit levels level text)
      (Grammar.expression room level text) := by
  induction levels generalizing depth room level text with
  | zero =>
    refine nesting_tallies (expression_at_limit hroom hexhausts level text) fun hlimit => ?_
    obtain rfl : room = 0 := by omega
    obtain rfl : exhausts = true := hexhausts.trans (decide_eq_true (by omega))
    exact exhausted_tallies text
  | succ levels ih =>
    -- One level counted in is one level of room less, and one less of the stack.
    refine nesting_tallies (expression_at_limit hroom hexhausts level text) fun hlimit => ?_
    obtain ⟨room, rfl⟩ : ∃ left, room = left + 1 := Nat.exists_eq_add_one.2 (by omega)
    have hroom' : room = min (limit - (depth + 1 : Nat)).toNat levels := by omega
    have hexhausts' : exhausts = decide (levels < (limit - (depth + 1 : Nat)).toNat) := by
      rw [hexhausts]
      congr 1
      simp only [eq_iff_iff]
      omega
    have hnested (text : List Char) :=
      follows_id_iff.2 (ih hroom' hexhausts' Operator.conditionalLevel text)
    have hsettles := Grammar.expression_settles room
    have hshortens := Grammar.operand_shortens hsettles.shortens
    have hoperand := (tallying exhausts (depth + 1)).operand hnested hsettles.shortens
    exact follows_id_iff.1 ((tallying exhausts (depth + 1)).expressionOf hnested hsettles hshortens
      (hoperand level) (fun op => hoperand op.level) text)

theorem formula_tallies (hroom : room = min (limit - depth).toNat levels)
    (hexhausts : exhausts = decide (levels < (limit - depth).toNat)) (strict : Bool)
    (text : List Char) :
    Tallies exhausts depth (formula limit levels strict text)
      (Grammar.formula room strict text) := by
  have hexpression :=
    follows_id_iff.2 (expression_tallies hroom hexhausts Operator.conditionalLevel text)
  refine follows_id_iff.1 (hexpression.bind fun tree left _ => ?_)
  exact (tallying exhausts depth).ending strict tree left

end

end Drafting.Counting
