import Drafting.Proofs.Refusal.Decided
import Drafting.Proofs.Refusal.Within

/-!
# The nesting limit is a threshold

More room changes nothing for a text that was not refused as too deep. A text that was refused so is
refused again only at a later place, so that some room is enough for it. Each text has one number of
levels from which on the limit does not matter, and below which it is refused for its depth.

## Main definitions

* `Past` — an outcome that is decided past a place.
* `Deepens` — what one more level of room makes of an outcome.
* `deepening` — that relation as a coupling.
* `Options.upToDepth` — the options with a nesting limit, the stack being no concern.

Main statement: `exists_depth_threshold`.
-/

namespace Drafting

/-- The options with a nesting limit, the stack being no concern. -/
def Options.upToDepth (options : Options) (depth : Int) : Options :=
  { options with maxDepth := depth, stackDepth := none }

namespace Grammar

open Respelling

variable {text place : List Char} {outcome outcome' : Result (Formula × List Char)}

def TooDeep (outcome : Result (Formula × List Char)) : Prop :=
  ∃ place, outcome = .error ⟨.tooDeep, place⟩

/-- The reading got past the place, or was refused for something other than its depth. -/
structure Past (place : List Char) (outcome : Result (Formula × List Char)) : Prop where
  ok : ∀ ⦃tree left⦄, outcome = .ok (tree, left) → left.length < place.length
  deep : ∀ ⦃left⦄, outcome = .error ⟨.tooDeep, left⟩ → left.length < place.length

/-- The second outcome is the first one, or goes on where the first was too deep. -/
def Deepens (outcome outcome' : Result (Formula × List Char)) : Prop :=
  ¬ TooDeep outcome ∧ outcome' = outcome ∨
    ∃ place, outcome = .error ⟨.tooDeep, place⟩ ∧ Past place outcome'

theorem Deepens.same (h : ¬ TooDeep outcome) : Deepens outcome outcome := .inl ⟨h, rfl⟩

theorem Past.bind {next : Formula × List Char → Result (Formula × List Char)}
    (h : Past place outcome)
    (hnext : ∀ tree left, outcome = .ok (tree, left) → Within left (next (tree, left))) :
    Past place (outcome >>= next) := by
  cases outcome with
  | error fault =>
    refine ⟨fun tree left hok => ?_, fun left hdeep => h.deep hdeep⟩
    exact absurd hok (by simp [Bind.bind, Except.bind])
  | ok result =>
    have hwithin := hnext result.1 result.2 rfl
    have hlength := h.ok rfl
    refine ⟨fun tree left hok => ?_, fun left hdeep => ?_⟩
    · exact Nat.lt_of_le_of_lt (hwithin.ok hok).length_le hlength
    · exact Nat.lt_of_le_of_lt (hwithin.fault hdeep).1.length_le hlength

theorem Deepens.bind {next next' : Formula × List Char → Result (Formula × List Char)}
    (h : Deepens outcome outcome')
    (hnext : ∀ tree left, outcome' = .ok (tree, left) →
      Within left (next' (tree, left)) ∧ Deepens (next (tree, left)) (next' (tree, left))) :
    Deepens (outcome >>= next) (outcome' >>= next') := by
  rcases h with ⟨hdeep, rfl⟩ | ⟨place, rfl, hpast⟩
  · cases outcome' with
    | ok result => exact (hnext result.1 result.2 rfl).2
    | error fault => exact .same hdeep
  · exact .inr ⟨place, rfl, hpast.bind fun tree left hok => (hnext tree left hok).1⟩

/-- What more room makes of the outcome of one text, as a coupling. -/
def deepening : Coupling verbatim :=
  .sameText (fun text outcome outcome' => Within text outcome' ∧ Deepens outcome outcome')
    (fun text tree => ⟨.taken tree text, .same (by simp [TooDeep])⟩)
    (fun _ _ hfits hdeep => ⟨.refused hfits, .same (by simp [TooDeep, hdeep])⟩)
    (fun _ _ _ _ hleft hholds => ⟨hholds.1.widen hleft, hholds.2⟩)
    fun _ _ _ _ _ ⟨hwithin, hdeepens⟩ hnext =>
      have hafter tree left hok := hnext tree left (hwithin.ok hok)
      ⟨hwithin.bind fun tree left hok => (hafter tree left hok).1, hdeepens.bind hafter⟩

/-- With a first level of room, a reading gets past its start. -/
theorem past_expression_one (text : List Char) :
    Past text (expression 1 Operator.conditionalLevel text) where
  ok _ _ hok := (expression_settles 1).shortens hok
  deep left hdeep := by
    obtain ⟨taken, rfl, hdescends⟩ :=
      (expression_looksAhead (expression_bounded 0) text).deep hdeep
    have htaken := List.length_pos_of_ne_nil hdescends.ne_nil
    rw [List.length_append]
    omega

theorem expression_deepens (room : Nat) :
    deepening.Nests (expression room Operator.conditionalLevel)
      (expression (room + 1) Operator.conditionalLevel) := by
  refine Coupling.rooms 1 (fun text text' h => ?_) room
  obtain rfl := verbatim_respells_iff.1 h
  exact ⟨rfl, expression_within 1 _ _, .inr ⟨_, rfl, past_expression_one _⟩⟩

theorem formula_deepens (room : Nat) (strict : Bool) (text : List Char) :
    Deepens (formula room strict text) (formula (room + 1) strict text) :=
  (Coupling.formula (expression_deepens room) strict (respells_self text)).2.2

/-! ## More and more room -/

section

variable {outcomes : Nat → Result (Formula × List Char)}
  (h : ∀ room, Deepens (outcomes room) (outcomes (room + 1)))
include h

/-- Once an outcome is not too deep, more room does not change it. -/
theorem outcome_of_le {room room' : Nat} (hroom : ¬ TooDeep (outcomes room)) (hle : room ≤ room') :
    outcomes room' = outcomes room := by
  induction room', hle using Nat.le_induction with
  | base => rfl
  | succ room' _ ih =>
    rcases h room' with ⟨-, hsame⟩ | ⟨place, hdeep, -⟩
    · exact hsame.trans ih
    · exact absurd ⟨place, ih ▸ hdeep⟩ hroom

theorem tooDeep_of_le {room room' : Nat} (hdeep : TooDeep (outcomes room')) (hle : room ≤ room') :
    TooDeep (outcomes room) := by
  by_contra hroom
  exact hroom (outcome_of_le h hroom hle ▸ hdeep)

/-- The place where a text is too deep moves on with each level. -/
theorem place_add_le {room n : Nat} {place place' : List Char}
    (hplace : outcomes room = .error ⟨.tooDeep, place⟩)
    (hplace' : outcomes (room + n) = .error ⟨.tooDeep, place'⟩) :
    place'.length + n ≤ place.length := by
  induction n generalizing place' with
  | zero =>
    obtain ⟨-, rfl⟩ := fault_inj hplace hplace'
    exact Nat.le_refl _
  | succ n ih =>
    obtain ⟨middle, hmiddle⟩ := tooDeep_of_le h ⟨place', hplace'⟩ (Nat.le_succ (room + n))
    rcases h (room + n) with ⟨hnot, -⟩ | ⟨place'', hdeep, hpast⟩
    · exact absurd ⟨middle, hmiddle⟩ hnot
    · obtain ⟨-, rfl⟩ := fault_inj hmiddle hdeep
      have hlt := hpast.deep hplace'
      have hle := ih hmiddle
      omega

/-- There is a least number of levels that is enough. -/
theorem exists_least_room :
    ∃ levels, ¬ TooDeep (outcomes levels) ∧ ∀ room < levels, TooDeep (outcomes room) := by
  classical
  have hexists : ∃ room, ¬ TooDeep (outcomes room) := by
    by_contra hall
    push Not at hall
    obtain ⟨place, hplace⟩ := hall 0
    obtain ⟨place', hplace'⟩ := hall (0 + (place.length + 1))
    have := place_add_le h hplace hplace'
    omega
  exact ⟨Nat.find hexists, Nat.find_spec hexists, fun room hroom =>
    not_not.1 (Nat.find_min hexists hroom)⟩

/-- The more levels are not enough, the later is the place of the refusal. -/
theorem place_lt {room room' : Nat} {place place' : List Char}
    (hplace : outcomes room = .error ⟨.tooDeep, place⟩)
    (hplace' : outcomes room' = .error ⟨.tooDeep, place'⟩) (hlt : room < room') :
    place'.length < place.length := by
  obtain ⟨n, rfl⟩ := Nat.exists_eq_add_of_lt hlt
  have := place_add_le h hplace (n := n + 1) hplace'
  omega

end

end Grammar

/-! ## The limit of a text -/

open Grammar

theorem Cause.message_congr {cause : Cause} (h : cause ≠ tooDeep) (limit limit' : Int) :
    cause.message limit = cause.message limit' := by
  cases cause with
  | tooDeep => exact absurd rfl h
  | endOfText wanted => cases wanted <;> rfl
  | _ => rfl

variable {options : Options} {text : List Char}

@[simp] theorem room_upToDepth (options : Options) (depth : Int) :
    (options.upToDepth depth).room 0 = depth.toNat := by
  simp [Options.room, Options.limit, Options.upToDepth]

/-- Where the text is not too deep, what is reported depends on the outcome alone. -/
theorem parse_upToDepth_congr {depth depth' : Int}
    (h : formula depth.toNat options.strict text = formula depth'.toNat options.strict text)
    (hdeep : ¬ TooDeep (formula depth'.toNat options.strict text)) :
    Formula.parse (options.upToDepth depth) text =
      Formula.parse (options.upToDepth depth') text := by
  rw [Formula.parse, Formula.parse, room_upToDepth, room_upToDepth]
  simp only [Options.upToDepth, Options.limit, h]
  cases houtcome : formula depth'.toNat options.strict text with
  | ok result => rfl
  | error fault =>
    have hcause : fault.cause ≠ .tooDeep := fun hcause => hdeep ⟨fault.left, by
      rw [houtcome, ← hcause]⟩
    simp only [Cursor.failure, Cause.message_congr hcause depth depth']

/-- A text that is too deep is reported with the limit, and at the place where it was reached. -/
theorem parse_of_tooDeep {depth : Int} {place : List Char}
    (h : formula depth.toNat options.strict text = .error ⟨.tooDeep, place⟩) :
    ∃ d, Formula.parse (options.upToDepth depth) text = .error (.invalid d) ∧
      d.code = some ErrorCode.tooDeep.label ∧ d.message = Cause.tooDeep.message depth ∧
      d.location.offset = (text.length - place.length : Nat) := by
  rw [← room_upToDepth options depth] at h
  obtain ⟨d, hparse, code, hcode, hd, hmessage, hlocation⟩ := parse_of_fault h rfl
  obtain rfl := Option.some.inj hcode
  exact ⟨d, hparse, hd, hmessage, congrArg Location.offset hlocation⟩

/-- Only a text that is too deep is reported so. -/
theorem code_of_not_tooDeep {depth : Int} {d : Diagnostic}
    (h : ¬ TooDeep (formula depth.toNat options.strict text))
    (hparse : Formula.parse (options.upToDepth depth) text = .error (.invalid d)) :
    d.code ≠ some ErrorCode.tooDeep.label := by
  intro hlabel
  obtain ⟨cause, left, hfault, code, hcode, hd, -⟩ := exists_fault_of_parse hparse
  have hdeep : code = .tooDeep := ErrorCode.label_injective (Option.some.inj (hd.symm.trans hlabel))
  have hcause : cause = .tooDeep := by
    cases cause <;> simp_all [Cause.code?]
  rw [room_upToDepth, hcause] at hfault
  exact h ⟨left, hfault⟩

/-- Each text has a number of levels from which on it is parsed alike, whatever the limit, and below
which it is refused for its depth. The place of that refusal moves on as the limit grows. -/
theorem exists_depth_threshold (options : Options) (text : List Char) :
    ∃ (levels : Nat) (outcome : Except Failure Formula), 1 ≤ levels ∧
      (∀ d, outcome = .error (.invalid d) → d.code ≠ some ErrorCode.tooDeep.label) ∧
      (∀ depth : Int, levels ≤ depth → Formula.parse (options.upToDepth depth) text = outcome) ∧
      (∀ depth : Int, depth < levels →
        ∃ d, Formula.parse (options.upToDepth depth) text = .error (.invalid d) ∧
          d.code = some ErrorCode.tooDeep.label ∧
          d.message = "Formula is nested more than " ++ toString depth ++ " levels deep") ∧
      ∀ (depth depth' : Int) (d d' : Diagnostic), 0 ≤ depth → depth < depth' → depth' < levels →
        Formula.parse (options.upToDepth depth) text = .error (.invalid d) →
        Formula.parse (options.upToDepth depth') text = .error (.invalid d') →
        d.location.offset < d'.location.offset := by
  have hdeepens (room : Nat) := formula_deepens room options.strict text
  obtain ⟨levels, hlevels, hleast⟩ := exists_least_room hdeepens
  have hpos : 1 ≤ levels := by
    by_contra hzero
    obtain rfl : levels = 0 := by omega
    exact hlevels ⟨text, rfl⟩
  have hbelow (depth : Int) (hdepth : depth < levels) :
      ∃ place, formula depth.toNat options.strict text = .error ⟨.tooDeep, place⟩ :=
    hleast _ (by omega)
  refine ⟨levels, Formula.parse (options.upToDepth levels) text, hpos, fun d => ?_,
    fun depth hdepth => ?_, fun depth hdepth => ?_, ?_⟩
  · exact code_of_not_tooDeep hlevels
  · exact parse_upToDepth_congr (outcome_of_le hdeepens hlevels (by omega)) hlevels
  · obtain ⟨place, hplace⟩ := hbelow depth hdepth
    obtain ⟨d, hparse, hcode, hmessage, -⟩ := parse_of_tooDeep hplace
    exact ⟨d, hparse, hcode, hmessage⟩
  · intro depth depth' d d' hdepth hlt hdepth' hparse hparse'
    obtain ⟨place, hplace⟩ := hbelow depth (by omega)
    obtain ⟨place', hplace'⟩ := hbelow depth' hdepth'
    obtain ⟨e, he, -, -, hoffset⟩ := parse_of_tooDeep hplace
    obtain ⟨e', he', -, -, hoffset'⟩ := parse_of_tooDeep hplace'
    obtain rfl := Failure.invalid.inj (Except.error.inj (hparse.symm.trans he))
    obtain rfl := Failure.invalid.inj (Except.error.inj (hparse'.symm.trans he'))
    have hmoved := place_lt hdeepens hplace hplace' (by omega)
    have hlength := ((formula_within _ _ _).fault hplace).1.length_le
    simp only at hlength
    omega

end Drafting
