import Drafting.Proofs.Canonical.RoundTrip
import Drafting.Proofs.Number.Conversion

/-!
# The shortest text

The text of a finite number is positional, it is read as the number, and no numeral with fewer
significant digits is converted to the number.

The search for the shortest decimal goes through the grids of powers of ten from the coarse ones to
the fine ones and stops at the first that has a point which is rounded to the number. What is rounded
to a number is an interval around it, so that a grid with such a point has one next to the number, and
no coarser grid was passed over wrongly. A numeral with fewer digits either lies on a coarser grid
itself, or has between itself and the text a power of ten that lies on a coarser grid.

## Main definitions

* `Binary64.lowerPoint` — the point of a grid below a number, or at it.

Main statements: `Binary64.not_roundsTo_of_coarser` and `Number.text_shortest`.
-/

namespace Drafting

open Numeral

attribute [local instance (high)] instPowNat

/-! ## Significant digits -/

theorem digitsValue_pos {c : Char} (h : c.isDigit = true) (hne : c ≠ '0') : 0 < digitsValue [c] := by
  have hmem := isDigit_iff_mem.1 h
  simp only [List.mem_cons, List.not_mem_nil, or_false] at hmem
  rcases hmem with rfl | rfl | rfl | rfl | rfl | rfl | rfl | rfl | rfl | rfl
  · exact absurd rfl hne
  all_goals decide

theorem digitsValue_dropWhile (digits : List Char) :
    digitsValue (digits.dropWhile (· = '0')) = digitsValue digits := by
  have hzeros : ∀ c ∈ digits.takeWhile (· = '0'), c = '0' := fun c hc => by
    simpa using List.mem_takeWhile_imp hc
  conv_rhs => rw [← List.takeWhile_append_dropWhile (p := (· = '0')) (l := digits)]
  rw [digitsValue_append, List.eq_replicate_of_mem hzeros, digitsValue_replicate_zero, Nat.zero_mul,
    Nat.zero_add]

namespace Numeral.Parts

variable (parts : Parts)

/-- The value without the sign is a multiple of a power of ten by the significant digits. -/
theorem exists_size_eq : ∃ grid : ℤ, parts.size = digitsValue parts.significant * 10 ^ grid := by
  obtain ⟨zeros, hzeros⟩ :=
    Binary64.exists_zeros ((parts.before ++ parts.after).dropWhile (· = '0'))
  refine ⟨zeros + (parts.exponent - parts.after.length), ?_⟩
  rw [parts.size_eq, ← digitsValue_dropWhile, hzeros, digitsValue_append, digitsValue_replicate_zero,
    List.length_replicate, Nat.add_zero, Nat.cast_mul, Nat.cast_pow, zpow_add₀ (by norm_num),
    zpow_natCast, mul_assoc]
  rfl

theorem all_isDigit_significant : parts.significant.all Char.isDigit = true := by
  rw [List.all_eq_true]
  intro c hc
  have hsublist := (List.rdropWhile_prefix (· = '0') _).sublist.trans
    (List.dropWhile_sublist (l := parts.before ++ parts.after) (· = '0'))
  exact List.all_eq_true.1 parts.all_isDigit c (hsublist.subset hc)

variable {parts}

theorem pow_le_digitsValue_significant (h : parts.significant ≠ []) :
    10 ^ (parts.significant.length - 1) ≤ digitsValue parts.significant := by
  have hdigits := parts.all_isDigit_significant
  obtain ⟨zeros, hprefix⟩ : parts.significant <+: (parts.before ++ parts.after).dropWhile (· = '0') :=
    List.rdropWhile_prefix _ _
  generalize parts.significant = digits at h hdigits hprefix
  obtain ⟨c, digits, rfl⟩ := List.exists_cons_of_ne_nil h
  have hne : c ≠ '0' := by
    have hhead := List.head?_dropWhile_not (· = '0') (parts.before ++ parts.after)
    rw [← hprefix] at hhead
    simpa using hhead
  have hpos := digitsValue_pos (List.all_eq_true.1 hdigits c List.mem_cons_self) hne
  rw [digitsValue_cons, List.length_cons, Nat.add_sub_cancel]
  exact (Nat.le_mul_of_pos_left _ hpos).trans (Nat.le_add_right _ _)

theorem digitsValue_significant_mod (h : parts.significant ≠ []) :
    digitsValue parts.significant % 10 ≠ 0 := by
  have hlast : parts.significant.getLast h ≠ '0' := fun hzero =>
    List.rdropWhile_last_not (· = '0') _ h (decide_eq_true hzero)
  have hdigit := List.all_eq_true.1 parts.all_isDigit_significant _ (List.getLast_mem h)
  have hpos := digitsValue_pos hdigit hlast
  have hlt : digitsValue [parts.significant.getLast h] < 10 ^ 1 :=
    digitsValue_lt (by simpa using hdigit)
  rw [← List.dropLast_append_getLast h, digitsValue_append]
  simp only [List.length_singleton]
  omega

end Numeral.Parts

/-! ## Grids -/

namespace Binary64

variable {magnitude : Nat} {grid : ℤ}

theorem size_mul_gridFraction (magnitude : Nat) (grid : ℤ) : 0 < (gridFraction magnitude grid).2 ∧
    size magnitude * (gridFraction magnitude grid).2 = (gridFraction magnitude grid).1 * 10 ^ grid := by
  have hone : 0 < unitsInOne := Nat.cast_pos.1 unitsInOne_pos
  cases grid with
  | ofNat power =>
    rw [gridFraction, ← unitsInOne]
    refine ⟨Nat.mul_pos hone (Nat.pow_pos (by decide)), ?_⟩
    rw [Nat.cast_mul, ← mul_assoc, size_mul, Nat.cast_pow, Int.ofNat_eq_natCast, zpow_natCast,
      Nat.cast_ofNat]
  | negSucc power =>
    rw [gridFraction, ← unitsInOne]
    dsimp only
    refine ⟨hone, ?_⟩
    rw [size_mul, Nat.cast_mul, Nat.cast_pow, zpow_negSucc, Nat.cast_ofNat,
      mul_inv_cancel_right₀ (by positivity)]

/-- The point of a grid below the value of a magnitude, or at it. -/
def lowerPoint (magnitude : Nat) (grid : ℤ) : Nat :=
  (gridFraction magnitude grid).1 / (gridFraction magnitude grid).2

theorem lowerPoint_le (magnitude : Nat) (grid : ℤ) :
    lowerPoint magnitude grid * 10 ^ grid ≤ size magnitude ∧
      size magnitude ≤ (lowerPoint magnitude grid + 1 : Nat) * 10 ^ grid := by
  obtain ⟨hpos, hsize⟩ := size_mul_gridFraction magnitude grid
  rw [lowerPoint]
  generalize gridFraction magnitude grid = fraction at hpos hsize
  have hlower := Nat.cast_le (α := ℚ).2 (Nat.div_mul_le_self fraction.1 fraction.2)
  have hupper := Nat.cast_le (α := ℚ).2 (Nat.lt_div_mul_add hpos (a := fraction.1)).le
  have hpos' : (0 : ℚ) < fraction.2 := Nat.cast_pos.2 hpos
  have hten : (0 : ℚ) < 10 ^ grid := zpow_pos (by norm_num) _
  push_cast at hlower hupper ⊢
  constructor
  · refine le_of_mul_le_mul_right ?_ hpos'
    rw [hsize, mul_right_comm]
    exact mul_le_mul_of_nonneg_right hlower hten.le
  · refine le_of_mul_le_mul_right ?_ hpos'
    rw [hsize, mul_right_comm, add_one_mul]
    exact mul_le_mul_of_nonneg_right hupper hten.le

/-- The whole numbers on both sides of a fraction, the nearer one first. -/
def neighbours (fraction : Nat × Nat) : List Nat :=
  let lower := fraction.1 / fraction.2
  let nearer := roundEven fraction.1 fraction.2
  [nearer, if nearer = lower then lower + 1 else lower]

theorem mem_neighbours {fraction : Nat × Nat} {point : Nat} : point ∈ neighbours fraction ↔
    point = fraction.1 / fraction.2 ∨ point = fraction.1 / fraction.2 + 1 := by
  simp only [neighbours, roundEven, List.mem_cons, List.not_mem_nil, or_false]
  split
  · rw [if_neg (Nat.succ_ne_self _), or_comm]
  · rw [if_pos rfl]

theorem onGrid?_eq_find? (magnitude : Nat) (grid : ℤ) : onGrid? magnitude grid =
    (neighbours (gridFraction magnitude grid)).find?
      fun point => nearestDecimal point grid = magnitude := rfl

theorem le_of_onGrid? {point : Nat} (h : onGrid? magnitude grid = some point) :
    point ≤ lowerPoint magnitude grid + 1 := by
  rw [onGrid?_eq_find?] at h
  rcases mem_neighbours.1 (List.mem_of_find?_eq_some h) with rfl | rfl
  · exact Nat.le_succ _
  · exact le_rfl

/-- If a point of a grid is rounded to a magnitude, then so is one of the two points around the
magnitude's value. -/
theorem not_roundsTo_of_onGrid? (hfinite : magnitude < infinite) (h : onGrid? magnitude grid = none)
    (point : Nat) : ¬ RoundsTo (point * 10 ^ grid) magnitude := by
  intro hpoint
  have hcandidates : ∀ candidate, candidate = lowerPoint magnitude grid ∨
      candidate = lowerPoint magnitude grid + 1 →
      ¬ RoundsTo (candidate * 10 ^ grid) magnitude := by
    intro candidate hcandidate hrounds
    rw [onGrid?_eq_find?, List.find?_eq_none] at h
    refine h candidate (mem_neighbours.2 hcandidate) (decide_eq_true ?_)
    exact (nearestDecimal_eq_iff _ _ hfinite).2 hrounds
  obtain ⟨hlower, hupper⟩ := lowerPoint_le magnitude grid
  have hten : (0 : ℚ) ≤ 10 ^ grid := (zpow_pos (by norm_num) _).le
  rcases Nat.lt_or_ge (lowerPoint magnitude grid) point with hlt | hle
  · refine hcandidates _ (.inr rfl) ((roundsTo_size magnitude).between hpoint hupper ?_)
    exact mul_le_mul_of_nonneg_right (Nat.cast_le.2 hlt) hten
  · refine hcandidates _ (.inl rfl) (hpoint.between (roundsTo_size magnitude) ?_ hlower)
    exact mul_le_mul_of_nonneg_right (Nat.cast_le.2 hle) hten

/-! ## The search -/

theorem shortestFrom_le (magnitude grids : Nat) : (shortestFrom magnitude grids).2 ≤ grids - 1074 := by
  induction grids with
  | zero => exact le_rfl
  | succ grids ih =>
    rw [shortestFrom]
    split <;> (push_cast; omega)

/-- The search ends at the first grid that has a point which is rounded to the magnitude. -/
theorem not_roundsTo_of_shortestFrom (hfinite : magnitude < infinite) {grids : Nat}
    (hcoarser : (shortestFrom magnitude grids).2 < grid) (hle : grid ≤ grids - 1074) (point : Nat) :
    ¬ RoundsTo (point * 10 ^ grid) magnitude := by
  induction grids with
  | zero => exact absurd (hcoarser.trans_le hle) (lt_irrefl _)
  | succ grids ih =>
    push_cast at hle
    rw [shortestFrom] at hcoarser
    split at hcoarser
    · omega
    · next hnone =>
      rcases Int.lt_or_eq_of_le hle with hlt | rfl
      · exact ih hcoarser (by omega)
      · exact not_roundsTo_of_onGrid? hfinite (by rw [← hnone]; congr 1; omega) point

/-- The search ends at a point that was found, or at the finest grid. -/
theorem onGrid?_shortestFrom (magnitude grids : Nat) :
    (shortestFrom magnitude grids).2 = -1074 ∨
      onGrid? magnitude (shortestFrom magnitude grids).2 = some (shortestFrom magnitude grids).1 := by
  induction grids with
  | zero => exact .inl rfl
  | succ grids ih =>
    rw [shortestFrom]
    split
    · next h => exact .inr h
    · exact ih

theorem lt_ten_pow_length (n : Nat) : n < 10 ^ (decimalDigits n).length :=
  (Nat.length_toDigits_le_iff (by decide) (List.length_pos_of_ne_nil (decimalDigits_ne_nil n))).1 le_rfl

/-- The search starts at a power of ten above the value. -/
theorem exists_start (magnitude : Nat) : ∃ start : Nat, 0 < start ∧
    shortest magnitude = shortestFrom magnitude (start + 1074) ∧
    lowerPoint magnitude start = 0 := by
  refine ⟨(decimalDigits (units magnitude / unitsInOne)).length,
    List.length_pos_of_ne_nil (decimalDigits_ne_nil _), by rw [shortest, unitsInOne], ?_⟩
  rw [lowerPoint, ← Int.ofNat_eq_natCast, gridFraction, ← unitsInOne, ← Nat.div_div_eq_div_mul]
  exact Nat.div_eq_of_lt (lt_ten_pow_length _)

theorem shortest_zero : shortest 0 = (0, 1) := by decide +kernel

/-- If a power of ten lies above the value, then its grid has a point that is rounded to the magnitude
as soon as a coarser grid has one: zero, or the power itself. -/
theorem RoundsTo.exists_point {power grid : ℤ} {point : Nat} (hlower : lowerPoint magnitude power = 0)
    (hle : power ≤ grid) (h : RoundsTo (point * 10 ^ grid) magnitude) :
    ∃ point' : Nat, RoundsTo (point' * 10 ^ power) magnitude := by
  rcases Nat.eq_zero_or_pos point with rfl | hpositive
  · refine ⟨0, ?_⟩
    rwa [Nat.cast_zero, zero_mul] at h ⊢
  · have hsize := (lowerPoint_le magnitude power).2
    rw [hlower] at hsize
    refine ⟨1, (roundsTo_size magnitude).between h hsize ?_⟩
    calc ((1 : Nat) : ℚ) * 10 ^ power ≤ (1 : Nat) * 10 ^ grid :=
          mul_le_mul_of_nonneg_left (zpow_le_zpow_right₀ (by norm_num) hle) (Nat.cast_nonneg 1)
      _ ≤ point * 10 ^ grid :=
          mul_le_mul_of_nonneg_right (Nat.cast_le.2 hpositive) (zpow_pos (by norm_num) _).le

/-- If the shortest decimal has more than one digit, then no grid coarser than its own has a point
that is rounded to the magnitude. -/
theorem not_roundsTo_of_coarser (hfinite : magnitude < infinite) (h : 1 < (shortest magnitude).1)
    (hcoarser : (shortest magnitude).2 < grid) (point : Nat) :
    ¬ RoundsTo (point * 10 ^ grid) magnitude := by
  obtain ⟨start, hpos, hshortest, hlower⟩ := exists_start magnitude
  rw [hshortest] at h hcoarser
  have hsearch : ∀ {grid : ℤ}, (shortestFrom magnitude (start + 1074)).2 < grid → grid ≤ start →
      ∀ point : Nat, ¬ RoundsTo (point * 10 ^ grid) magnitude := fun hlt hle =>
    not_roundsTo_of_shortestFrom hfinite hlt (by push_cast; omega)
  -- On the first grid the search finds no more than one.
  have hstart : (shortestFrom magnitude (start + 1074)).2 < start := by
    refine lt_of_le_of_ne ((shortestFrom_le _ _).trans (by push_cast; omega)) fun heq => ?_
    rcases onGrid?_shortestFrom magnitude (start + 1074) with hfinest | hfound
    · omega
    · have := le_of_onGrid? (heq ▸ hfound)
      omega
  intro hpoint
  rcases le_or_gt grid start with hle | hgt
  · exact hsearch hcoarser hle point hpoint
  · obtain ⟨point', hpoint'⟩ := hpoint.exists_point hlower hgt.le
    exact hsearch hstart le_rfl point' hpoint'

theorem roundsTo_shortest (hfinite : magnitude < infinite) :
    RoundsTo ((shortest magnitude).1 * 10 ^ (shortest magnitude).2) magnitude :=
  (nearestDecimal_eq_iff _ _ hfinite).1 (nearestDecimal_shortest magnitude)

/-! ## Fewer digits -/

variable {coefficient : Nat}

/-- A coefficient without a zero at its end goes with the largest power of ten. -/
theorem grid_le_of_mul_eq {coefficient' : Nat} {grid' : ℤ} (hlast : coefficient % 10 ≠ 0)
    (h : (coefficient : ℚ) * 10 ^ grid = coefficient' * 10 ^ grid') : grid' ≤ grid := by
  by_contra hlt
  obtain ⟨n, rfl⟩ : ∃ n : Nat, grid' = grid + (n + 1 : Nat) := ⟨(grid' - grid - 1).toNat, by omega⟩
  rw [zpow_add₀ (by norm_num), zpow_natCast, mul_left_comm, mul_comm,
    mul_right_inj' (zpow_ne_zero _ (by norm_num))] at h
  have hnat : coefficient = coefficient' * 10 ^ (n + 1) := by exact_mod_cast h
  rw [hnat, Nat.pow_succ, ← Nat.mul_assoc] at hlast
  exact hlast (Nat.mul_mod_left _ _)

theorem coefficient_le_of_mul_eq {coefficient' : Nat} {grid' : ℤ} (hle : grid' ≤ grid)
    (h : (coefficient : ℚ) * 10 ^ grid = coefficient' * 10 ^ grid') : coefficient ≤ coefficient' := by
  have hmul := mul_le_mul_of_nonneg_left (zpow_le_zpow_right₀ (by norm_num : (1 : ℚ) ≤ 10) hle)
    (Nat.cast_nonneg coefficient)
  rw [h] at hmul
  exact Nat.cast_le.1 (le_of_mul_le_mul_right hmul (zpow_pos (by norm_num) _))

/-- A power of ten lies between a number of at most so many places and a longer one that is a multiple
of a power at least as large. -/
theorem RoundsTo.power_between {places point : Nat} {grid' : ℤ} (hplaces : 10 ^ places ≤ coefficient)
    (hpoint : point < 10 ^ places) (hle : grid' ≤ grid)
    (hlower : RoundsTo (point * 10 ^ grid') magnitude)
    (hupper : RoundsTo (coefficient * 10 ^ grid) magnitude) :
    RoundsTo ((1 : Nat) * 10 ^ (grid + (places : ℤ))) magnitude := by
  have hten : ∀ n : ℤ, (0 : ℚ) ≤ 10 ^ n := fun _ => (zpow_pos (by norm_num) _).le
  rw [Nat.cast_one, one_mul, zpow_add₀ (by norm_num), zpow_natCast, mul_comm]
  refine hlower.between hupper ?_ ?_
  · calc (point : ℚ) * 10 ^ grid' ≤ 10 ^ places * 10 ^ grid' :=
          mul_le_mul_of_nonneg_right (by exact_mod_cast hpoint.le) (hten _)
      _ ≤ 10 ^ places * 10 ^ grid :=
          mul_le_mul_of_nonneg_left (zpow_le_zpow_right₀ (by norm_num) hle) (by positivity)
  · exact mul_le_mul_of_nonneg_right (by exact_mod_cast hplaces) (hten _)

/-- A multiple of a power of ten with fewer digits than the shortest decimal is not rounded to the
magnitude. -/
theorem not_roundsTo_of_lt (hfinite : magnitude < infinite) (hlast : coefficient % 10 ≠ 0)
    (hvalue : (coefficient : ℚ) * 10 ^ grid = (shortest magnitude).1 * 10 ^ (shortest magnitude).2)
    {places point : Nat} (hplaces : 10 ^ places ≤ coefficient) (hpoint : point < 10 ^ places)
    (grid' : ℤ) : ¬ RoundsTo (point * 10 ^ grid') magnitude := by
  intro hrounds
  have hgrid := grid_le_of_mul_eq hlast hvalue
  have hle := coefficient_le_of_mul_eq hgrid hvalue
  cases places with
  | zero =>
    obtain rfl : point = 0 := by omega
    rw [Nat.cast_zero, zero_mul] at hrounds
    rw [hrounds.eq_zero, shortest_zero] at hle
    exact hlast (by omega)
  | succ places =>
    have hmany : 1 < (shortest magnitude).1 :=
      (Nat.one_lt_pow (Nat.succ_ne_zero places) (by decide)).trans_le (hplaces.trans hle)
    rcases lt_or_ge (shortest magnitude).2 grid' with hcoarser | hfiner
    · exact not_roundsTo_of_coarser hfinite hmany hcoarser point hrounds
    · have hcoarser : (shortest magnitude).2 < grid + (places + 1 : Nat) := by omega
      have hshortest := roundsTo_shortest hfinite
      rw [← hvalue] at hshortest
      exact not_roundsTo_of_coarser hfinite hmany hcoarser 1
        (hrounds.power_between hplaces hpoint (hfiner.trans hgrid) hshortest)

/-- A decimal has the value of the digits that it is written with. -/
theorem Writes.cast_eq {before after : List Char} (h : Writes coefficient grid before after) :
    (digitsValue (before ++ after) : ℚ) * 10 ^ (0 - after.length : ℤ) = coefficient * 10 ^ grid := by
  rw [zero_sub, zpow_neg, zpow_natCast, mul_inv_eq_iff_eq_mul₀ (by positivity)]
  cases grid with
  | ofNat power =>
    rw [Int.ofNat_eq_natCast, zpow_natCast]
    exact_mod_cast h
  | negSucc power =>
    rw [zpow_negSucc, mul_right_comm, eq_mul_inv_iff_mul_eq₀ (by positivity)]
    exact_mod_cast h

/-- A decimal is written out with the parts of a numeral of its value. -/
theorem exists_parts (negative : Bool) (coefficient : Nat) (exponent : Int) : ∃ parts : Parts,
    positional coefficient exponent = parts.before ++ '.' :: parts.after ∧ parts.before ≠ [] ∧
      parts.after ≠ [] ∧ parts.exponent = 0 ∧ parts.negative = negative ∧
      parts.size = coefficient * 10 ^ exponent := by
  obtain ⟨before, after, htext, hbefore, hafter, hb, ha, hwrites⟩ :=
    exists_positional coefficient exponent
  exact ⟨⟨negative, before, after, 0, by simp [hb, ha], by simp [hbefore]⟩, htext, hbefore, hafter,
    rfl, rfl, (Parts.size_eq _).trans hwrites.cast_eq⟩

/-- A numeral that is rounded to the magnitude has at least as many significant digits as the shortest
decimal. -/
theorem length_significant_le (hfinite : magnitude < infinite) {parts numeral : Parts}
    (hsize : parts.size = (shortest magnitude).1 * 10 ^ (shortest magnitude).2)
    (hnumeral : RoundsTo numeral.size magnitude) :
    parts.significant.length ≤ numeral.significant.length := by
  by_contra hfewer
  have hne : parts.significant ≠ [] := List.ne_nil_of_length_pos (by omega)
  obtain ⟨grid, hgrid⟩ := parts.exists_size_eq
  obtain ⟨grid', hgrid'⟩ := numeral.exists_size_eq
  rw [hgrid'] at hnumeral
  refine not_roundsTo_of_lt hfinite (Parts.digitsValue_significant_mod hne) (hgrid.symm.trans hsize)
    (Parts.pow_le_digitsValue_significant hne) ?_ grid' hnumeral
  exact (digitsValue_lt numeral.all_isDigit_significant).trans_le
    (Nat.pow_le_pow_right (by decide) (by omega))

end Binary64

/-- The text of a finite number is read as the number. -/
theorem Formula.parse_text {options : Options} {x : Binary64} (hfinite : x.isFinite = true)
    (hlimit : 0 < options.limit) : Formula.parse options x.text = .ok (.decimal x) := by
  have hfaithful : (Formula.decimal x).Faithful false := hfinite
  obtain ⟨d, htree, hdepth⟩ := hfaithful.exists_derivation
  have hparse := Grammar.parse_of_derivation d (show (d.depth : Int) ≤ options.limit by
    rw [Formula.nest] at hdepth
    omega)
  rwa [htree] at hparse

/-- The text of a finite number has digits on both sides of a point, and a minus sign in front if the
number is negative. It is read as the number, and no numeral with fewer significant digits is
converted to the number. -/
theorem Number.text_shortest {options : Options} {x : Binary64} (hfinite : x.isFinite = true)
    (hlimit : 0 < options.limit) : ∃ parts : Parts,
      (Number.binary x).text =
        (if x.negative then ['-'] else []) ++ (parts.before ++ '.' :: parts.after) ∧
      parts.before ≠ [] ∧ parts.after ≠ [] ∧ parts.exponent = 0 ∧
      Formula.parse options (Number.binary x).text = .ok (.decimal x) ∧
      parts.ConvertsTo x ∧
      ∀ numeral : Parts, numeral.ConvertsTo x →
        parts.significant.length ≤ numeral.significant.length := by
  have hlt := Binary64.isFinite_iff.1 hfinite
  obtain ⟨parts, htext, hbefore, hafter, hexponent, hnegative, hsize⟩ :=
    Binary64.exists_parts x.negative (Binary64.shortest x.magnitude).1 (Binary64.shortest x.magnitude).2
  refine ⟨parts, ?_, hbefore, hafter, hexponent, Formula.parse_text hfinite hlimit, ?_,
    fun numeral hnumeral => ?_⟩
  · rw [Number.text, Rendering.text_of_literal hfinite, Binary64.magnitudeText_of_lt hlt, htext]
    split <;> rfl
  · exact Parts.convertsTo_iff.2 ⟨hfinite, hnegative.symm, hsize ▸ Binary64.roundsTo_shortest hlt⟩
  · exact Binary64.length_significant_le hlt hsize (Parts.convertsTo_iff.1 hnumeral).2.2

/-- The sum of 0.1 and 0.2 has no numeral with fewer digits than the 17 of its text. -/
theorem Number.text_shortest_sum :
    (Binary64.ofBits 0x3fd3333333333334).isFinite = true ∧ 0 < (Options.limit {}) ∧
      (Number.binary (.ofBits 0x3fd3333333333334)).text = "0.30000000000000004".toList ∧
      Formula.parse {} "0.30000000000000004".toList =
        .ok (.decimal (.ofBits 0x3fd3333333333334)) ∧
      ∀ numeral : Parts, numeral.ConvertsTo (.ofBits 0x3fd3333333333334) →
        17 ≤ numeral.significant.length := by
  have htext : (Number.binary (.ofBits 0x3fd3333333333334)).text = "0.30000000000000004".toList := by
    decide +kernel
  obtain ⟨parts, hparts, -, -, -, hparse, -, hshortest⟩ :=
    Number.text_shortest (show (Binary64.ofBits 0x3fd3333333333334).isFinite = true from rfl)
      (show 0 < Options.limit {} by decide)
  rw [htext] at hparts hparse
  have hbefore : parts.before = ['0'] := by
    have hdigits := congrArg (List.takeWhile Char.isDigit) hparts
    rw [if_neg (by decide), List.nil_append, List.takeWhile_append_of_pos
      (List.all_eq_true.1 parts.all_isDigit_before)] at hdigits
    simpa using hdigits.symm
  have hafter : parts.after = "30000000000000004".toList := by
    rw [hbefore] at hparts
    simpa [Binary64.ofBits] using hparts.symm
  have hlength : parts.significant.length = 17 := by
    rw [Parts.significant, hbefore, hafter]
    rfl
  exact ⟨rfl, by decide, htext, hparse, fun numeral hnumeral => hlength ▸ hshortest numeral hnumeral⟩

end Drafting
