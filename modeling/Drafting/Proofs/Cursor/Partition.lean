import Drafting.Cursor.Move
import Drafting.Proofs.Stepping.Follows
import Drafting.Proofs.Text.Token

/-!
# Going through a text

Moves of a cursor that are made one after the other, going on after refusals, take the text apart. A
move that is not refused takes the piece between two places, one that is refused takes nothing, and
the pieces one after the other are the text up to the cursor.

## Main definitions

* `Scan` — the moves that never go back.
* `Cursor.Passes` — two cursors and the piece between them.
* `Stride`, `Cursor.runs` — a move with the cursors around it, and moves one after the other.
* `Stride.Sound` — what is said of every move.

Main statement: `Cursor.runs_partition`.
-/

namespace Drafting

/-- The moves that never go back: all but the free choice of a place. The delimiters that are to stop a
token may be texts of any length. -/
inductive Scan
  | peek
  | peekNext
  | atEnd
  | location
  | marked
  | inspect
  | advance
  | expect (wanted : List Char)
  | skipBlanks
  | readToken (delimiters : List (List Char))
deriving DecidableEq, Repr

namespace Scan

/-- The characters among some delimiters. A text of any other length is no character, so that it
never stops a token. -/
def stops (delimiters : List (List Char)) : List Char :=
  delimiters.filterMap fun
    | [c] => some c
    | _ => none

theorem mem_stops {delimiters : List (List Char)} {c : Char} :
    c ∈ stops delimiters ↔ [c] ∈ delimiters := by
  simp only [stops, List.mem_filterMap]
  grind

def move : Scan → Move
  | peek => .peek
  | peekNext => .peekNext
  | atEnd => .atEnd
  | location => .location
  | marked => .marked
  | inspect => .inspect
  | advance => .advance
  | expect wanted => .expect wanted
  | skipBlanks => .skipBlanks
  | readToken delimiters => .readToken (stops delimiters)

end Scan

namespace Cursor

/-! ## Pieces -/

/-- The text ahead of a cursor begins with a piece, and the other cursor stands after it. -/
structure Passes (before : Cursor) (piece : List Char) (after : Cursor) : Prop where
  text_eq : after.text = before.text
  offset_eq : after.offset = before.offset + piece.length
  rest_eq : before.rest = piece ++ after.rest

namespace Passes

variable {before mid after : Cursor} {piece piece' left : List Char}

theorem refl (cursor : Cursor) : cursor.Passes [] cursor := ⟨rfl, rfl, rfl⟩

theorem trans (h : before.Passes piece mid) (g : mid.Passes piece' after) :
    before.Passes (piece ++ piece') after where
  text_eq := g.text_eq.trans h.text_eq
  offset_eq := by rw [g.offset_eq, h.offset_eq, List.length_append, Nat.add_assoc]
  rest_eq := by rw [h.rest_eq, g.rest_eq, List.append_assoc]

theorem movedTo (h : piece ++ left = before.rest) : before.Passes piece (before.movedTo left) where
  text_eq := rfl
  offset_eq := by simp [Cursor.movedTo, ← h]
  rest_eq := by rw [rest_movedTo ⟨piece, h⟩, h]

theorem take_rest (h : before.Passes piece after) : before.rest.take piece.length = piece := by
  rw [h.rest_eq, List.take_left]

theorem take_offset (h : before.Passes piece after) :
    after.text.take after.offset = before.text.take before.offset ++ piece := by
  rw [h.text_eq, h.offset_eq, List.take_add, ← rest, h.take_rest]

/-- The piece is the text between the two places. -/
theorem piece_eq (h : before.Passes piece after) :
    (after.text.take after.offset).drop before.offset = piece := by
  rw [h.text_eq, h.offset_eq, List.drop_take, Nat.add_sub_cancel_left, ← rest, h.take_rest]

theorem offset_le (h : before.Passes piece after) (hbefore : before.offset ≤ before.text.length) :
    after.offset ≤ after.text.length := by
  have hlength := congrArg List.length h.rest_eq
  grind [h.text_eq, h.offset_eq, rest]

end Passes

end Cursor

/-! ## One move -/

/-- A move, with the cursors before and after it. -/
structure Stride where
  scan : Scan
  outcome : Except Refusal Answer
  before : Cursor
  after : Cursor
deriving DecidableEq, Repr

/-- The text that a move answered. -/
def answered : Except Refusal Answer → List Char
  | .ok (.text value) => value
  | _ => []

/-- What a move took from the text: the text that it answered, or the blanks that it went over. To
look at the text takes nothing. -/
def Stride.taken (stride : Stride) : List Char :=
  match stride.scan with
  | .advance | .expect _ | .readToken _ => answered stride.outcome
  | .skipBlanks => (stride.after.text.take stride.after.offset).drop stride.before.offset
  | .peek | .peekNext | .atEnd | .location | .marked | .inspect => []

namespace Cursor

def stride (cursor : Cursor) (scan : Scan) : Stride :=
  let (outcome, after) := cursor.move scan.move
  ⟨scan, outcome, cursor, after⟩

/-- Moves made one after the other, and the cursor after them. -/
def runs (cursor : Cursor) : List Scan → List Stride × Cursor
  | [] => ([], cursor)
  | scan :: scans =>
    let stride := cursor.stride scan
    let (strides, last) := stride.after.runs scans
    (stride :: strides, last)

variable {cursor : Cursor} {reading : Grammar.Result (List Char × List Char)}

/-- What is taken in a reading of the text ahead; a refused reading takes nothing. -/
theorem passes_take
    (h : ∀ {taken left}, reading = .ok (taken, left) → taken ++ left = cursor.rest) :
    cursor.Passes (answered (cursor.take reading).1) (cursor.take reading).2 := by
  cases reading with
  | ok result => exact .movedTo (h rfl)
  | error fault => exact .refl cursor

theorem take_of_refused {refusal : Refusal} (h : (cursor.take reading).1 = .error refusal) :
    (cursor.take reading).2 = cursor := by
  cases reading with
  | ok result => cases h
  | error fault => rfl

theorem append_of_expect {wanted text taken left : List Char}
    (h : (Grammar.expect wanted text).map (wanted, ·) = .ok (taken, left)) :
    taken ++ left = text := by
  cases hexpect : Grammar.expect wanted text with
  | error fault => simp [hexpect, Except.map] at h
  | ok rest =>
    obtain ⟨c, rfl, rfl⟩ := Grammar.expect_eq_ok_iff.1 hexpect
    simp only [hexpect, Except.map, Except.ok.injEq, Prod.mk.injEq] at h
    obtain ⟨rfl, rfl⟩ := h
    rfl

theorem passes_dropBlanks (cursor : Cursor) :
    cursor.Passes (cursor.rest.takeWhile isBlank) (cursor.movedTo (dropBlanks cursor.rest)) :=
  .movedTo List.takeWhile_append_dropWhile

/-- A move passes over what it takes. -/
theorem passes_stride (cursor : Cursor) (scan : Scan) :
    cursor.Passes (cursor.stride scan).taken (cursor.stride scan).after := by
  cases scan with
  | advance =>
    cases hrest : cursor.rest with
    | nil => simpa [stride, Scan.move, move, hrest, Stride.taken, answered] using Passes.refl cursor
    | cons c left =>
      have hpasses : cursor.Passes [c] (cursor.movedTo left) := .movedTo hrest.symm
      simpa [stride, Scan.move, move, hrest, Stride.taken, answered] using hpasses
  | expect wanted => exact passes_take append_of_expect
  | readToken delimiters => exact passes_take fun h => (Grammar.append_of_readToken h).2
  | skipBlanks =>
    have hpasses := cursor.passes_dropBlanks
    simpa [stride, Scan.move, move, Stride.taken, hpasses.piece_eq] using hpasses
  | _ => exact Passes.refl cursor

/-- A refused move leaves the cursor where it is. -/
theorem after_of_refused {scan : Scan} {refusal : Refusal}
    (h : (cursor.stride scan).outcome = .error refusal) : (cursor.stride scan).after = cursor := by
  cases scan with
  | advance =>
    cases hrest : cursor.rest with
    | nil => simp [stride, Scan.move, move, hrest]
    | cons c left => simp [stride, Scan.move, move, hrest] at h
  | expect wanted => exact take_of_refused h
  | readToken delimiters => exact take_of_refused h
  | _ => cases h

/-- Blanks are skipped up to a character that is none, or to the end. -/
theorem skips_stride (cursor : Cursor) :
    let stride := cursor.stride .skipBlanks
    stride.outcome = .ok (.flag (!stride.taken.isEmpty)) ∧ (∀ c ∈ stride.taken, isBlank c = true) ∧
      ∀ c ∈ stride.after.rest.head?, isBlank c = false := by
  intro stride
  have htaken : stride.taken = cursor.rest.takeWhile isBlank := cursor.passes_dropBlanks.piece_eq
  have hrest : stride.after.rest = dropBlanks cursor.rest :=
    rest_movedTo (dropBlanks_suffix cursor.rest)
  have houtcome : stride.outcome =
      .ok (.flag ((dropBlanks cursor.rest).length < cursor.rest.length)) := rfl
  have hlength : (cursor.rest.takeWhile isBlank).length + (dropBlanks cursor.rest).length =
      cursor.rest.length := by
    rw [← List.length_append, dropBlanks, List.takeWhile_append_dropWhile]
  rw [htaken, hrest]
  refine ⟨?_, fun c => List.mem_takeWhile_imp, dropBlanks_eq_self_iff.1 (dropBlanks_dropBlanks _)⟩
  rw [houtcome, ← hlength]
  cases cursor.rest.takeWhile isBlank <;> simp

/-- A token is read up to one of the delimiters, or to the end. -/
theorem token_stride {delimiters : List (List Char)} {answer : Answer}
    (h : (cursor.stride (.readToken delimiters)).outcome = .ok answer) :
    let stride := cursor.stride (.readToken delimiters)
    answer = .text stride.taken ∧
      (∃ c body, stride.taken = c :: body ∧ isBlank c = false ∧ ∀ d ∈ body, [d] ∉ delimiters) ∧
      ∀ d ∈ stride.after.rest.head?, [d] ∈ delimiters := by
  intro stride
  cases hread : Grammar.readToken (Scan.stops delimiters).contains cursor.rest with
  | error fault => simp [Cursor.stride, Scan.move, move, take, hread] at h
  | ok result =>
    obtain ⟨token, left⟩ := result
    have hstride : stride = ⟨.readToken delimiters, .ok (.text token), cursor,
        cursor.movedTo left⟩ := by
      simp [stride, Cursor.stride, Scan.move, move, take, hread]
    have hrest : (cursor.movedTo left).rest = left :=
      rest_movedTo ⟨token, (Grammar.append_of_readToken hread).2⟩
    obtain ⟨⟨c, body, hbody, hc, hstop⟩, hend⟩ := Grammar.stopped_of_readToken hread
    have hanswer : Answer.text token = answer := Except.ok.inj (congrArg Stride.outcome hstride ▸ h)
    rw [hstride]
    refine ⟨hanswer.symm, ⟨c, body, hbody, hc, fun d hd => ?_⟩, fun d hd => ?_⟩
    · simpa [Scan.mem_stops] using hstop d hd
    · simpa [Scan.mem_stops] using hend d (hrest ▸ hd)

end Cursor

/-- What is said of a move made on a text: it does not go back, stays within the text, and leaves the
cursor where it is when it is refused. Blanks are skipped, and a token is read, as far as they go. -/
structure Stride.Sound (text : List Char) (stride : Stride) : Prop where
  forward : stride.before.offset ≤ stride.after.offset
  inside : stride.after.offset ≤ text.length
  refused : ∀ refusal, stride.outcome = .error refusal → stride.after = stride.before
  skips : stride.scan = .skipBlanks →
    stride.outcome = .ok (.flag (!stride.taken.isEmpty)) ∧
      (∀ c ∈ stride.taken, isBlank c = true) ∧
      ∀ c ∈ text[stride.after.offset]?, isBlank c = false
  token : ∀ delimiters answer, stride.scan = .readToken delimiters → stride.outcome = .ok answer →
    answer = .text stride.taken ∧
      (∃ c body, stride.taken = c :: body ∧ isBlank c = false ∧ ∀ d ∈ body, [d] ∉ delimiters) ∧
      ∀ d ∈ text[stride.after.offset]?, [d] ∈ delimiters

namespace Cursor

variable {cursor : Cursor}

theorem sound_stride (h : cursor.offset ≤ cursor.text.length) (scan : Scan) :
    (cursor.stride scan).Sound cursor.text where
  forward := by
    rw [(cursor.passes_stride scan).offset_eq]
    exact Nat.le_add_right _ _
  inside := by
    have hpasses := cursor.passes_stride scan
    rw [← hpasses.text_eq]
    exact hpasses.offset_le h
  refused _ := after_of_refused
  skips hscan := by
    obtain rfl : scan = .skipBlanks := hscan
    rw [← (cursor.passes_stride _).text_eq, ← List.head?_drop]
    exact cursor.skips_stride
  token delimiters answer hscan hanswer := by
    obtain rfl : scan = .readToken delimiters := hscan
    rw [← (cursor.passes_stride _).text_eq, ← List.head?_drop]
    exact token_stride hanswer

/-! ## Moves one after the other -/

/-- Moves pass over what they take, one after the other. -/
theorem passes_runs (cursor : Cursor) (scans : List Scan) :
    cursor.Passes ((cursor.runs scans).1.map Stride.taken).flatten (cursor.runs scans).2 := by
  induction scans generalizing cursor with
  | nil => exact .refl cursor
  | cons scan scans ih => exact (cursor.passes_stride scan).trans (ih _)

theorem sound_runs (h : cursor.offset ≤ cursor.text.length) (scans : List Scan) :
    ∀ stride ∈ (cursor.runs scans).1, stride.Sound cursor.text := by
  induction scans generalizing cursor with
  | nil => simp [runs]
  | cons scan scans ih =>
    have hpasses := cursor.passes_stride scan
    have hrest := ih (hpasses.offset_le h)
    rw [hpasses.text_eq] at hrest
    exact List.forall_mem_cons.2 ⟨sound_stride h scan, hrest⟩

/-- Whatever moves are made on a text from its start, what they take is the text up to the cursor,
which never goes back and never leaves the text. -/
theorem runs_partition (filename : String) (text : List Char) (scans : List Scan) :
    ∃ strides last, (start filename text).runs scans = (strides, last) ∧
      (strides.map Stride.taken).flatten = text.take last.offset ∧ last.offset ≤ text.length ∧
      ∀ stride ∈ strides, stride.Sound text := by
  have hpasses := (start filename text).passes_runs scans
  have htake := hpasses.take_offset
  have hinside := hpasses.offset_le (Nat.zero_le _)
  rw [hpasses.text_eq] at htake hinside
  exact ⟨_, _, rfl, htake.symm, hinside, sound_runs (Nat.zero_le _) scans⟩

/-- Blanks and a doubled sign do not stop a token that only `;;` and `=` are to stop. Moves that are
refused are passed over. -/
theorem runs_partition_doubled :
    let text := "a;;b =\t c".toList
    let scans : List Scan := [.readToken [[';', ';'], ['=']], .expect ['c'], .advance,
      .readToken [], .skipBlanks, .advance, .advance]
    ∃ strides last, (start "" text).runs scans = (strides, last) ∧
      strides.map Stride.taken = ["a;;b ".toList, [], ['='], [], ['\t', ' '], ['c'], []] ∧
      (strides.map Stride.taken).flatten = text.take last.offset ∧ last.offset = text.length ∧
      ∀ stride ∈ strides, stride.Sound text := by
  intro text scans
  obtain ⟨strides, last, hruns, hflatten, -, hsound⟩ := runs_partition "" text scans
  obtain rfl : ((start "" text).runs scans).1 = strides := congrArg Prod.fst hruns
  obtain rfl : ((start "" text).runs scans).2 = last := congrArg Prod.snd hruns
  exact ⟨_, _, hruns, by decide, hflatten, by decide, hsound⟩

end Cursor

end Drafting
