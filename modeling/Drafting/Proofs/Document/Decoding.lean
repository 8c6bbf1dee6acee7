import Mathlib.Data.List.Basic
import Drafting.Proofs.Canonical.Text
import Drafting.Rendering.Document

/-!
# Documents read back

A document loses nothing: its formula can be read back from it, whatever characters its names hold.
The text after the declaration is cut into tags and the text between them; the tags are taken in
from left to right, with the elements that are still open kept on a stack, and an element becomes a
formula when it is closed.

## Main definitions

* `unescaped` — text as it was before its markup was escaped.
* `Piece`, `pieces` — the tags and texts that a document is made of.
* `Frame` — an element that is still open, with the formulas inside it so far.
* `decode` — the formula of a document.
* `Formula.Recordable` — the formulas whose numbers are literals, with any names.

Main statement: `decode_document`.
-/

namespace Drafting

namespace Rendering

open Grammar

/-! ## Escaped text -/

/-- Text as it was before it was escaped. -/
def unescaped : List Char → List Char
  | '&' :: 'a' :: 'm' :: 'p' :: ';' :: text => '&' :: unescaped text
  | '&' :: 'l' :: 't' :: ';' :: text => '<' :: unescaped text
  | '&' :: 'q' :: 'u' :: 'o' :: 't' :: ';' :: text => '"' :: unescaped text
  | '&' :: 'g' :: 't' :: ';' :: text => '>' :: unescaped text
  | c :: text => c :: unescaped text
  | [] => []

theorem unescaped_escapedChar (c : Char) (text : List Char) :
    unescaped (escapedChar c ++ text) = c :: unescaped text := by
  unfold escapedChar
  split <;> simp_all [unescaped]

/-- The references that stand for markup are told from all other text. -/
@[simp] theorem unescaped_escaped (text : List Char) : unescaped (escaped text) = text := by
  induction text with
  | nil => rfl
  | cons c text ih => rw [escaped, List.flatMap_cons, unescaped_escapedChar, ← escaped, ih]

/-- The characters that end text inside an element or an attribute. -/
theorem not_mem_escaped (text : List Char) : ∀ c ∈ escaped text, c ≠ '<' ∧ c ≠ '"' ∧ c ≠ '>' := by
  intro c hc
  obtain ⟨d, -, hd⟩ := List.mem_flatMap.1 hc
  unfold escapedChar at hd
  split at hd <;> grind

/-! ## Pieces -/

/-- A tag, or the text between two tags. An opening tag without an attribute has an empty name and
value of one. -/
inductive Piece
  | opening (tag name value : List Char)
  | closing (tag : List Char)
  | text (content : List Char)
deriving DecidableEq, Repr

/-- The text up to a sign. -/
def upTo (sign : Char) (text : List Char) : List Char := text.takeWhile (· ≠ sign)

/-- The text after the first of a sign. -/
def after (sign : Char) (text : List Char) : List Char := (text.dropWhile (· ≠ sign)).tail

theorem upTo_append {sign : Char} {text : List Char} (h : ∀ c ∈ text, c ≠ sign) (rest : List Char) :
    upTo sign (text ++ sign :: rest) = text := by
  rw [upTo, List.takeWhile_append_of_pos (by simpa using h)]
  simp

theorem upTo_eq_self {sign : Char} {text : List Char} (h : ∀ c ∈ text, c ≠ sign) :
    upTo sign text = text := by
  rw [upTo, List.takeWhile_eq_self_iff]
  simpa using h

theorem after_append {sign : Char} {text : List Char} (h : ∀ c ∈ text, c ≠ sign)
    (rest : List Char) :
    after sign (text ++ sign :: rest) = rest := by
  rw [after, List.dropWhile_append_of_pos (by simpa using h)]
  simp

theorem after_eq_nil {sign : Char} {text : List Char} (h : ∀ c ∈ text, c ≠ sign) :
    after sign text = [] := by
  rw [after, List.dropWhile_eq_nil_iff.2 (by simpa using h), List.tail_nil]

theorem length_after_le (sign : Char) (text : List Char) :
    (after sign text).length ≤ text.length := by
  have h := (List.dropWhile_suffix (l := text) (· ≠ sign)).length_le
  rw [after, List.length_tail]
  omega

/-- An opening tag from what stands between its brackets. -/
def openingOf (body : List Char) : Piece :=
  let written := after ' ' body
  .opening (upTo ' ' body) (upTo '=' written) (unescaped (upTo '"' (after '"' written)))

/-- The tags and texts of a document, or of its end. -/
def pieces (text : List Char) : List Piece :=
  match text with
  | [] => []
  | '<' :: '/' :: text => .closing (upTo '>' text) :: pieces (after '>' text)
  | '<' :: text => openingOf (upTo '>' text) :: pieces (after '>' text)
  | c :: text =>
    .text (unescaped (c :: upTo '<' text)) :: pieces (text.dropWhile (· ≠ '<'))
termination_by text.length
decreasing_by
  · have := length_after_le '>' text
    simp only [List.length_cons]
    omega
  · have := length_after_le '>' text
    simp only [List.length_cons]
    omega
  · have := (List.dropWhile_suffix (l := text) (· ≠ '<')).length_le
    simp only [List.length_cons]
    omega

/-! ## Open elements -/

/-- An element that is still open: its tag, its attribute, the formulas inside it so far, the last of
them first, and the text inside it. -/
structure Frame where
  tag : List Char
  name : List Char
  value : List Char
  parts : List Formula
  content : List Char
deriving DecidableEq, Repr

namespace Frame

/-- An element that was just opened. -/
def opened (tag name value : List Char) : Frame := ⟨tag, name, value, [], []⟩

/-- The element with one more formula inside it. -/
def add (frame : Frame) (formula : Formula) : Frame :=
  { frame with parts := formula :: frame.parts }

/-- The mark that the attribute of a variable tells. -/
def mark (frame : Frame) : Mark :=
  if frame.name = "custom".toList then .custom
  else if frame.name = "hash".toList then .hashed
  else .plain

/-- The number inside an element. -/
def number? (frame : Frame) : Option Formula :=
  match literal? false frame.content with
  | .ok number => number
  | .error _ => none

/-- The reference of a variable. -/
def reference? (frame : Frame) : Option Formula :=
  (frame.mark.sign.isPrefixOf? frame.content).map (.reference frame.mark)

/-- The operation of an element. -/
def operation? (frame : Frame) : Option Formula :=
  match frame.parts with
  | [right, left] => (Operator.ofElementName? frame.value).map (.binary left · right)
  | [whenFalse, whenTrue, condition] =>
    if frame.value = "ternary".toList then some (.conditional condition whenTrue whenFalse) else none
  | _ => none

/-- The formula of an element that is closed. -/
def formula? (frame : Frame) : Option Formula :=
  if frame.tag = "integer".toList ∨ frame.tag = "decimal".toList then frame.number?
  else if frame.tag = "variable".toList then frame.reference?
  else if frame.tag = "operation".toList then frame.operation?
  else if frame.tag = "parenthesis".toList then
    match frame.parts with
    | [inner] => some (.parenthesized inner)
    | _ => none
  else if frame.tag = "function".toList then
    match frame.parts with
    | [argument] => some (.call frame.value argument)
    | [second, first] => some (.callPair frame.value first second)
    | _ => none
  else none

end Frame

/-- The open elements after one more piece, the innermost first. -/
def take (frames : List Frame) : Piece → Option (List Frame)
  | .opening tag name value => some (.opened tag name value :: frames)
  | .text content =>
    match frames with
    | frame :: outer => some ({ frame with content := content } :: outer)
    | [] => none
  | .closing tag =>
    match frames with
    | frame :: outer :: frames =>
      if tag = frame.tag then frame.formula?.map (outer.add · :: frames) else none
    | _ => none

/-- The open elements after a text. -/
def takeAll (frames : List Frame) (text : List Char) : Option (List Frame) :=
  (pieces text).foldlM take frames

/-- The formula of a document. The document itself counts as an element that is never closed, and holds
one formula. -/
def decode (text : List Char) : Option Formula := do
  let body ← declaration.isPrefixOf? text
  match ← takeAll [.opened [] [] []] body with
  | [⟨_, _, _, [root], _⟩] => some root
  | _ => none

variable {frame outer : Frame} {frames : List Frame} {rest : List Char}

/-! ## The texts of documents, taken in -/

/-- The words of a document are its tags and the names of its attributes. -/
def IsWord (word : List Char) : Prop := word ≠ [] ∧ word.all Char.isAlpha = true

instance (word : List Char) : Decidable (IsWord word) := inferInstanceAs (Decidable (_ ∧ _))

theorem IsWord.isAlpha {word : List Char} (h : IsWord word) : ∀ c ∈ word, c.isAlpha = true :=
  List.all_eq_true.1 h.2

theorem IsWord.ne {word : List Char} (h : IsWord word) (sign : Char) (hsign : sign.isAlpha = false) :
    ∀ c ∈ word, c ≠ sign := by
  intro c hc heq
  grind [h.isAlpha c hc]

@[simp] theorem takeAll_nil (frames : List Frame) : takeAll frames [] = some frames := by
  simp [takeAll, pieces]

theorem takeAll_closing {tag : List Char} (htag : IsWord tag) {formula : Formula}
    (hframe : frame.tag = tag) (hformula : frame.formula? = some formula) :
    takeAll (frame :: outer :: frames) ('<' :: '/' :: (tag ++ '>' :: rest)) =
      takeAll (outer.add formula :: frames) rest := by
  have hends := htag.ne '>' rfl
  rw [takeAll, pieces, upTo_append hends, after_append hends, List.foldlM_cons, take,
    if_pos hframe.symm, hformula]
  rfl

/-- A tag and the attributes after it open an element. -/
structure Opens (tag attributes name value : List Char) : Prop where
  isWord : IsWord tag
  ends : ∀ c ∈ attributes, c ≠ '>'
  openingOf_eq : openingOf (tag ++ attributes) = .opening tag name value

theorem opens_bare {tag : List Char} (h : IsWord tag) : Opens tag [] [] [] where
  isWord := h
  ends := by simp
  openingOf_eq := by
    have hblank := h.ne ' ' rfl
    rw [List.append_nil, openingOf, upTo_eq_self hblank, after_eq_nil hblank]
    rfl

theorem attributeText_eq (name value : List Char) :
    attributeText name value = ' ' :: (name ++ '=' :: '"' :: (escaped value ++ ['"'])) := by
  simp [attributeText]

theorem opens_attribute {tag name : List Char} (h : IsWord tag) (hname : IsWord name)
    (value : List Char) : Opens tag (attributeText name value) name value where
  isWord := h
  ends := by
    have hvalue := not_mem_escaped value
    have hname := hname.ne '>' rfl
    rw [attributeText_eq]
    grind
  openingOf_eq := by
    have hblank := h.ne ' ' rfl
    have hquote : ∀ c ∈ name ++ ['='], c ≠ '"' := by
      have := hname.ne '"' rfl
      grind
    have hvalue : ∀ c ∈ escaped value, c ≠ '"' := fun c hc => (not_mem_escaped value c hc).2.1
    rw [attributeText_eq, openingOf, upTo_append hblank, after_append hblank,
      upTo_append (hname.ne '=' rfl), List.append_cons name '=', after_append hquote,
      upTo_append hvalue, unescaped_escaped]

theorem takeAll_opening {tag attributes name value : List Char}
    (h : Opens tag attributes name value) :
    takeAll frames ('<' :: (tag ++ (attributes ++ '>' :: rest))) =
      takeAll (.opened tag name value :: frames) rest := by
  have hends : ∀ c ∈ tag ++ attributes, c ≠ '>' := by
    have := h.isWord.ne '>' rfl
    have := h.ends
    grind
  have hslash (text : List Char) : tag ++ attributes ++ '>' :: rest ≠ '/' :: text := by
    obtain ⟨c, tag, rfl⟩ := List.exists_cons_of_ne_nil h.isWord.1
    have := h.isWord.ne '/' rfl
    grind
  rw [← List.append_assoc, takeAll, pieces, upTo_append hends, after_append hends,
    h.openingOf_eq, List.foldlM_cons, take]
  · rfl
  · exact hslash

/-- The text inside an element. No text between two tags is no piece at all. -/
theorem takeAll_escaped (hframe : frame.content = []) (text : List Char) :
    takeAll (frame :: frames) (escaped text ++ '<' :: rest) =
      takeAll ({ frame with content := text } :: frames) ('<' :: rest) := by
  cases hescaped : escaped text with
  | nil =>
    have htext := unescaped_escaped text
    rw [hescaped] at htext
    rw [← htext, List.nil_append]
    congr 2
    cases frame
    exact congrArg _ hframe
  | cons c body =>
    have hends : ∀ d ∈ c :: body, d ≠ '<' := fun d hd => (not_mem_escaped text d (hescaped ▸ hd)).1
    have hbody : ∀ d ∈ body, d ≠ '<' := fun d hd => hends d (by simp [hd])
    have hdrop : (body ++ '<' :: rest).dropWhile (· ≠ '<') = '<' :: rest := by
      rw [List.dropWhile_append_of_pos (by simpa using hbody)]
      simp
    rw [List.cons_append, takeAll, pieces, upTo_append hbody, hdrop, ← hescaped, unescaped_escaped,
      List.foldlM_cons, take]
    · rfl
    · have := hends c (by simp)
      grind
    · have := hends c (by simp)
      grind

/-- An element from its opening tag to its closing tag. -/
theorem takeAll_element {tag attributes name value content : List Char} {formula : Formula}
    (hopens : Opens tag attributes name value)
    (hcontent : ∀ rest', takeAll (.opened tag name value :: outer :: frames) (content ++ '<' :: rest') =
      takeAll (frame :: outer :: frames) ('<' :: rest'))
    (hframe : frame.tag = tag) (hformula : frame.formula? = some formula) :
    takeAll (outer :: frames) (element tag attributes content ++ rest) =
      takeAll (outer.add formula :: frames) rest := by
  have htext : element tag attributes content ++ rest =
      '<' :: (tag ++ (attributes ++ '>' :: (content ++ '<' :: '/' :: (tag ++ '>' :: rest)))) := by
    simp [element]
  rw [htext, takeAll_opening hopens, hcontent, takeAll_closing hopens.isWord hframe hformula]

end Rendering

/-! ## Documents -/

/-- A formula whose numbers are literals. Its names may be any texts. -/
def Formula.Recordable : Formula → Prop
  | integer value => (integer value).Literal
  | decimal value => (decimal value).Literal
  | reference _ _ => True
  | parenthesized inner => inner.Recordable
  | call _ argument => argument.Recordable
  | callPair _ first second => first.Recordable ∧ second.Recordable
  | binary left _ right => left.Recordable ∧ right.Recordable
  | conditional condition whenTrue whenFalse =>
    condition.Recordable ∧ whenTrue.Recordable ∧ whenFalse.Recordable

namespace Rendering

open Grammar

variable {frame : Frame} {frames : List Frame} {rest : List Char}

/-- The text of a literal stands for the literal. -/
theorem literal?_canonical_self {literal : Formula} (h : literal.Literal) :
    literal? false (canonical literal) = .ok (some literal) := by
  by_cases hunsigned : literal.Unsigned
  · exact literal?_append_canonical false (.inl rfl) h hunsigned
  · obtain ⟨htext, hliteral, hopposite, hturned⟩ := canonical_of_signed h hunsigned
    have hminus := literal?_append_canonical false (.inr (.inr rfl)) hliteral hopposite
    rw [htext]
    simpa [Formula.turned, hturned] using hminus

/-- An operator is known by the word that stands for it. -/
theorem ofElementName?_elementName (op : Operator) :
    Operator.ofElementName? op.elementName = some op := by
  cases op <;> rfl

/-- One text after another, taken in. -/
theorem takeAll_append {before between after : List Frame} {first second : List Char}
    (hfirst : ∀ rest, takeAll before (first ++ rest) = takeAll between rest)
    (hsecond : ∀ rest, takeAll between (second ++ rest) = takeAll after rest) (rest : List Char) :
    takeAll before (first ++ second ++ rest) = takeAll after rest := by
  rw [List.append_assoc, hfirst, hsecond]

/-- A number inside an element of either tag for numbers. -/
theorem takeAll_number (literal : Formula) {tag : List Char}
    (htag : tag = "integer".toList ∨ tag = "decimal".toList) (h : literal.Literal) :
    takeAll (frame :: frames) (element tag [] (escaped (canonical literal)) ++ rest) =
      takeAll (frame.add literal :: frames) rest := by
  have hword : IsWord tag := by rcases htag with rfl | rfl <;> decide
  refine takeAll_element (opens_bare hword) (fun _ => takeAll_escaped rfl _) rfl ?_
  refine (if_pos htag).trans ?_
  simp only [Frame.number?, literal?_canonical_self h]

theorem takeAll_reference (mark : Mark) (stem : List Char) :
    takeAll (frame :: frames)
        ((Formula.reference mark stem).render documentStyle ++ rest) =
      takeAll (frame.add (.reference mark stem) :: frames) rest := by
  cases mark with
  | plain =>
    exact takeAll_element (opens_bare (by decide)) (fun _ => takeAll_escaped rfl _) rfl rfl
  | custom | hashed =>
    exact takeAll_element (opens_attribute (by decide) (by decide) _)
      (fun _ => takeAll_escaped rfl _) rfl rfl

/-- A formula is read from its element, whatever surrounds the element. -/
theorem takeAll_render {tree : Formula} (h : tree.Recordable) :
    takeAll (frame :: frames) (tree.render documentStyle ++ rest) =
      takeAll (frame.add tree :: frames) rest := by
  induction tree generalizing frame frames rest with
  | integer value => exact takeAll_number (.integer value) (.inl rfl) h
  | decimal value => exact takeAll_number (.decimal value) (.inr rfl) h
  | reference mark stem => exact takeAll_reference mark stem
  | parenthesized inner ih =>
    exact takeAll_element (opens_bare (by decide)) (fun _ => ih h) rfl rfl
  | call function argument ih =>
    exact takeAll_element (opens_attribute (by decide) (by decide) function) (fun _ => ih h) rfl rfl
  | callPair function first second ih₁ ih₂ =>
    exact takeAll_element (opens_attribute (by decide) (by decide) function)
      (fun _ => takeAll_append (fun _ => ih₁ h.1) (fun _ => ih₂ h.2) _) rfl rfl
  | binary left op right ih₁ ih₂ =>
    refine takeAll_element (opens_attribute (by decide) (by decide) op.elementName)
      (fun _ => takeAll_append (fun _ => ih₁ h.1) (fun _ => ih₂ h.2) _) rfl ?_
    exact congrArg (Option.map _) (ofElementName?_elementName op)
  | conditional condition whenTrue whenFalse ih₁ ih₂ ih₃ =>
    exact takeAll_element (opens_attribute (by decide) (by decide) "ternary".toList)
      (fun _ => takeAll_append (fun _ => ih₁ h.1)
        (takeAll_append (fun _ => ih₂ h.2.1) (fun _ => ih₃ h.2.2)) _) rfl rfl

/-- A document is the formula in its root element. -/
theorem decode_withDeclaration {tree : Formula} (h : tree.Recordable) :
    decode (withDeclaration (tree.render documentStyle)) = some tree := by
  have hbody : declaration.isPrefixOf? (withDeclaration (tree.render documentStyle)) =
      some (tree.render documentStyle) := by
    simp [withDeclaration]
  have hroot : takeAll [.opened [] [] []] (tree.render documentStyle ++ []) =
      takeAll [(Frame.opened [] [] []).add tree] [] := takeAll_render h
  rw [List.append_nil, takeAll_nil] at hroot
  rw [decode, hbody]
  exact congrArg (Option.bind · _) hroot

theorem stored_injective : Function.Injective stored := by
  intro text text' h
  exact String.ofList_injective (String.toByteArray_inj.1 h)

/-- A formula is read back from its document, so that no two formulas have the same document or are
stored as the same bytes. -/
theorem decode_document {tree : Formula} (h : tree.Recordable) :
    decode (document tree) = some tree ∧
      ∀ other : Formula, other.Recordable →
        document other = document tree ∨ stored (document other) = stored (document tree) →
        other = tree := by
  refine ⟨decode_withDeclaration h, fun other hother hsame => ?_⟩
  have htext : document other = document tree := hsame.elim id (stored_injective ·)
  have hdecoded := congrArg decode htext
  rwa [document, document, decode_withDeclaration hother, decode_withDeclaration h,
    Option.some_inj] at hdecoded

/-- A call whose name is markup, of an empty name and of the negative zero. -/
theorem decode_document_markup :
    (Formula.callPair "<&\">".toList (.reference .plain [])
        (.decimal ⟨true, 0, by decide⟩)).Recordable ∧
      decode (document (.callPair "<&\">".toList (.reference .plain [])
        (.decimal ⟨true, 0, by decide⟩))) =
        some (.callPair "<&\">".toList (.reference .plain []) (.decimal ⟨true, 0, by decide⟩)) := by
  have h : (Formula.callPair "<&\">".toList (.reference .plain [])
      (.decimal ⟨true, 0, by decide⟩)).Recordable := ⟨trivial, rfl⟩
  exact ⟨h, (decode_document h).1⟩

end Rendering

end Drafting
