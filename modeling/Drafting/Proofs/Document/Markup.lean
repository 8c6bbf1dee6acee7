import Drafting.Proofs.Document.Decoding

/-!
# The markup of documents

The part of XML 1.0 that documents are written in, as a grammar that knows nothing of formulas: a
declaration and one element; an element between a start tag and an end tag of the same name;
attributes with different names, their values in double quotes; and between the tags other elements,
characters and references to the five predefined entities. A `<` or `&` never stands for itself, and
a `"` never does in the value of an attribute.

## Main definitions

* `IsName`, `IsValue`, `IsAttributes` — what a tag consists of.
* `IsElement`, `IsContent` — elements, and what stands between two tags.
* `IsDocument` — a declaration and one element.
* `IsChar` — the characters of XML 1.0.
* `WellFormed` — the stored texts that are documents of such characters.

Main statement: `isDocument_document`.
-/

namespace Drafting

namespace Markup

/-- A letter or `_`, then letters, digits and `_`, `-` and `.`. -/
def IsName (name : List Char) : Prop :=
  ∃ c body, name = c :: body ∧ (c.isAlpha = true ∨ c = '_') ∧
    ∀ d ∈ body, d.isAlphanum = true ∨ d ∈ ['_', '-', '.']

/-- The entities that need no declaration. -/
def entities : List (List Char) :=
  ["amp".toList, "lt".toList, "gt".toList, "quot".toList, "apos".toList]

/-- What stands between the double quotes of an attribute. -/
inductive IsValue : List Char → Prop
  | nil : IsValue []
  | char {c text} (hopen : c ≠ '<') (hreference : c ≠ '&') (hquote : c ≠ '"') (h : IsValue text) :
      IsValue (c :: text)
  | reference {entity text} (hentity : entity ∈ entities) (h : IsValue text) :
      IsValue ('&' :: (entity ++ ';' :: text))

/-- The attributes of a tag, each with a blank before it, and their names. -/
inductive IsAttributes : List (List Char) → List Char → Prop
  | nil : IsAttributes [] []
  | cons {name value names text} (hname : IsName name) (hvalue : IsValue value)
      (hnew : name ∉ names) (h : IsAttributes names text) :
      IsAttributes (name :: names) (' ' :: (name ++ '=' :: '"' :: (value ++ '"' :: text)))

mutual

/-- A start tag, its content, and the end tag of the same name. -/
inductive IsElement : List Char → Prop
  | intro {tag names attributes content} (htag : IsName tag)
      (hattributes : IsAttributes names attributes) (hcontent : IsContent content) :
      IsElement ('<' :: (tag ++ (attributes ++ '>' ::
        (content ++ '<' :: '/' :: (tag ++ ['>'])))))

/-- Characters, references and elements. The characters may not spell the end of a section. -/
inductive IsContent : List Char → Prop
  | nil : IsContent []
  | char {c text} (hopen : c ≠ '<') (hreference : c ≠ '&')
      (hsection : ¬ [']', ']', '>'] <+: c :: text) (h : IsContent text) : IsContent (c :: text)
  | reference {entity text} (hentity : entity ∈ entities) (h : IsContent text) :
      IsContent ('&' :: (entity ++ ';' :: text))
  | element {element text} (helement : IsElement element) (h : IsContent text) :
      IsContent (element ++ text)

end

/-- A declaration of the version, and the root element. -/
def IsDocument (text : List Char) : Prop :=
  ∃ root, text = "<?xml version=\"1.0\" ?>".toList ++ root ∧ IsElement root

/-- The characters that a document may hold. -/
def IsChar (c : Char) : Prop :=
  c = '\t' ∨ c = '\n' ∨ c = '\r' ∨ (0x20 ≤ c.toNat ∧ c.toNat ≤ 0xD7FF) ∨
    (0xE000 ≤ c.toNat ∧ c.toNat ≤ 0xFFFD) ∨ (0x10000 ≤ c.toNat ∧ c.toNat ≤ 0x10FFFF)

instance : DecidablePred IsChar := fun _ => inferInstanceAs (Decidable (_ ∨ _))

/-- The bytes are those of a document in UTF-8, all of it characters that a document may hold. -/
def WellFormed (bytes : ByteArray) : Prop :=
  ∃ text, (String.ofList text).toUTF8 = bytes ∧ IsDocument text ∧ ∀ c ∈ text, IsChar c

end Markup

namespace Rendering

open Markup

theorem isName_of_isWord {word : List Char} (h : IsWord word) : IsName word := by
  obtain ⟨c, body, rfl⟩ := List.exists_cons_of_ne_nil h.1
  refine ⟨c, body, rfl, .inl (h.isAlpha c (by simp)), fun d hd => .inl ?_⟩
  have := h.isAlpha d (by simp [hd])
  simp [Char.isAlphanum, this]

/-- An escaped character is a reference, or a character that is not markup. -/
theorem escapedChar_cases (c : Char) :
    (∃ entity ∈ entities, escapedChar c = '&' :: (entity ++ [';'])) ∨
      (escapedChar c = [c] ∧ c ≠ '<' ∧ c ≠ '&' ∧ c ≠ '"' ∧ c ≠ '>') := by
  unfold escapedChar
  split
  · exact .inl ⟨"amp".toList, by decide, rfl⟩
  · exact .inl ⟨"lt".toList, by decide, rfl⟩
  · exact .inl ⟨"quot".toList, by decide, rfl⟩
  · exact .inl ⟨"gt".toList, by decide, rfl⟩
  · next hreference hopen hquote hclose => exact .inr ⟨rfl, hopen, hreference, hquote, hclose⟩

theorem isValue_escaped (text : List Char) : IsValue (escaped text) := by
  induction text with
  | nil => exact .nil
  | cons c text ih =>
    rw [escaped, List.flatMap_cons, ← escaped]
    rcases escapedChar_cases c with ⟨entity, hentity, hc⟩ | ⟨hc, hopen, hreference, hquote, -⟩
    · rw [hc, List.cons_append, List.append_assoc]
      exact .reference hentity ih
    · rw [hc]
      exact .char hopen hreference hquote ih

/-- Escaped text spells no end of a section, since it holds no `>`. -/
theorem isContent_escaped (text : List Char) : IsContent (escaped text) := by
  induction text with
  | nil => exact .nil
  | cons c text ih =>
    have hends := not_mem_escaped (c :: text)
    rw [escaped, List.flatMap_cons, ← escaped] at hends ⊢
    rcases escapedChar_cases c with ⟨entity, hentity, hc⟩ | ⟨hc, hopen, hreference, -, -⟩
    · rw [hc, List.cons_append, List.append_assoc]
      exact .reference hentity ih
    · rw [hc] at hends ⊢
      refine .char hopen hreference (fun hsection => ?_) ih
      exact (hends '>' (hsection.subset (by simp))).2.2 rfl

theorem isContent_of_isElement {text : List Char} (h : IsElement text) : IsContent text := by
  have hcontent := IsContent.element h .nil
  rwa [List.append_nil] at hcontent

theorem isElement_element {tag attributes content : List Char} {names : List (List Char)}
    (htag : IsWord tag) (hattributes : IsAttributes names attributes) (hcontent : IsContent content) :
    IsElement (element tag attributes content) := by
  have helement := IsElement.intro (isName_of_isWord htag) hattributes hcontent
  simpa [element] using helement

theorem isAttributes_attributeText {name : List Char} (hname : IsWord name) (value : List Char) :
    IsAttributes [name] (attributeText name value) := by
  rw [attributeText_eq]
  exact .cons (isName_of_isWord hname) (isValue_escaped value) (by simp) .nil

theorem isElement_typedElement {tag content : List Char} (htag : IsWord tag) (type : List Char)
    (hcontent : IsContent content) : IsElement (typedElement tag type content) :=
  isElement_element htag (isAttributes_attributeText (by decide) type) hcontent

/-- Every formula is rendered as one element, whatever its names and numbers. -/
theorem isElement_render (tree : Formula) : IsElement (tree.render documentStyle) := by
  induction tree with
  | integer | decimal => exact isElement_element (by decide) .nil (isContent_escaped _)
  | reference mark stem =>
    cases mark with
    | plain => exact isElement_element (by decide) .nil (isContent_escaped _)
    | custom | hashed =>
      exact isElement_element (by decide) (isAttributes_attributeText (by decide) _)
        (isContent_escaped _)
  | parenthesized inner ih => exact isElement_element (by decide) .nil (isContent_of_isElement ih)
  | call function argument ih =>
    exact isElement_typedElement (by decide) function (isContent_of_isElement ih)
  | callPair function first second ih₁ ih₂ =>
    exact isElement_typedElement (by decide) function (.element ih₁ (isContent_of_isElement ih₂))
  | binary left op right ih₁ ih₂ =>
    exact isElement_typedElement (by decide) op.elementName
      (.element ih₁ (isContent_of_isElement ih₂))
  | conditional condition whenTrue whenFalse ih₁ ih₂ ih₃ =>
    exact isElement_typedElement (by decide) _
      (.element ih₁ (.element ih₂ (isContent_of_isElement ih₃)))

/-- The document of every formula is a document of the grammar. -/
theorem isDocument_document (tree : Formula) : IsDocument (document tree) :=
  ⟨tree.render documentStyle, rfl, isElement_render tree⟩

end Rendering

end Drafting
