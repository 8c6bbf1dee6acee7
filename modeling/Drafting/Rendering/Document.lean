import Drafting.Formula.Walk
import Drafting.Rendering.Style

/-!
# Documents

The rendering of a formula as an XML document: the declaration, followed by one element for each node
and by no blanks.

| element       | attributes                     | content                               |
|---------------|--------------------------------|---------------------------------------|
| `operation`   | `type`: operator, or `ternary` | the operands, a condition first       |
| `parenthesis` |                                | the formula inside                    |
| `function`    | `type`: name, `-` for a minus  | the arguments                         |
| `variable`    | `custom` or `hash`: `true`     | the full name                         |
| `integer`     |                                | the number                            |
| `decimal`     |                                | the number                            |

## Main definitions

* `escaped` — text as it stands inside an element or an attribute.
* `element` — an element with its tags.
* `document` — the document of a formula.
* `element?`, `document?` — the element and the document of an assembly, or what is in their way.
-/

namespace Drafting.Rendering

/-- The four characters of markup are written as references, all others as they are. -/
def escapedChar : Char → List Char
  | '&' => "&amp;".toList
  | '<' => "&lt;".toList
  | '"' => "&quot;".toList
  | '>' => "&gt;".toList
  | c => [c]

def escaped (text : List Char) : List Char := text.flatMap escapedChar

/-- An attribute with the blank in front of it. -/
def attributeText (name value : List Char) : List Char :=
  [" ".toList, name, "=\"".toList, escaped value, "\"".toList].flatten

/-- An element from its tag name, its attributes and its content. -/
def element (tag attributes content : List Char) : List Char :=
  ["<".toList, tag, attributes, ">".toList, content, "</".toList, tag, ">".toList].flatten

/-- The attribute that tells a marked name from a plain one. -/
def markAttribute : Mark → List Char
  | .plain => []
  | .custom => attributeText "custom".toList "true".toList
  | .hashed => attributeText "hash".toList "true".toList

/-- An element of a given type: an operation or a function. -/
def typedElement (tag type content : List Char) : List Char :=
  element tag (attributeText "type".toList type) content

def documentStyle : Style (List Char) where
  integer value := element "integer".toList [] (escaped value.text)
  decimal value := element "decimal".toList [] (escaped value.text)
  reference mark name := element "variable".toList (markAttribute mark) (escaped name)
  parenthesized inner := element "parenthesis".toList [] inner
  call function argument := typedElement "function".toList function argument
  callPair function first second := typedElement "function".toList function (first ++ second)
  binary left operator right := typedElement "operation".toList operator.elementName (left ++ right)
  conditional condition whenTrue whenFalse :=
    typedElement "operation".toList "ternary".toList (condition ++ (whenTrue ++ whenFalse))

/-- What every document starts with. -/
def declaration : List Char := "<?xml version=\"1.0\" ?>".toList

/-- A whole document around its root element. -/
def withDeclaration (root : List Char) : List Char := declaration ++ root

/-- The document of a formula. -/
def document (formula : Formula) : List Char := withDeclaration (formula.render documentStyle)

/-- The children of an element, built one after the other. -/
def children? : List (Except Defect (List Char)) → Except Defect (List Char)
  | [] => return []
  | child :: children => do return (← child) ++ (← children? children)

/-- An operation with its operands. -/
def operation? (type : List Char) (operands : List (Except Defect (List Char))) :
    Except Defect (List Char) := do
  return typedElement "operation".toList type (← children? operands)

/-- The element of an assembly. -/
def element? : Assembly → Except Defect (List Char)
  | .binary left joint right =>
    match joint with
    | .unknown value => throw (.unknownOperator value)
    | .known operator => operation? operator.elementName [element? left, element? right]
  | .conditional condition whenTrue whenFalse =>
    operation? "ternary".toList [element? condition, element? whenTrue, element? whenFalse]
  | .parenthesized inner => do return element "parenthesis".toList [] (← element? inner)
  | .call function argument => do
    return typedElement "function".toList function (← children? [element? argument])
  | .callPair function first second => do
    return typedElement "function".toList function (← children? [element? first, element? second])
  | .reference mark stem =>
    return element "variable".toList (markAttribute mark) (escaped (mark.sign ++ stem))
  | .decimal value => return element "decimal".toList [] (escaped value.text)
  | .integer value => return element "integer".toList [] (escaped value.text)
  | .foreign value => throw (.foreign value)

/-- The document of an assembly. -/
def document? (tree : Assembly) : Except Defect (List Char) :=
  return withDeclaration (← element? tree)

/-- A document as it is stored, in UTF-8. -/
def stored (text : List Char) : ByteArray := (String.ofList text).toUTF8

end Drafting.Rendering
