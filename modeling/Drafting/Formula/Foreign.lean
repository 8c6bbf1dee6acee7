import Drafting.Number.Basic
import Drafting.Text.Quoted

/-!
# Foreign values

Values that are no formula but may stand where a formula or an operator is expected, when a caller
puts a tree together by hand: nothing at all, truth values, numbers, texts, sequences and mappings, and
objects of any other kind.

## Main definitions

* `Foreign.kind` — the word for the kind of a value.
* `Foreign.shown` — a value as a message shows it.
* `Foreign.unhashable?` — what keeps a value from being looked up in a table.
* `Foreign.same` — equality of values.
-/

namespace Drafting

/-- A foreign value. Sequences and mappings are built from their end; the keys of a mapping are in
one fixed order. -/
inductive Foreign
  | nothing
  | truth (value : Bool)
  | number (value : Number)
  | text (value : List Char)
  | emptySequence
  | sequence (first rest : Foreign)
  | emptyMapping
  | mapping (key : List Char) (value rest : Foreign)
  /-- Any other value. What matters of it is the word for its kind, how it is shown, the kind that keeps
  it from being looked up, if one does, and which one it is of those that agree in all this. -/
  | object (kind : String) (shown : List Char) (unhashable : Option String) (identity : Nat)
deriving DecidableEq, Repr

namespace Foreign

def kind : Foreign → String
  | nothing => "NoneType"
  | truth _ => "bool"
  | number (.whole _) => "int"
  | number (.binary _) => "float"
  | text _ => "str"
  | emptySequence | sequence .. => "list"
  | emptyMapping | mapping .. => "dict"
  | object kind .. => kind

/-- How a value is shown, or the rest of a sequence or mapping of which some is shown already. -/
def shownFrom (opened : Bool) : Foreign → List Char
  | nothing => "None".toList
  | truth value => if value then "True".toList else "False".toList
  | number (.whole value) => wholeText value
  | number (.binary value) => value.shown
  | text value => quoted value
  | emptySequence => if opened then "]".toList else "[]".toList
  | sequence first rest =>
    (if opened then ", ".toList else "[".toList) ++ first.shownFrom false ++ rest.shownFrom true
  | emptyMapping => if opened then "\x7d".toList else "\x7b\x7d".toList
  | mapping key value rest =>
    (if opened then ", ".toList else "\x7b".toList) ++ quoted key ++ ": ".toList ++
      value.shownFrom false ++ rest.shownFrom true
  | object _ shown .. => shown

def shown (value : Foreign) : List Char := value.shownFrom false

/-- The kind of a value that cannot be a key of a table: what may change, and what holds such. -/
def unhashable? : Foreign → Option String
  | emptySequence | sequence .. => some "list"
  | emptyMapping | mapping .. => some "dict"
  | object _ _ unhashable _ => unhashable
  | _ => none

/-- The number that a value counts as; the truth values count as zero and one. -/
def number? : Foreign → Option Number
  | truth value => some (.whole (if value then 1 else 0))
  | number value => some value
  | _ => none

/-- Equality part by part, numbers by value. -/
def same : Foreign → Foreign → Bool
  | nothing, nothing => true
  | text s, text t => s = t
  | emptySequence, emptySequence => true
  | sequence a as, sequence b bs => a.same b && as.same bs
  | emptyMapping, emptyMapping => true
  | mapping k v rest, mapping l w others => k = l && v.same w && rest.same others
  | object kind shown unhashable identity, object kind' shown' unhashable' identity' =>
    kind = kind' && shown = shown' && unhashable = unhashable' && identity = identity'
  | a, b =>
    match a.number?, b.number? with
    | some m, some n => m.same n
    | _, _ => false

end Foreign

end Drafting
