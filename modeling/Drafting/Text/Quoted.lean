import Drafting.Text.Printable

/-!
# Quoted text

The form in which a text is shown inside a message: between quotes, on one line, with every
character that could not be told apart on paper written as an escape.

## Main definitions

* `quoteMark` — the mark that a text is put between.
* `quotedChar` — how one character is written between such marks.
* `quoted` — the whole quoted text.
-/

namespace Drafting

/-- A single quote, unless the text holds a single quote and no double quote. -/
def quoteMark (text : List Char) : Char :=
  if text.contains '\'' && !text.contains '"' then '"' else '\''

/-- The digits of `n` to the base sixteen, at least `width` of them. -/
def hexadecimal (width n : Nat) : List Char :=
  let digits := Nat.toDigits 16 n
  List.replicate (width - digits.length) '0' ++ digits

/-- An escape by number: two digits below 256, four below 65536, eight beyond. -/
def numberedEscape (c : Char) : List Char :=
  if c.toNat < 0x100 then '\\' :: 'x' :: hexadecimal 2 c.toNat
  else if c.toNat < 0x10000 then '\\' :: 'u' :: hexadecimal 4 c.toNat
  else '\\' :: 'U' :: hexadecimal 8 c.toNat

/-- The mark and the backslash take a backslash, line ends and tabs their letter, every other
unprintable character its number; the rest stands as it is. -/
def quotedChar (mark c : Char) : List Char :=
  if c = mark ∨ c = '\\' then ['\\', c]
  else if c = '\n' then ['\\', 'n']
  else if c = '\r' then ['\\', 'r']
  else if c = '\t' then ['\\', 't']
  else if isPrintable c then [c]
  else numberedEscape c

def quoted (text : List Char) : List Char :=
  let mark := quoteMark text
  mark :: text.flatMap (quotedChar mark) ++ [mark]

/-- The quoted form of a whole string. -/
def quotedString (text : String) : String := String.ofList (quoted text.toList)

end Drafting
