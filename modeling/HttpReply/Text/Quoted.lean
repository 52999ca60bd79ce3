import HttpReply.Text.Unprintable

/-!
Texts between double quotes. Whatever the text contains, its written form holds no line break
and no quote that is not preceded by a backslash. Which characters are hidden behind their number is
left open here; descriptions hide the unprintable ones unless they are told otherwise.
-/

namespace HttpReply.Text

/-- The letter or sign that follows the backslash, for the characters that have such a form. -/
def shortEscape? : Char → Option Char
  | '"' => some '"'
  | '\\' => some '\\'
  | '\n' => some 'n'
  | '\r' => some 'r'
  | '\t' => some 't'
  | '\x00' => some '0'
  | _ => none

/-- A character inside a quoted text: by its short form if it has one, by its number in lower
case hexadecimal if it is one of the `hidden` characters, and as itself otherwise. The single quote
needs no escape. -/
def escape (hidden : Char → Bool) (c : Char) : List Char :=
  match shortEscape? c with
  | some sign => ['\\', sign]
  | none =>
    if hidden c then ['\\', 'u', '\x7b'] ++ Nat.toDigits 16 c.toNat ++ ['\x7d'] else [c]

/-- The quoted form of a text, given as its characters. -/
def quote (hidden : Char → Bool) (cs : List Char) : List Char :=
  '"' :: (cs.flatMap (escape hidden) ++ ['"'])

/-- The quoted form of a string. -/
def quoted (hidden : Char → Bool) (s : String) : List Char :=
  quote hidden s.toList

end HttpReply.Text
