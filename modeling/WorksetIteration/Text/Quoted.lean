import WorksetIteration.Text.Shown

/-!
# Quoted texts

A text inside a printed value stands between double quotes.  Every character that could be misread is escaped, so the
quoted form has one line and shows every character it holds.

Main definitions:

- `escaped`: the written form of one character.
- `quoted`: the written form of a text.
-/

namespace WorksetIteration.Text

/-- The code point of a character in hexadecimal, between braces after `\u`. -/
def codePointEscape (c : Char) : List Char :=
  ['\\', 'u', '\x7b'] ++ Nat.toDigits 16 c.toNat ++ ['\x7d']

/-- The written form of one character: a letter after a backslash for the common controls, the quote and the backslash,
the character itself if it shows, and its code point otherwise. -/
def escaped (c : Char) : List Char :=
  match c with
  | '\x00' => ['\\', '0']
  | '\t' => ['\\', 't']
  | '\r' => ['\\', 'r']
  | '\n' => ['\\', 'n']
  | '"' => ['\\', '"']
  | '\\' => ['\\', '\\']
  | c => if shows c then [c] else codePointEscape c

/-- A text between double quotes, each character in its written form. -/
def quoted (s : String) : String :=
  String.ofList ('"' :: s.toList.flatMap escaped ++ ['"'])

end WorksetIteration.Text
