/-!
# Reading and writing JSON texts

A reader for the whole of JSON, and the written form of its strings.  The reader keeps what a configuration needs to
know: a natural number by its value, any other numeral only as one, and a string as the pieces it was written in, since
an escape may name half a surrogate pair and then the string denotes no text.

Main definitions:

- `Json.parse`: the value that a whole text holds, if it is well formed.
- `Json.textOf?`: the text that the pieces of a string denote.
- `Json.writeString`: the written form of a text.
-/

namespace WorksetIteration

/-- One element of a written string: a character, or a code unit given by its four hexadecimal digits. -/
inductive JsonPiece where
  /-- A character that stands for itself or was escaped by a letter. -/
  | char (c : Char)
  /-- An escaped sixteen-bit code unit. -/
  | unit (code : Nat)
deriving DecidableEq, Repr

/-- A JSON value. -/
inductive Json where
  /-- The word `null`. -/
  | null
  /-- One of the words `true` and `false`. -/
  | bool (b : Bool)
  /-- A numeral without sign, point and exponent. -/
  | natural (n : Nat)
  /-- Any other numeral. -/
  | numeral
  /-- A string, as the pieces it was written in. -/
  | string (pieces : List JsonPiece)
  /-- The elements of an array. -/
  | array (elements : List Json)
  /-- The members of an object in the order in which they were written. -/
  | object (members : List (List JsonPiece × Json))
deriving Repr

namespace Json

/-! ## Strings -/

/-- The value of a hexadecimal digit. -/
def hexValue? (c : Char) : Option Nat :=
  if '0' ≤ c ∧ c ≤ '9' then some (c.toNat - '0'.toNat)
  else if 'a' ≤ c ∧ c ≤ 'f' then some (c.toNat - 'a'.toNat + 10)
  else if 'A' ≤ c ∧ c ≤ 'F' then some (c.toNat - 'A'.toNat + 10)
  else none

/-- The code unit that four hexadecimal digits name. -/
def codeUnit? (a b c d : Char) : Option Nat := do
  let a ← hexValue? a
  let b ← hexValue? b
  let c ← hexValue? c
  let d ← hexValue? d
  pure (((a * 16 + b) * 16 + c) * 16 + d)

/-- The character that a letter after a backslash stands for. -/
def letterEscape? : Char → Option Char
  | '"' => some '"'
  | '\\' => some '\\'
  | '/' => some '/'
  | 'b' => some '\x08'
  | 'f' => some '\x0c'
  | 'n' => some '\n'
  | 'r' => some '\r'
  | 't' => some '\t'
  | _ => none

/-- Reads a string after its opening quote: its pieces, and what follows the closing quote.  Control characters must be
escaped. -/
def scanString : List Char → Option (List JsonPiece × List Char)
  | [] => none
  | '"' :: rest => some ([], rest)
  | '\\' :: 'u' :: a :: b :: c :: d :: rest => do
      let code ← codeUnit? a b c d
      let (pieces, rest) ← scanString rest
      pure (.unit code :: pieces, rest)
  | '\\' :: letter :: rest => do
      let c ← letterEscape? letter
      let (pieces, rest) ← scanString rest
      pure (.char c :: pieces, rest)
  | c :: rest =>
      if c.toNat < 0x20 ∨ c = '\\' then none
      else do
        let (pieces, rest) ← scanString rest
        pure (.char c :: pieces, rest)

/-- The characters that the pieces of a string denote; a surrogate code unit counts only as half of a pair. -/
def charsOf? : List JsonPiece → Option (List Char)
  | [] => some []
  | .char c :: rest => (charsOf? rest).map (c :: ·)
  | .unit code :: rest =>
      if code < 0xD800 ∨ 0xDFFF < code then
        (charsOf? rest).map (Char.ofNat code :: ·)
      else if code < 0xDC00 then
        match rest with
        | .unit low :: rest =>
            if 0xDC00 ≤ low ∧ low ≤ 0xDFFF then
              (charsOf? rest).map (Char.ofNat (0x10000 + (code - 0xD800) * 0x400 + (low - 0xDC00)) :: ·)
            else none
        | _ => none
      else none

/-- The text that the pieces of a string denote. -/
def textOf? (pieces : List JsonPiece) : Option String :=
  (charsOf? pieces).map String.ofList

/-! ## Numerals -/

/-- The digits at the head of a text, and what follows them. -/
def scanDigits (cs : List Char) : List Char × List Char :=
  (cs.takeWhile Char.isDigit, cs.dropWhile Char.isDigit)

/-- The number that decimal digits denote. -/
def digitsValue (digits : List Char) : Nat :=
  digits.foldl (fun n c => 10 * n + (c.toNat - '0'.toNat)) 0

/-- The integer part of a numeral: a zero alone, or digits that start with another one. -/
def scanInteger? (cs : List Char) : Option (List Char × List Char) :=
  match scanDigits cs with
  | ([], _) => none
  | ('0' :: _ :: _, _) => none
  | (digits, rest) => some (digits, rest)

/-- What follows the fraction of a numeral, and whether there is one. -/
def scanFraction? : List Char → Option (Bool × List Char)
  | '.' :: rest =>
      match scanDigits rest with
      | ([], _) => none
      | (_, rest) => some (true, rest)
  | rest => some (false, rest)

/-- A text without the sign at its head. -/
def skipSign : List Char → List Char
  | '+' :: rest => rest
  | '-' :: rest => rest
  | rest => rest

/-- What follows the exponent of a numeral, and whether there is one. -/
def scanExponent? : List Char → Option (Bool × List Char)
  | c :: rest =>
      if c = 'e' ∨ c = 'E' then
        match scanDigits (skipSign rest) with
        | ([], _) => none
        | (_, rest) => some (true, rest)
      else some (false, c :: rest)
  | [] => some (false, [])

/-- Reads a numeral. -/
def scanNumber? (cs : List Char) : Option (Json × List Char) := do
  let negative := cs.head? = some '-'
  let (digits, rest) ← scanInteger? (if negative then cs.tail else cs)
  let (fraction, rest) ← scanFraction? rest
  let (exponent, rest) ← scanExponent? rest
  let plain := !negative && !fraction && !exponent
  pure (if plain then .natural (digitsValue digits) else .numeral, rest)

/-! ## Values -/

/-- The characters that may stand between the parts of a text. -/
def isBlank (c : Char) : Bool :=
  c = ' ' || c = '\n' || c = '\t' || c = '\r'

/-- A text without the blanks at its head. -/
def skipBlanks (cs : List Char) : List Char :=
  cs.dropWhile isBlank

mutual

/-- Reads one value and returns what follows it; every nested part takes one unit of fuel. -/
def scanValue : (fuel : Nat) → List Char → Option (Json × List Char)
  | 0, _ => none
  | fuel + 1, cs =>
      match skipBlanks cs with
      | '"' :: rest => do
          let (pieces, rest) ← scanString rest
          pure (.string pieces, rest)
      | '[' :: rest =>
          match skipBlanks rest with
          | ']' :: rest => some (.array [], rest)
          | rest => do
              let (elements, rest) ← scanElements fuel rest
              pure (.array elements, rest)
      | '\x7b' :: rest =>
          match skipBlanks rest with
          | '\x7d' :: rest => some (.object [], rest)
          | rest => do
              let (members, rest) ← scanMembers fuel rest
              pure (.object members, rest)
      | 'n' :: 'u' :: 'l' :: 'l' :: rest => some (.null, rest)
      | 't' :: 'r' :: 'u' :: 'e' :: rest => some (.bool true, rest)
      | 'f' :: 'a' :: 'l' :: 's' :: 'e' :: rest => some (.bool false, rest)
      | rest => scanNumber? rest

/-- Reads the elements of an array up to its closing bracket. -/
def scanElements : (fuel : Nat) → List Char → Option (List Json × List Char)
  | 0, _ => none
  | fuel + 1, cs => do
      let (element, rest) ← scanValue fuel cs
      match skipBlanks rest with
      | ',' :: rest => do
          let (elements, rest) ← scanElements fuel rest
          pure (element :: elements, rest)
      | ']' :: rest => pure ([element], rest)
      | _ => none

/-- Reads the members of an object up to its closing brace. -/
def scanMembers : (fuel : Nat) → List Char → Option (List (List JsonPiece × Json) × List Char)
  | 0, _ => none
  | fuel + 1, cs =>
      match skipBlanks cs with
      | '"' :: rest => do
          let (name, rest) ← scanString rest
          match skipBlanks rest with
          | ':' :: rest => do
              let (value, rest) ← scanValue fuel rest
              match skipBlanks rest with
              | ',' :: rest => do
                  let (members, rest) ← scanMembers fuel rest
                  pure ((name, value) :: members, rest)
              | '\x7d' :: rest => pure ([(name, value)], rest)
              | _ => none
          | _ => none
      | _ => none

end

/-- The value that a whole text holds.  A nested part takes at least one character and two units of fuel, so the fuel
given here never runs out. -/
def parse (s : String) : Option Json := do
  let cs := s.toList
  let (value, rest) ← scanValue (2 * cs.length + 2) cs
  if skipBlanks rest = [] then pure value else none

/-! ## Writing -/

/-- The written form of one character: a letter after a backslash where there is one, four hexadecimal digits for the
other control characters, and the character itself otherwise. -/
def writeChar (c : Char) : List Char :=
  match c with
  | '"' => ['\\', '"']
  | '\\' => ['\\', '\\']
  | '\x08' => ['\\', 'b']
  | '\x0c' => ['\\', 'f']
  | '\n' => ['\\', 'n']
  | '\r' => ['\\', 'r']
  | '\t' => ['\\', 't']
  | c =>
      if c.toNat < 0x20 then
        ['\\', 'u', '0', '0', Nat.digitChar (c.toNat / 16), Nat.digitChar (c.toNat % 16)]
      else [c]

/-- The written form of a text, quotes included. -/
def writeString (s : String) : List Char :=
  '"' :: s.toList.flatMap writeChar ++ ['"']

/-- The written form of a natural number. -/
def writeNatural (n : Nat) : List Char :=
  Nat.toDigits 10 n

/-- The written form of a list of natural numbers. -/
def writeNaturals (ns : List Nat) : List Char :=
  '[' :: [','].intercalate (ns.map writeNatural) ++ [']']

end Json

end WorksetIteration
