import ActionTree.Text.Hidden

/-!
# Quoted text

* `quote` - a string literal of the source language;
* `unescape` - reads the inside of such a literal back;
* `display` - text quoted for a reader, with hidden characters spelled by code.
-/

namespace ActionTree.Text

/-! ### String literals -/

/-- The hexadecimal digit of a value below 16, in capitals. -/
def hexDigit (n : Nat) : Char := (Nat.digitChar n).toUpper

/-- A character inside a string literal. -/
def escape (c : Char) : List Char :=
  if c = '"' then ['\\', '"']
  else if c = '\\' then ['\\', '\\']
  else if c = '\n' then ['\\', 'n']
  else if c = '\r' then ['\\', 'r']
  else if c = '\t' then ['\\', 't']
  else if c = '\x08' then ['\\', 'b']
  else if c = '\x0c' then ['\\', 'f']
  else if c.toNat < 0x20 then ['\\', 'x', hexDigit (c.toNat / 16), hexDigit (c.toNat % 16)]
  else [c]

/-- The characters of a string literal, quotes included. -/
def quoteChars (cs : List Char) : List Char := '"' :: (cs.flatMap escape ++ ['"'])

/-- A string literal. -/
def quote (s : String) : String := String.ofList (quoteChars s.toList)

/-- The value of a hexadecimal digit. -/
def hexValue? (c : Char) : Option Nat :=
  if '0' ≤ c ∧ c ≤ '9' then some (c.toNat - 48)
  else if 'a' ≤ c ∧ c ≤ 'f' then some (c.toNat - 87)
  else if 'A' ≤ c ∧ c ≤ 'F' then some (c.toNat - 55)
  else none

/-- The characters that the inside of a string literal denotes. -/
def unescape : List Char → Option (List Char)
  | [] => some []
  | '\\' :: '"' :: rest => (unescape rest).map ('"' :: ·)
  | '\\' :: '\\' :: rest => (unescape rest).map ('\\' :: ·)
  | '\\' :: 'n' :: rest => (unescape rest).map ('\n' :: ·)
  | '\\' :: 'r' :: rest => (unescape rest).map ('\r' :: ·)
  | '\\' :: 't' :: rest => (unescape rest).map ('\t' :: ·)
  | '\\' :: 'b' :: rest => (unescape rest).map ('\x08' :: ·)
  | '\\' :: 'f' :: rest => (unescape rest).map ('\x0c' :: ·)
  | '\\' :: 'x' :: a :: b :: rest =>
    match hexValue? a, hexValue? b with
    | some h, some l => (unescape rest).map (Char.ofNat (16 * h + l) :: ·)
    | _, _ => none
  | '\\' :: _ => none
  | '"' :: _ => none
  | c :: rest => (unescape rest).map (c :: ·)

/-! ### Text for a reader -/

/-- The code of a character in braces. -/
def codeEscape (c : Char) : List Char :=
  ['\\', 'u', '\x7b'] ++ Nat.toDigits 16 c.toNat ++ ['\x7d']

/-- A character as shown to a reader. -/
def displayChar (c : Char) : List Char :=
  if c = '"' then ['\\', '"']
  else if c = '\\' then ['\\', '\\']
  else if c = '\n' then ['\\', 'n']
  else if c = '\r' then ['\\', 'r']
  else if c = '\t' then ['\\', 't']
  else if c.toNat = 0 then ['\\', '0']
  else if c.toNat < 0x20 || c.toNat == 0x7f || isHidden c then codeEscape c
  else [c]

/-- Text as shown to a reader, in quotes. -/
def display (s : String) : String :=
  String.ofList ('"' :: (s.toList.flatMap displayChar ++ ['"']))

end ActionTree.Text
