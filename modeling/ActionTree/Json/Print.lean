import ActionTree.Json.Basic

/-!
# Printing JSON

* `Json.escapeChar` - a character in a string: quotes, backslashes and controls are escaped;
* `Json.compact` - a value without blanks;
* `Json.pretty` - a value with one item or member on a line, indented by two blanks a level.
-/

namespace ActionTree.Json

/-- A character inside a string. -/
def escapeChar (c : Char) : List Char :=
  if c = '"' then ['\\', '"']
  else if c = '\\' then ['\\', '\\']
  else if c = '\x08' then ['\\', 'b']
  else if c = '\t' then ['\\', 't']
  else if c = '\n' then ['\\', 'n']
  else if c = '\x0c' then ['\\', 'f']
  else if c = '\r' then ['\\', 'r']
  else if c.toNat < 0x20 then
    ['\\', 'u', '0', '0', Nat.digitChar (c.toNat / 16), Nat.digitChar (c.toNat % 16)]
  else [c]

/-- A string in quotes. -/
def stringChars (s : Option String) : List Char :=
  '"' :: ((s.getD "").toList.flatMap escapeChar ++ ['"'])

/-- A value that holds no others. -/
def scalarChars : Json → List Char
  | .null => "null".toList
  | .boolean b => if b then "true".toList else "false".toList
  | .number n => n.text
  | .string s => stringChars s
  | .array _ => ['[', ']']
  | .object _ => ['\x7b', '\x7d']

/-! ### Without blanks -/

mutual

/-- A value without blanks. -/
def chars : Json → List Char
  | .array items => '[' :: (itemChars items ++ [']'])
  | .object members => '\x7b' :: (memberChars members ++ ['\x7d'])
  | j => j.scalarChars

/-- Items with commas between them. -/
def itemChars : List Json → List Char
  | [] => []
  | item :: items => item.chars ++ moreItemChars items

/-- Items with a comma before each. -/
def moreItemChars : List Json → List Char
  | [] => []
  | item :: items => ',' :: (item.chars ++ moreItemChars items)

/-- Members with commas between them. -/
def memberChars : List (Key × Json) → List Char
  | [] => []
  | (key, value) :: members =>
    stringChars key.text ++ ':' :: (value.chars ++ moreMemberChars members)

/-- Members with a comma before each. -/
def moreMemberChars : List (Key × Json) → List Char
  | [] => []
  | (key, value) :: members =>
    ',' :: (stringChars key.text ++ ':' :: (value.chars ++ moreMemberChars members))

end

/-- A value as text without blanks. -/
def compact (j : Json) : String := String.ofList j.chars

/-! ### With indentation -/

/-- A new line at a level. -/
def lineBreak (level : Nat) : List Char := '\n' :: List.replicate (2 * level) ' '

mutual

/-- A value at a level of indentation. -/
def prettyChars (level : Nat) : Json → List Char
  | .array (item :: items) =>
    '[' :: (lineBreak (level + 1) ++ item.prettyChars (level + 1)
      ++ prettyItems (level + 1) items ++ lineBreak level ++ [']'])
  | .object ((key, value) :: members) =>
    '\x7b' :: (lineBreak (level + 1) ++ stringChars key.text ++ ':' :: ' '
      :: value.prettyChars (level + 1) ++ prettyMembers (level + 1) members
      ++ lineBreak level ++ ['\x7d'])
  | j => j.scalarChars

/-- Items, each after a comma on a line of its own. -/
def prettyItems (level : Nat) : List Json → List Char
  | [] => []
  | item :: items =>
    ',' :: (lineBreak level ++ item.prettyChars level ++ prettyItems level items)

/-- Members, each after a comma on a line of its own. -/
def prettyMembers (level : Nat) : List (Key × Json) → List Char
  | [] => []
  | (key, value) :: members =>
    ',' :: (lineBreak level ++ stringChars key.text ++ ':' :: ' ' :: value.prettyChars level
      ++ prettyMembers level members)

end

/-- A value as indented text. -/
def pretty (j : Json) : String := String.ofList (j.prettyChars 0)

end ActionTree.Json
