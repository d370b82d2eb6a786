import ActionTree.Json.Basic
import ActionTree.Text.Quoted

/-!
# JSON tokens

* `Json.Token` - brackets, separators, names, numbers and strings;
* `Json.Scanner` - the state between two characters of a text;
* `Json.scan?` - the tokens of a text.
-/

namespace ActionTree.Json

/-- A token.  A string says whether it was written with an escape. -/
inductive Token where
  | openArray
  | closeArray
  | openObject
  | closeObject
  | comma
  | colon
  | null
  | boolean (value : Bool)
  | number (value : Numeral)
  | string (value : Option String) (isEscaped : Bool)
  deriving DecidableEq

/-! ### Strings -/

/-- A piece of a string: a character that stands for itself, or what an escape gave, a character or
one half of a surrogate pair. -/
inductive Piece where
  | char (c : Char)
  | escaped (c : Char)
  | half (unit : Nat)
  deriving DecidableEq

/-- Whether an escape gave a piece. -/
def Piece.isEscaped : Piece → Bool
  | .char _ => false
  | .escaped _ => true
  | .half _ => true

/-- The piece that a four digit escape gives. -/
def Piece.ofCode (n : Nat) : Piece :=
  if 0xd800 ≤ n ∧ n < 0xe000 then .half n else .escaped (Char.ofNat n)

/-- The characters of a string; a high half must stand before a low one. -/
def joinPieces : List Piece → Option (List Char)
  | [] => some []
  | .char c :: rest => (joinPieces rest).map (c :: ·)
  | .escaped c :: rest => (joinPieces rest).map (c :: ·)
  | .half high :: .half low :: rest =>
    if high < 0xdc00 ∧ 0xdc00 ≤ low then
      (joinPieces rest).map (Char.ofNat (0x10000 + (high - 0xd800) * 0x400 + (low - 0xdc00)) :: ·)
    else none
  | .half _ :: _ => none

/-- The token of a string. -/
def stringToken (pieces : List Piece) : Token :=
  .string ((joinPieces pieces).map String.ofList) (pieces.any Piece.isEscaped)

/-- The character that a one letter escape stands for. -/
def simpleEscape? (c : Char) : Option Char :=
  if c = '"' ∨ c = '\\' ∨ c = '/' then some c
  else if c = 'b' then some '\x08'
  else if c = 'f' then some '\x0c'
  else if c = 'n' then some '\n'
  else if c = 'r' then some '\r'
  else if c = 't' then some '\t'
  else none

/-! ### Words -/

/-- The numeral that a word spells: no zero before other digits, and digits on both sides of a
point. -/
def numeral? (cs : List Char) : Option Numeral :=
  let (negative, unsigned) := match cs with
    | '-' :: rest => (true, rest)
    | rest => (false, rest)
  match Numeral.read? unsigned with
  | some n =>
    if n.whole = [] ∨ (n.whole.head? = some '0' ∧ n.whole.length ≠ 1) ∨ n.fraction = some [] then
      none
    else some { n with negative }
  | none => none

/-- The token of a word: `true`, `false`, `null` or a number. -/
def wordToken? (cs : List Char) : Option Token :=
  if cs = "null".toList then some .null
  else if cs = "true".toList then some (.boolean true)
  else if cs = "false".toList then some (.boolean false)
  else (numeral? cs).map .number

/-! ### Scanning -/

/-- Where a scanner stands.  Words and strings hold what they have so far, the last first. -/
inductive Standing where
  | between
  | word (cs : List Char)
  | inString (pieces : List Piece)
  | escape (pieces : List Piece)
  | code (pieces : List Piece) (digits value : Nat)
  deriving DecidableEq

/-- The tokens so far, the last first, and where the scanner stands. -/
structure Scanner where
  tokens : List Token
  standing : Standing
  deriving DecidableEq

namespace Scanner

/-- Ends a word. -/
def flush? (s : Scanner) : Option Scanner :=
  match s.standing with
  | .word cs => (wordToken? cs.reverse).map fun t => ⟨t :: s.tokens, .between⟩
  | _ => some s

/-- The token of a bracket or separator. -/
def punctuation? (c : Char) : Option Token :=
  if c = '[' then some .openArray
  else if c = ']' then some .closeArray
  else if c = '\x7b' then some .openObject
  else if c = '\x7d' then some .closeObject
  else if c = ',' then some .comma
  else if c = ':' then some .colon
  else none

/-- Whether a character separates tokens. -/
def isSpace (c : Char) : Bool := c == ' ' || c == '\t' || c == '\n' || c == '\r'

/-- A character outside of strings: it separates, begins a string, is a token or goes on with a
word. -/
def outside? (s : Scanner) (c : Char) : Option Scanner :=
  if isSpace c then s.flush?
  else if c = '"' then s.flush?.map fun s => { s with standing := .inString [] }
  else match punctuation? c with
    | some t => s.flush?.map fun s => { s with tokens := t :: s.tokens }
    | none =>
      match s.standing with
      | .word cs => some { s with standing := .word (c :: cs) }
      | _ => some { s with standing := .word [c] }

/-- One character. -/
def step? (s : Scanner) (c : Char) : Option Scanner :=
  match s.standing with
  | .inString pieces =>
    if c = '"' then some ⟨stringToken pieces.reverse :: s.tokens, .between⟩
    else if c = '\\' then some { s with standing := .escape pieces }
    else if c.toNat < 0x20 then none
    else some { s with standing := .inString (.char c :: pieces) }
  | .escape pieces =>
    if c = 'u' then some { s with standing := .code pieces 0 0 }
    else (simpleEscape? c).map fun c => { s with standing := .inString (.escaped c :: pieces) }
  | .code pieces digits value =>
    (Text.hexValue? c).map fun v =>
      let value := value * 16 + v
      if digits = 3 then { s with standing := .inString (.ofCode value :: pieces) }
      else { s with standing := .code pieces (digits + 1) value }
  | _ => s.outside? c

/-- The tokens at the end of a text, which must not be inside a string. -/
def finish? (s : Scanner) : Option (List Token) :=
  match s.flush? with
  | some ⟨tokens, .between⟩ => some tokens.reverse
  | _ => none

end Scanner

/-- The tokens of a text. -/
def scan? (cs : List Char) : Option (List Token) :=
  (cs.foldlM Scanner.step? ⟨[], .between⟩).bind Scanner.finish?

end ActionTree.Json
