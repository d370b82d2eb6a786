import ActionTree.Json.Token

/-!
# Parsing JSON

A parser holds the arrays and objects that are open and knows what may come next, so nesting costs
no recursion.

* `Json.Frame`, `Json.Parser` - the open containers and what is awaited;
* `Json.parse?` - the value that a text spells, if it spells one.
-/

namespace ActionTree.Json

/-- An open container with what it has so far, the last first. -/
inductive Frame where
  | array (items : List Json)
  /-- An object that waits for the value of a key. -/
  | object (members : List (Key × Json)) (key : Key)

/-- What is awaited. -/
inductive Awaiting where
  | value
  /-- A value or the end of the array that was just opened. -/
  | firstItem
  /-- A key or the end of the object that was just opened. -/
  | firstKey
  | key (members : List (Key × Json))
  | colon (members : List (Key × Json)) (key : Key)
  /-- What follows a value that is complete. -/
  | after (value : Json)

/-- The state of parsing. -/
structure Parser where
  frames : List Frame
  awaiting : Awaiting

namespace Parser

/-- A token where a value may begin. -/
def begin? (frames : List Frame) : Token → Option Parser
  | .null => some ⟨frames, .after .null⟩
  | .boolean b => some ⟨frames, .after (.boolean b)⟩
  | .number n => some ⟨frames, .after (.number n)⟩
  | .string s _ => some ⟨frames, .after (.string s)⟩
  | .openArray => some ⟨.array [] :: frames, .firstItem⟩
  | .openObject => some ⟨frames, .firstKey⟩
  | _ => none

/-- A token after a complete value. -/
def continue? (frames : List Frame) (value : Json) : Token → Option Parser
  | .comma => match frames with
    | .array items :: rest => some ⟨.array (value :: items) :: rest, .value⟩
    | .object members key :: rest => some ⟨rest, .key ((key, value) :: members)⟩
    | [] => none
  | .closeArray => match frames with
    | .array items :: rest => some ⟨rest, .after (.array (value :: items).reverse)⟩
    | _ => none
  | .closeObject => match frames with
    | .object members key :: rest =>
      some ⟨rest, .after (.object ((key, value) :: members).reverse)⟩
    | _ => none
  | _ => none

/-- One token. -/
def step? (p : Parser) (t : Token) : Option Parser :=
  match p.awaiting with
  | .value => begin? p.frames t
  | .firstItem =>
    if t = .closeArray then
      match p.frames with
      | _ :: rest => some ⟨rest, .after (.array [])⟩
      | [] => none
    else begin? p.frames t
  | .firstKey => match t with
    | .string key isEscaped => some { p with awaiting := .colon [] ⟨key, isEscaped⟩ }
    | .closeObject => some { p with awaiting := .after (.object []) }
    | _ => none
  | .key members => match t with
    | .string key isEscaped => some { p with awaiting := .colon members ⟨key, isEscaped⟩ }
    | _ => none
  | .colon members key =>
    if t = .colon then some ⟨.object members key :: p.frames, .value⟩ else none
  | .after value => continue? p.frames value t

/-- The value at the end of the tokens, when nothing is open. -/
def finish? (p : Parser) : Option Json :=
  match p.frames, p.awaiting with
  | [], .after value => some value
  | _, _ => none

end Parser

/-- The value that tokens spell. -/
def ofTokens? (tokens : List Token) : Option Json :=
  (tokens.foldlM Parser.step? ⟨[], .value⟩).bind Parser.finish?

/-- The value that a text spells. -/
def parse? (text : String) : Option Json := (scan? text.toList).bind ofTokens?

end ActionTree.Json
