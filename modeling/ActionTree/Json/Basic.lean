import ActionTree.Decimal.Numeral

/-!
# JSON values

A value keeps what its text says: numbers as written, members in order and with repetitions, and
of a key whether it was written with escapes.  Whether a number is in range or a nesting too deep
is for the reader of a value to decide.

* `Json.Key` - the keys of members;
* `Json` - the values;
* `Json.depth` - how deep arrays and objects nest;
* `Json.distinct` - the value apart from how its members are written: a repeated one counts once.
-/

namespace ActionTree

/-- The key of a member: its text, which is absent when its escapes leave half of a surrogate pair,
and whether it was written with an escape. -/
structure Json.Key where
  text : Option String
  isEscaped : Bool
  deriving DecidableEq

/-- A JSON value.  A string is absent when its escapes leave half of a surrogate pair: such a string
can be skipped but not read. -/
inductive Json where
  | null
  | boolean (value : Bool)
  | number (value : Numeral)
  | string (value : Option String)
  | array (items : List Json)
  | object (members : List (Json.Key × Json))
  deriving Inhabited

namespace Json

/-! ### Keys -/

namespace Key

/-- The key of a text, written without escapes. -/
def ofText (s : String) : Key := ⟨some s, false⟩

/-- The same key, written without escapes. -/
def plain (key : Key) : Key := ⟨key.text, false⟩

/-- The text of a key that was written without escapes. -/
def plainText? (key : Key) : Option String := if key.isEscaped then none else key.text

end Key

/-! ### Making values -/

/-- A string. -/
def text (s : String) : Json := .string (some s)

/-- An object with given members. -/
def ofMembers (members : List (String × Json)) : Json :=
  .object (members.map fun (key, value) => (.ofText key, value))

/-- An integer. -/
def ofInt (i : Int) : Json := .number ⟨decide (i < 0), Nat.toDigits 10 i.natAbs, none, none⟩

/-- A natural number. -/
def ofNat (n : Nat) : Json := .number ⟨false, Nat.toDigits 10 n, none, none⟩

/-- An optional value, null when it is absent. -/
def ofOption {α : Type} (encode : α → Json) : Option α → Json
  | none => .null
  | some a => encode a

/-- A list of values. -/
def ofList {α : Type} (encode : α → Json) (as : List α) : Json := .array (as.map encode)

/-! ### Depth -/

mutual

/-- How deep arrays and objects nest. -/
def depth : Json → Nat
  | .array items => depthOfItems items + 1
  | .object members => depthOfMembers members + 1
  | _ => 0

/-- The greatest depth of some items. -/
def depthOfItems : List Json → Nat
  | [] => 0
  | item :: items => max item.depth (depthOfItems items)

/-- The greatest depth of some members. -/
def depthOfMembers : List (Key × Json) → Nat
  | [] => 0
  | (_, value) :: members => max value.depth (depthOfMembers members)

end

/-! ### Repeated members -/

/-- The members with each key once, at its first place and with its last value. -/
def lastWins (members : List (Key × Json)) : List (Key × Json) :=
  members.foldl (fun done (key, value) =>
    if done.any (·.1 == key) then done.map fun m => if m.1 == key then (key, value) else m
    else done ++ [(key, value)]) []

mutual

/-- The value apart from how its members are written: keys have no escapes, and a repeated member
counts once, with its last value. -/
def distinct : Json → Json
  | .array items => .array (distinctItems items)
  | .object members => .object (lastWins (distinctMembers members))
  | j => j

/-- Items without repeated members in them. -/
def distinctItems : List Json → List Json
  | [] => []
  | item :: items => item.distinct :: distinctItems items

/-- Members whose keys have no escapes, without repeated members in their values. -/
def distinctMembers : List (Key × Json) → List (Key × Json)
  | [] => []
  | (key, value) :: members => (key.plain, value.distinct) :: distinctMembers members

end

end Json

end ActionTree
