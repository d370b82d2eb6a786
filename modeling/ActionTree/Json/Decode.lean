import ActionTree.Json.Number

/-!
# Reading JSON values

A reader takes the number of levels that arrays and objects may still nest, which is what bounds
its recursion.  Values that nothing reads are not looked into.

* `Json.Reader` - readers;
* `Json.record` - the fields of an object, or of an array that lists them in order;
* `Json.variant` - a name alone, or a name with its data;
* `Json.isReadable` - whether all of a value could be read.
-/

namespace ActionTree.Json

/-- A reader of values, given how many levels may still nest. -/
abbrev Reader (α : Type) := Nat → Json → Option α

/-- The number of levels that a document may nest. -/
def depthLimit : Nat := 127

/-! ### Scalars -/

/-- Reads a boolean. -/
def readBoolean : Reader Bool
  | _, .boolean b => some b
  | _, _ => none

/-- Reads a string. -/
def readText : Reader String
  | _, .string s => s
  | _, _ => none

/-- Reads an integer in a range. -/
def readInt (lo hi : Int) : Reader Int
  | _, .number n =>
    match Number.ofNumeral? n with
    | some (.integer i) => if lo ≤ i ∧ i ≤ hi then some i else none
    | _ => none
  | _, _ => none

/-- Reads a natural number below a bound. -/
def readNat (bound : Nat) : Reader Nat :=
  fun depth j => (readInt 0 (bound - 1 : Int) depth j).map Int.toNat

/-- Reads a signed 32 bit word. -/
def readInt32 : Reader Int32 :=
  fun depth j =>
    (readInt Int32.minValue.toInt Int32.maxValue.toInt depth j).map Int32.ofInt

/-- Reads an unsigned 32 bit word. -/
def readUInt32 : Reader UInt32 := fun depth j => (readNat UInt32.size depth j).map UInt32.ofNat

/-- Reads an unsigned 64 bit word. -/
def readUInt64 : Reader UInt64 := fun depth j => (readNat UInt64.size depth j).map UInt64.ofNat

/-- Reads an unsigned 16 bit word. -/
def readUInt16 : Reader UInt16 := fun depth j => (readNat UInt16.size depth j).map UInt16.ofNat

/-- Reads a byte. -/
def readUInt8 : Reader UInt8 := fun depth j => (readNat UInt8.size depth j).map UInt8.ofNat

/-- Reads a double; integers are doubles too. -/
def readDouble : Reader Double
  | _, .number n => (Number.ofNumeral? n).map Number.toDouble
  | _, _ => none

/-! ### Containers -/

/-- Reads null as nothing. -/
def readOption {α : Type} (read : Reader α) : Reader (Option α)
  | _, .null => some none
  | depth, j => (read depth j).map some

/-- Reads each of some values. -/
def readAll {α : Type} (read : Json → Option α) : List Json → Option (List α)
  | [] => some []
  | j :: js =>
    match read j with
    | some a => (readAll read js).map (a :: ·)
    | none => none

/-- Reads an array. -/
def readList {α : Type} (read : Reader α) : Reader (List α)
  | depth + 1, .array items => readAll (read depth) items
  | _, _ => none

/-! ### Records -/

/-- The fields of a record that are present. -/
abbrev Fields := List (String × Json)

/-- The members with known names.  A known name may stand once; unknown ones are skipped. -/
def knownMembers (names : List String) : List (Key × Json) → Option Fields
  | [] => some []
  | (⟨none, _⟩, _) :: _ => none
  | (⟨some key, _⟩, value) :: members =>
    match knownMembers names members with
    | none => none
    | some fields =>
      if !names.contains key then some fields
      else if fields.any (·.1 == key) then none
      else some ((key, value) :: fields)

/-- The fields of an object, or of an array that gives them in the order of their names. -/
def fields? (names : List String) : Json → Option Fields
  | .object members => knownMembers names members
  | .array items => if items.length ≤ names.length then some (names.zip items) else none
  | _ => none

/-- Reads a record by its fields. -/
def record {α : Type} (names : List String) (read : Nat → Fields → Option α) : Reader α
  | depth + 1, j => (fields? names j).bind (read depth)
  | 0, _ => none

/-- Reads a field that must be present. -/
def required {α : Type} (name : String) (read : Reader α) (depth : Nat) (fields : Fields) :
    Option α :=
  (fields.lookup name).bind (read depth)

/-- Reads a field that has a default. -/
def defaulted {α : Type} (name : String) (default : α) (read : Reader α) (depth : Nat)
    (fields : Fields) : Option α :=
  match fields.lookup name with
  | some j => read depth j
  | none => some default

/-- Reads a field that may be null or absent. -/
def optional {α : Type} (name : String) (read : Reader α) (depth : Nat) (fields : Fields) :
    Option (Option α) :=
  defaulted name none (readOption read) depth fields

/-! ### Variants -/

/-- Reads a variant: its name alone, or an object with its name as the only member. -/
def variant {α : Type} (read : Nat → String → Option Json → Option α) : Reader α
  | depth, .string (some name) => read depth name none
  | depth + 1, .object [(⟨some name, _⟩, data)] => read depth name (some data)
  | _, _ => none

/-- A variant without data, for which null may stand. -/
def bare {α : Type} (a : α) : Option Json → Option α
  | none => some a
  | some .null => some a
  | _ => none

/-- The data of a variant. -/
def data {α : Type} (read : Json → Option α) (j : Option Json) : Option α := j.bind read

/-- Reads a variant without data from a table of names. -/
def readName {α : Type} (table : List (String × α)) : Reader α :=
  variant fun _ name j => (table.lookup name).bind fun a => bare a j

/-! ### Whole values -/

mutual

/-- Whether all of a value could be read: its strings are whole, its numbers in range, and it nests
no deeper than allowed. -/
def isReadable : Nat → Json → Bool
  | _, .null => true
  | _, .boolean _ => true
  | _, .number n => (Number.ofNumeral? n).isSome
  | _, .string s => s.isSome
  | 0, .array _ => false
  | 0, .object _ => false
  | depth + 1, .array items => areReadable depth items
  | depth + 1, .object members => membersReadable depth members

/-- Whether all of some items could be read. -/
def areReadable : Nat → List Json → Bool
  | _, [] => true
  | depth, item :: items => isReadable depth item && areReadable depth items

/-- Whether all of some members could be read. -/
def membersReadable : Nat → List (Key × Json) → Bool
  | _, [] => true
  | depth, (key, value) :: members =>
    key.text.isSome && isReadable depth value && membersReadable depth members

end

end ActionTree.Json
