import ActionTree.Character.Basic
import ActionTree.Error

/-!
# Character tables

A table holds the characters of a movie in the order of their tags.  Ids may repeat; the first
character with an id is the one that is meant.

* `CharacterTable.find?`, `position?`, `shape?` - looking characters up;
* `CharacterTable.shapeIds`, `nextId` - the ids of shapes, and one that is free;
* `CharacterTable.insertBefore?`, `modifyFirst` - changing a table.
-/

namespace ActionTree

/-- The characters of a movie. -/
structure CharacterTable where
  characters : List Character
  deriving DecidableEq

/-- A character put before the first one with an id, if there is one. -/
def insertBeforeFirst? (id : UInt16) (new : Character) : List Character → Option (List Character)
  | [] => none
  | c :: cs =>
    if c.id = id then some (new :: c :: cs) else (insertBeforeFirst? id new cs).map (c :: ·)

/-- A change to the first character with an id. -/
def modifyFirst (id : UInt16) (change : Character → Character) : List Character → List Character
  | [] => []
  | c :: cs => if c.id = id then change c :: cs else c :: modifyFirst id change cs

namespace CharacterTable

/-- A table without characters. -/
def empty : CharacterTable := ⟨[]⟩

/-! ### Looking up -/

/-- The place of the first character with an id. -/
def position? (t : CharacterTable) (id : UInt16) : Option Nat :=
  t.characters.findIdx? (·.id == id)

/-- The first character with an id. -/
def find? (t : CharacterTable) (id : UInt16) : Option Character :=
  t.characters.find? (·.id == id)

/-- The shape with an id, or why there is none. -/
def shape? (t : CharacterTable) (id : UInt16) : Except Error Character :=
  match t.find? id with
  | none => .error (.unknownCharacter id)
  | some c => if c.isShape then .ok c else .error (.notAShape id)

/-- The ids of all shapes in ascending order. -/
def shapeIds (t : CharacterTable) : List UInt16 :=
  ((t.characters.filter Character.isShape).map Character.id).mergeSort

/-- The greatest id in use. -/
def greatestId? (t : CharacterTable) : Option Nat := (t.characters.map (·.id.toNat)).max?

/-- An id above all others; the first one is 1. -/
def nextId (t : CharacterTable) : Except Error UInt16 :=
  match t.greatestId? with
  | none => .ok 1
  | some m =>
    if m + 1 < UInt16.size then .ok (.ofNat (m + 1))
    else .error (.internal "character id space exhausted")

/-! ### Changing -/

/-- The table with a character before the first one with an id. -/
def insertBefore? (t : CharacterTable) (id : UInt16) (new : Character) :
    Except Error CharacterTable :=
  match insertBeforeFirst? id new t.characters with
  | some cs => .ok ⟨cs⟩
  | none => .error (.unknownCharacter id)

/-- The table with a character at its end. -/
def append (t : CharacterTable) (new : Character) : CharacterTable := ⟨t.characters ++ [new]⟩

/-- The table with a change to the first character with an id. -/
def modify (t : CharacterTable) (id : UInt16) (change : Character → Character) : CharacterTable :=
  ⟨modifyFirst id change t.characters⟩

end CharacterTable

end ActionTree
