import ActionTree.Character.Table
import ActionTree.Json.Decode

/-!
# Character tables in JSON

Contents and fills say what they are in a member `type`, which may stand anywhere among the others.
Such a value is taken in whole before it is looked into, so all of it has to be readable.

* `Json.tagged` - reads a value by its tag;
* `CharacterTable.toJson`, `CharacterTable.read` - a table;
* `readStretch` - the options of an import.
-/

namespace ActionTree

open Json

/-! ### Tagged values -/

namespace Json

/-- The member that holds a tag. -/
def tagKey : String := "type"

/-- The value of the only member with a key, and the other members. -/
def takeMember (key : String) (members : List (Key × Json)) :
    Option (Json × List (Key × Json)) :=
  match members.partition fun m => m.1.text == some key with
  | ([(_, value)], rest) => some (value, rest)
  | _ => none

/-- Reads a value by its tag, a member of an object or the first item of an array.  What remains is
read as a record. -/
def tagged {α : Type} (readTag : Json → Option String) (read : String → Reader α) : Reader α
  | depth, .object members =>
    match takeMember tagKey members with
    | some (tag, rest) => (readTag tag).bind fun name => read name depth (.object rest)
    | none => none
  | depth, .array (tag :: rest) => (readTag tag).bind fun name => read name depth (.array rest)
  | _, _ => none

/-- A tag by its name. -/
def tagName : Json → Option String
  | .string name => name
  | _ => none

/-- A tag by its name, or by its place in a list of names. -/
def tagNameOrPlace (names : List String) : Json → Option String
  | .number n => (readNat names.length 0 (.number n)).bind fun i => names[i]?
  | j => tagName j

end Json

/-! ### Bounds -/

namespace Rect

/-- Bounds as JSON. -/
def toJson (r : Rect) : Json :=
  ofMembers [
    ("x_min", ofInt r.xMin.toInt), ("y_min", ofInt r.yMin.toInt),
    ("x_max", ofInt r.xMax.toInt), ("y_max", ofInt r.yMax.toInt)]

/-- Reads bounds. -/
def read : Reader Rect :=
  record ["x_min", "y_min", "x_max", "y_max"] fun depth fields => do
    let xMin ← required "x_min" readInt32 depth fields
    let yMin ← required "y_min" readInt32 depth fields
    let xMax ← required "x_max" readInt32 depth fields
    let yMax ← required "y_max" readInt32 depth fields
    return ⟨xMin, yMin, xMax, yMax⟩

end Rect

/-! ### Fills -/

namespace Fill

/-- A fill as JSON. -/
def toJson : Fill → Json
  | .bitmap image => ofMembers [(tagKey, text "bitmap"), ("character_id", ofNat image.toNat)]
  | .vector svg => ofMembers [(tagKey, text "vector"), ("svg", text svg)]

/-- Reads the data of a fill. -/
def readData (name : String) : Reader Fill :=
  match name with
  | "bitmap" => record ["character_id"] fun depth fields =>
    (required "character_id" readUInt16 depth fields).map .bitmap
  | "vector" => record ["svg"] fun depth fields =>
    (required "svg" readText depth fields).map .vector
  | _ => fun _ _ => none

/-- Reads a fill. -/
def read : Reader Fill := tagged (tagNameOrPlace ["bitmap", "vector"]) readData

end Fill

/-! ### Contents -/

namespace ImageFormat

/-- The name of a format in JSON. -/
def jsonName : ImageFormat → String
  | .bmp => "Bmp"
  | .jpeg => "Jpeg"
  | .png => "Png"
  | .gif => "Gif"

/-- Reads a format.  An empty object may stand for its missing data. -/
def read : Reader ImageFormat :=
  variant fun _ name j =>
    (all.find? fun f => f.jsonName == name).bind fun f =>
      match j with
      | some (.object []) => some f
      | j => bare f j

end ImageFormat

namespace Content

/-- The member with the bytes of an image, left out when there are none. -/
def dataMembers (data : List UInt8) : List (String × Json) :=
  if data.isEmpty then [] else [("data", ofList (fun b => ofNat b.toNat) data)]

/-- A content as JSON. -/
def toJson : Content → Json
  | .shape bounds fill =>
    ofMembers [
      (tagKey, text "shape"), ("bounds", bounds.toJson), ("fill", ofOption Fill.toJson fill)]
  | .image format width height data =>
    ofMembers ([(tagKey, text "image"), ("format", text format.jsonName),
      ("width", ofNat width.toNat), ("height", ofNat height.toNat)] ++ dataMembers data)
  | .other => ofMembers [(tagKey, text "other")]

/-- Reads the data of a shape. -/
def readShape : Reader Content :=
  record ["bounds", "fill"] fun depth fields => do
    let bounds ← defaulted "bounds" Rect.zero Rect.read depth fields
    let fill ← optional "fill" Fill.read depth fields
    return .shape bounds fill

/-- Reads the data of an image. -/
def readImage : Reader Content :=
  record ["format", "width", "height", "data"] fun depth fields => do
    let format ← required "format" ImageFormat.read depth fields
    let width ← defaulted "width" 0 readUInt32 depth fields
    let height ← defaulted "height" 0 readUInt32 depth fields
    let data ← defaulted "data" [] (readList readUInt8) depth fields
    return .image format width height data

/-- Reads the data of a content. -/
def readData (name : String) : Reader Content :=
  match name with
  | "shape" => readShape
  | "image" => readImage
  | "other" => record [] fun _ _ => some .other
  | _ => fun _ _ => none

/-- Reads a content. -/
def read : Reader Content :=
  fun depth j => if isReadable depth j then tagged tagName readData depth j else none

end Content

/-! ### Characters and tables -/

namespace Character

/-- A character as JSON. -/
def toJson (c : Character) : Json :=
  ofMembers [("id", ofNat c.id.toNat), ("code", ofNat c.code.toNat), ("content", c.content.toJson),
    ("modified", .boolean c.modified)]

/-- Reads a character. -/
def read : Reader Character :=
  record ["id", "code", "content", "modified"] fun depth fields => do
    let id ← required "id" readUInt16 depth fields
    let code ← required "code" readUInt16 depth fields
    let content ← required "content" Content.read depth fields
    let modified ← defaulted "modified" false readBoolean depth fields
    return ⟨id, code, content, modified⟩

end Character

namespace CharacterTable

/-- A table as JSON. -/
def toJson (t : CharacterTable) : Json :=
  ofMembers [("tags", ofList Character.toJson t.characters)]

/-- Reads a table. -/
def read : Reader CharacterTable :=
  record ["tags"] fun depth fields =>
    (required "tags" (readList Character.read) depth fields).map CharacterTable.mk

end CharacterTable

/-! ### Options of an import -/

/-- Whether images are stretched over bounds, as the options of an import. -/
def stretchToJson (stretch : Bool) : Json := ofMembers [("fill", .boolean stretch)]

/-- Reads the options of an import.  Images are stretched unless they say otherwise. -/
def readStretch : Reader Bool :=
  record ["fill"] fun depth fields => defaulted "fill" true readBoolean depth fields

end ActionTree
