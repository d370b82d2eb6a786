import ActionTree.Method.Render
import ActionTree.Schema.Node

/-!
# Methods and options in JSON

* `Method.toJson`, `Method.read` - a method;
* `RenderOptions.toJson`, `RenderOptions.read` - options, all of which have a default.
-/

namespace ActionTree

open Json

/-! ### Names of registers -/

/-- The number of a register as the key of an object. -/
def registerKey (register : UInt32) : String := String.ofList (Nat.toDigits 10 register.toNat)

/-- The register of a key: digits, and no zero before others. -/
def registerOfKey? (key : String) : Option UInt32 :=
  let n := Numeral.digitsValue 0 key.toList
  if n < UInt32.size ∧ key.toList = Nat.toDigits 10 n then some (UInt32.ofNat n) else none

namespace LocalNames

/-- Names as an object with a key for each register. -/
def toJson (l : LocalNames) : Json :=
  ofMembers (l.entries.map fun (register, name) => (registerKey register, text name))

/-- Reads the entries of an object, whose keys are numbers and so have no escapes. -/
def readEntries (depth : Nat) : List (Key × Json) → Option (List (UInt32 × String))
  | [] => some []
  | (key, value) :: members => do
    let register ← key.plainText?.bind registerOfKey?
    let name ← readText depth value
    let entries ← readEntries depth members
    return (register, name) :: entries

/-- Reads names; of a repeated key the last one counts. -/
def read : Reader LocalNames
  | depth + 1, .object members => (readEntries depth members).map ofList
  | _, _ => none

end LocalNames

/-! ### Methods -/

namespace Method

/-- A method as JSON. -/
def toJson (coding : NumberCoding) (m : Method) : Json :=
  ofMembers [
    ("name", text m.name),
    ("statements", ofList (Node.toJson coding) m.statements),
    ("local_names", m.localNames.toJson),
    ("class_name", ofOption QualifiedName.toJson m.className),
    ("is_static", .boolean m.isStatic)]

/-- Reads a method. -/
def read (coding : NumberCoding) : Reader Method :=
  record ["name", "statements", "local_names", "class_name", "is_static"] fun depth fields => do
    let name ← required "name" readText depth fields
    let statements ← required "statements" (readList (Node.read coding)) depth fields
    let localNames ← defaulted "local_names" LocalNames.empty LocalNames.read depth fields
    let className ← optional "class_name" QualifiedName.read depth fields
    let isStatic ← defaulted "is_static" false readBoolean depth fields
    return ⟨name, statements, localNames, className, isStatic⟩

end Method

/-! ### Options -/

namespace RenderOptions

/-- Options as JSON. -/
def toJson (o : RenderOptions) : Json :=
  ofMembers [
    ("indent", text o.indentUnit),
    ("local_name_prefix", text o.localStem),
    ("fold_constants", .boolean o.foldsConstants),
    ("parallel_threshold", ofNat o.parallelThreshold.toNat),
    ("show_progress", .boolean o.showsProgress),
    ("max_rendered_nodes", ofOption (fun n => ofNat n.toNat) o.nodeLimit)]

/-- Reads options. -/
def read : Reader RenderOptions :=
  record ["indent", "local_name_prefix", "fold_constants", "parallel_threshold", "show_progress",
      "max_rendered_nodes"] fun depth fields => do
    let indentUnit ← defaulted "indent" default.indentUnit readText depth fields
    let localStem ← defaulted "local_name_prefix" default.localStem readText depth fields
    let foldsConstants ← defaulted "fold_constants" default.foldsConstants readBoolean depth fields
    let parallelThreshold ←
      defaulted "parallel_threshold" default.parallelThreshold readUInt64 depth fields
    let showsProgress ← defaulted "show_progress" default.showsProgress readBoolean depth fields
    let nodeLimit ← optional "max_rendered_nodes" readUInt64 depth fields
    return ⟨indentUnit, localStem, foldsConstants, parallelThreshold, showsProgress, nodeLimit⟩

end RenderOptions

end ActionTree
