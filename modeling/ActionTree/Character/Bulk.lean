import ActionTree.Character.Import
import ActionTree.Text.Utf8

/-!
# Importing the files of a directory

A file belongs to a shape when its name starts with the shape's id and then `.` or `_`.  Of several
files the extension decides, then the name.

* `ImportFile` - a file that was found;
* `CharacterTable.selection` - the file chosen for each shape;
* `CharacterTable.importFiles` - imports the chosen files in the order of the shapes;
* `CharacterTable.importFilesUnder` - the same while others may cancel the token.
-/

namespace ActionTree

/-! ### Names of files -/

/-- The extensions that are imported, the preferred ones first. -/
def importExtensions : List String := ["svg", "png", "jpg", "jpeg", "gif", "bmp"]

/-- The part of a name after its last dot.  A name has none when its only dot comes first. -/
def extension? (name : String) : Option String :=
  let reversed := name.toList.reverse
  match reversed.dropWhile (· ≠ '.') with
  | _ :: _ :: _ => some (String.ofList (reversed.takeWhile (· ≠ '.')).reverse)
  | _ => none

/-- The place of a name's extension among those that are imported, capitals read as small
letters. -/
def extensionRank? (name : String) : Option Nat :=
  (extension? name).bind fun e => importExtensions.findIdx? (· == e.toLower)

/-- Whether a file belongs to a shape by its name. -/
def belongsTo (id : UInt16) (name : String) : Bool :=
  match (Error.idText id).toList.isPrefixOf? name.toList with
  | some (c :: _) => c == '.' || c == '_'
  | _ => false

/-- A file with its bytes, or why they cannot be read. -/
structure ImportFile where
  name : String
  content : Except FileFault (List UInt8)

/-- Whether a file is preferred over another: by its extension, then by its name. -/
def ImportFile.precedes (a b : ImportFile) : Bool :=
  match extensionRank? a.name, extensionRank? b.name with
  | some r, some s => decide (r < s) || (r == s && decide (a.name < b.name))
  | some _, none => true
  | _, _ => false

/-- The preferred one of some files. -/
def preferred? : List ImportFile → Option ImportFile
  | [] => none
  | f :: fs =>
    match preferred? fs with
    | none => some f
    | some g => some (if g.precedes f then g else f)

/-- The files that belong to a shape and can be imported. -/
def candidates (files : List ImportFile) (id : UInt16) : List ImportFile :=
  files.filter fun f => (extensionRank? f.name).isSome && belongsTo id f.name

/-! ### Reports -/

/-- What an import did. -/
structure ImportReport where
  imported : Nat
  warnings : List String
  deriving DecidableEq

/-- The warning that a shape had more than one file. -/
def severalWarning (id : UInt16) (name : String) : String :=
  "Multiple matching files for shape tag " ++ Error.idText id ++ " exists, " ++ name ++ " selected"

/-- The warning that a file could not be imported. -/
def failureWarning (id : UInt16) (name : String) (e : Error) : String :=
  "Cannot import shape " ++ Error.idText id ++ " from file " ++ name ++ ": " ++ e.message

namespace CharacterTable

/-! ### Choosing files -/

/-- The file chosen for each shape that has one, in the order of the shapes. -/
def selection (t : CharacterTable) (files : List ImportFile) : List (UInt16 × ImportFile) :=
  t.shapeIds.filterMap fun id => (preferred? (candidates files id)).map fun f => (id, f)

/-- The warnings about shapes that have more than one file. -/
def selectionWarnings (t : CharacterTable) (files : List ImportFile) : List String :=
  (t.selection files).filterMap fun (id, f) =>
    if 1 < (candidates files id).length then some (severalWarning id f.name) else none

/-! ### Importing -/

/-- Imports one file: a drawing as text, anything else as an image. -/
def importFile (t : CharacterTable) (id : UInt16) (f : ImportFile) (stretch : Bool) :
    Except Error Unit × CharacterTable :=
  match f.content with
  | .error fault => (.error (.io fault.message), t)
  | .ok bytes =>
    if extensionRank? f.name = some 0 then
      match Utf8.decode bytes with
      | .ok svg => t.importSvg id svg
      | .error fault => (.error (.io (f.name ++ " is not UTF-8: " ++ fault.message)), t)
    else
      let (result, after) := t.importImage id bytes 0 stretch
      (result.map fun _ => (), after)

/-- Imports chosen files in order.  A file that fails is reported and skipped.  Others may cancel the
token on the way: `raised i` is what the check before the `i`-th file finds, and a token found
cancelled ends the import there. -/
def importSelected (stretch : Bool) :
    (Nat → Bool) → List (UInt16 × ImportFile) → ImportReport → CharacterTable →
      Except Error ImportReport × CharacterTable
  | _, [], report, t => (.ok report, t)
  | raised, (id, f) :: rest, report, t =>
    if raised 0 then (.error .cancelled, t)
    else match t.importFile id f stretch with
      | (.ok _, after) =>
        importSelected stretch (fun i => raised (i + 1)) rest
          { report with imported := report.imported + 1 } after
      | (.error e, after) =>
        let warnings := report.warnings ++ [failureWarning id f.name e]
        importSelected stretch (fun i => raised (i + 1)) rest { report with warnings } after

/-- Imports the files that are named after shapes, under a token that others may cancel. -/
def importFilesUnder (t : CharacterTable) (files : List ImportFile) (stretch : Bool)
    (raised : Nat → Bool) : Except Error ImportReport × CharacterTable :=
  importSelected stretch raised (t.selection files) ⟨0, t.selectionWarnings files⟩ t

/-- Imports the files that are named after shapes.  The token stays as it is. -/
def importFiles (t : CharacterTable) (files : List ImportFile) (stretch cancelled : Bool) :
    Except Error ImportReport × CharacterTable :=
  t.importFilesUnder files stretch fun _ => cancelled

end CharacterTable

end ActionTree
