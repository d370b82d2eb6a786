import ActionTree.Command.Document
import ActionTree.Json.Print
import ActionTree.Schema.Character

/-!
# Importing a directory into a character table

* `CharacterTable.load` - the table in a file;
* `CharacterTable.importDirectory` - imports the files of a directory;
* `CharacterTable.importDirectoryUnder` - the same while others may cancel the token;
* `ImportCommand.run` - the table after an import with the notes about it.
-/

namespace ActionTree

/-- A directory of files for the shapes of a table. -/
structure ImportCommand where
  directory : String
  characters : String
  stretches : Bool
  output : Option String
  deriving DecidableEq

namespace CharacterTable

/-- The table in a file. -/
def load (files : Files) (path : String) : Except Error CharacterTable :=
  match files.text path with
  | .error fault => .error (.io fault.message)
  | .ok text => Json.ofText CharacterTable.read text (files.complaint .characters text)

/-- The table as a document. -/
def document (t : CharacterTable) : String := t.toJson.pretty

/-- Imports the files of a directory that are named after shapes, under a token that others may
cancel. -/
def importDirectoryUnder (files : Files) (directory : String) (t : CharacterTable)
    (stretch : Bool) (raised : Nat → Bool) : Except Error ImportReport × CharacterTable :=
  match files.list directory with
  | .error fault => (.error (.io fault.message), t)
  | .ok found => t.importFilesUnder found stretch raised

/-- Imports the files of a directory that are named after shapes.  The token stays as it is. -/
def importDirectory (files : Files) (directory : String) (t : CharacterTable)
    (stretch cancelled : Bool) : Except Error ImportReport × CharacterTable :=
  importDirectoryUnder files directory t stretch fun _ => cancelled

end CharacterTable

/-- What an import reports to the user: a line for each warning and one with the count. -/
def ImportReport.notes (r : ImportReport) : String :=
  String.join (r.warnings.map fun w => "warning: " ++ w ++ "\n")
    ++ "Imported " ++ toString r.imported ++ " shape(s)\n"

/-- The notes and the document after an import. -/
def ImportCommand.run (files : Files) (c : ImportCommand) : Except Error (String × String) := do
  let table ← CharacterTable.load files c.characters
  match table.importDirectory files c.directory c.stretches false with
  | (.error e, _) => .error e
  | (.ok report, after) => .ok (report.notes, after.document)

end ActionTree
