import ActionTree.Error
import ActionTree.File.Tree
import ActionTree.Json.Decode
import ActionTree.Json.Parse
import ActionTree.Text.Utf8

/-!
# Documents

* `Files.text` - a file as text;
* `Files.namedText` - the same, where a fault names the file;
* `Json.ofText` - the JSON value of a text, to be read by a reader;
* `Json.wholeOfText?` - the same, where all of the value has to be readable.
-/

namespace ActionTree

namespace Files

/-- A file as text. -/
def text (files : Files) (path : String) : Except FileFault String :=
  match files.read path with
  | .error fault => .error fault
  | .ok bytes =>
    match Utf8.decode bytes with
    | .ok text => .ok text
    | .error _ => .error .notText

/-- A file as text.  The error names the file. -/
def namedText (files : Files) (path : String) : Except Error String :=
  match files.text path with
  | .ok text => .ok text
  | .error fault => .error (.io (path ++ ": " ++ fault.message))

end Files

namespace Json

/-- What a reader makes of a text.  One that it refuses is an error with a complaint about it. -/
def ofText {α : Type} (read : Reader α) (text : String)
    (complaint : String := Complaint.plain .value text) : Except Error α :=
  match (parse? text).bind (read depthLimit) with
  | some a => .ok a
  | none => .error (.json complaint)

/-- The JSON value of a text, all of which has to be readable.  A repeated member counts once, and
how a key was written does not count. -/
def wholeOfText? (text : String) : Option Json :=
  ((parse? text).filter (isReadable depthLimit)).map distinct

end Json

end ActionTree
