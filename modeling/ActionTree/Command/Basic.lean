import ActionTree.Command.Fold
import ActionTree.Command.ImportShapes
import ActionTree.Command.Render

/-!
# Commands

A command first makes all of its output, then writes it in one go, to a file or to the standard
output.

* `Command` - what a user can ask for;
* `Command.output` - the output of a command, from the files that it sees;
* `FileTree.run` - a command that changes a tree of files.
-/

namespace ActionTree

/-- What a user can ask for. -/
inductive Command where
  | render (c : RenderCommand)
  | fold (input : String)
  | importShapes (c : ImportCommand)
  deriving DecidableEq

/-- The output of a command: notes for the user, a text and the file for it, if not the standard
output. -/
structure Output where
  notes : String
  text : String
  destination : Option String
  deriving DecidableEq

/-- The output of a command. -/
def Command.output (files : Files) : Command → Except Error Output
  | .render c => (c.text files).map fun text => ⟨"", text, c.output⟩
  | .fold input => (foldText files input).map fun text => ⟨"", text, none⟩
  | .importShapes c => (c.run files).map fun (notes, text) => ⟨notes, text, c.output⟩

/-- What a command left: the two outputs, and how it ended. -/
structure Report where
  standardOutput : String
  standardError : String
  result : Except Error Unit

/-- The bytes of a text. -/
def utf8Bytes (text : String) : List UInt8 := text.toUTF8.toList

/-- Runs a command in a tree of files. -/
def FileTree.run (t : FileTree) (c : Command) (complaint : Complaint := .plain) :
    Report × FileTree :=
  match c.output (t.files complaint) with
  | .error e => (⟨"", "", .error e⟩, t)
  | .ok output =>
    match output.destination with
    | none => (⟨output.text, output.notes, .ok ()⟩, t)
    | some path =>
      match t.write path (utf8Bytes output.text) with
      | .ok after => (⟨"", output.notes, .ok ()⟩, after)
      | .error fault => (⟨"", output.notes, .error (.io fault.message)⟩, t)

end ActionTree
