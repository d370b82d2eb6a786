import ActionTree.Command.Document
import ActionTree.Schema.Method

/-!
# Rendering methods from files

* `RenderOptions.load` - options from a file;
* `RenderCommand.options` - the options of a command, where flags go before the file;
* `loadMethods` - the methods in a file;
* `RenderCommand.text` - the text of all methods, or the first error.
-/

namespace ActionTree

/-- What is to be rendered, and how. -/
structure RenderCommand where
  inputs : List String
  output : Option String
  config : Option String
  folds : Bool
  timeout : Option UInt64
  nodeLimit : Option UInt64
  deriving DecidableEq

/-! ### Options -/

/-- Options from a file.  The stem of generated names must not be empty. -/
def RenderOptions.load (files : Files) (path : String) : Except Error RenderOptions :=
  match files.text path with
  | .error fault => .error (.io fault.message)
  | .ok text =>
    match Json.ofText RenderOptions.read text with
    | .error _ => .error (.config (path ++ ": " ++ files.complaint .options text))
    | .ok options =>
      if options.localStem = "" then .error (.config "local_name_prefix must not be empty")
      else .ok options

/-- The options of a command: those of its file, with its flags on top. -/
def RenderCommand.options (files : Files) (c : RenderCommand) : Except Error RenderOptions := do
  let options ← match c.config with
    | some path => RenderOptions.load files path
    | none => .ok .default
  return { options with
    foldsConstants := c.folds || options.foldsConstants
    nodeLimit := c.nodeLimit <|> options.nodeLimit }

/-! ### Methods -/

/-- The methods in a JSON value: a list of them, or one. -/
def methodsOf? : Json → Option (List Method)
  | .array items => Json.readList (Method.read .plain) Json.depthLimit (.array items)
  | j => (Method.read .plain Json.depthLimit j).map ([·])

/-- The methods in a file.  A text that is not JSON is told apart from one that holds no methods. -/
def loadMethods (files : Files) (path : String) : Except Error (List Method) := do
  let text ← files.namedText path
  match Json.wholeOfText? text with
  | none => .error (.json (files.complaint .value text))
  | some j =>
    match methodsOf? j with
    | some methods => .ok methods
    | none => .error (.json (files.complaint .methods text))

/-- The methods in some files, in the order of the files. -/
def loadAllMethods (files : Files) : List String → Except Error (List Method)
  | [] => .ok []
  | path :: paths => do
    let methods ← loadMethods files path
    let more ← loadAllMethods files paths
    return methods ++ more

/-! ### Text -/

/-- The texts of methods, if all were rendered. -/
def sources : List (Option Rendering) → Except Error (List String)
  | [] => .ok []
  | none :: _ => .error .cancelled
  | some r :: rest => (sources rest).map (r.source :: ·)

/-- The text of all methods, with an empty line between two of them. -/
def RenderCommand.text (files : Files) (c : RenderCommand) : Except Error String := do
  let options ← c.options files
  let methods ← loadAllMethods files c.inputs
  let texts ← sources (renderAll options methods false).1
  return "\n".intercalate texts

end ActionTree
