import ActionTree.Command.Basic

/-!
# Command-line arguments

Arguments are read from left to right: the first one that is wrong, or that asks for help, decides.
An option with a value is written `--name value`, `--name=value`, `-n value`, `-n=value` or
`-nvalue`, and after `--` all arguments are operands.

* `OptionForm` - how an option is written;
* `scanArguments` - options and operands, told apart;
* `Invocation.ofArguments` - what the arguments of the program ask for.
-/

namespace ActionTree

/-! ### Options and operands -/

/-- How an option is written.  An option without a test for values is a flag. -/
structure OptionForm where
  name : String
  letter : Option Char
  accepts : Option (String → Bool)

/-- The options and operands that were found, in order. -/
structure Arguments where
  options : List (String × String)
  operands : List String
  deriving DecidableEq

namespace Arguments

/-- No arguments. -/
def none : Arguments := ⟨[], []⟩

/-- The value of an option. -/
def value? (a : Arguments) (name : String) : Option String := a.options.lookup name

/-- Whether a flag is there. -/
def hasFlag (a : Arguments) (name : String) : Bool := (a.value? name).isSome

end Arguments

/-- What reading arguments leads to. -/
inductive Scan where
  | found (arguments : Arguments)
  | help
  | refused
  deriving DecidableEq

/-- What stands for an option: nothing is known yet, an option without a value, or one with it. -/
inductive OptionUse where
  | help
  | bare (form : OptionForm)
  | valued (form : OptionForm) (value : String)
  | unknown

/-- The name and the value of a long option. -/
def splitLong (cs : List Char) : String × Option String :=
  match cs.dropWhile (· ≠ '=') with
  | [] => (String.ofList cs, none)
  | _ :: value => (String.ofList (cs.takeWhile (· ≠ '=')), some (String.ofList value))

/-- The value that is attached to a letter. -/
def attached? : List Char → Option String
  | [] => none
  | '=' :: value => some (String.ofList value)
  | value => some (String.ofList value)

/-- The use of an option in an argument; none for an operand. -/
def optionUse? (forms : List OptionForm) (argument : String) : Option OptionUse :=
  match argument.toList with
  | '-' :: '-' :: cs =>
    let (name, value) := splitLong cs
    if name = "help" then some (if value.isNone then .help else .unknown)
    else match forms.find? (·.name == name), value with
      | some form, some value => some (.valued form value)
      | some form, none => some (.bare form)
      | none, _ => some .unknown
  | '-' :: 'h' :: _ => some .help
  | '-' :: letter :: cs =>
    match forms.find? (·.letter == some letter), attached? cs with
    | some form, some value => some (.valued form value)
    | some form, none => some (.bare form)
    | none, _ => some .unknown
  | _ => none

/-- Whether an argument can be the value of the option before it. -/
def isValue (argument : String) : Bool :=
  match argument.toList with
  | '-' :: _ :: _ => false
  | _ => true

/-- Adds an option.  Each may be given once, and its value has to be accepted. -/
def Arguments.addOption? (a : Arguments) (form : OptionForm) (value : Option String) :
    Option Arguments :=
  if a.hasFlag form.name then Option.none
  else match form.accepts, value with
    | Option.none, Option.none => some { a with options := a.options ++ [(form.name, "")] }
    | some accepts, some v =>
      if accepts v then some { a with options := a.options ++ [(form.name, v)] } else Option.none
    | _, _ => Option.none

/-- Adds an operand, a path that is not empty, as long as there is room. -/
def Arguments.addOperand? (most : Option Nat) (a : Arguments) (operand : String) :
    Option Arguments :=
  if operand = "" ∨ most.any (· ≤ a.operands.length) then Option.none
  else some { a with operands := a.operands ++ [operand] }

/-- Tells options and operands apart. -/
def scanArguments (forms : List OptionForm) (most : Option Nat) (a : Arguments) :
    List String → Scan
  | [] => .found a
  | "--" :: rest =>
    match rest.foldlM (Arguments.addOperand? most) a with
    | some a => .found a
    | none => .refused
  | argument :: rest =>
    match optionUse? forms argument with
    | none =>
      match a.addOperand? most argument with
      | some a => scanArguments forms most a rest
      | none => .refused
    | some .help => .help
    | some .unknown => .refused
    | some (.valued form value) =>
      match a.addOption? form (some value) with
      | some a => scanArguments forms most a rest
      | none => .refused
    | some (.bare form) =>
      if form.accepts.isNone then
        match a.addOption? form none with
        | some a => scanArguments forms most a rest
        | none => .refused
      else match rest with
        | value :: rest =>
          if isValue value then
            match a.addOption? form (some value) with
            | some a => scanArguments forms most a rest
            | none => .refused
          else .refused
        | [] => .refused

/-! ### Values -/

/-- A count of 64 bits in decimal, perhaps after a plus sign. -/
def readCount? (s : String) : Option UInt64 :=
  let digits := match s.toList with
    | '+' :: rest => rest
    | cs => cs
  let n := Numeral.digitsValue 0 digits
  if digits ≠ [] ∧ digits.all Char.isDigit ∧ n < UInt64.size then some (.ofNat n) else none

/-- An option with a path. -/
def pathOption (name : String) (letter : Option Char) : OptionForm :=
  ⟨name, letter, some (· != "")⟩

/-- An option with a count. -/
def countOption (name : String) : OptionForm := ⟨name, none, some fun v => (readCount? v).isSome⟩

/-- An option without a value. -/
def flagOption (name : String) : OptionForm := ⟨name, none, none⟩

/-! ### The program -/

/-- What the program is asked to do. -/
inductive Invocation where
  | run (command : Command)
  | version
  | help
  | refused
  deriving DecidableEq

namespace Invocation

/-- The end of a scan as an invocation. -/
def ofScan (command? : Arguments → Option Command) : Scan → Invocation
  | .found a => match command? a with
    | some c => .run c
    | none => .refused
  | .help => .help
  | .refused => .refused

/-- The options of `render`. -/
def renderForms : List OptionForm := [
  pathOption "output" (some 'o'), pathOption "config" none, flagOption "fold",
  countOption "timeout-ms", countOption "max-nodes"]

/-- A rendering of at least one file. -/
def render? (a : Arguments) : Option Command :=
  if a.operands = [] then none
  else some (.render {
    inputs := a.operands
    output := a.value? "output"
    config := a.value? "config"
    folds := a.hasFlag "fold"
    timeout := (a.value? "timeout-ms").bind readCount?
    nodeLimit := (a.value? "max-nodes").bind readCount? })

/-- A folding of one file. -/
def fold? (a : Arguments) : Option Command :=
  match a.operands with
  | [input] => some (.fold input)
  | _ => none

/-- The options of `import-shapes`. -/
def importForms : List OptionForm := [flagOption "no-fill", pathOption "output" (some 'o')]

/-- An import of a directory into a table. -/
def import? (a : Arguments) : Option Command :=
  match a.operands with
  | [directory, characters] =>
    some (.importShapes ⟨directory, characters, !a.hasFlag "no-fill", a.value? "output"⟩)
  | _ => none

/-- The names of the commands. -/
def commandNames : List String := ["render", "fold", "import-shapes", "help"]

/-- What the arguments of the program ask for. -/
def ofArguments : List String → Invocation
  | [] => .refused
  | first :: rest =>
    if first = "render" then ofScan render? (scanArguments renderForms none .none rest)
    else if first = "fold" then ofScan fold? (scanArguments [] (some 1) .none rest)
    else if first = "import-shapes" then
      ofScan import? (scanArguments importForms (some 2) .none rest)
    else if first = "help" then
      match rest with
      | [] => .help
      | [name] => if name ∈ commandNames then .help else .refused
      | _ => .refused
    else if first = "--version" then .version
    else if first = "--help" then .help
    else match first.toList with
      | '-' :: 'V' :: _ => .version
      | '-' :: 'h' :: _ => .help
      | _ => .refused

end Invocation

/-! ### Texts -/

/-- The name and version of the program. -/
def versionText : String := "avm2-dec-rs 0.1.0\n"

/-- How the program is used. -/
def usageText : String :=
  "Usage: avm2-dec-rs <COMMAND>\n\nCommands:\n" ++
  "  render [OPTIONS] <INPUTS>...                   Render JSON method bodies to source\n" ++
  "      -o, --output <OUTPUT>  --config <CONFIG>  --fold\n" ++
  "      --timeout-ms <TIMEOUT_MS>  --max-nodes <MAX_NODES>\n" ++
  "  fold <INPUT>                                   Fold a JSON expression and print it\n" ++
  "  import-shapes [OPTIONS] <SHAPES_DIR> <CHARACTERS>\n" ++
  "                                                 Replace shapes with image or SVG files\n" ++
  "      --no-fill  -o, --output <OUTPUT>\n" ++
  "  help [COMMAND]                                 Print this text\n"

/-- A finished run of the program: its exit code and its two outputs. -/
structure Exit where
  code : UInt8
  standardOutput : String
  standardError : String
  deriving DecidableEq

/-- The exit after a command. -/
def Report.exit (r : Report) : Exit :=
  match r.result with
  | .ok _ => ⟨0, r.standardOutput, r.standardError⟩
  | .error e => ⟨1, r.standardOutput, r.standardError ++ "Error: " ++ e.message ++ "\n"⟩

/-- Runs the program in a tree of files. -/
def FileTree.runProgram (t : FileTree) (arguments : List String)
    (complaint : Complaint := .plain) : Exit × FileTree :=
  match Invocation.ofArguments arguments with
  | .run c =>
    let (report, after) := t.run c complaint
    (report.exit, after)
  | .version => (⟨0, versionText, ""⟩, t)
  | .help => (⟨0, usageText, ""⟩, t)
  | .refused => (⟨2, "", usageText⟩, t)

end ActionTree
