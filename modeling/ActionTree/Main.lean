import ActionTree.Command.Arguments

/-!
# The program

Reads the files that a command may look at, has its output made, and prints or writes it.
-/

namespace ActionTree

/-- The fault of a file operation that failed.  The system gives its codes with either sign. -/
def FileFault.ofError : IO.Error → FileFault
  | .noFileOrDirectory .. => .notFound
  | .inappropriateType _ code _ =>
    if code = 21 ∨ code = -21 then .isDirectory else .notADirectory
  | e => .other (toString e)

/-- The result of a file operation, or its fault. -/
def attempt {α : Type} (action : IO α) : IO (Except FileFault α) := do
  try
    return .ok (← action)
  catch e =>
    return .error (.ofError e)

/-- The bytes of a file. -/
def readBytes (path : String) : IO (Except FileFault (List UInt8)) :=
  attempt do return (← IO.FS.readBinFile path).toList

/-- The files of a directory that could be imported. -/
def listFiles (path : String) : IO (Except FileFault (List ImportFile)) := do
  let directory := (← IO.currentDir) / path
  match ← attempt directory.readDir with
  | .error fault => return .error fault
  | .ok entries =>
    let mut found := []
    for entry in entries do
      if (extensionRank? entry.fileName).isSome then
        if !(← entry.path.isDir) then
          found := ⟨entry.fileName, ← readBytes entry.path.toString⟩ :: found
    return .ok found

/-- The files that a command reads and the directory that it lists. -/
def Command.sources : Command → List String × Option String
  | .render c => (c.config.toList ++ c.inputs, none)
  | .fold input => ([input], none)
  | .importShapes c => ([c.characters], some c.directory)

/-- What a command can see of the file system. -/
def Command.gather (c : Command) : IO Files := do
  let (paths, directory) := c.sources
  let mut contents := []
  for path in paths do
    contents := (path, ← readBytes path) :: contents
  let listing ← match directory with
    | some path => listFiles path
    | none => pure (.ok [])
  return {
    read := fun path => (contents.lookup path).getD (.error .notFound)
    list := fun _ => listing }

/-- The time that a command may take, in milliseconds. -/
def Command.timeout? : Command → Option Nat
  | .render c => c.timeout.map UInt64.toNat
  | _ => none

/-- The output of a command; one that takes too long is cancelled. -/
def Command.outputInTime (c : Command) (files : Files) : IO (Except Error Output) := do
  let task := Task.spawn fun _ => c.output files
  match c.timeout? with
  | none => return task.get
  | some limit =>
    let start ← IO.monoMsNow
    while !(← IO.hasFinished task) do
      if start + limit ≤ (← IO.monoMsNow) then
        return .error .cancelled
      IO.sleep 1
    return task.get

/-- Runs a command. -/
def Command.perform (c : Command) : IO Report := do
  match ← c.outputInTime (← c.gather) with
  | .error e => return ⟨"", "", .error e⟩
  | .ok output =>
    match output.destination with
    | none => return ⟨output.text, output.notes, .ok ()⟩
    | some path =>
      match ← attempt (IO.FS.writeFile path output.text) with
      | .ok _ => return ⟨"", output.notes, .ok ()⟩
      | .error fault => return ⟨"", output.notes, .error (.io fault.message)⟩

end ActionTree

/-- Runs the program with its arguments. -/
def main (arguments : List String) : IO UInt32 := do
  let exit ← match ActionTree.Invocation.ofArguments arguments with
    | .run c => pure (← c.perform).exit
    | .version => pure ⟨0, ActionTree.versionText, ""⟩
    | .help => pure ⟨0, ActionTree.usageText, ""⟩
    | .refused => pure ⟨2, "", ActionTree.usageText⟩
  IO.print exit.standardOutput
  IO.eprint exit.standardError
  return exit.code.toUInt32
