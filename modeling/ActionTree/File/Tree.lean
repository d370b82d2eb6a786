import ActionTree.Character.Bulk

/-!
# Files

* `Files` - what a command can see from outside;
* `FileTree` - all files below the root, and the directory that relative paths start from;
* `FileTree.resolve`, `FileTree.resolveNew` - the places that a path leads to, for reading and for
  writing;
* `FileTree.read`, `list`, `write` - the operations by path, each with its faults.
-/

namespace ActionTree

/-! ### The outside of a command -/

/-- What the JSON text of a file is read as. -/
inductive DocumentKind where
  | value
  | methods
  | options
  | expression
  | characters
  deriving DecidableEq

/-- The words in which a text is refused as a document of some kind. -/
abbrev Complaint := DocumentKind → String → String

/-- The same words for all texts. -/
def Complaint.plain : Complaint := fun _ _ => "the text does not have the expected form"

/-- What a command can see from outside: the bytes of a file, the files in a directory, in any
order, and what the reader of JSON says about a text that it refuses. -/
structure Files where
  read : String → Except FileFault (List UInt8)
  list : String → Except FileFault (List ImportFile)
  complaint : Complaint := .plain

/-! ### Trees -/

/-- Something in a directory. -/
inductive FileEntry where
  | file (bytes : List UInt8)
  | directory
  deriving DecidableEq

/-- A place in a tree: the names on the way from the root, the last one first. -/
abbrev Location := List String

/-- All that is below the root, which itself is the place without names. -/
structure FileTree where
  entries : List (Location × FileEntry)
  workingDirectory : Location
  deriving DecidableEq

namespace FileTree

/-- What is at a place. -/
def lookup? (t : FileTree) (l : Location) : Option FileEntry :=
  if l = [] then some .directory else t.entries.lookup l

/-- The tree with something else at a place. -/
def put (t : FileTree) (l : Location) (e : FileEntry) : FileTree :=
  { t with entries := (l, e) :: t.entries.filter (·.1 != l) }

/-- The tree with a directory at a place, and those around it. -/
def makeDirectories (t : FileTree) : Location → FileTree
  | [] => t
  | name :: parent => (t.makeDirectories parent).put (name :: parent) .directory

/-- An empty working directory, right below the root. -/
def empty : FileTree := makeDirectories ⟨[], ["work"]⟩ ["work"]

/-- The tree with something at a place below the working directory, and the directories around
it. -/
def place (t : FileTree) (l : Location) (e : FileEntry) : FileTree :=
  (t.makeDirectories (l.tail ++ t.workingDirectory)).put (l ++ t.workingDirectory) e

/-! ### Paths -/

/-- The components of a path: what stands between its separators. -/
def components (path : String) : List String := (path.toList.splitOn '/').map String.ofList

/-- The place that a path starts from: the root, or else the working directory. -/
def start (t : FileTree) (path : String) : Location :=
  if path.toList.head? = some '/' then [] else t.workingDirectory

/-- One component of a path, taken from a place that has to be a directory.  Above the root there is
the root again. -/
def step (t : FileTree) (l : Location) (component : String) : Except FileFault Location :=
  match t.lookup? l with
  | none => .error .notFound
  | some (.file _) => .error .notADirectory
  | some .directory =>
    if component = "" ∨ component = "." then .ok l
    else if component = ".." then .ok l.tail
    else .ok (component :: l)

/-- The place that components lead to. -/
def walk (t : FileTree) (l : Location) (components : List String) : Except FileFault Location :=
  components.foldlM t.step l

/-- The place that a path leads to. -/
def resolve (t : FileTree) (path : String) : Except FileFault Location :=
  if path = "" then .error .notFound else t.walk (t.start path) (components path)

/-- Whether a component is the name of something in a directory. -/
def isName (component : String) : Bool := component ∉ ["", ".", ".."]

/-- The place where a path lets a file be written: its directory has to be there, and it has to end
in a name.  Separators at the end are seen after the directory. -/
def resolveNew (t : FileTree) (path : String) : Except FileFault Location :=
  if path = "" then .error .notFound
  else match (components path).reverse.dropWhile (· = "") with
    | [] => .error .isDirectory
    | last :: parents => do
      let directory ← t.walk (t.start path) parents.reverse
      let l ← t.step directory last
      if (components path).getLast?.any isName then .ok l else .error .isDirectory

/-! ### Operations -/

/-- The bytes of a file. -/
def read (t : FileTree) (path : String) : Except FileFault (List UInt8) := do
  let l ← t.resolve path
  match t.lookup? l with
  | some (.file bytes) => .ok bytes
  | some .directory => .error .isDirectory
  | none => .error .notFound

/-- The file that an entry is, if it is one directly in a directory. -/
def fileIn? (directory : Location) : Location × FileEntry → Option ImportFile
  | (name :: parent, .file bytes) => if parent = directory then some ⟨name, .ok bytes⟩ else none
  | _ => none

/-- The files in a directory. -/
def list (t : FileTree) (path : String) : Except FileFault (List ImportFile) := do
  let l ← t.resolve path
  match t.lookup? l with
  | some .directory => .ok (t.entries.filterMap (fileIn? l))
  | some (.file _) => .error .notADirectory
  | none => .error .notFound

/-- The tree after a file was written, new or in place of an old one. -/
def write (t : FileTree) (path : String) (bytes : List UInt8) : Except FileFault FileTree := do
  let l ← t.resolveNew path
  match t.lookup? l with
  | some .directory => .error .isDirectory
  | _ => .ok (t.put l (.file bytes))

/-- The tree as a command sees it. -/
def files (t : FileTree) (complaint : Complaint := .plain) : Files := ⟨t.read, t.list, complaint⟩

end FileTree

end ActionTree
