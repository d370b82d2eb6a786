import ActionTree.Method.Basic
import ActionTree.Node.Fold
import ActionTree.Node.Steps

/-!
# Methods as text

* `RenderOptions` - how methods are written;
* `Rendering` - the text of a method;
* `Method.render` - writes a method, unless it is cancelled;
* `renderAll` - writes methods that share one token.
-/

namespace ActionTree

/-- How methods are written.  A batch of `parallelThreshold` methods may be shared out among
threads, which changes no text unless the token is cancelled on the way. -/
structure RenderOptions where
  indentUnit : String
  localStem : String
  foldsConstants : Bool
  parallelThreshold : UInt64
  showsProgress : Bool
  nodeLimit : Option UInt64
  deriving DecidableEq

/-- What is done unless other options are given. -/
def RenderOptions.default : RenderOptions :=
  ⟨Writer.defaultIndent, Locals.defaultStem, false, 8, false, none⟩

/-- The text of a method and the number of nodes in it. -/
structure Rendering where
  name : String
  source : String
  nodes : Nat
  deriving DecidableEq

/-! ### Statements -/

/-- A statement as it is written.  Folding checks the token too. -/
def RenderOptions.prepare (options : RenderOptions) (cancelled : Bool) (statement : Node) :
    Option Node :=
  if options.foldsConstants then statement.foldUnder fun _ => cancelled else some statement

/-- Writes statements, each on a line of its own. -/
def renderStatements (options : RenderOptions) (locals : Locals) :
    List Node → Writer → Outcome × Writer
  | [], w => (.completed, w)
  | s :: ss, w =>
    match options.prepare w.cancelled s with
    | none => (.cancelled, w)
    | some prepared =>
      match w.run (prepared.steps locals) with
      | (.completed, w) => renderStatements options locals ss (w.append ";").newLine
      | (.cancelled, w) => (.cancelled, w)

/-! ### Methods -/

namespace Method

/-- Writes what comes before the statements. -/
def openBody (m : Method) (w : Writer) : Writer :=
  ((((w.append "function ").append m.name).append "()").newLine.append "\x7b").newLine.indent

/-- Writes what comes after the statements. -/
def closeBody (w : Writer) : Writer := (w.unindent.append "\x7d").newLine

/-- The writer that a method starts with. -/
def writer (options : RenderOptions) (cancelled : Bool) : Writer :=
  .new options.indentUnit (options.nodeLimit.map UInt64.toNat) cancelled

/-- Writes a method with a token that is live or cancelled.  The text is absent when the method was
cancelled; the second part tells whether the token is cancelled afterwards. -/
def render (options : RenderOptions) (m : Method) (cancelled : Bool) : Option Rendering × Bool :=
  match renderStatements options (m.locals options.localStem) m.statements
      (m.openBody (writer options cancelled)) with
  | (.completed, w) => (some ⟨m.name, (closeBody w).text, w.rendered⟩, w.cancelled)
  | (.cancelled, w) => (none, w.cancelled)

end Method

/-- Writes methods in order, one after another.  They share one token, so a method that exceeds its
node limit cancels those after it. -/
def renderAll (options : RenderOptions) : List Method → Bool → List (Option Rendering) × Bool
  | [], cancelled => ([], cancelled)
  | m :: ms, cancelled =>
    let (rendering, cancelled) := m.render options cancelled
    let (renderings, cancelled) := renderAll options ms cancelled
    (rendering :: renderings, cancelled)

end ActionTree
