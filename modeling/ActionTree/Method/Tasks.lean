import ActionTree.Method.Render

/-!
# Methods that are written side by side

A batch of `parallelThreshold` methods is shared out among threads.  They check and raise the flag
of one token, so what matters is the order in which their actions come.  In a smaller batch each
method waits for those before it.  Where the time is limited, the token may be cancelled between any
two actions.

* `Action` - one thing that is done to write a method;
* `Method.actions` - all that is done to write a method;
* `Task` - a method on the way, and `Task.step` - its next action;
* `Batch` - the tasks of some methods with their token;
* `Batch.Moves` - one action of some task, or the end of the time.
-/

namespace ActionTree

/-! ### Actions -/

/-- One thing that is done to write a method. -/
inductive Action where
  /-- Folding looks at a node, which is where it can be cancelled. -/
  | check
  | step (step : Step)
  | newLine
  | indent
  | unindent
  deriving DecidableEq

namespace Action

/-- Performs an action, which may be cancelled and may cancel the token. -/
def perform : Action → Writer → Outcome × Writer
  | .check, w => (if w.cancelled then .cancelled else .completed, w)
  | .step s, w => w.run [s]
  | .newLine, w => (.completed, w.newLine)
  | .indent, w => (.completed, w.indent)
  | .unindent, w => (.completed, w.unindent)

/-- Performs actions in order, up to the first one that is cancelled. -/
def performAll : List Action → Writer → Outcome × Writer
  | [], w => (.completed, w)
  | a :: as, w =>
    match a.perform w with
    | (.completed, w) => performAll as w
    | (.cancelled, w) => (.cancelled, w)

end Action

/-- The actions of writing a statement: all checks of its folding come before its text. -/
def RenderOptions.statementActions (options : RenderOptions) (locals : Locals) (s : Node) :
    List Action :=
  (if options.foldsConstants then
      List.replicate s.foldVisits .check ++ (s.fold.steps locals).map .step
    else (s.steps locals).map .step)
  ++ [.step (.write ";"), .newLine]

namespace Method

/-- The actions before the statements. -/
def openActions (m : Method) : List Action :=
  [.step (.write "function "), .step (.write m.name), .step (.write "()"), .newLine,
    .step (.write "\x7b"), .newLine, .indent]

/-- The actions after the statements. -/
def closeActions : List Action := [.unindent, .step (.write "\x7d"), .newLine]

/-- The actions of writing a method. -/
def actions (options : RenderOptions) (m : Method) : List Action :=
  m.openActions
  ++ m.statements.flatMap (options.statementActions (m.locals options.localStem))
  ++ closeActions

end Method

/-! ### Tasks -/

/-- A method on the way: what is written of it and what is left to do.  Nothing is kept of one that
was cancelled. -/
inductive Task where
  | working (writer : Writer) (todo : List Action)
  | cancelled

namespace Task

/-- A method that was not begun. -/
def start (options : RenderOptions) (m : Method) : Task :=
  .working (Method.writer options false) (m.actions options)

/-- Whether a task is finished or cancelled. -/
def hasEnded : Task → Bool
  | .working _ [] => true
  | .working _ (_ :: _) => false
  | .cancelled => true

/-- The next action of a task under the flag of the shared token, and the flag afterwards. -/
def step (raised : Bool) : Task → Option (Task × Bool)
  | .working w (a :: todo) =>
    match a.perform { w with cancelled := raised } with
    | (.completed, w) => some (.working w todo, w.cancelled)
    | (.cancelled, w) => some (.cancelled, w.cancelled)
  | _ => none

/-- What a task that has ended leaves of its method. -/
def rendering? (m : Method) : Task → Option Rendering
  | .working w _ => some ⟨m.name, w.text, w.rendered⟩
  | .cancelled => none

end Task

/-! ### Batches -/

/-- Some methods, each with its task, and the flag of the token that they share. -/
structure Batch where
  tasks : List (Method × Task)
  raised : Bool

namespace Batch

/-- A batch that was not begun. -/
def start (options : RenderOptions) (ms : List Method) : Batch :=
  ⟨ms.map fun m => (m, .start options m), false⟩

/-- Whether all tasks have ended. -/
def HasEnded (b : Batch) : Prop := ∀ p ∈ b.tasks, p.2.hasEnded

/-- What the tasks leave of their methods, in order. -/
def renderings (b : Batch) : List (Option Rendering) := b.tasks.map fun p => p.2.rendering? p.1

/-- How a batch goes on: some task performs its next action, if it need not wait for those before
it, or the time is up. -/
inductive Moves (isParallel isTimed : Bool) : Batch → Batch → Prop
  | task {before after : List (Method × Task)} {m : Method} {t t' : Task} {raised raised' : Bool}
    (hturn : isParallel ∨ ∀ p ∈ before, p.2.hasEnded)
    (hstep : t.step raised = some (t', raised')) :
    Moves isParallel isTimed ⟨before ++ (m, t) :: after, raised⟩
      ⟨before ++ (m, t') :: after, raised'⟩
  | timeUp {tasks : List (Method × Task)} (htimed : isTimed) :
    Moves isParallel isTimed ⟨tasks, false⟩ ⟨tasks, true⟩

end Batch

/-- Whether methods are shared out among threads. -/
def RenderOptions.sharesOut (options : RenderOptions) (ms : List Method) : Bool :=
  options.parallelThreshold.toNat ≤ ms.length

end ActionTree
