/-!
# Writing text with a budget of nodes

* `Step` - what rendering does: it enters a node or writes a text;
* `Writer` - the text so far, the indentation and the budget;
* `Writer.append`, `newLine`, `indent`, `unindent` - layout, where a line is indented by its first
  text;
* `Writer.run` - performs steps until they are done or cancelled.
-/

namespace ActionTree

/-- One step of rendering. -/
inductive Step where
  /-- A node begins, which is where rendering can be cancelled. -/
  | enter
  | write (text : String)
  deriving DecidableEq

/-- How a run ended. -/
inductive Outcome where
  | completed
  | cancelled
  deriving DecidableEq, Inhabited

/-- The state of writing.  `cancelled` is the flag of the token that the writer shares with
others. -/
structure Writer where
  text : String
  indentUnit : String
  level : Nat
  atLineStart : Bool
  rendered : Nat
  limit : Option Nat
  cancelled : Bool
  deriving DecidableEq

namespace Writer

/-- The indentation of one level, unless another one is asked for. -/
def defaultIndent : String := "    "

/-- A writer with no text yet. -/
def new (indentUnit : String) (limit : Option Nat) (cancelled : Bool) : Writer :=
  ⟨"", indentUnit, 0, true, 0, limit, cancelled⟩

/-- A writer without a budget and with a live token. -/
def fresh : Writer := new defaultIndent none false

/-! ### Layout -/

/-- Indentation to a level. -/
def indentation (w : Writer) : String := String.join (List.replicate w.level w.indentUnit)

/-- Appends a text.  The first text of a line is indented; an empty text does nothing. -/
def append (w : Writer) (text : String) : Writer :=
  if text.isEmpty then w
  else if w.atLineStart then
    { w with text := w.text ++ w.indentation ++ text, atLineStart := false }
  else { w with text := w.text ++ text }

/-- Ends the line. -/
def newLine (w : Writer) : Writer := { w with text := w.text ++ "\n", atLineStart := true }

/-- Indents one level more. -/
def indent (w : Writer) : Writer := { w with level := w.level + 1 }

/-- Indents one level less, down to none. -/
def unindent (w : Writer) : Writer := { w with level := w.level - 1 }

/-- Cancels the shared token. -/
def cancel (w : Writer) : Writer := { w with cancelled := true }

/-! ### Running steps -/

/-- Whether the budget is used up. -/
def isSpent (w : Writer) : Bool := w.limit.any (· ≤ w.rendered)

/-- Performs steps in order.  Entering a node stops at a cancelled token; one node too many cancels
the token. -/
def run : List Step → Writer → Outcome × Writer
  | [], w => (.completed, w)
  | .write text :: steps, w => run steps (w.append text)
  | .enter :: steps, w =>
    if w.cancelled then (.cancelled, w)
    else if w.isSpent then (.cancelled, w.cancel)
    else run steps { w with rendered := w.rendered + 1 }

end Writer

end ActionTree
