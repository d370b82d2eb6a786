import ActionTree.Command.Document
import ActionTree.Node.Fold
import ActionTree.Node.Steps
import ActionTree.Schema.Node

/-!
# Folding an expression from a file

* `foldedLine` - a folded tree, with its value as a comment if that is known;
* `foldText` - the same for the tree in a file.
-/

namespace ActionTree

/-- The comment with the value of a tree whose value is known. -/
def valueComment (n : Node) : String :=
  if n.isConstant && n.result.isKnown then " // " ++ n.result.display else ""

/-- A line with a tree after folding and its value. -/
def foldedLine (n : Node) : String := n.fold.source .empty ++ valueComment n ++ "\n"

/-- The line of the tree in a file. -/
def foldText (files : Files) (path : String) : Except Error String := do
  let text ← files.namedText path
  let n ← Json.ofText (Node.read .plain) text (files.complaint .expression text)
  return foldedLine n

end ActionTree
