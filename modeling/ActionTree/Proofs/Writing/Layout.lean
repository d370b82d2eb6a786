import ActionTree.Proofs.Reading.Characters
import ActionTree.Proofs.Writing.Budget

/-!
# Texts on a line

Texts appended one after another are one text: only the first visible one is indented.  So what a
tree adds to a line does not depend on the writer, and a budget decides only how much of it is
added.

* `Writer.append_append` - two texts in a row;
* `Step.written` - all that some steps write;
* `Writer.foldl_perform` - steps that nothing stops append what they write;
* `Node.written_steps`, `Node.nodesAlone_eq` - for a tree this is its text and the number of its
  nodes when it is written alone.
-/

namespace ActionTree

/-! ### Appending -/

namespace Writer

@[simp] theorem append_empty (w : Writer) : w.append "" = w := rfl

/-- A visible text at the start of a line. -/
theorem append_of_start {w : Writer} (h : w.atLineStart = true) {text : String} (ht : text ≠ "") :
    w.append text = { w with text := w.text ++ w.indentation ++ text, atLineStart := false } := by
  rw [append, if_neg (by simpa using ht), if_pos h]

/-- A text within a line. -/
theorem append_of_within {w : Writer} (h : w.atLineStart = false) (text : String) :
    w.append text = { w with text := w.text ++ text } := by
  by_cases ht : text = ""
  · subst ht
    rw [append_empty, String.append_empty]
  · rw [append, if_neg (by simpa using ht), if_neg (by simp [h])]

/-- Two texts in a row are one text. -/
theorem append_append (w : Writer) (s t : String) : (w.append s).append t = w.append (s ++ t) := by
  by_cases hs : s = ""
  · subst hs
    rw [append_empty, String.empty_append]
  · cases hw : w.atLineStart with
    | false =>
      have hnext : Writer.atLineStart { w with text := w.text ++ s } = false := hw
      rw [append_of_within hw, append_of_within hw, append_of_within hnext, String.append_assoc]
    | true =>
      have hst : s ++ t ≠ "" := by simp [hs]
      rw [append_of_start hw hs, append_of_start hw hst, append_of_within rfl, String.append_assoc]

theorem append_rendered (w : Writer) (text : String) (n : Nat) :
    append { w with rendered := n } text = { w.append text with rendered := n } := by
  unfold append
  split_ifs <;> rfl

end Writer

/-! ### Steps -/

/-- All that some steps write. -/
def Step.written (steps : List Step) : String := String.ofList (steps.flatMap Step.chars)

theorem Step.written_write (text : String) (steps : List Step) :
    written (.write text :: steps) = text ++ written steps := by
  rw [written, List.flatMap_cons, String.ofList_append]
  simp [chars, written]

namespace Writer

/-- Steps that nothing stops append what they write and count the nodes that they enter. -/
theorem foldl_perform (steps : List Step) (w : Writer) :
    steps.foldl perform w =
      { w.append (Step.written steps) with rendered := w.rendered + steps.count Step.enter } := by
  induction steps generalizing w with
  | nil => rfl
  | cons step steps ih =>
    rw [List.foldl_cons, ih]
    cases step with
    | enter =>
      show { append { w with rendered := w.rendered + 1 } (Step.written steps) with
        rendered := w.rendered + 1 + steps.count Step.enter } = _
      rw [append_rendered, List.count_cons_self, Nat.add_assoc, Nat.add_comm 1]
      rfl
    | write text =>
      have hrendered := (w.extends_append text).rendered
      show { (w.append text).append (Step.written steps) with
        rendered := (w.append text).rendered + steps.count Step.enter } = _
      rw [append_append, hrendered, List.count_cons_of_ne (by simp), Step.written_write]
      rfl

end Writer

/-! ### Trees -/

namespace Node

variable (locals : Locals)

/-- The number of nodes that are entered when a tree is written alone. -/
def nodesAlone (n : Node) : Nat := (Writer.run (n.steps locals) .fresh).2.rendered

theorem nodesAlone_eq (n : Node) : n.nodesAlone locals = (n.steps locals).count .enter := by
  have hcovers : Writer.fresh.Covers (n.steps locals) := ⟨rfl, fun limit hl => by cases hl⟩
  rw [nodesAlone, Writer.run_of_covers hcovers, (Writer.extends_perform _ _).rendered]
  exact Nat.zero_add _

/-- What the steps of a tree write is its text. -/
theorem written_steps (n : Node) : Step.written (n.steps locals) = n.source locals :=
  (source_eq locals n).symm

end Node

end ActionTree
