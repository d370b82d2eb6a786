import ActionTree.Node.Steps
import Mathlib.Logic.Basic
import Mathlib.Tactic.SplitIfs

/-!
# The characters of a tree

A writer without a budget only concatenates, so the text of a tree is put together from the texts of
its parts.

* `Writer.text_run` - the text after the steps is the text before them and what they write;
* `Node.chars`, `Node.source_eq` - the text of a tree as characters;
* `Node.chars_binary` and its siblings - the characters of each kind from those of its parts.
-/

namespace ActionTree

/-! ### Running without a budget -/

/-- What a step writes. -/
def Step.chars : Step → List Char
  | .enter => []
  | .write text => text.toList

namespace Writer

/-- Nothing stops the writer, and nothing is indented. -/
structure IsPlain (w : Writer) : Prop where
  live : w.cancelled = false
  unlimited : w.limit = none
  unindented : w.level = 0

theorem isPlain_fresh : fresh.IsPlain := ⟨rfl, rfl, rfl⟩

theorem IsPlain.append {w : Writer} (h : w.IsPlain) (text : String) :
    (w.append text).IsPlain ∧ (w.append text).text = w.text ++ text := by
  obtain ⟨hlive, hlimit, hlevel⟩ := h
  unfold Writer.append
  split_ifs with hempty hstart
  · exact ⟨⟨hlive, hlimit, hlevel⟩, by simp_all⟩
  · exact ⟨⟨hlive, hlimit, hlevel⟩, by simp [indentation, hlevel]⟩
  · exact ⟨⟨hlive, hlimit, hlevel⟩, rfl⟩

theorem text_run (steps : List Step) {w : Writer} (h : w.IsPlain) :
    (run steps w).2.text = w.text ++ String.ofList (steps.flatMap Step.chars) := by
  induction steps generalizing w with
  | nil => simp [run]
  | cons step steps ih =>
    cases step with
    | enter =>
      have hspent : w.isSpent = false := by
        rw [isSpent, h.unlimited]
        rfl
      have hnext : IsPlain { w with rendered := w.rendered + 1 } :=
        ⟨h.live, h.unlimited, h.unindented⟩
      rw [run, if_neg (by rw [h.live]; simp), if_neg (by rw [hspent]; simp), ih hnext]
      rfl
    | write text =>
      obtain ⟨hnext, htext⟩ := h.append text
      rw [run, ih hnext, htext, String.append_assoc, List.flatMap_cons, String.ofList_append]
      simp [Step.chars]

end Writer

namespace Node

variable (locals : Locals)

/-- The characters of a tree where no parentheses are asked for. -/
def chars (n : Node) : List Char := (n.bodySteps locals).flatMap Step.chars

theorem source_eq (n : Node) : n.source locals = String.ofList (n.chars locals) := by
  rw [source, Writer.text_run _ Writer.isPlain_fresh]
  exact String.empty_append

/-! ### Parts in context -/

/-- Characters in parentheses. -/
def group (cs : List Char) : List Char := '(' :: (cs ++ [')'])

/-- The characters of an operand. -/
def operandChars (context : Precedence) (n : Node) : List Char :=
  if context < n.precedence then group (n.chars locals) else n.chars locals

/-- The characters of the arguments after the first one. -/
def moreArgumentChars (arguments : List Node) : List Char :=
  arguments.flatMap fun n => [',', ' '] ++ n.operandChars locals .assignment

/-- The characters of the arguments of a call. -/
def argumentChars : List Node → List Char
  | [] => []
  | n :: ns => n.operandChars locals .assignment ++ moreArgumentChars locals ns

@[simp] theorem chars_plain (n : Node) :
    (n.drawn locals).plain.flatMap Step.chars = n.chars locals := rfl

@[simp] theorem chars_inParentheses (n : Node) :
    (n.drawn locals).inParentheses.flatMap Step.chars = group (n.chars locals) := by
  simp [Drawn.inParentheses, group, Step.chars]

@[simp] theorem chars_operand (context : Precedence) (n : Node) :
    ((n.drawn locals).operand context).flatMap Step.chars = n.operandChars locals context := by
  unfold Drawn.operand operandChars
  split_ifs with h h' h'
  · exact chars_inParentheses locals n
  · exact absurd h h'
  · exact absurd h' h
  · rfl

/-- A right operand is an operand of the next tighter level. -/
@[simp] theorem chars_rightOperand {context : Precedence} (h : 0 < context) (n : Node) :
    ((n.drawn locals).rightOperand context).flatMap Step.chars =
      n.operandChars locals (context - 1) := by
  have hlevel : context ≤ n.precedence ↔ context - 1 < n.precedence := by grind
  rw [← chars_operand, Drawn.rightOperand, Drawn.operand]
  exact congrArg (List.flatMap Step.chars) (if_congr hlevel rfl rfl)

@[simp] theorem chars_arguments (ns : List Node) :
    (Drawn.arguments (ns.map (drawn locals))).flatMap Step.chars =
      group (argumentChars locals ns) := by
  have hmore : ∀ ns : List Node, (Drawn.moreArguments (ns.map (drawn locals))).flatMap Step.chars =
      moreArgumentChars locals ns := by
    intro ns
    induction ns with
    | nil => rfl
    | cons n ns ih =>
      simp [Drawn.moreArguments, moreArgumentChars, Step.chars] at ih ⊢
      exact ih
  cases ns with
  | nil => rfl
  | cons n ns => simp [Drawn.arguments, argumentChars, group, Step.chars, hmore]

/-! ### The characters of each kind -/

theorem chars_mk (k : Kind Node) (o : Origin) :
    chars locals ⟨k, o⟩ = ((k.map (drawn locals)).steps locals).flatMap Step.chars := by
  rw [chars, bodySteps_mk]

theorem chars_literal (l : Literal) (o : Origin) :
    chars locals ⟨.literal l, o⟩ = l.text.toList := by
  rw [chars_mk]
  simp [Kind.map, Kind.steps, Step.chars]

theorem chars_register (i : UInt32) (t : StaticType) (o : Origin) :
    chars locals ⟨.register i t, o⟩ = (locals.name i).toList := by
  rw [chars_mk]
  simp [Kind.map, Kind.steps, Step.chars]

theorem chars_unary (op : UnaryOperator) (v : Node) (o : Origin) :
    chars locals ⟨.unary op v, o⟩ = op.symbol.toList ++
      if op = .negate ∧ v.startsWithMinus then group (v.chars locals)
      else v.operandChars locals .unary := by
  rw [chars_mk, Kind.map, Kind.steps]
  split_ifs with h h' h'
  · simp [Step.chars]
  · exact absurd h h'
  · exact absurd h' h
  · simp [Step.chars]

theorem chars_binary (op : BinaryOperator) (l r : Node) (o : Origin) :
    chars locals ⟨.binary op l r, o⟩ = l.operandChars locals op.precedence ++
      (' ' :: op.symbol.toList ++ [' ']) ++ r.operandChars locals (op.precedence - 1) := by
  have hpos : 0 < op.precedence := by cases op <;> decide
  rw [chars_mk]
  simp [Kind.map, Kind.steps, Step.chars, hpos]

theorem chars_ternary (c a b : Node) (o : Origin) :
    chars locals ⟨.ternary c a b, o⟩ = c.operandChars locals .logicalOr ++ [' ', '?', ' '] ++
      a.operandChars locals .assignment ++ [' ', ':', ' '] ++
        b.operandChars locals .assignment := by
  rw [chars_mk]
  simp [Kind.map, Kind.steps, Step.chars]

theorem chars_assign (i : UInt32) (v : Node) (d : Option UInt64) (o : Origin) :
    chars locals ⟨.assign (.register i) v none d, o⟩ = (locals.name i).toList ++ [' ', '=', ' '] ++
      v.operandChars locals .assignment := by
  rw [chars_mk]
  simp [Kind.map, Target.map, Target.steps, assignedSteps, Kind.steps, Step.chars]

/-- The characters of a member: a name that can follow a dot, or an expression in brackets. -/
def memberChars (p : Property Node) : List Char :=
  match p.runtime with
  | some n => '[' :: (n.chars locals ++ [']'])
  | none => '.' :: p.name.name.toList

/-- An access on an object that is written, by a name that can follow a dot. -/
theorem chars_access {object : Node} {p : Property Node} (hobject : object.isScopeReceiver = false)
    (hname : p.runtime = none → isIdentifier p.name.name = true) :
    ((p.map (drawn locals)).accessSteps (object.drawn locals)).flatMap Step.chars =
      object.operandChars locals .primary ++ memberChars locals p := by
  have hmember :
      ((p.map (drawn locals)).memberSteps).flatMap Step.chars = memberChars locals p := by
    obtain ⟨name, runtime⟩ := p
    cases runtime with
    | some n => simp [Property.map, Property.memberSteps, memberChars, Step.chars]
    | none => simp [Property.map, Property.memberSteps, memberChars, Step.chars, hname rfl]
  rw [Property.accessSteps, if_neg (by simp [drawn, hobject]), List.flatMap_append, chars_operand,
    hmember]

theorem chars_get {object : Node} {p : Property Node} (t : StaticType) (o : Origin)
    (hobject : object.isScopeReceiver = false)
    (hname : p.runtime = none → isIdentifier p.name.name = true) :
    chars locals ⟨.get object p t, o⟩ =
      object.operandChars locals .primary ++ memberChars locals p := by
  rw [chars_mk, ← chars_access locals hobject hname]
  rfl

/-- A call is the access to its member, and the arguments in parentheses. -/
theorem chars_call {object : Node} {p : Property Node} (as : List Node) (t : StaticType)
    (o o' : Origin) (hobject : object.isScopeReceiver = false)
    (hname : p.runtime = none → isIdentifier p.name.name = true) :
    chars locals ⟨.call .direct object p as, o⟩ =
      chars locals ⟨.get object p t, o'⟩ ++ group (argumentChars locals as) := by
  rw [chars_mk, chars_get locals t o' hobject hname, ← chars_access locals hobject hname,
    ← chars_arguments, ← List.flatMap_append]
  rfl

end Node

end ActionTree
