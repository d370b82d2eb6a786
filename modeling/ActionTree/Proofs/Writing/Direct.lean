import ActionTree.Node.Induction
import ActionTree.Proofs.Writing.Budget

/-!
# Rendering that returns at the first cancellation

A tree can be rendered without a list of steps, by functions that call each other and return as soon
as one of them is cancelled.  They leave the same writer, cancelled or not, as performing the steps.

* `RenderM` - computations that change the writer and may be cancelled;
* `Direct.node`, `Direct.operand`, `Direct.kind` and others - the functions, over parts that stand
  beside what renders them;
* `Node.render` - a tree;
* `performs` - performing steps as such a computation;
* `Direct.kind_perform` - the functions agree with the steps, kind by kind;
* `Node.render_eq_performs` - so do whole trees.
-/

namespace ActionTree

/-- Computations that change the writer and may be cancelled. -/
abbrev RenderM := ExceptT Unit (StateM Writer)

/-! ### Functions that call each other -/

namespace Direct

/-- A part of a kind beside what renders it once it is entered. -/
abbrev Part := Node × RenderM Unit

/-- Appends a text. -/
def text (s : String) : RenderM Unit := modify (·.append s)

/-- Renders a part in a context that asks for no parentheses.  The token is checked first, then the
budget. -/
def node (d : Part) : RenderM Unit := fun w =>
  if w.cancelled then (.error (), w)
  else if w.isSpent then (.error (), w.cancel)
  else d.2 { w with rendered := w.rendered + 1 }

/-- Renders a part in parentheses. -/
def parenthesized (d : Part) : RenderM Unit := do
  text "("
  node d
  text ")"

/-- Renders an operand. -/
def operand (context : Precedence) (d : Part) : RenderM Unit :=
  if context < d.1.precedence then parenthesized d else node d

/-- Renders the right operand of a left-associative operator. -/
def rightOperand (context : Precedence) (d : Part) : RenderM Unit :=
  if context ≤ d.1.precedence then parenthesized d else node d

/-- Renders arguments with commas between them. -/
def separated (isFirst : Bool) : List Part → RenderM Unit
  | [] => pure ()
  | d :: ds => do
    if !isFirst then text ", "
    operand .assignment d
    separated false ds

/-- Renders the arguments of a call. -/
def arguments (ds : List Part) : RenderM Unit := do
  text "("
  separated true ds
  text ")"

/-- Renders the member part of an access. -/
def member (p : Property Part) : RenderM Unit :=
  match p.runtime with
  | some d => do
    text "["
    node d
    text "]"
  | none =>
    if isIdentifier p.name.name then do
      text "."
      text p.name.name
    else do
      text "["
      text (Text.quote p.name.name)
      text "]"

/-- Renders a name without a receiver. -/
def bare (p : Property Part) : RenderM Unit :=
  if p.hasBareForm then text p.name.name
  else do
    text "this"
    member p

/-- Renders a property of an object. -/
def access (object : Part) (p : Property Part) : RenderM Unit :=
  if object.1.isScopeReceiver then bare p
  else do
    operand .primary object
    member p

/-- Renders a property past the class of an object. -/
def superAccess (locals : Locals) (object : Part) (p : Property Part) : RenderM Unit := do
  if !(object.1.rendersAsThis locals || object.1.isScopeReceiver) then
    operand .primary object
    text "."
  text "super"
  member p

/-- Renders the target of an assignment. -/
def target (locals : Locals) : Target Part → RenderM Unit
  | .register i => text (locals.name i)
  | .property .direct object p => access object p
  | .property .super object p => superAccess locals object p

/-- Renders the rest of an assignment. -/
def assigned (value : Part) : Option (Compound Part) → RenderM Unit
  | some c => do
    text " "
    text c.operator.symbol
    text "= "
    operand .assignment c.value
  | none => do
    text " = "
    operand .assignment value

/-- Renders a kind once it is entered. -/
def kind (locals : Locals) : Kind Part → RenderM Unit
  | .literal l => text l.text
  | .this => text "this"
  | .register i _ => text (locals.name i)
  | .scope p => bare p
  | .duplicate v | .coerce _ v => node v
  | .convert t v =>
    if v.1.showsConversion t then do
      text t.text
      parenthesized v
    else node v
  | .get object p _ => access object p
  | .getSuper object p => superAccess locals object p
  | .call .direct object p as => do
    access object p
    arguments as
  | .call .super object p as => do
    superAccess locals object p
    arguments as
  | .construct _ as => do
    text "super"
    arguments as
  | .assign t v c _ => do
    target locals t
    assigned v c
  | .binary op l r => do
    operand op.precedence l
    text " "
    text op.symbol
    text " "
    rightOperand op.precedence r
  | .unary op v => do
    text op.symbol
    if op = .negate ∧ v.1.startsWithMinus then parenthesized v else operand .unary v
  | .ternary c a b => do
    operand .logicalOr c
    text " ? "
    operand .assignment a
    text " : "
    operand .assignment b
  | .declare i t v => do
    text "var "
    text (locals.name i)
    text ":"
    text t.text
    if let some d := v then
      text " = "
      operand .assignment d
  | .returnValue v => do
    text "return "
    node v
  | .returnVoid => text "return"
  | .throw v => do
    text "throw "
    node v

end Direct

namespace Node

/-- Renders a tree once it is entered. -/
def renderBody (locals : Locals) : Node → RenderM Unit := recurse fun k _ => Direct.kind locals k

/-- Renders a tree. -/
def render (locals : Locals) (n : Node) : RenderM Unit := Direct.node (n, n.renderBody locals)

end Node

/-! ### Steps as a computation -/

/-- Performs steps. -/
def performs (steps : List Step) : RenderM Unit := fun w =>
  match w.run steps with
  | (.completed, w) => (.ok (), w)
  | (.cancelled, w) => (.error (), w)

/-- A part beside its steps, as a part beside what performs them. -/
def Drawn.perform (d : Drawn) : Direct.Part := (d.1, performs d.2)

theorem performs_write (s : String) (steps : List Step) :
    performs (.write s :: steps) = Direct.text s >>= fun _ => performs steps := rfl

theorem performs_append (as bs : List Step) :
    performs (as ++ bs) = performs as >>= fun _ => performs bs := by
  funext w
  show performs (as ++ bs) w =
    ExceptT.bindCont (fun _ => performs bs) (performs as w).1 (performs as w).2
  rw [performs, performs, Writer.run_append]
  cases w.run as with
  | mk outcome after => cases outcome <;> rfl

/-! ### The functions agree with the steps -/

namespace Direct

theorem node_perform (d : Drawn) : node d.perform = performs d.plain := by
  funext w
  show node d.perform w = performs (.enter :: d.2) w
  rw [node, performs, Writer.run]
  split_ifs <;> rfl

theorem parenthesized_perform (d : Drawn) :
    parenthesized d.perform = performs d.inParentheses := by
  rw [parenthesized, Drawn.inParentheses, performs_write, performs_append, node_perform]
  rfl

theorem operand_perform (context : Precedence) (d : Drawn) :
    operand context d.perform = performs (d.operand context) := by
  rw [operand, Drawn.operand, parenthesized_perform, node_perform]
  exact (apply_ite performs _ _ _).symm

theorem rightOperand_perform (context : Precedence) (d : Drawn) :
    rightOperand context d.perform = performs (d.rightOperand context) := by
  rw [rightOperand, Drawn.rightOperand, parenthesized_perform, node_perform]
  exact (apply_ite performs _ _ _).symm

theorem separated_perform (ds : List Drawn) :
    separated false (ds.map Drawn.perform) = performs (Drawn.moreArguments ds) := by
  induction ds with
  | nil => rfl
  | cons d ds ih =>
    rw [List.map_cons, separated, Drawn.moreArguments, performs_write, performs_append,
      operand_perform, ih]
    rfl

theorem arguments_perform (ds : List Drawn) :
    arguments (ds.map Drawn.perform) = performs (Drawn.arguments ds) := by
  cases ds with
  | nil => rfl
  | cons d ds =>
    have hfirst : separated true (d.perform :: ds.map Drawn.perform) =
        operand .assignment d.perform >>= fun _ => separated false (ds.map Drawn.perform) := rfl
    rw [List.map_cons, arguments, hfirst, Drawn.arguments, performs_write, performs_append,
      performs_append, operand_perform, separated_perform]
    rfl

theorem member_perform (p : Property Drawn) :
    member (p.map Drawn.perform) = performs p.memberSteps := by
  obtain ⟨name, runtime⟩ := p
  cases runtime with
  | none =>
    rw [Property.memberSteps]
    dsimp only
    rw [apply_ite performs]
    rfl
  | some d =>
    rw [Property.memberSteps]
    dsimp only
    rw [performs_write, performs_append, ← node_perform]
    rfl

theorem bare_perform (p : Property Drawn) :
    bare (p.map Drawn.perform) = performs p.bareSteps := by
  have hform : (p.map Drawn.perform).hasBareForm = p.hasBareForm := by
    rw [Property.hasBareForm, Property.map, Property.hasBareForm, Option.isNone_map]
  rw [bare, Property.bareSteps, hform, member_perform, apply_ite performs]
  rfl

theorem access_perform (object : Drawn) (p : Property Drawn) :
    access object.perform (p.map Drawn.perform) = performs (p.accessSteps object) := by
  rw [access, Property.accessSteps, apply_ite performs, bare_perform, operand_perform,
    member_perform, performs_append]
  rfl

theorem superAccess_perform (locals : Locals) (object : Drawn) (p : Property Drawn) :
    superAccess locals object.perform (p.map Drawn.perform) =
      performs (p.superSteps locals object) := by
  rw [superAccess, Property.superSteps, member_perform, operand_perform]
  have hobject : object.perform.1 = object.1 := rfl
  rw [hobject]
  cases object.1.rendersAsThis locals || object.1.isScopeReceiver with
  | true => rfl
  | false =>
    simp only [Bool.false_eq_true, if_false, Bool.not_false, if_true, performs_append,
      performs_write, bind_assoc]
    rfl

theorem target_perform (locals : Locals) (t : Target Drawn) :
    target locals (t.map Drawn.perform) = performs (t.steps locals) := by
  cases t with
  | register i => rfl
  | property lookup object p =>
    cases lookup with
    | direct => exact access_perform object p
    | super => exact superAccess_perform locals object p

theorem assigned_perform (v : Drawn) (c : Option (Compound Drawn)) :
    assigned v.perform (c.map (·.map Drawn.perform)) = performs (assignedSteps v c) := by
  cases c with
  | none =>
    rw [assignedSteps, performs_write, ← operand_perform]
    rfl
  | some c =>
    rw [assignedSteps, performs_append, ← operand_perform]
    rfl

/-- A kind is rendered as its steps are performed. -/
theorem kind_perform (locals : Locals) (k : Kind Drawn) :
    kind locals (k.map Drawn.perform) = performs (k.steps locals) := by
  cases k with
  | literal | this | register | returnVoid => rfl
  | scope p => exact bare_perform p
  | duplicate v => exact node_perform v
  | coerce t v => exact node_perform v
  | convert t v =>
    rw [Kind.map, kind, Kind.steps, apply_ite performs, performs_write, parenthesized_perform,
      node_perform]
    rfl
  | get object p t => exact access_perform object p
  | getSuper object p => exact superAccess_perform locals object p
  | call lookup object p as =>
    cases lookup with
    | direct =>
      rw [Kind.map, kind, Kind.steps, performs_append, access_perform, arguments_perform]
    | super =>
      rw [Kind.map, kind, Kind.steps, performs_append, superAccess_perform, arguments_perform]
  | construct object as =>
    rw [Kind.map, kind, Kind.steps, performs_write, arguments_perform]
  | assign t v c d =>
    rw [Kind.map, kind, Kind.steps, performs_append, target_perform, assigned_perform]
  | binary op l r =>
    rw [Kind.map, kind, Kind.steps, performs_append, performs_append, operand_perform,
      rightOperand_perform, bind_assoc]
    rfl
  | unary op v =>
    have hpart : v.perform.1.startsWithMinus = v.1.startsWithMinus := rfl
    rw [Kind.map, kind, Kind.steps, hpart, apply_ite performs, performs_write, performs_write,
      parenthesized_perform, operand_perform]
    split_ifs <;> rfl
  | ternary c a b =>
    rw [Kind.map, kind, Kind.steps, performs_append, performs_append, performs_write,
      performs_write, operand_perform, operand_perform, operand_perform]
    simp only [bind_assoc]
  | declare i t v =>
    cases v with
    | none => rfl
    | some v =>
      have hvalue : performs (.write " = " :: v.operand .assignment) =
          text " = " >>= fun _ => operand .assignment v.perform := by
        rw [performs_write, operand_perform]
      rw [Kind.steps, performs_append, hvalue]
      rfl
  | returnValue v =>
    rw [Kind.map, kind, Kind.steps, performs_write, node_perform]
  | throw v =>
    rw [Kind.map, kind, Kind.steps, performs_write, node_perform]

end Direct

/-! ### Trees -/

namespace Node

theorem renderBody_mk (locals : Locals) (k : Kind Node) (o : Origin) :
    renderBody locals ⟨k, o⟩ = Direct.kind locals (k.map fun n => (n, n.renderBody locals)) :=
  recurse_mk _ k o

/-- Once it is entered, a tree is rendered as its steps are performed. -/
theorem renderBody_eq_performs (locals : Locals) (n : Node) :
    n.renderBody locals = performs (n.bodySteps locals) := by
  induction n using induct with
  | step k o ih =>
    have hparts : (k.map fun n => (n, n.renderBody locals)) =
        (k.map (drawn locals)).map Drawn.perform := by
      rw [Kind.map_map]
      exact Kind.map_congr fun n hn => Prod.ext rfl (ih n hn)
    rw [renderBody_mk, bodySteps_mk, hparts, Direct.kind_perform]

/-- **Rendering that returns at the first cancellation leaves what the steps leave.**  For any
writer, with any budget left and a live or a cancelled token, it is cancelled just when performing
the steps is, and the writer afterwards is the same. -/
theorem render_eq_performs (locals : Locals) (n : Node) (w : Writer) :
    n.render locals w = match w.run (n.steps locals) with
      | (.completed, after) => (.ok (), after)
      | (.cancelled, after) => (.error (), after) := by
  show Direct.node (n, n.renderBody locals) w = performs (n.drawn locals).plain w
  rw [renderBody_eq_performs, ← Direct.node_perform]
  rfl

end Node

end ActionTree
