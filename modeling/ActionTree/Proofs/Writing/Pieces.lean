import ActionTree.Proofs.Reading.Characters
import ActionTree.Proofs.Tree.Reach

/-!
# The pieces of a text

The text of a node is a row of pieces: texts of its own, and the texts of parts, some of them in
parentheses.  What holds of a text is shown piece by piece.

* `Piece`, `Kind.pieces` - the pieces that the text of a kind is made of;
* `Kind.steps_pieces` - their steps in a row are the steps of the kind;
* `Node.chars_pieces` - so are their characters;
* `Kind.mem_parts_of_mem_pieces` - only parts are written;
* `Kind.access?` - the property that a kind reads, calls or assigns.
-/

namespace ActionTree

/-- A piece of the text of a node. -/
inductive Piece where
  /-- Texts that the node writes by itself, one after another. -/
  | own (texts : List String)
  /-- A part of the node, in parentheses or not. -/
  | part (grouped : Bool) (n : Node)

namespace Piece

variable (locals : Locals)

/-- The steps of a piece. -/
def steps : Piece → List Step
  | own texts => texts.map .write
  | part true n => (n.drawn locals).inParentheses
  | part false n => n.steps locals

/-- The characters of a piece. -/
def chars : Piece → List Char
  | own texts => texts.flatMap String.toList
  | part true n => Node.group (n.chars locals)
  | part false n => n.chars locals

/-- The characters of pieces in a row. -/
def rowChars (ps : List Piece) : List Char := ps.flatMap (chars locals)

@[simp] theorem steps_own (texts : List String) :
    (own texts).steps locals = texts.map .write := rfl

@[simp] theorem steps_part (n : Node) : (part false n).steps locals = n.steps locals := rfl

@[simp] theorem steps_group (n : Node) :
    (part true n).steps locals = (n.drawn locals).inParentheses := rfl

theorem chars_steps (p : Piece) : (p.steps locals).flatMap Step.chars = p.chars locals := by
  cases p with
  | own texts =>
    rw [steps, List.flatMap_map]
    rfl
  | part grouped n =>
    cases grouped with
    | true => exact Node.chars_inParentheses locals n
    | false => rfl

@[simp] theorem rowChars_nil : rowChars locals [] = [] := rfl

@[simp] theorem rowChars_cons (p : Piece) (ps : List Piece) :
    rowChars locals (p :: ps) = p.chars locals ++ rowChars locals ps :=
  List.flatMap_cons

@[simp] theorem rowChars_append (ps qs : List Piece) :
    rowChars locals (ps ++ qs) = rowChars locals ps ++ rowChars locals qs :=
  List.flatMap_append

/-! ### Parts in context -/

/-- An operand, in parentheses when it binds looser than its context. -/
def operand (context : Precedence) (n : Node) : Piece := part (context < n.precedence) n

/-- A right operand, in parentheses also at the level of its context. -/
def rightOperand (context : Precedence) (n : Node) : Piece := part (context ≤ n.precedence) n

theorem operand_of_le {context : Precedence} {n : Node} (h : n.precedence ≤ context) :
    operand context n = part false n := by
  rw [operand, decide_eq_false (Nat.not_lt_of_le h)]

/-- The arguments after the first one. -/
def moreArguments : List Node → List Piece
  | [] => []
  | n :: ns => own [", "] :: operand .assignment n :: moreArguments ns

/-- The arguments of a call. -/
def arguments : List Node → List Piece
  | [] => [own ["(", ")"]]
  | n :: ns => own ["("] :: operand .assignment n :: (moreArguments ns ++ [own [")"]])

@[simp] theorem steps_operand (context : Precedence) (n : Node) :
    (operand context n).steps locals = (n.drawn locals).operand context := by
  show (part (context < n.precedence) n).steps locals =
    if context < n.precedence then (n.drawn locals).inParentheses else n.steps locals
  by_cases h : context < n.precedence <;> simp [h, steps]

@[simp] theorem steps_rightOperand (context : Precedence) (n : Node) :
    (rightOperand context n).steps locals = (n.drawn locals).rightOperand context := by
  show (part (context ≤ n.precedence) n).steps locals =
    if context ≤ n.precedence then (n.drawn locals).inParentheses else n.steps locals
  by_cases h : context ≤ n.precedence <;> simp [h, steps]

@[simp] theorem steps_moreArguments (ns : List Node) :
    (moreArguments ns).flatMap (steps locals) =
      Drawn.moreArguments (ns.map (Node.drawn locals)) := by
  induction ns with
  | nil => rfl
  | cons n ns ih =>
    rw [moreArguments, List.flatMap_cons, List.flatMap_cons, ih, steps_operand]
    rfl

@[simp] theorem steps_arguments (ns : List Node) :
    (arguments ns).flatMap (steps locals) = Drawn.arguments (ns.map (Node.drawn locals)) := by
  cases ns with
  | nil => rfl
  | cons n ns => simp [arguments, Drawn.arguments]

@[simp] theorem part_eq_operand {context : Precedence} {grouped : Bool} {c n : Node} :
    part grouped c = operand context n ↔ grouped = decide (context < n.precedence) ∧ c = n := by
  rw [operand, part.injEq]

@[simp] theorem part_eq_rightOperand {context : Precedence} {grouped : Bool} {c n : Node} :
    part grouped c = rightOperand context n ↔
      grouped = decide (context ≤ n.precedence) ∧ c = n := by
  rw [rightOperand, part.injEq]

theorem mem_of_mem_moreArguments {grouped : Bool} {c : Node} {ns : List Node}
    (h : part grouped c ∈ moreArguments ns) : c ∈ ns := by
  induction ns with
  | nil => cases h
  | cons n ns ih =>
    have hsome : (grouped = decide (.assignment < n.precedence) ∧ c = n) ∨
        part grouped c ∈ moreArguments ns := by
      simpa [moreArguments] using h
    rcases hsome with ⟨-, rfl⟩ | h
    · exact List.mem_cons_self
    · exact List.mem_cons_of_mem _ (ih h)

theorem mem_of_mem_arguments {grouped : Bool} {c : Node} {ns : List Node}
    (h : part grouped c ∈ arguments ns) : c ∈ ns := by
  cases ns with
  | nil => simp [arguments] at h
  | cons n ns =>
    -- but for the comma in front, the pieces are those of later arguments
    have hmore : part grouped c ∈ moreArguments (n :: ns) := by
      simpa [arguments, moreArguments] using h
    exact mem_of_mem_moreArguments hmore

end Piece

/-! ### Properties -/

namespace Property

variable (locals : Locals)

/-- The pieces of the member part of an access. -/
def memberPieces (p : Property Node) : List Piece :=
  match p.runtime with
  | some n => [.own ["["], .part false n, .own ["]"]]
  | none =>
    if isIdentifier p.name.name then [.own [".", p.name.name]]
    else [.own ["[", Text.quote p.name.name, "]"]]

/-- The pieces of a name without a receiver. -/
def barePieces (p : Property Node) : List Piece :=
  if p.hasBareForm then [.own [p.name.name]] else .own ["this"] :: p.memberPieces

/-- The pieces of a property of an object. -/
def accessPieces (object : Node) (p : Property Node) : List Piece :=
  if object.isScopeReceiver then p.barePieces else .operand .primary object :: p.memberPieces

/-- The pieces of a property past the class of an object. -/
def superPieces (object : Node) (p : Property Node) : List Piece :=
  if object.rendersAsThis locals || object.isScopeReceiver then .own ["super"] :: p.memberPieces
  else .operand .primary object :: .own [".", "super"] :: p.memberPieces

theorem steps_memberPieces (p : Property Node) :
    p.memberPieces.flatMap (Piece.steps locals) = (p.map (Node.drawn locals)).memberSteps := by
  obtain ⟨name, runtime⟩ := p
  cases runtime with
  | some n => rfl
  | none =>
    by_cases hname : isIdentifier name.name <;> simp [memberPieces, memberSteps, map, hname]

theorem steps_barePieces (p : Property Node) :
    p.barePieces.flatMap (Piece.steps locals) = (p.map (Node.drawn locals)).bareSteps := by
  have hbare : (p.map (Node.drawn locals)).hasBareForm = p.hasBareForm := by
    obtain ⟨name, runtime⟩ := p
    cases runtime <;> rfl
  rw [barePieces, bareSteps, hbare]
  split
  · rfl
  · rw [List.flatMap_cons, steps_memberPieces]
    rfl

theorem steps_accessPieces (object : Node) (p : Property Node) :
    (p.accessPieces object).flatMap (Piece.steps locals) =
      (p.map (Node.drawn locals)).accessSteps (object.drawn locals) := by
  rw [accessPieces, accessSteps, Node.drawn]
  split
  · exact steps_barePieces locals p
  · rw [List.flatMap_cons, Piece.steps_operand, steps_memberPieces]
    rfl

theorem steps_superPieces (object : Node) (p : Property Node) :
    (p.superPieces locals object).flatMap (Piece.steps locals) =
      (p.map (Node.drawn locals)).superSteps locals (object.drawn locals) := by
  rw [superPieces, superSteps, Node.drawn]
  split
  · rw [List.flatMap_cons, steps_memberPieces]
    rfl
  · rw [List.flatMap_cons, List.flatMap_cons, Piece.steps_operand, steps_memberPieces]
    simp [Piece.steps, Node.drawn]

variable {locals} {p : Property Node} {object : Node} {grouped : Bool} {c : Node}

theorem mem_children_of_mem_memberPieces (h : .part grouped c ∈ p.memberPieces) :
    c ∈ p.children := by
  obtain ⟨name, runtime⟩ := p
  cases runtime with
  | some n =>
    have hcomputed : grouped = false ∧ c = n := by simpa [memberPieces] using h
    simp [children, hcomputed.2]
  | none => by_cases hname : isIdentifier name.name <;> simp [memberPieces, hname] at h

theorem mem_children_of_mem_barePieces (h : .part grouped c ∈ p.barePieces) : c ∈ p.children := by
  rw [barePieces] at h
  split at h
  · simp at h
  · exact mem_children_of_mem_memberPieces (by simpa using h)

theorem mem_of_mem_accessPieces (h : .part grouped c ∈ p.accessPieces object) :
    c ∈ object :: p.children := by
  rw [accessPieces] at h
  split at h
  · exact List.mem_cons_of_mem _ (mem_children_of_mem_barePieces h)
  · rcases List.mem_cons.1 h with h | h
    · exact List.mem_cons.2 (.inl (Piece.part_eq_operand.1 h).2)
    · exact List.mem_cons_of_mem _ (mem_children_of_mem_memberPieces h)

theorem mem_of_mem_superPieces (h : .part grouped c ∈ p.superPieces locals object) :
    c ∈ object :: p.children := by
  rw [superPieces] at h
  split at h
  · exact List.mem_cons_of_mem _ (mem_children_of_mem_memberPieces (by simpa using h))
  · rcases List.mem_cons.1 h with h | h
    · exact List.mem_cons.2 (.inl (Piece.part_eq_operand.1 h).2)
    · exact List.mem_cons_of_mem _ (mem_children_of_mem_memberPieces (by simpa using h))

end Property

/-! ### Kinds -/

/-- The pieces of an assignment's target. -/
def Target.pieces (locals : Locals) : Target Node → List Piece
  | .register i => [.own [locals.name i]]
  | .property .direct object p => p.accessPieces object
  | .property .super object p => p.superPieces locals object

theorem Target.mem_children_of_mem_pieces {locals : Locals} {t : Target Node} {grouped : Bool}
    {c : Node} (h : .part grouped c ∈ t.pieces locals) : c ∈ t.children := by
  rcases t with i | ⟨_ | _, object, p⟩
  · simp [pieces] at h
  · exact p.mem_of_mem_accessPieces h
  · exact p.mem_of_mem_superPieces h

/-- The pieces of the rest of an assignment. -/
def assignedPieces (value : Node) : Option (Compound Node) → List Piece
  | some c => [.own [" ", c.operator.symbol, "= "], .operand .assignment c.value]
  | none => [.own [" = "], .operand .assignment value]

namespace Kind

/-- The property that a kind reads, calls or assigns, with its object. -/
def access? {α : Type} : Kind α → Option (Lookup × α × Property α)
  | .get object p _ => some (.direct, object, p)
  | .getSuper object p => some (.super, object, p)
  | .call lookup object p _ => some (lookup, object, p)
  | .assign (.property lookup object p) .. => some (lookup, object, p)
  | _ => none

theorem mem_parts_of_access? {k : Kind Node} {lookup : Lookup} {object : Node}
    {p : Property Node} (h : k.access? = some (lookup, object, p)) : object ∈ k.parts := by
  cases k with
  | get | getSuper | call =>
    obtain ⟨-, rfl, -⟩ : _ ∧ _ ∧ _ := by simpa [access?] using h
    simp [parts, children]
  | assign target v c d =>
    rcases target with i | ⟨lookup', object', q⟩
    · cases h
    · obtain ⟨-, rfl, -⟩ : _ ∧ _ ∧ _ := by simpa [access?] using h
      simp [parts, children, Target.children]
  | _ => cases h

/-- The pieces of the text of a kind. -/
def pieces (locals : Locals) : Kind Node → List Piece
  | .literal l => [.own [l.text]]
  | .this => [.own ["this"]]
  | .register i _ => [.own [locals.name i]]
  | .scope p => p.barePieces
  | .duplicate v | .coerce _ v => [.part false v]
  | .convert t v => if v.showsConversion t then [.own [t.text], .part true v] else [.part false v]
  | .get object p _ => p.accessPieces object
  | .getSuper object p => p.superPieces locals object
  | .call .direct object p as => p.accessPieces object ++ Piece.arguments as
  | .call .super object p as => p.superPieces locals object ++ Piece.arguments as
  | .construct _ as => .own ["super"] :: Piece.arguments as
  | .assign target v c _ => target.pieces locals ++ assignedPieces v c
  | .binary op l r =>
    [.operand op.precedence l, .own [" ", op.symbol, " "], .rightOperand op.precedence r]
  | .unary op v =>
    if op = .negate ∧ v.startsWithMinus then [.own [op.symbol], .part true v]
    else [.own [op.symbol], .operand .unary v]
  | .ternary c a b =>
    [.operand .logicalOr c, .own [" ? "], .operand .assignment a, .own [" : "],
      .operand .assignment b]
  | .declare i t none => [.own ["var ", locals.name i, ":", t.text]]
  | .declare i t (some v) =>
    [.own ["var ", locals.name i, ":", t.text, " = "], .operand .assignment v]
  | .returnValue v => [.own ["return "], .part false v]
  | .returnVoid => [.own ["return"]]
  | .throw v => [.own ["throw "], .part false v]

variable (locals : Locals)

/-- The steps of a kind are those of its pieces. -/
theorem steps_pieces (k : Kind Node) :
    (k.map (Node.drawn locals)).steps locals = (k.pieces locals).flatMap (Piece.steps locals) := by
  cases k with
  | scope p => exact (p.steps_barePieces locals).symm
  | get object p t => exact (p.steps_accessPieces locals object).symm
  | getSuper object p => exact (p.steps_superPieces locals object).symm
  | call lookup object p as =>
    cases lookup with
    | direct =>
      rw [pieces, List.flatMap_append, p.steps_accessPieces, Piece.steps_arguments]
      rfl
    | super =>
      rw [pieces, List.flatMap_append, p.steps_superPieces, Piece.steps_arguments]
      rfl
  | construct object as =>
    rw [pieces, List.flatMap_cons, Piece.steps_arguments]
    rfl
  | assign target v c d =>
    have htarget : (target.pieces locals).flatMap (Piece.steps locals) =
        (target.map (Node.drawn locals)).steps locals := by
      rcases target with i | ⟨_ | _, object, p⟩
      · rfl
      · exact p.steps_accessPieces locals object
      · exact p.steps_superPieces locals object
    have hassigned : (assignedPieces v c).flatMap (Piece.steps locals) =
        assignedSteps (v.drawn locals) (c.map (·.map (Node.drawn locals))) := by
      cases c with
      | none => simp [assignedPieces, assignedSteps]
      | some c => simp [assignedPieces, assignedSteps, Compound.map]
    rw [pieces, List.flatMap_append, htarget, hassigned]
    rfl
  | convert t v =>
    simp only [pieces, map, steps, Node.drawn]
    split <;> simp [Node.steps, Node.drawn]
  | unary op v =>
    simp only [pieces, map, steps, Node.drawn]
    split <;> simp [Node.drawn]
  | declare i t v =>
    cases v with
    | none => rfl
    | some v => simp [pieces, map, steps]
  | _ => simp [pieces, map, steps, Node.steps]

/-- Only parts are written. -/
theorem mem_parts_of_mem_pieces {k : Kind Node} {grouped : Bool} {c : Node}
    (h : .part grouped c ∈ k.pieces locals) : c ∈ k.parts := by
  cases k with
  | scope p => simpa [parts, children, compound?] using p.mem_children_of_mem_barePieces h
  | get object p t => simpa [parts, children, compound?] using p.mem_of_mem_accessPieces h
  | getSuper object p => simpa [parts, children, compound?] using p.mem_of_mem_superPieces h
  | call lookup object p as =>
    have hsome : c ∈ object :: p.children ∨ c ∈ as := by
      cases lookup with
      | direct =>
        exact (List.mem_append.1 h).imp p.mem_of_mem_accessPieces Piece.mem_of_mem_arguments
      | super =>
        exact (List.mem_append.1 h).imp p.mem_of_mem_superPieces Piece.mem_of_mem_arguments
    simpa [parts, children, compound?, or_assoc] using hsome
  | construct object as =>
    have harguments : c ∈ as := Piece.mem_of_mem_arguments (by simpa [pieces] using h)
    simp [parts, children, harguments]
  | assign target v compound d =>
    rcases List.mem_append.1 h with h | h
    · have htarget : c ∈ target.children := Target.mem_children_of_mem_pieces h
      simp [parts, children, htarget]
    · cases compound <;> simp_all [assignedPieces, parts, children, compound?]
  | convert t v =>
    rw [pieces] at h
    split at h <;> simp_all [parts, children]
  | unary op v =>
    rw [pieces] at h
    split at h <;> simp_all [parts, children]
  | declare i t v => cases v <;> simp_all [pieces, parts, children]
  | binary op l r =>
    have hside : c = l ∨ c = r := (by simpa [pieces] using h : _ ∨ _).imp And.right And.right
    simpa [parts, children, compound?] using hside
  | ternary b l r =>
    have hbranch : c = b ∨ c = l ∨ c = r :=
      (by simpa [pieces] using h : _ ∨ _ ∨ _).imp And.right (Or.imp And.right And.right)
    simpa [parts, children, compound?] using hbranch
  | literal | this | register | duplicate | coerce | returnValue | returnVoid | throw =>
    simp_all [pieces, parts, children]

end Kind

namespace Node

variable (locals : Locals)

/-- The characters of a node are those of its pieces. -/
theorem chars_pieces (k : Kind Node) (o : Origin) :
    chars locals ⟨k, o⟩ = Piece.rowChars locals (k.pieces locals) := by
  rw [chars_mk, k.steps_pieces, List.flatMap_assoc]
  exact congrArg (fun f => List.flatMap f _) (funext (Piece.chars_steps locals))

end Node

end ActionTree
