import ActionTree.Proofs.Writing.Layout
import ActionTree.Proofs.Writing.Pieces
import Mathlib.Algebra.BigOperators.Group.List.Basic
import Mathlib.Algebra.GroupWithZero.Nat

/-!
# The parts that are written

Not all parts of a node are in its text: an object that is implied is left out, and a compound form
stands for the stored value.  The nodes that a tree is written with are its root and those of the
parts that are written.

* `Node.isImplied` - whether an access on an object is written without it;
* `Kind.shown` - the parts that are written, in order;
* `Node.nodesAlone_mk` - the nodes of a tree from those of these parts;
* `Kind.shown_map` - other parts are written in the places of the old ones, as long as the same
  objects are implied.
-/

namespace ActionTree

variable (locals : Locals)

/-- Whether an access on this object is written without it. -/
def Node.isImplied (lookup : Lookup) (object : Node) : Bool :=
  match lookup with
  | .direct => object.isScopeReceiver
  | .super => object.rendersAsThis locals || object.isScopeReceiver

/-- The parts of an access that are written. -/
def Property.shown (lookup : Lookup) (object : Node) (p : Property Node) : List Node :=
  if object.isImplied locals lookup then p.children else object :: p.children

/-- The parts of a target that are written. -/
def Target.shown : Target Node → List Node
  | .register _ => []
  | .property lookup object p => p.shown locals lookup object

/-- The parts of a kind that are written, in order. -/
def Kind.shown : Kind Node → List Node
  | .get object p _ => p.shown locals .direct object
  | .getSuper object p => p.shown locals .super object
  | .call lookup object p as => p.shown locals lookup object ++ as
  | .construct _ as => as
  | .assign target v c _ => target.shown locals ++ [(c.map (·.value)).getD v]
  | k => k.children

/-! ### Parts of pieces -/

namespace Piece

/-- The parts that pieces in a row are written for. -/
def parts : List Piece → List Node
  | [] => []
  | own _ :: ps => parts ps
  | part _ n :: ps => n :: parts ps

@[simp] theorem parts_nil : parts [] = [] := rfl

@[simp] theorem parts_own (texts : List String) (ps : List Piece) :
    parts (own texts :: ps) = parts ps := rfl

@[simp] theorem parts_part (grouped : Bool) (n : Node) (ps : List Piece) :
    parts (part grouped n :: ps) = n :: parts ps := rfl

@[simp] theorem parts_operand (context : Precedence) (n : Node) (ps : List Piece) :
    parts (operand context n :: ps) = n :: parts ps := rfl

@[simp] theorem parts_append (ps qs : List Piece) : parts (ps ++ qs) = parts ps ++ parts qs := by
  induction ps with
  | nil => rfl
  | cons p ps ih => cases p <;> simp [ih]

@[simp] theorem parts_moreArguments (ns : List Node) : parts (moreArguments ns) = ns := by
  induction ns with
  | nil => rfl
  | cons n ns ih => simp [moreArguments, ih]

@[simp] theorem parts_arguments (ns : List Node) : parts (arguments ns) = ns := by
  cases ns with
  | nil => rfl
  | cons n ns => simp [arguments]

theorem exists_mem_of_mem_parts {ps : List Piece} {c : Node} (h : c ∈ parts ps) :
    ∃ grouped, part grouped c ∈ ps := by
  induction ps with
  | nil => cases h
  | cons p ps ih =>
    cases p with
    | own texts => exact (ih h).imp fun _ => List.mem_cons_of_mem _
    | part grouped n =>
      rcases List.mem_cons.1 h with rfl | h
      · exact ⟨grouped, List.mem_cons_self⟩
      · exact (ih h).imp fun _ => List.mem_cons_of_mem _

/-- Pieces in a row enter the nodes of their parts. -/
theorem count_steps (ps : List Piece) :
    (ps.flatMap (steps locals)).count .enter = ((parts ps).map (Node.nodesAlone locals)).sum := by
  induction ps with
  | nil => rfl
  | cons p ps ih =>
    rw [List.flatMap_cons, List.count_append, ih]
    cases p with
    | own texts =>
      have hown : (steps locals (own texts)).count .enter = 0 := by
        rw [steps, List.count_eq_zero]
        simp
      rw [hown, Nat.zero_add, parts_own]
    | part grouped n =>
      have hpart : (steps locals (part grouped n)).count .enter = n.nodesAlone locals := by
        rw [Node.nodesAlone_eq]
        cases grouped with
        | true => simp [steps, Drawn.inParentheses, Node.steps]
        | false => rfl
      rw [hpart, parts_part, List.map_cons, List.sum_cons]

end Piece

namespace Property

@[simp] theorem parts_memberPieces (p : Property Node) :
    Piece.parts p.memberPieces = p.children := by
  obtain ⟨name, runtime⟩ := p
  cases runtime with
  | some n => rfl
  | none => by_cases hname : isIdentifier name.name <;> simp [memberPieces, children, hname]

@[simp] theorem parts_barePieces (p : Property Node) : Piece.parts p.barePieces = p.children := by
  rw [barePieces]
  split
  · obtain ⟨name, runtime⟩ := p
    cases runtime <;> simp_all [hasBareForm, children]
  · rw [Piece.parts_own, parts_memberPieces]

theorem parts_accessPieces (object : Node) (p : Property Node) :
    Piece.parts (p.accessPieces object) = p.shown locals .direct object := by
  rw [accessPieces, shown, Node.isImplied]
  split <;> simp

theorem parts_superPieces (object : Node) (p : Property Node) :
    Piece.parts (p.superPieces locals object) = p.shown locals .super object := by
  rw [superPieces, shown, Node.isImplied]
  split <;> simp

end Property

theorem Target.parts_pieces (t : Target Node) :
    Piece.parts (t.pieces locals) = t.shown locals := by
  rcases t with i | ⟨_ | _, object, p⟩
  · rfl
  · exact p.parts_accessPieces locals object
  · exact p.parts_superPieces locals object

theorem parts_assignedPieces (v : Node) (c : Option (Compound Node)) :
    Piece.parts (assignedPieces v c) = [(c.map (·.value)).getD v] := by
  cases c <;> rfl

/-! ### Kinds -/

namespace Kind

/-- The parts of the pieces of a kind are those that are written. -/
theorem parts_pieces (k : Kind Node) : Piece.parts (k.pieces locals) = k.shown locals := by
  cases k with
  | scope p => exact p.parts_barePieces
  | get object p t => exact p.parts_accessPieces locals object
  | getSuper object p => exact p.parts_superPieces locals object
  | call lookup object p as =>
    cases lookup with
    | direct => simp [pieces, shown, p.parts_accessPieces locals]
    | super => simp [pieces, shown, p.parts_superPieces locals]
  | construct object as => simp [pieces, shown]
  | assign target v c d =>
    rw [pieces, shown, Piece.parts_append, target.parts_pieces, parts_assignedPieces]
  | convert t v =>
    rw [pieces]
    split <;> rfl
  | unary op v =>
    rw [pieces]
    split <;> rfl
  | declare i t v => cases v <;> rfl
  | _ => rfl

theorem mem_parts_of_mem_shown {k : Kind Node} {c : Node} (h : c ∈ k.shown locals) :
    c ∈ k.parts := by
  rw [← parts_pieces] at h
  obtain ⟨grouped, hpiece⟩ := Piece.exists_mem_of_mem_parts h
  exact mem_parts_of_mem_pieces locals hpiece

/-- Other parts are written in the places of the old ones, where they leave implied objects implied
and the others not. -/
theorem shown_map {f : Node → Node} {k : Kind Node}
    (h : ∀ lookup object p, k.access? = some (lookup, object, p) →
      (f object).isImplied locals lookup = object.isImplied locals lookup) :
    (k.map f).shown locals = (k.shown locals).map f := by
  have access (lookup : Lookup) (object : Node) (p : Property Node)
      (haccess : k.access? = some (lookup, object, p)) :
      (p.map f).shown locals lookup (f object) = (p.shown locals lookup object).map f := by
    rw [Property.shown, Property.shown, h lookup object p haccess, children_map_property]
    split <;> rfl
  cases k with
  | get object p t => exact access .direct object p rfl
  | getSuper object p => exact access .super object p rfl
  | call lookup object p as => simp only [map, shown, access lookup object p rfl, List.map_append]
  | assign target v c d =>
    have htarget : (target.map f).shown locals = (target.shown locals).map f := by
      rcases target with i | ⟨lookup, object, p⟩
      · rfl
      · exact access lookup object p rfl
    cases c <;> simp only [map, shown, htarget, List.map_append] <;> rfl
  | scope p => exact children_map_property f p
  | declare i t v => cases v <;> rfl
  | _ => rfl

end Kind

/-! ### Trees -/

/-- The nodes of a tree are the root and those of the parts that are written. -/
theorem Node.nodesAlone_mk (k : Kind Node) (o : Origin) :
    nodesAlone locals ⟨k, o⟩ = 1 + ((k.shown locals).map (nodesAlone locals)).sum := by
  show nodesAlone locals ⟨k, o⟩ = _
  rw [nodesAlone_eq, steps, Drawn.plain, List.count_cons_self, drawn, bodySteps_mk,
    Kind.steps_pieces, Piece.count_steps, Kind.parts_pieces, Nat.add_comm]

end ActionTree
