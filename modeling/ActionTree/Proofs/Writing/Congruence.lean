import ActionTree.Proofs.Constant.Folding
import ActionTree.Proofs.Writing.Occurrence
import ActionTree.Proofs.Writing.Shown

/-!
# Texts of nodes with other parts

Where the parts of a node are replaced by others that are written around alike, and the same objects
are implied, the node writes by itself what it did, and the new parts in the places of the old ones.

* `Piece.map` - a piece with another part;
* `Node.Alike` - parts that are written around alike;
* `Node.startsWithMinus_map`, `Node.rendersAsThis_map` - what else other nodes ask of a part;
* `Kind.pieces_map` - the pieces of a kind with other parts;
* `Node.chars_map` - its text is the same if those of the parts are.
-/

namespace ActionTree

/-- A piece with another part. -/
def Piece.map (f : Node → Node) : Piece → Piece
  | own texts => own texts
  | part grouped n => part grouped (f n)

/-- Two nodes of one level and one type, of which both or none start with a minus. -/
structure Node.Alike (m n : Node) : Prop where
  precedence : m.precedence = n.precedence
  returnType : m.returnType = n.returnType
  startsWithMinus : m.startsWithMinus = n.startsWithMinus

variable {f : Node → Node}

/-! ### What is asked of a part -/

namespace Node

theorem startsWithMinus_map {k : Kind Node} (o o' : Origin)
    (h : ∀ c ∈ k.parts, (f c).startsWithMinus = c.startsWithMinus) :
    startsWithMinus ⟨k.map f, o'⟩ = startsWithMinus ⟨k, o⟩ := by
  cases k with
  | duplicate v | convert t v | coerce t v => exact h v (by simp [Kind.parts, Kind.children])
  | unary op v => cases op <;> rfl
  | _ => rfl

theorem rendersAsThis_map {locals : Locals} {k : Kind Node} (o o' : Origin)
    (htype : ∀ c ∈ k.parts, (f c).returnType = c.returnType)
    (h : ∀ c ∈ k.parts, (f c).rendersAsThis locals = c.rendersAsThis locals) :
    rendersAsThis locals ⟨k.map f, o'⟩ = rendersAsThis locals ⟨k, o⟩ := by
  cases k with
  | duplicate v | coerce t v => exact h v (by simp [Kind.parts, Kind.children])
  | convert t v =>
    simp only [Kind.map, rendersAsThis, showsConversion,
      htype v (by simp [Kind.parts, Kind.children]), h v (by simp [Kind.parts, Kind.children])]
  | _ => rfl

end Node

/-! ### Pieces -/

namespace Piece

@[simp] theorem map_own (f : Node → Node) (texts : List String) :
    (own texts).map f = own texts := rfl

@[simp] theorem map_part (f : Node → Node) (grouped : Bool) (n : Node) :
    (part grouped n).map f = part grouped (f n) := rfl

theorem map_operand {n : Node} (h : (f n).Alike n) (context : Precedence) :
    (operand context n).map f = operand context (f n) := by
  rw [operand, operand, map_part, h.precedence]

theorem map_rightOperand {n : Node} (h : (f n).Alike n) (context : Precedence) :
    (rightOperand context n).map f = rightOperand context (f n) := by
  rw [rightOperand, rightOperand, map_part, h.precedence]

theorem map_moreArguments {ns : List Node} (h : ∀ n ∈ ns, (f n).Alike n) :
    (moreArguments ns).map (map f) = moreArguments (ns.map f) := by
  induction ns with
  | nil => rfl
  | cons n ns ih =>
    have hmore := ih fun m hm => h m (List.mem_cons_of_mem n hm)
    simp only [moreArguments, List.map_cons, map_own, map_operand (h n List.mem_cons_self), hmore]

theorem map_arguments {ns : List Node} (h : ∀ n ∈ ns, (f n).Alike n) :
    (arguments ns).map (map f) = arguments (ns.map f) := by
  cases ns with
  | nil => rfl
  | cons n ns =>
    have hmore := map_moreArguments fun m hm => h m (List.mem_cons_of_mem n hm)
    simp only [arguments, List.map_cons, List.map_append, List.map_nil, map_own,
      map_operand (h n List.mem_cons_self), hmore]

/-- Pieces with other parts have the same characters if the parts have. -/
theorem rowChars_map {locals : Locals} {ps : List Piece}
    (h : ∀ grouped c, part grouped c ∈ ps → (f c).chars locals = c.chars locals) :
    rowChars locals (ps.map (map f)) = rowChars locals ps := by
  rw [rowChars, List.flatMap_map]
  refine List.flatMap_congr fun piece hpiece => ?_
  cases piece with
  | own texts => rfl
  | part grouped c => rw [map_part, chars_part, chars_part, h grouped c hpiece]

end Piece

namespace Property

theorem memberPieces_map (p : Property Node) :
    (p.map f).memberPieces = p.memberPieces.map (Piece.map f) := by
  obtain ⟨name, runtime⟩ := p
  cases runtime with
  | some n => rfl
  | none => by_cases hname : isIdentifier name.name <;> simp [memberPieces, map, hname]

theorem barePieces_map (p : Property Node) :
    (p.map f).barePieces = p.barePieces.map (Piece.map f) := by
  have hbare : (p.map f).hasBareForm = p.hasBareForm := by
    obtain ⟨name, runtime⟩ := p
    cases runtime <;> rfl
  rw [barePieces, barePieces, hbare, memberPieces_map]
  split <;> rfl

variable {locals : Locals} {object : Node}

theorem accessPieces_map (halike : (f object).Alike object)
    (himplied : (f object).isImplied locals .direct = object.isImplied locals .direct)
    (p : Property Node) :
    (p.map f).accessPieces (f object) = (p.accessPieces object).map (Piece.map f) := by
  have hscope : (f object).isScopeReceiver = object.isScopeReceiver := himplied
  rw [accessPieces, accessPieces, hscope, barePieces_map, memberPieces_map,
    ← Piece.map_operand halike]
  split <;> rfl

theorem superPieces_map (halike : (f object).Alike object)
    (himplied : (f object).isImplied locals .super = object.isImplied locals .super)
    (p : Property Node) :
    (p.map f).superPieces locals (f object) = (p.superPieces locals object).map (Piece.map f) := by
  have himplied : ((f object).rendersAsThis locals || (f object).isScopeReceiver) =
      (object.rendersAsThis locals || object.isScopeReceiver) := himplied
  rw [superPieces, superPieces, himplied, memberPieces_map, ← Piece.map_operand halike]
  split <;> rfl

end Property

theorem assignedPieces_map {v : Node} {c : Option (Compound Node)} (hv : (f v).Alike v)
    (hc : ∀ d ∈ c, (f d.value).Alike d.value) :
    assignedPieces (f v) (c.map (·.map f)) = (assignedPieces v c).map (Piece.map f) := by
  cases c with
  | none => simp only [assignedPieces, Option.map_none, List.map_cons, List.map_nil,
      Piece.map_own, Piece.map_operand hv]
  | some d =>
    simp only [assignedPieces, Option.map_some, Compound.map, List.map_cons, List.map_nil,
      Piece.map_own, Piece.map_operand (hc d rfl)]

/-! ### Kinds -/

/-- A kind with other parts that are alike is written like the kind, with the other parts in the
places of the old ones, as long as the same objects are implied. -/
theorem Kind.pieces_map {locals : Locals} {k : Kind Node} (halike : ∀ c ∈ k.parts, (f c).Alike c)
    (himplied : ∀ lookup object p, k.access? = some (lookup, object, p) →
      (f object).isImplied locals lookup = object.isImplied locals lookup) :
    (k.map f).pieces locals = (k.pieces locals).map (Piece.map f) := by
  have access (object : Node) (p : Property Node) (h : k.access? = some (.direct, object, p)) :
      (p.map f).accessPieces (f object) = (p.accessPieces object).map (Piece.map f) :=
    Property.accessPieces_map (halike object (mem_parts_of_access? h)) (himplied _ _ _ h) p
  have super (object : Node) (p : Property Node) (h : k.access? = some (.super, object, p)) :
      (p.map f).superPieces locals (f object) =
        (p.superPieces locals object).map (Piece.map f) :=
    Property.superPieces_map (halike object (mem_parts_of_access? h)) (himplied _ _ _ h) p
  have arguments (as : List Node) (has : ∀ a ∈ as, a ∈ k.parts) :
      (Piece.arguments as).map (Piece.map f) = Piece.arguments (as.map f) :=
    Piece.map_arguments fun a ha => halike a (has a ha)
  cases k with
  | scope p => exact p.barePieces_map
  | get object p t => exact access object p rfl
  | getSuper object p => exact super object p rfl
  | call lookup object p as =>
    have hargs := arguments as fun a ha => by simp [parts, children, ha]
    cases lookup with
    | direct => simp only [map, pieces, access object p rfl, List.map_append, hargs]
    | super => simp only [map, pieces, super object p rfl, List.map_append, hargs]
  | construct object as =>
    have hargs := arguments as fun a ha => by simp [parts, children, ha]
    simp only [map, pieces, List.map_cons, Piece.map_own, hargs]
  | assign target v c d =>
    have htarget : (target.map f).pieces locals = (target.pieces locals).map (Piece.map f) := by
      rcases target with i | ⟨_ | _, object, p⟩
      · rfl
      · exact access object p rfl
      · exact super object p rfl
    have hcompound : ∀ e ∈ c, (f e.value).Alike e.value := by
      rintro e rfl
      exact halike e.value (by simp [parts, compound?])
    have hassigned := assignedPieces_map (halike v (by simp [parts, children])) hcompound
    simp only [map, pieces, htarget, hassigned, List.map_append]
  | convert t v =>
    have hshown : (f v).showsConversion t = v.showsConversion t := by
      rw [Node.showsConversion, Node.showsConversion,
        (halike v (by simp [parts, children])).returnType]
    simp only [map, pieces, hshown]
    split <;> rfl
  | unary op v =>
    have hv := halike v (by simp [parts, children])
    simp only [map, pieces, hv.startsWithMinus]
    split <;> simp [Piece.map_operand hv]
  | binary op l r =>
    simp [map, pieces, Piece.map_operand (halike l (by simp [parts, children])),
      Piece.map_rightOperand (halike r (by simp [parts, children]))]
  | ternary c a b =>
    simp [map, pieces, Piece.map_operand (halike c (by simp [parts, children])),
      Piece.map_operand (halike a (by simp [parts, children])),
      Piece.map_operand (halike b (by simp [parts, children]))]
  | declare i t v =>
    cases v with
    | none => rfl
    | some v => simp [map, pieces, Piece.map_operand (halike v (by simp [parts, children]))]
  | _ => simp [map, pieces]

/-- The text of a node is the same with other parts of the same texts. -/
theorem Node.chars_map {locals : Locals} {k : Kind Node} (o o' : Origin)
    (halike : ∀ c ∈ k.parts, (f c).Alike c)
    (himplied : ∀ lookup object p, k.access? = some (lookup, object, p) →
      (f object).isImplied locals lookup = object.isImplied locals lookup)
    (h : ∀ c ∈ k.parts, (f c).chars locals = c.chars locals) :
    chars locals ⟨k.map f, o'⟩ = chars locals ⟨k, o⟩ := by
  rw [chars_pieces, chars_pieces, Kind.pieces_map halike himplied]
  exact Piece.rowChars_map fun _ c hc => h c (Kind.mem_parts_of_mem_pieces locals hc)

end ActionTree
