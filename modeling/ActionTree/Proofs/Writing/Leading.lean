import ActionTree.Node.Build
import ActionTree.Node.Induction
import ActionTree.Proofs.Reading.Characters
import ActionTree.Proofs.Tree.Reach

/-!
# An operand in front of a text

An operator and an operand of its own can be written in front of an expression.  An expression that
binds tighter than the operator becomes its right operand; in any other the new operand goes down
along the first operands, to where something binds tighter or stands in parentheses.

* `Node.LedBy` - the expression that is written so;
* `Node.LedBy.chars_eq` - its text;
* `Node.LedBy.hasSideEffect_eq` - its effects are those of what it is made of;
* `Node.exists_ledBy` - there is one for every expression without effects and written casts.
-/

namespace ActionTree.Node

/-- `LedBy op left v e` says that `e` is written like `v` with `left` and `op` in front. -/
inductive LedBy (op : BinaryOperator) (left : Node) : Node → Node → Prop
  | tight {v : Node} (h : v.precedence < op.precedence) : LedBy op left v (binary op left v)
  | duplicate {v e : Node} (h : LedBy op left v e) (o : Origin) :
      LedBy op left ⟨.duplicate v, o⟩ e
  | coerce {v e : Node} (h : LedBy op left v e) (t : StaticType) (o : Origin) :
      LedBy op left ⟨.coerce t v, o⟩ e
  | convert {v e : Node} (h : LedBy op left v e) {t : StaticType}
      (hshown : v.showsConversion t = false) (o : Origin) : LedBy op left ⟨.convert t v, o⟩ e
  | group {op' : BinaryOperator} {l : Node} (hop : op.precedence ≤ op'.precedence)
      (hl : op'.precedence < l.precedence) (r : Node) (o : Origin) :
      LedBy op left ⟨.binary op' l r, o⟩ (binary op' (binary op left l) r)
  | binary {op' : BinaryOperator} {l e : Node} (hop : op.precedence ≤ op'.precedence)
      (hl : l.precedence ≤ op'.precedence) (h : LedBy op left l e) (r : Node) (o : Origin) :
      LedBy op left ⟨.binary op' l r, o⟩ (binary op' e r)
  | groupCondition {c : Node} (hc : .logicalOr < c.precedence) (a b : Node) (o : Origin) :
      LedBy op left ⟨.ternary c a b, o⟩ (ternary (binary op left c) a b)
  | condition {c e : Node} (hc : c.precedence ≤ .logicalOr) (h : LedBy op left c e) (a b : Node)
      (o : Origin) : LedBy op left ⟨.ternary c a b, o⟩ (ternary e a b)

namespace LedBy

variable {op : BinaryOperator} {left v e : Node}

/-- What is written so binds no looser than the operator and the expression. -/
theorem precedence_le (h : LedBy op left v e) {context : Precedence} (hop : op.precedence ≤ context)
    (hv : v.precedence ≤ context) : e.precedence ≤ context := by
  induction h with
  | tight => exact hop
  | duplicate _ o ih | coerce _ t o ih | convert _ _ o ih => exact ih hv
  | group | binary | groupCondition | condition => exact hv

/-! ### Texts -/

variable (locals : Locals)

theorem operandChars_of_le {context : Precedence} {n : Node} (h : n.precedence ≤ context) :
    n.operandChars locals context = n.chars locals := if_neg (Nat.not_lt_of_le h)

theorem operandChars_of_lt {context : Precedence} {n : Node} (h : context < n.precedence) :
    n.operandChars locals context = Node.group (n.chars locals) := if_pos h

/-- An operator and its left operand in front of a text. -/
def lead (op : BinaryOperator) (left : Node) (cs : List Char) : List Char :=
  left.chars locals ++ (' ' :: op.symbol.toList ++ [' ']) ++ cs

theorem lead_append (op : BinaryOperator) (left : Node) (cs ds : List Char) :
    lead locals op left cs ++ ds = lead locals op left (cs ++ ds) := List.append_assoc ..

theorem chars_binary_left (hleft : left.precedence ≤ op.precedence) (v : Node) :
    (Node.binary op left v).chars locals =
      lead locals op left (v.operandChars locals (op.precedence - 1)) := by
  rw [Node.binary, synthetic, chars_binary, operandChars_of_le locals hleft]
  rfl

/-- What stands in parentheses behind a looser operator does so behind a tighter one. -/
theorem operandChars_binary_left (hleft : left.precedence ≤ op.precedence) {context : Precedence}
    (hop : op.precedence ≤ context) (hv : context < v.precedence) :
    (Node.binary op left v).operandChars locals context =
      lead locals op left (v.operandChars locals context) := by
  have htight : op.precedence - 1 < v.precedence := by
    have hlt : op.precedence < v.precedence := Nat.lt_of_le_of_lt hop hv
    grind
  rw [operandChars_of_le locals (n := Node.binary op left v) hop, chars_binary_left locals hleft,
    operandChars_of_lt locals htight, operandChars_of_lt locals hv]

/-- The operator and the operand stand in front. -/
theorem chars_eq (h : LedBy op left v e) (hleft : left.precedence ≤ op.precedence) :
    e.chars locals = lead locals op left (v.chars locals) := by
  have hor : op.precedence ≤ .logicalOr := by cases op <;> decide
  induction h with
  | @tight v hv =>
    have hle : v.precedence ≤ op.precedence - 1 := by grind
    rw [chars_binary_left locals hleft, operandChars_of_le locals hle]
  | duplicate h o ih | coerce h t o ih =>
    rw [ih, chars_mk]
    rfl
  | convert h hshown o ih =>
    rw [ih, chars_mk, Kind.map, Kind.steps, drawn, if_neg (Bool.eq_false_iff.1 hshown)]
    rfl
  | group hop hl r o =>
    rw [Node.binary, synthetic, chars_binary, chars_binary,
      operandChars_binary_left locals hleft hop hl, lead_append, lead_append]
  | binary hop hl h r o ih =>
    rw [Node.binary, synthetic, chars_binary, chars_binary, operandChars_of_le locals hl,
      operandChars_of_le locals (h.precedence_le hop hl), ih, lead_append, lead_append]
  | groupCondition hc a b o =>
    rw [Node.ternary, synthetic, chars_ternary, chars_ternary,
      operandChars_binary_left locals hleft hor hc, lead_append, lead_append, lead_append,
      lead_append]
  | condition hc h a b o ih =>
    rw [Node.ternary, synthetic, chars_ternary, chars_ternary, operandChars_of_le locals hc,
      operandChars_of_le locals (h.precedence_le hor hc), ih, lead_append, lead_append, lead_append,
      lead_append]

/-- It has the effects of what it is made of. -/
theorem hasSideEffect_eq (h : LedBy op left v e) :
    e.hasSideEffect = (left.hasSideEffect || v.hasSideEffect) := by
  induction h with
  | tight | group | groupCondition =>
    simp [Node.binary, Node.ternary, synthetic, hasSideEffect_mk, Kind.isEffect, Kind.children,
      Bool.or_assoc]
  | duplicate h o ih | coerce h t o ih | convert h hshown o ih =>
    rw [ih]
    simp [hasSideEffect_mk, Kind.isEffect, Kind.children]
  | binary hop hl h r o ih | condition hc h r b o ih =>
    simp [Node.binary, Node.ternary, synthetic, hasSideEffect_mk, Kind.isEffect, Kind.children, ih,
      Bool.or_assoc]

end LedBy

/-- An expression without effects binds tight enough for an argument. -/
theorem precedence_le_assignment {v : Node} (hnone : v.hasSideEffect = false) :
    v.precedence ≤ .assignment := by
  induction v using induct with
  | step k o ih =>
    have hpart {c : Node} (hc : c ∈ k.children) : c.precedence ≤ .assignment := by
      rw [hasSideEffect_mk, Bool.or_eq_false_iff] at hnone
      have hcnone := Bool.eq_false_iff.2 (List.any_eq_false.1 hnone.2 c hc)
      exact ih c (List.mem_append_left _ hc) hcnone
    cases k with
    | literal l =>
      show l.precedence ≤ .assignment
      rw [Literal.precedence]
      split_ifs <;> decide
    | duplicate v | convert t v | coerce t v => exact hpart (c := v) List.mem_cons_self
    | binary op l r =>
      show op.precedence ≤ .assignment
      cases op <;> decide
    | unary => exact show Precedence.unary ≤ .assignment by decide
    | ternary => exact show Precedence.conditional ≤ .assignment by decide
    | assign | declare | returnValue | returnVoid | throw =>
      rw [hasSideEffect_mk] at hnone
      cases hnone
    | _ => exact Nat.zero_le _

/-- Any expression without effects can have an operator and an operand in front, if no cast in it is
written. -/
theorem exists_ledBy (op : BinaryOperator) (left : Node) {v : Node}
    (hnone : v.hasSideEffect = false)
    (hshown : ∀ m, v.Reaches m → ∀ t u, m.kind = .convert t u → u.showsConversion t = false) :
    ∃ e, LedBy op left v e := by
  induction v using induct with
  | step k o ih =>
    by_cases htight : precedence ⟨k, o⟩ < op.precedence
    · exact ⟨_, .tight htight⟩
    have hpart {c : Node} (hc : c ∈ k.children) : ∃ e, LedBy op left c e := by
      have hcnone : c.hasSideEffect = false := by
        rw [hasSideEffect_mk, Bool.or_eq_false_iff] at hnone
        exact Bool.eq_false_iff.2 (List.any_eq_false.1 hnone.2 c hc)
      exact ih c (List.mem_append_left _ hc) hcnone fun m hm =>
        hshown m (reaches_mk.2 (.inr ⟨c, hc, hm⟩))
    have hloose : op.precedence ≤ precedence ⟨k, o⟩ := Nat.le_of_not_lt htight
    have hunary : Precedence.unary < op.precedence := by cases op <;> decide
    cases k with
    | duplicate v =>
      obtain ⟨e, he⟩ := hpart List.mem_cons_self
      exact ⟨e, he.duplicate o⟩
    | coerce t v =>
      obtain ⟨e, he⟩ := hpart List.mem_cons_self
      exact ⟨e, he.coerce t o⟩
    | convert t v =>
      obtain ⟨e, he⟩ := hpart List.mem_cons_self
      exact ⟨e, he.convert (hshown _ (reaches_mk.2 (.inl rfl)) t v rfl) o⟩
    | binary op' l r =>
      by_cases hl : op'.precedence < l.precedence
      · exact ⟨_, .group hloose hl r o⟩
      · obtain ⟨e, he⟩ := hpart List.mem_cons_self
        exact ⟨_, .binary hloose (Nat.le_of_not_lt hl) he r o⟩
    | ternary c a b =>
      by_cases hc : .logicalOr < c.precedence
      · exact ⟨_, .groupCondition hc a b o⟩
      · obtain ⟨e, he⟩ := hpart List.mem_cons_self
        exact ⟨_, .condition (Nat.le_of_not_lt hc) he a b o⟩
    | literal l =>
      have hl : l.precedence ≤ .unary := by
        rw [Literal.precedence]
        split_ifs <;> decide
      exact absurd (Nat.lt_of_le_of_lt hl hunary) htight
    | unary => exact absurd hunary htight
    | assign | declare | call | construct | returnValue | returnVoid | throw =>
      rw [hasSideEffect_mk] at hnone
      cases hnone
    | this | register | scope | get | getSuper =>
      exact absurd (Nat.lt_of_le_of_lt (Nat.zero_le _) hunary) htight

end ActionTree.Node
