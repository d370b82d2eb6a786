import ActionTree.Node.Constant
import ActionTree.Proofs.Tree.Reach

/-!
# The check against the evaluator

Two recursions say whether the value of a tree is known: the check, which stops at the first operand
that is not, and the evaluator, which gives `unknown`.  They part at one place only, a conversion to
`*` or to a class: the check looks at the operand, and the evaluator gives up.

* `Value.isKnown_convert`, `BinaryOperator.isKnown_apply` and their siblings - when the value of an
  operation is known;
* `Node.isConstant_of_isKnown` - a known value passes the check;
* `Node.isKnown_result` - without such conversions what passes the check has a known value.
-/

namespace ActionTree

/-- Types that a known value can be brought to ahead: all but `*` and the classes. -/
def StaticType.isPrimitive : StaticType → Bool
  | .any | .class _ => false
  | _ => true

/-- Tells explicit conversions out of the primitive types. -/
def Kind.leavesPrimitives {α : Type} : Kind α → Bool
  | .convert t _ => !t.isPrimitive
  | _ => false

/-! ### Operations on values -/

namespace Value

theorem isKnown_eq_false_iff (v : Value) : v.isKnown = false ↔ v = .unknown := by
  cases v <;> simp [isKnown]

/-- A value behind a guard is known when the guard holds and the value is. -/
theorem isKnown_guard (guard : Bool) (v : Value) :
    (if guard then v else .unknown).isKnown = (guard && v.isKnown) := by
  cases guard <;> rfl

theorem isKnown_convert (v : Value) (t : StaticType) :
    (v.convert t).isKnown = (v.isKnown && t.isPrimitive) := by
  unfold convert
  rw [isKnown_guard]
  cases hv : v.isKnown with
  | false => rfl
  | true =>
    cases t with
    | object => exact hv
    | _ => rfl

theorem isKnown_coerce (v : Value) (t : StaticType) : (v.coerce t).isKnown = v.isKnown := by
  unfold coerce
  rw [isKnown_guard]
  cases hv : v.isKnown with
  | false => rfl
  | true =>
    cases t with
    | string => cases v <;> rfl
    | object | any | «class» q => exact hv
    | _ => rfl

theorem isKnown_choose (c a b : Value) :
    (choose c a b).isKnown = (c.isKnown && if c.toBoolean then a.isKnown else b.isKnown) := by
  unfold choose
  cases c.isKnown with
  | false => rfl
  | true => cases c.toBoolean <;> rfl

end Value

theorem UnaryOperator.isKnown_apply (op : UnaryOperator) (v : Value) :
    (op.apply v).isKnown = v.isKnown := by
  unfold apply
  rw [Value.isKnown_guard]
  cases v.isKnown with
  | false => rfl
  | true => cases op <;> rfl

theorem BinaryOperator.isKnown_apply (op : BinaryOperator) (a b : Value) :
    (op.apply a b).isKnown = (!op.isTypeOperator && (a.isKnown && b.isKnown)) := by
  unfold apply
  rw [Value.isKnown_guard]
  cases hknown : a.isKnown && b.isKnown with
  | false => rw [Bool.false_and, Bool.and_false]
  | true =>
    obtain ⟨ha, hb⟩ := Bool.and_eq_true_iff.1 hknown
    cases op with
    | add => cases a <;> cases b <;> rfl
    | logicalAnd =>
      show (if a.toBoolean then b else a).isKnown = true
      split
      · exact hb
      · exact ha
    | logicalOr =>
      show (if a.toBoolean then a else b).isKnown = true
      split
      · exact ha
      · exact hb
    | _ => rfl

/-! ### Trees -/

namespace Node

/-- A tree of known value passes the check. -/
theorem isConstant_of_isKnown {n : Node} : n.result.isKnown = true → n.isConstant = true := by
  induction n using induct with
  | step k o ih =>
    intro hknown
    cases k with
    | literal l => rfl
    | duplicate v => exact ih v (by simp [Kind.parts, Kind.children]) hknown
    | convert t v =>
      rw [result, Value.isKnown_convert, Bool.and_eq_true] at hknown
      exact ih v (by simp [Kind.parts, Kind.children]) hknown.1
    | coerce t v =>
      rw [result, Value.isKnown_coerce] at hknown
      exact ih v (by simp [Kind.parts, Kind.children]) hknown
    | unary op v =>
      rw [result, op.isKnown_apply] at hknown
      exact ih v (by simp [Kind.parts, Kind.children]) hknown
    | binary op l r =>
      rw [result, op.isKnown_apply, Bool.and_eq_true, Bool.and_eq_true] at hknown
      obtain ⟨hop, hl, hr⟩ := hknown
      rw [isConstant, hop, ih l (by simp [Kind.parts, Kind.children]) hl,
        ih r (by simp [Kind.parts, Kind.children]) hr]
      rfl
    | ternary c a b =>
      rw [result, Value.isKnown_choose, Bool.and_eq_true] at hknown
      obtain ⟨hc, htaken⟩ := hknown
      rw [isConstant, hc, ih c (by simp [Kind.parts, Kind.children]) hc]
      cases htrue : c.result.toBoolean with
      | true =>
        rw [htrue, if_pos rfl] at htaken
        simpa using ih a (by simp [Kind.parts, Kind.children]) htaken
      | false =>
        rw [htrue, if_neg (by simp)] at htaken
        simpa using ih b (by simp [Kind.parts, Kind.children]) htaken
    | _ => cases hknown

/-- Where no conversion leaves the primitive types, the check decides whether the value is known. -/
theorem isKnown_result (n : Node) (hprimitive : ∀ m, n.Reaches m → m.kind.leavesPrimitives = false) :
    n.result.isKnown = n.isConstant := by
  induction n using induct with
  | step k o ih =>
    have child (c : Node) (hc : c ∈ k.children) : c.result.isKnown = c.isConstant :=
      ih c (List.mem_append_left _ hc) fun m hm =>
        hprimitive m (reaches_mk.2 (Or.inr ⟨c, hc, hm⟩))
    cases k with
    | literal l => cases l <;> rfl
    | duplicate v => exact child v (by simp [Kind.children])
    | convert t v =>
      have ht : t.isPrimitive = true := by
        simpa [Kind.leavesPrimitives] using hprimitive _ (reaches_mk.2 (Or.inl rfl))
      rw [result, Value.isKnown_convert, ht, Bool.and_true, isConstant,
        child v (by simp [Kind.children])]
    | coerce t v => rw [result, Value.isKnown_coerce, isConstant, child v (by simp [Kind.children])]
    | unary op v => rw [result, op.isKnown_apply, isConstant, child v (by simp [Kind.children])]
    | binary op l r =>
      rw [result, op.isKnown_apply, isConstant, child l (by simp [Kind.children]),
        child r (by simp [Kind.children]), Bool.and_assoc]
    | ternary c a b =>
      rw [result, Value.isKnown_choose, isConstant, child a (by simp [Kind.children]),
        child b (by simp [Kind.children]), child c (by simp [Kind.children]), Bool.and_self]
    | _ => rfl

end Node

end ActionTree
