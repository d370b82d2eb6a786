import ActionTree.Node.Build
import ActionTree.Node.Constant
import ActionTree.Node.Induction
import ActionTree.Proofs.Typing.Value

/-!
# The inferred type against the computed value

The value of a tree has the inferred type, with one exception: a sum is typed as a string as soon as
one operand is, but an operand of that type may be `null`, and the sum is then a number when the
other operand is no string.

* `Node.addsNumbers` - the value of a tree comes from a sum without a string;
* `Node.typed` - every known value has the inferred type, or is a number where that is `String`;
* `Node.hasType_result_iff` - the exact condition under which it has the type.
-/

namespace ActionTree

/-- A choice whose value is known has a known condition. -/
theorem Value.choose_of_isKnown {c a b : Value} (h : (Value.choose c a b).isKnown = true) :
    Value.choose c a b = if c.toBoolean then a else b := by
  cases hc : c.isKnown with
  | false =>
    simp only [choose, hc, Bool.not_false, if_true] at h
    cases h
  | true => simp only [choose, hc, Bool.not_true, Bool.false_eq_true, if_false]

namespace Node

/-- Whether the value of a tree is that of a sum whose operands are both no strings.  Copies and
choices hand on the value of one part. -/
def addsNumbers : Node → Bool
  | ⟨.duplicate v, _⟩ => v.addsNumbers
  | ⟨.binary .add l r, _⟩ => !(l.result.isText || r.result.isText)
  | ⟨.binary .logicalAnd l r, _⟩ => if l.result.toBoolean then r.addsNumbers else l.addsNumbers
  | ⟨.binary .logicalOr l r, _⟩ => if l.result.toBoolean then l.addsNumbers else r.addsNumbers
  | ⟨.ternary c a b, _⟩ => if c.result.toBoolean then a.addsNumbers else b.addsNumbers
  | _ => false

/-- What the inferred type says of a known value: a value of the type, or a number where a sum typed
as a string adds numbers. -/
def Typed (n : Node) : Prop :=
  n.result.isKnown = true →
    if n.returnType = .string ∧ n.addsNumbers = true then ∃ x, n.result = .number x
    else n.result.HasType n.returnType

/-! ### One lemma for each way to a value -/

/-- A node that hands on the value of a part of the same type is typed when that part is. -/
theorem Typed.of_part {n part : Node} (h : part.Typed)
    (hresult : n.result.isKnown = true → n.result = part.result)
    (htype : n.returnType = part.returnType) (hadds : n.addsNumbers = part.addsNumbers) :
    n.Typed := by
  intro hknown
  have hpart := hresult hknown
  rw [hpart, htype, hadds]
  exact h (by rw [← hpart]; exact hknown)

/-- A node that is no sum is typed when its value has its type. -/
theorem Typed.of_hasType {n : Node} (hadds : n.addsNumbers = false)
    (h : n.result.isKnown = true → n.result.HasType n.returnType) : n.Typed := by
  intro hknown
  rw [if_neg (by simp [hadds])]
  exact h hknown

/-- A node of a type without promise is typed. -/
theorem Typed.of_any {n : Node} (htype : n.returnType = .any) : n.Typed := by
  intro _
  rw [htype, if_neg (by simp)]
  trivial

/-- The type of a sum. -/
theorem binaryType_add (s t : StaticType) :
    binaryType .add s t = .string ∨
      (binaryType .add s t = .number ∧ s.isNumeric = true ∧ t.isNumeric = true) ∨
      binaryType .add s t = .any := by
  unfold binaryType
  grind

theorem typed_literal (l : Literal) (o : Origin) : Typed ⟨.literal l, o⟩ := by
  refine .of_hasType rfl fun _ => ?_
  cases l with
  | int i => exact Value.hasType_ofInt32 i
  | uint i => exact Value.hasType_ofUInt32 i
  | number x => exact ⟨x, rfl⟩
  | string s => exact Or.inl ⟨s, rfl⟩
  | boolean b => exact ⟨b, rfl⟩
  | null | undefined => trivial

/-- A tree of a number type has no string as its value. -/
theorem Typed.not_isText {n : Node} (h : n.Typed) (hnumeric : n.returnType.isNumeric = true)
    (hknown : n.result.isKnown = true) : n.result.isText = false := by
  have htyped := h hknown
  rw [if_neg (by rintro ⟨hstring, -⟩; rw [hstring] at hnumeric; cases hnumeric)] at htyped
  obtain ⟨x, hx⟩ := htyped.toNumber hnumeric
  rw [hx]
  rfl

theorem typed_add {l r : Node} (o : Origin) (hl : l.Typed) (hr : r.Typed) :
    Typed ⟨.binary .add l r, o⟩ := by
  intro hknown
  have hsum := BinaryOperator.apply_add hknown
  obtain ⟨hleft, hright⟩ := BinaryOperator.isKnown_of_apply hknown
  cases htext : l.result.isText || r.result.isText with
  | false =>
    obtain ⟨x, hx⟩ : ∃ x, BinaryOperator.add.apply l.result r.result = .number x := by
      simpa only [htext, Bool.false_eq_true, if_false] using hsum
    split
    · exact ⟨x, hx⟩
    · rename_i hstring
      rcases binaryType_add l.returnType r.returnType with htype | ⟨htype, -⟩ | htype
      · exact absurd ⟨htype, by simp [addsNumbers, htext]⟩ hstring
      · rw [returnType, htype]
        exact ⟨x, hx⟩
      · rw [returnType, htype]
        trivial
  | true =>
    obtain ⟨s, hs⟩ : ∃ s, BinaryOperator.add.apply l.result r.result = .string s := by
      simpa only [htext, if_true] using hsum
    rw [if_neg (by simp [addsNumbers, htext])]
    rcases binaryType_add l.returnType r.returnType with htype | ⟨-, hnumeric⟩ | htype
    · rw [returnType, htype]
      exact Or.inl ⟨s, hs⟩
    · -- Numbers on both sides cannot give a string.
      rw [hl.not_isText hnumeric.1 hleft, hr.not_isText hnumeric.2 hright] at htext
      cases htext
    · rw [returnType, htype]
      trivial

/-- A logical operation gives an operand of its own type, if it has one. -/
theorem typed_logical {op : BinaryOperator} {l r : Node} (o : Origin)
    (hop : op = .logicalAnd ∨ op = .logicalOr) (hl : l.Typed) (hr : r.Typed) :
    Typed ⟨.binary op l r, o⟩ := by
  by_cases htype : l.returnType = r.returnType
  case neg =>
    refine .of_any ?_
    rcases hop with rfl | rfl <;> exact if_neg htype
  have hleft : returnType ⟨.binary op l r, o⟩ = l.returnType := by
    rcases hop with rfl | rfl <;> exact if_pos htype
  have hright := hleft.trans htype
  cases hc : l.result.toBoolean with
  | false =>
    rcases hop with rfl | rfl
    · refine hl.of_part (fun hknown => ?_) hleft (by simp [addsNumbers, hc])
      exact (BinaryOperator.apply_logicalAnd hknown).trans (by simp [hc])
    · refine hr.of_part (fun hknown => ?_) hright (by simp [addsNumbers, hc])
      exact (BinaryOperator.apply_logicalOr hknown).trans (by simp [hc])
  | true =>
    rcases hop with rfl | rfl
    · refine hr.of_part (fun hknown => ?_) hright (by simp [addsNumbers, hc])
      exact (BinaryOperator.apply_logicalAnd hknown).trans (by simp [hc])
    · refine hl.of_part (fun hknown => ?_) hleft (by simp [addsNumbers, hc])
      exact (BinaryOperator.apply_logicalOr hknown).trans (by simp [hc])

/-- A choice between branches of one type is typed like the branch that it takes. -/
theorem typed_ternary {c a b : Node} (o : Origin) (ha : a.Typed) (hb : b.Typed) :
    Typed ⟨.ternary c a b, o⟩ := by
  by_cases htype : a.returnType = b.returnType
  case neg => exact .of_any (if_neg htype)
  have hfirst : returnType ⟨.ternary c a b, o⟩ = a.returnType := if_pos htype
  cases hcond : c.result.toBoolean with
  | true =>
    refine ha.of_part (fun hknown => ?_) hfirst (by simp [addsNumbers, hcond])
    exact (Value.choose_of_isKnown hknown).trans (by rw [hcond, if_pos rfl])
  | false =>
    refine hb.of_part (fun hknown => ?_) (hfirst.trans htype) (by simp [addsNumbers, hcond])
    exact (Value.choose_of_isKnown hknown).trans (by rw [hcond]; rfl)

/-! ### All trees -/

theorem typed (n : Node) : n.Typed := by
  induction n using induct with
  | step k o ih =>
    cases k with
    | literal l => exact typed_literal l o
    | duplicate v =>
      exact .of_part (ih v (by simp [Kind.parts, Kind.children])) (fun _ => rfl) rfl rfl
    | convert t v => exact .of_hasType rfl Value.hasType_convert
    | coerce t v => exact .of_hasType rfl Value.hasType_coerce
    | unary op v => exact .of_hasType rfl op.hasType_apply
    | binary op l r =>
      have hl := ih l (by simp [Kind.parts, Kind.children])
      have hr := ih r (by simp [Kind.parts, Kind.children])
      cases op with
      | add => exact typed_add o hl hr
      | logicalAnd => exact typed_logical o (Or.inl rfl) hl hr
      | logicalOr => exact typed_logical o (Or.inr rfl) hl hr
      | _ => exact .of_hasType rfl fun h => BinaryOperator.hasType_apply rfl h _ _
    | ternary c a b =>
      exact typed_ternary o (ih a (by simp [Kind.parts, Kind.children]))
        (ih b (by simp [Kind.parts, Kind.children]))
    | _ => exact fun hknown => nomatch hknown

/-- The value of a tree has the inferred type, except that a tree typed as a string has a number as
its value when it adds numbers. -/
theorem hasType_result_iff (n : Node) (hknown : n.result.isKnown = true) :
    n.result.HasType n.returnType ↔ ¬(n.returnType = .string ∧ n.addsNumbers = true) := by
  have htyped := n.typed hknown
  constructor
  · rintro hvalue ⟨htype, hadds⟩
    rw [if_pos ⟨htype, hadds⟩] at htyped
    obtain ⟨x, hx⟩ := htyped
    rw [hx, htype] at hvalue
    rcases hvalue with ⟨s, hs⟩ | hnull
    · cases hs
    · cases hnull
  · intro hsum
    rwa [if_neg hsum] at htyped

/-- The sum of a `null` string and a number is typed as a string, and its value is a number. -/
def nullStringSum : Node :=
  binary .add (coerce (literal .null) .string) (literal (.int 1))

theorem hasType_result_iff_nullString :
    nullStringSum.result.isKnown = true ∧
      ¬ nullStringSum.result.HasType nullStringSum.returnType := by
  have hknown : nullStringSum.result.isKnown = true := rfl
  exact ⟨hknown, fun h => (hasType_result_iff _ hknown).1 h ⟨rfl, rfl⟩⟩

/-- Not every known value has the inferred type. -/
theorem exists_not_hasType_result :
    ¬ ∀ n : Node, n.result.isKnown = true → n.result.HasType n.returnType := by
  intro h
  rcases h nullStringSum rfl with ⟨s, hs⟩ | hnull
  · cases hs
  · cases hnull

end Node

end ActionTree
