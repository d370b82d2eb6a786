import ActionTree.Proofs.Text.Units
import ActionTree.Proofs.Typing.Value

/-!
# Comparisons of known values

Strings are ordered by their units, and all other pairs of values by their numbers, among which NaN
has no place.

* `Double.exactlyOne_lt?`, `Double.lt?_eq_none_iff` - numbers in order;
* `Value.looseEquals_comm`, `Value.looseEquals_of_strictEquals` - the two equalities;
* `Value.exactlyOne_lessThan?_string`, `Value.exactlyOne_holds` - values in order;
* `Value.Holds` - a comparison comes out true, and `Value.holds_consistent` - how the eight
  comparisons belong together.
-/

namespace ActionTree

/-- Just one of three statements is true. -/
def ExactlyOne (p q r : Prop) : Prop := (p ∧ ¬q ∧ ¬r) ∨ (¬p ∧ q ∧ ¬r) ∨ (¬p ∧ ¬q ∧ r)

theorem ExactlyOne.congr {p q r p' q' r' : Prop} (h : ExactlyOne p q r) (hp : p' ↔ p)
    (hq : q' ↔ q) (hr : r' ↔ r) : ExactlyOne p' q' r' := by
  rwa [ExactlyOne, hp, hq, hr]

/-! ### Numbers -/

namespace Double

theorem place?_eq_none_iff (x : Double) : x.place? = none ↔ x.isNaN = true := by
  cases x <;> simp [place?, isNaN]

theorem exists_place? {x : Double} (h : x.isNaN = false) : ∃ i, x.place? = some i := by
  rw [← Option.isSome_iff_exists, ← Option.ne_none_iff_isSome, ne_eq, place?_eq_none_iff, h]
  exact Bool.false_ne_true

theorem equals_comm (x y : Double) : x.equals y = y.equals x := by
  unfold equals
  cases x.place? with
  | none => cases y.place? <;> rfl
  | some i =>
    cases y.place? with
    | none => rfl
    | some j => exact Bool.beq_comm

theorem equals_self {x : Double} (h : x.isNaN = false) : x.equals x = true := by
  obtain ⟨i, hi⟩ := exists_place? h
  simp only [equals, hi, beq_self_eq_true]

/-- The order of two numbers is defined unless one of them is NaN. -/
theorem lt?_eq_none_iff (x y : Double) :
    x.lt? y = none ↔ x.isNaN = true ∨ y.isNaN = true := by
  rw [← place?_eq_none_iff, ← place?_eq_none_iff, lt?]
  cases x.place? <;> cases y.place? <;> simp

/-- Numbers other than NaN are equal or one is below the other. -/
theorem exactlyOne_lt? {x y : Double} (hx : x.isNaN = false) (hy : y.isNaN = false) :
    ExactlyOne (x.lt? y = some true) (y.lt? x = some true) (x.equals y = true) := by
  obtain ⟨i, hi⟩ := exists_place? hx
  obtain ⟨j, hj⟩ := exists_place? hy
  simp only [lt?, equals, hi, hj, Option.some.injEq, decide_eq_true_eq, beq_iff_eq, ExactlyOne]
  omega

end Double

namespace Value

/-! ### Equality -/

theorem looseEquals_comm (a b : Value) : a.looseEquals b = b.looseEquals a := by
  cases a <;> cases b <;> simp only [looseEquals, Double.equals_comm, Bool.beq_comm]

theorem isNaN_toNumber_boolean (b : Bool) : (boolean b).toNumber.isNaN = false := by
  cases b <;> decide +kernel

theorem looseEquals_of_strictEquals {a b : Value} (h : a.strictEquals b = true) :
    a.looseEquals b = true := by
  unfold strictEquals at h
  split at h
  · rfl
  · rfl
  · obtain rfl := beq_iff_eq.1 h
    exact Double.equals_self (isNaN_toNumber_boolean _)
  · exact h
  · exact h
  · cases h

/-! ### Order -/

theorem lessThan?_of_not_text {a b : Value} (h : (a.isText && b.isText) = false) :
    a.lessThan? b = a.toNumber.lt? b.toNumber := by
  unfold lessThan?
  split
  · cases h
  · rfl

/-- Two strings are equal or one comes before the other. -/
theorem exactlyOne_lessThan?_string (s t : String) :
    ExactlyOne ((string s).lessThan? (string t) = some true)
      ((string s).strictEquals (string t) = true)
        ((string t).lessThan? (string s) = some true) := by
  simp only [lessThan?, strictEquals, Option.some.injEq, beq_iff_eq]
  have hirrefl := Text.unitsBefore_irrefl
  have hasymm (hst : Text.unitsBefore s t = true) (hts : Text.unitsBefore t s = true) : False :=
    Bool.noConfusion ((hirrefl s).symm.trans (Text.unitsBefore_trans hst hts))
  rcases Text.unitsBefore_trichotomy s t with h | rfl | h
  · refine .inl ⟨h, ?_, hasymm h⟩
    rintro rfl
    exact hasymm h h
  · simp [ExactlyOne, hirrefl]
  · refine .inr (.inr ⟨fun hst => hasymm hst h, ?_, h⟩)
    rintro rfl
    exact hasymm h h

/-- Two values have an order: both are strings, or none of them has the number NaN. -/
def Ordered (a b : Value) : Prop :=
  (a.isText && b.isText) = true ∨ (a.toNumber.isNaN || b.toNumber.isNaN) = false

theorem isText_comm (a b : Value) : (a.isText && b.isText) = (b.isText && a.isText) :=
  Bool.and_comm _ _

theorem lessThan?_eq_none_iff (a b : Value) : a.lessThan? b = none ↔ ¬Ordered a b := by
  cases htext : a.isText && b.isText with
  | true =>
    obtain ⟨ha, hb⟩ := Bool.and_eq_true_iff.1 htext
    cases a <;> cases ha
    cases b <;> cases hb
    simp [lessThan?, Ordered, htext]
  | false =>
    rw [lessThan?_of_not_text htext, Double.lt?_eq_none_iff, ← Bool.or_eq_true, Ordered, htext]
    cases a.toNumber.isNaN || b.toNumber.isNaN <;> simp

/-- What is asked of two values in order has the same answer the other way round. -/
theorem Ordered.symm {a b : Value} (h : Ordered a b) : Ordered b a := by
  rwa [Ordered, isText_comm, Bool.or_comm]

end Value

/-! ### Comparisons -/

/-- Tells the operators that compare two values. -/
def BinaryOperator.isComparison : BinaryOperator → Bool
  | .equals | .notEquals | .strictEquals | .strictNotEquals => true
  | .lessThan | .lessEquals | .greaterThan | .greaterEquals => true
  | _ => false

namespace Value

/-- A comparison of two values comes out true. -/
def Holds (op : BinaryOperator) (a b : Value) : Prop := op.apply a b = .boolean true

instance (op : BinaryOperator) (a b : Value) : Decidable (Holds op a b) :=
  inferInstanceAs (Decidable (_ = _))

variable {a b : Value}

/-- A comparison of known values comes out true or false. -/
theorem apply_comparison {op : BinaryOperator} (hop : op.isComparison = true)
    (ha : a.isKnown = true) (hb : b.isKnown = true) : ∃ t, op.apply a b = .boolean t := by
  have hknown : (a.isKnown && b.isKnown) = true := by rw [ha, hb]; rfl
  cases op <;> cases hop <;> exact ⟨_, if_pos hknown⟩

theorem holds_iff {op : BinaryOperator} {t : Bool} (ha : a.isKnown = true) (hb : b.isKnown = true)
    (happly : op.apply a b = if a.isKnown && b.isKnown then boolean t else .unknown) :
    Holds op a b ↔ t = true := by
  rw [Holds, happly, ha, hb]
  simp

theorem holds_lessThan (ha : a.isKnown = true) (hb : b.isKnown = true) :
    Holds .lessThan a b ↔ a.lessThan? b = some true := by
  rw [holds_iff ha hb rfl]
  cases a.lessThan? b <;> simp

theorem holds_greaterThan (ha : a.isKnown = true) (hb : b.isKnown = true) :
    Holds .greaterThan a b ↔ b.lessThan? a = some true := by
  rw [holds_iff ha hb rfl]
  cases b.lessThan? a <;> simp

theorem holds_lessEquals (ha : a.isKnown = true) (hb : b.isKnown = true) :
    Holds .lessEquals a b ↔ b.lessThan? a = some false := by
  rw [holds_iff ha hb rfl]
  cases b.lessThan? a <;> simp

theorem holds_greaterEquals (ha : a.isKnown = true) (hb : b.isKnown = true) :
    Holds .greaterEquals a b ↔ a.lessThan? b = some false := by
  rw [holds_iff ha hb rfl]
  cases a.lessThan? b <;> simp

theorem holds_equals (ha : a.isKnown = true) (hb : b.isKnown = true) :
    Holds .equals a b ↔ a.looseEquals b = true :=
  holds_iff ha hb rfl

theorem holds_strictEquals (ha : a.isKnown = true) (hb : b.isKnown = true) :
    Holds .strictEquals a b ↔ a.strictEquals b = true :=
  holds_iff ha hb rfl

theorem holds_notEquals (ha : a.isKnown = true) (hb : b.isKnown = true) :
    Holds .notEquals a b ↔ ¬Holds .equals a b := by
  rw [holds_iff ha hb rfl, holds_equals ha hb]
  simp

theorem holds_strictNotEquals (ha : a.isKnown = true) (hb : b.isKnown = true) :
    Holds .strictNotEquals a b ↔ ¬Holds .strictEquals a b := by
  rw [holds_iff ha hb rfl, holds_strictEquals ha hb]
  simp

/-- Of two strings one is before the other one, or they are the same. -/
theorem exactlyOne_holds_string (s t : String) :
    ExactlyOne (Holds .lessThan (string s) (string t)) (Holds .strictEquals (string s) (string t))
      (Holds .greaterThan (string s) (string t)) :=
  (exactlyOne_lessThan?_string s t).congr (holds_lessThan rfl rfl) (holds_strictEquals rfl rfl)
    (holds_greaterThan rfl rfl)

theorem holds_lessThan_string (s t : String) :
    Holds .lessThan (string s) (string t) ↔ Text.unitsBefore s t = true := by
  rw [holds_lessThan rfl rfl, lessThan?, Option.some.injEq]

/-- Of two values that are not both strings one number is below the other, or they are equal. -/
theorem exactlyOne_holds (ha : a.isKnown = true) (hb : b.isKnown = true)
    (htext : (a.isText && b.isText) = false) (horder : Ordered a b) :
    ExactlyOne (Holds .lessThan a b) (Holds .greaterThan a b)
      (a.toNumber.equals b.toNumber = true) := by
  obtain htext' | hnumber := horder
  · rw [htext] at htext'
    cases htext'
  · obtain ⟨hx, hy⟩ := Bool.or_eq_false_iff.1 hnumber
    refine (Double.exactlyOne_lt? hx hy).congr ?_ ?_ Iff.rfl
    · rw [holds_lessThan ha hb, lessThan?_of_not_text htext]
    · rw [holds_greaterThan ha hb, lessThan?_of_not_text (isText_comm b a ▸ htext)]

/-- Values without an order fail all four comparisons. -/
theorem not_holds_of_not_ordered (ha : a.isKnown = true) (hb : b.isKnown = true)
    (horder : ¬Ordered a b) : ¬Holds .lessThan a b ∧ ¬Holds .greaterThan a b ∧
      ¬Holds .lessEquals a b ∧ ¬Holds .greaterEquals a b := by
  have hlt : a.lessThan? b = none := (lessThan?_eq_none_iff a b).2 horder
  have hgt : b.lessThan? a = none := (lessThan?_eq_none_iff b a).2 fun h => horder h.symm
  rw [holds_lessThan ha hb, holds_greaterThan ha hb, holds_lessEquals ha hb,
    holds_greaterEquals ha hb, hlt, hgt]
  simp

theorem holds_of_ordered (ha : a.isKnown = true) (hb : b.isKnown = true) (horder : Ordered a b) :
    (Holds .lessEquals a b ↔ ¬Holds .greaterThan a b) ∧
      (Holds .greaterEquals a b ↔ ¬Holds .lessThan a b) := by
  have hdefined {c d : Value} (h : Ordered c d) : ∃ t, c.lessThan? d = some t :=
    Option.ne_none_iff_exists'.1 fun hnone => (lessThan?_eq_none_iff c d).1 hnone h
  obtain ⟨t, hlt⟩ := hdefined horder
  obtain ⟨t', hgt⟩ := hdefined horder.symm
  rw [holds_lessThan ha hb, holds_greaterThan ha hb, holds_lessEquals ha hb,
    holds_greaterEquals ha hb, hlt, hgt]
  simp

/-- **The comparisons belong together.**  Every comparison of known values comes out true or false.
`==` does not depend on the order of its operands and is true where `===` is, and `!=` and `!==` are
their opposites.  Of two strings just one of `<`, `===` and `>` is true; `<` orders them by the 16
bit units that code them and is transitive.  Of two values that are not both strings either one has
the number NaN and none of `<`, `>`, `<=` and `>=` is true, or just one of `<`, `>` and the equality
of their numbers is.  Where there is an order, `<=` and `>=` are the opposites of `>` and `<`. -/
theorem holds_consistent (ha : a.isKnown = true) (hb : b.isKnown = true) :
    (∀ op : BinaryOperator, op.isComparison = true → ∃ t, op.apply a b = .boolean t) ∧
    (Holds .equals a b ↔ Holds .equals b a) ∧
    (Holds .strictEquals a b → Holds .equals a b) ∧
    (Holds .notEquals a b ↔ ¬Holds .equals a b) ∧
    (Holds .strictNotEquals a b ↔ ¬Holds .strictEquals a b) ∧
    (∀ s t u : String,
      ExactlyOne (Holds .lessThan (string s) (string t))
        (Holds .strictEquals (string s) (string t)) (Holds .greaterThan (string s) (string t)) ∧
      (Holds .lessThan (string s) (string t) ↔
        ∃ us vs, Text.Coded s.toList us ∧ Text.Coded t.toList vs ∧ Text.Precedes us vs) ∧
      (Holds .lessThan (string s) (string t) → Holds .lessThan (string t) (string u) →
        Holds .lessThan (string s) (string u))) ∧
    ((a.isText && b.isText) = false →
      (a.toNumber.isNaN || b.toNumber.isNaN) = true ∧
          ¬Holds .lessThan a b ∧ ¬Holds .greaterThan a b ∧
            ¬Holds .lessEquals a b ∧ ¬Holds .greaterEquals a b ∨
        (a.toNumber.isNaN || b.toNumber.isNaN) = false ∧
          ExactlyOne (Holds .lessThan a b) (Holds .greaterThan a b)
            (a.toNumber.equals b.toNumber = true)) ∧
    (((a.isText && b.isText) = true ∨ (a.toNumber.isNaN || b.toNumber.isNaN) = false) →
      (Holds .lessEquals a b ↔ ¬Holds .greaterThan a b) ∧
        (Holds .greaterEquals a b ↔ ¬Holds .lessThan a b)) := by
  refine ⟨fun op hop => apply_comparison hop ha hb, ?_, ?_, holds_notEquals ha hb,
    holds_strictNotEquals ha hb, fun s t u => ⟨exactlyOne_holds_string s t, ?_, ?_⟩, fun htext => ?_,
    holds_of_ordered ha hb⟩
  · rw [holds_equals ha hb, holds_equals hb ha, looseEquals_comm]
  · rw [holds_equals ha hb, holds_strictEquals ha hb]
    exact looseEquals_of_strictEquals
  · rw [holds_lessThan_string, Text.unitsBefore_iff]
  · simp only [holds_lessThan_string]
    exact Text.unitsBefore_trans
  · cases hnan : a.toNumber.isNaN || b.toNumber.isNaN with
    | true =>
      refine .inl ⟨rfl, not_holds_of_not_ordered ha hb ?_⟩
      rintro (htext' | hnumber)
      · exact Bool.noConfusion (htext.symm.trans htext')
      · exact Bool.noConfusion (hnumber.symm.trans hnan)
    | false => exact .inr ⟨rfl, exactlyOne_holds ha hb htext (.inr hnan)⟩

/-- A string that spells 16. -/
def hexSixteen : Value := .string "0x10"

/-- The number 16.5. -/
def sixteenAndHalf : Value := .number (.round false (33 * Double.one) 2)

theorem holds_consistent_hexSixteen :
    hexSixteen.isKnown = true ∧ sixteenAndHalf.isKnown = true ∧
    (hexSixteen.isText && sixteenAndHalf.isText) = false ∧
    (hexSixteen.toNumber.isNaN || sixteenAndHalf.toNumber.isNaN) = false ∧
    BinaryOperator.isComparison .lessThan = true ∧
    ExactlyOne (Holds .lessThan hexSixteen sixteenAndHalf)
      (Holds .greaterThan hexSixteen sixteenAndHalf)
      (hexSixteen.toNumber.equals sixteenAndHalf.toNumber = true) ∧
    Holds .lessEquals hexSixteen sixteenAndHalf ∧
    Holds .lessThan (.string "a") (.string "\uffff") := by
  have htext : (hexSixteen.isText && sixteenAndHalf.isText) = false := Bool.and_false _
  have hnumber : (hexSixteen.toNumber.isNaN || sixteenAndHalf.toNumber.isNaN) = false := by
    decide +kernel
  have hnot : ¬Holds .greaterThan hexSixteen sixteenAndHalf := by decide +kernel
  have hshort : Holds .lessThan (.string "a") (.string "😀") := by decide +kernel
  have hlong : Holds .lessThan (.string "😀") (.string "\uffff") := by decide +kernel
  obtain ⟨-, -, -, -, -, hstring, hone, horder⟩ :=
    holds_consistent (a := hexSixteen) (b := sixteenAndHalf) rfl rfl
  rcases hone htext with ⟨hnan, -⟩ | ⟨-, hordered⟩
  · exact Bool.noConfusion (hnumber.symm.trans hnan)
  · exact ⟨rfl, rfl, htext, hnumber, rfl, hordered, (horder (.inr hnumber)).1.2 hnot,
      (hstring "a" "😀" "\uffff").2.2 hshort hlong⟩

end Value

end ActionTree
