import ActionTree.Proofs.Constant.Effects
import ActionTree.Proofs.Writing.Member

/-!
# No minus behind a negation

The operand of a negation is put in parentheses when a minus stands at its root, seen through copies
and conversions.  A minus at the start of its text could also come from further down on the left,
but what stands there without parentheses binds like a name, and so never starts with one.

* `Literal.head?_text` - only negative literals start with a minus;
* `Node.precedence_of_startsWithMinus` - what starts with a minus binds looser than a name;
* `Node.head?_chars` - an operand without parentheses starts with a minus only where the test for
  one sees it;
* `Node.source_negate` - **a negation is written with one minus**.
-/

namespace ActionTree

open Piece

/-! ### Literals and names -/

theorem head?_toDigits_ne_minus (n : Nat) : (Nat.toDigits 10 n).head? ≠ some '-' := by
  intro h
  have hdigit := (isDigits_toDigits n).2 '-' (List.mem_of_mem_head? h)
  cases hdigit

/-- Only negative literals start with a minus. -/
theorem Literal.head?_text {l : Literal} (h : l.isNegative = false) :
    l.text.toList.head? ≠ some '-' := by
  cases l with
  | int i =>
    have hpositive : ¬ i.toInt < 0 := by
      simpa [isNegative, Int32.lt_iff_toInt_lt] using h
    rw [text, integerText, if_neg hpositive, String.toList_ofList]
    exact head?_toDigits_ne_minus _
  | uint i =>
    rw [text, integerText, if_neg (by omega), String.toList_ofList]
    exact head?_toDigits_ne_minus _
  | number x =>
    cases x with
    | nan => decide
    | infinite s =>
      obtain rfl : s = false := h
      decide
    | finite s r =>
      obtain rfl : s = false := h
      have hform : (numberStyle.numeral false r).IsWellFormed :=
        NumberStyle.isWellFormed_numeral (by rintro _ ⟨⟩) false r
      obtain ⟨d, ds, htext, hd⟩ := Numeral.head?_unsignedText hform
      have hsign : (numberStyle.numeral false r).negative = false := rfl
      rw [text, numberLiteral, NumberStyle.write, String.toList_ofList, Numeral.text, hsign,
        if_neg Bool.false_ne_true, htext]
      rintro ⟨⟩
      cases hd
  | string s =>
    rw [text, Text.quote, Text.quoteChars, String.toList_ofList]
    rintro ⟨⟩
  | boolean b => cases b <;> decide
  | null | undefined => decide

theorem head?_of_isIdentifier {name : String} (h : isIdentifier name = true) :
    ∃ c, name.toList.head? = some c ∧ c ≠ '-' := by
  unfold isIdentifier at h
  split at h
  case h_1 => cases h
  case h_2 c cs hname =>
    refine ⟨c, by rw [hname]; rfl, ?_⟩
    rintro rfl
    cases h

theorem head?_ne_minus {cs : List Char} {d : Char} (h : cs.head? = some d) (hd : d ≠ '-') :
    cs.head? ≠ some '-' := by
  rw [h]
  simpa using hd

/-- A text does not start with a minus if its parts do not. -/
theorem head?_append_ne_minus {as bs : List Char} (has : as.head? ≠ some '-')
    (hbs : bs.head? ≠ some '-') : (as ++ bs).head? ≠ some '-' := by
  cases as with
  | nil => exact hbs
  | cons a as => exact has

/-! ### Accesses -/

namespace Node

variable {locals : Locals} {object : Node} {p : Property Node}

theorem head?_operand_primary
    (h : object.precedence = .primary → (object.chars locals).head? ≠ some '-') :
    ((operand .primary object).chars locals).head? ≠ some '-' := by
  by_cases hlevel : object.precedence = .primary
  · rw [operand_of_le (Nat.le_of_eq hlevel)]
    exact h hlevel
  · have hgrouped : Precedence.primary < object.precedence := Nat.pos_of_ne_zero hlevel
    rw [operand, decide_eq_true hgrouped]
    exact head?_ne_minus (d := '(') rfl (by decide)

theorem head?_barePieces (more : List Piece) :
    (rowChars locals (p.barePieces ++ more)).head? ≠ some '-' := by
  rw [Property.barePieces]
  split
  case isTrue hbare =>
    have hname : isIdentifier p.name.name = true := by
      rw [Property.hasBareForm, Bool.and_eq_true] at hbare
      exact hbare.2
    obtain ⟨c, hc, hminus⟩ := head?_of_isIdentifier hname
    have hhead : (rowChars locals ([.own [p.name.name]] ++ more)).head? = some c := by
      simp [Piece.chars, hc]
    exact head?_ne_minus hhead hminus
  case isFalse => exact head?_ne_minus (d := 't') rfl (by decide)

theorem head?_lookupPieces {lookup : Lookup}
    (h : object.precedence = .primary → (object.chars locals).head? ≠ some '-')
    (more : List Piece) :
    (rowChars locals (p.lookupPieces locals lookup object ++ more)).head? ≠ some '-' := by
  have hmember : (rowChars locals (p.memberPieces ++ more)).head? ≠ some '-' := by
    rw [head?_memberPieces]
    split <;> decide
  cases lookup with
  | direct =>
    rw [Property.lookupPieces, Property.accessPieces]
    split
    · exact head?_barePieces more
    · rw [List.cons_append, rowChars_cons]
      exact head?_append_ne_minus (head?_operand_primary h) hmember
  | super =>
    rw [Property.lookupPieces, Property.superPieces]
    split
    · exact head?_ne_minus (d := 's') rfl (by decide)
    · rw [List.cons_append, rowChars_cons]
      exact head?_append_ne_minus (head?_operand_primary h)
        (head?_ne_minus (d := '.') rfl (by decide))

/-! ### Trees -/

/-- Copies and conversions bind like what is under them. -/
theorem precedence_notCoerced (n : Node) : n.notCoerced.precedence = n.precedence := by
  induction n using induct with
  | step k o ih =>
    cases k with
    | duplicate v | convert t v | coerce t v => exact ih v (by simp [Kind.parts, Kind.children])
    | _ => rfl

/-- What starts with a minus binds like a negation. -/
theorem precedence_of_startsWithMinus {n : Node} (h : n.startsWithMinus = true) :
    n.precedence = .unary := by
  rw [← n.precedence_notCoerced]
  rw [startsWithMinus] at h
  cases hn : n.notCoerced with
  | mk k o =>
    rw [hn] at h
    cases k with
    | literal l =>
      show l.precedence = .unary
      exact if_pos h
    | unary op v => rfl
    | _ => cases h

variable (locals) in
/-- No register in the tree has a name that starts with a minus, and no class among its types. -/
def NamesNoMinus (n : Node) : Prop :=
  ∀ m, n.Contains m →
    (∀ i ∈ m.kind.register?, (locals.name i).toList.head? ≠ some '-') ∧
      ∀ q, m.kind.type? = some (.class q) → q.name.toList.head? ≠ some '-'

theorem NamesNoMinus.part {k : Kind Node} {o : Origin} (h : NamesNoMinus locals ⟨k, o⟩) {c : Node}
    (hc : c ∈ k.parts) : c.NamesNoMinus locals :=
  fun m hm => h m (hm.head hc)

/-- The name of a type starts with a minus only if it is that of a class. -/
theorem head?_typeText {t : StaticType}
    (h : ∀ q, t = .class q → q.name.toList.head? ≠ some '-') :
    t.text.toList.head? ≠ some '-' := by
  cases t with
  | «class» q => exact h q rfl
  | _ => decide

/-- An operand of a negation that needs no parentheses starts with a minus only where the test for
one sees it. -/
theorem head?_chars {n : Node} (hnames : n.NamesNoMinus locals) (hlevel : n.precedence ≤ .unary)
    (hminus : n.startsWithMinus = false) : (n.chars locals).head? ≠ some '-' := by
  induction n using induct with
  | step k o ih =>
    -- a receiver without parentheses binds like a name, so the test sees no minus in it either
    have hreceiver {object : Node} (hpart : object ∈ k.parts)
        (htight : object.precedence = .primary) : (object.chars locals).head? ≠ some '-' := by
      refine ih object hpart (hnames.part hpart) (by rw [htight]; decide) ?_
      refine Bool.eq_false_iff.2 fun hstart => ?_
      rw [precedence_of_startsWithMinus hstart] at htight
      cases htight
    rcases haccess : k.access? with _ | ⟨lookup, object, p⟩
    · cases k with
      | get | getSuper | call => cases haccess
      | literal l =>
        rw [chars_literal]
        exact Literal.head?_text hminus
      | this => exact head?_ne_minus (d := 't') rfl (by decide)
      | register i t =>
        rw [chars_register]
        exact (hnames _ .refl).1 i rfl
      | scope p =>
        rw [chars_pieces, Kind.pieces, ← List.append_nil p.barePieces]
        exact head?_barePieces []
      | duplicate v | coerce t v =>
        have hpart : v ∈ [v] := List.mem_singleton_self v
        rw [chars_of_single rfl]
        exact ih v hpart (hnames.part hpart) hlevel hminus
      | convert t v =>
        have hpart : v ∈ (Kind.convert t v).parts := List.mem_cons_self
        by_cases hshown : v.showsConversion t = true
        · have htype : t.text.toList.head? ≠ some '-' :=
            head?_typeText fun q hq => (hnames _ .refl).2 q (congrArg some hq)
          rw [chars_pieces, Kind.pieces, if_pos hshown, rowChars_cons]
          refine head?_append_ne_minus ?_ (head?_ne_minus (d := '(') rfl (by decide))
          simpa [Piece.chars] using htype
        · rw [chars_of_single (by rw [Kind.pieces, if_neg hshown])]
          exact ih v hpart (hnames.part hpart) hlevel hminus
      | construct object as => exact head?_ne_minus (d := 's') rfl (by decide)
      | unary op v =>
        rw [chars_unary]
        cases op with
        | negate => cases hminus
        | not => exact head?_ne_minus (d := '!') rfl (by decide)
        | bitNot => exact head?_ne_minus (d := '~') rfl (by decide)
        | typeOf => exact head?_ne_minus (d := 't') rfl (by decide)
        | void => exact head?_ne_minus (d := 'v') rfl (by decide)
      | binary op l r =>
        have hloose : Precedence.unary < op.precedence := by cases op <;> decide
        exact absurd hlevel (Nat.not_le_of_lt hloose)
      | ternary =>
        exact absurd (show Precedence.conditional ≤ .unary from hlevel) (by decide)
      | assign | declare =>
        exact absurd (show Precedence.assignment ≤ .unary from hlevel) (by decide)
      | returnValue | returnVoid | throw =>
        exact absurd (show Precedence.statement ≤ .unary from hlevel) (by decide)
    · rw [chars_pieces, k.pieces_access locals haccess]
      exact head?_lookupPieces (hreceiver (Kind.mem_parts_of_access? haccess)) _

/-- **A negation is written with one minus.**  Where no name of a register or class in the operand
starts with a minus, no minus stands behind the one of the negation, so the two never read as a
decrement. -/
theorem source_negate {v : Node} (hnames : v.NamesNoMinus locals) (o : Origin) :
    ∃ cs, (source locals ⟨.unary .negate v, o⟩).toList = '-' :: cs ∧ cs.head? ≠ some '-' := by
  rw [source_eq, String.toList_ofList, chars_unary]
  refine ⟨_, rfl, ?_⟩
  by_cases hminus : v.startsWithMinus = true
  · rw [if_pos ⟨rfl, hminus⟩]
    exact head?_ne_minus (d := '(') rfl (by decide)
  · rw [if_neg fun h => hminus h.2, operandChars]
    split
    · exact head?_ne_minus (d := '(') rfl (by decide)
    case isFalse htight =>
      exact head?_chars hnames (Nat.le_of_not_lt htight) (Bool.eq_false_iff.2 hminus)

theorem namesNoMinus_mk {k : Kind Node} {o : Origin} :
    NamesNoMinus locals ⟨k, o⟩ ↔
      ((∀ i ∈ k.register?, (locals.name i).toList.head? ≠ some '-') ∧
        ∀ q, k.type? = some (.class q) → q.name.toList.head? ≠ some '-') ∧
      ∀ c ∈ k.parts, c.NamesNoMinus locals :=
  forall_contains_mk

/-- `Sprite(-_loc1_).x`. -/
def spriteMember : Node :=
  get (convert (unary .negate (register 1)) (.class (.ofName "Sprite"))) (.static (.ofName "x"))

/-- Both minus signs stay apart, in front of a member and of a negation. -/
theorem source_negate_spriteMember :
    spriteMember.NamesNoMinus .empty ∧
      (unary .negate spriteMember).source .empty = "-(Sprite(-_loc1_)).x" ∧
      ∃ cs, ((unary .negate spriteMember).source .empty).toList = '-' :: cs ∧
        cs.head? ≠ some '-' := by
  have hnames : spriteMember.NamesNoMinus .empty := by
    simp [spriteMember, get, convert, unary, register, synthetic, namesNoMinus_mk,
      Kind.register?, Kind.type?, Kind.parts, Kind.children, Kind.compound?, Property.children,
      Property.static, QualifiedName.ofName]
    decide
  exact ⟨hnames, by decide +kernel, source_negate hnames .synthetic⟩

/-- The names matter: a register can be given any name. -/
example : (unary .negate (register 1)).source (Locals.empty.setName 1 "-x") = "--x" := by
  decide +kernel

end Node

end ActionTree
