import ActionTree.Proofs.Constant.Effects
import ActionTree.Proofs.Decimal.Numeral
import ActionTree.Proofs.Writing.Occurrence

/-!
# What is written as `this`

Copies and conversions that leave no trace pass on the text of what is under them.  Under them
stands the receiver, a register of that name or a property of that name without its object.  All
other texts have a character that does not occur in `this`.

* `Piece.writesOther` - whether a piece writes such a character by itself;
* `Kind.bareProperty?` - the property whose bare name is all that a kind writes;
* `Node.chars_eq_this_iff` - the trees that are written as `this`;
* `Node.rendersAsThis_iff` - the test for an implied receiver agrees with the text.
-/

namespace ActionTree

/-! ### Characters that do not occur in `this` -/

/-- The characters of `this`. -/
def thisChars : List Char := ['t', 'h', 'i', 's']

theorem toList_eq_thisChars {s : String} : s.toList = thisChars ↔ s = "this" := by
  show s.toList = "this".toList ↔ s = "this"
  exact String.toList_inj

namespace Piece

/-- Whether a piece writes a character that does not occur in `this`, whatever the part in it. -/
def writesOther : Piece → Bool
  | own texts => texts.any fun text => text.toList.any fun c => !thisChars.contains c
  | part grouped _ => grouped

theorem exists_mem_of_writesOther (locals : Locals) {p : Piece} (h : p.writesOther = true) :
    ∃ c ∈ p.chars locals, c ∉ thisChars := by
  cases p with
  | own texts =>
    obtain ⟨text, htext, hchars⟩ := List.any_eq_true.1 h
    obtain ⟨c, hc, hother⟩ := List.any_eq_true.1 hchars
    exact ⟨c, List.mem_flatMap.2 ⟨text, htext, hc⟩, by simpa using hother⟩
  | part grouped n =>
    obtain rfl : grouped = true := h
    exact ⟨'(', List.mem_cons_self, by decide⟩

/-- Pieces that write another character are not written as `this`. -/
theorem rowChars_ne_this {locals : Locals} {ps : List Piece} (h : ps.any writesOther = true) :
    rowChars locals ps ≠ thisChars := by
  obtain ⟨p, hp, hother⟩ := List.any_eq_true.1 h
  obtain ⟨c, hc, hforeign⟩ := exists_mem_of_writesOther locals hother
  intro hthis
  rw [← hthis] at hforeign
  exact hforeign (List.mem_flatMap.2 ⟨p, hp, hc⟩)

/-- A call writes parentheses. -/
theorem writesOther_arguments (ns : List Node) : (arguments ns).any writesOther = true := by
  cases ns <;> rfl

end Piece

open Piece

namespace Property

variable {locals : Locals} {object : Node}

theorem runtime_eq_none_of_bare {p : Property Node} (h : p.hasBareForm = true) :
    p.runtime = none := by
  rw [hasBareForm, Bool.and_eq_true, Option.isNone_iff_eq_none] at h
  exact h.1

/-- The member part of an access has a point or brackets. -/
theorem writesOther_memberPieces (p : Property Node) : p.memberPieces.any writesOther = true := by
  rw [memberPieces]
  split
  · rfl
  · split <;> rfl

theorem writesOther_barePieces {p : Property Node} (h : p.hasBareForm = false) :
    p.barePieces.any writesOther = true := by
  rw [barePieces, if_neg (by simp [h]), List.any_cons, writesOther_memberPieces, Bool.or_true]

theorem writesOther_accessPieces {p : Property Node}
    (h : (object.isScopeReceiver && p.hasBareForm) = false) :
    (p.accessPieces object).any writesOther = true := by
  rw [accessPieces]
  split
  · rename_i hscope
    rw [hscope, Bool.true_and] at h
    exact writesOther_barePieces h
  · rw [List.any_cons, writesOther_memberPieces, Bool.or_true]

/-- An access past the class writes `super`. -/
theorem writesOther_superPieces (p : Property Node) :
    (p.superPieces locals object).any writesOther = true := by
  rw [superPieces]
  split
  · rfl
  · rw [List.any_cons, List.any_cons]
    exact Bool.or_true _

end Property

/-! ### Literals -/

/-- No literal is written as `this`. -/
theorem Literal.text_ne_this (l : Literal) : l.text.toList ≠ thisChars := by
  have hinteger (i : Int) : (integerText i).toList ≠ thisChars := by
    rw [integerText, String.toList_ofList]
    split
    · rintro ⟨⟩
    · intro hthis
      have hdigit := (isDigits_toDigits i.natAbs).2 't' (by rw [hthis]; decide)
      exact absurd hdigit (by decide)
  cases l with
  | int i | uint i => exact hinteger _
  | number x =>
    cases x with
    | nan => decide
    | infinite s => cases s <;> decide
    | finite s r =>
      rw [text, numberLiteral, NumberStyle.write, String.toList_ofList]
      exact Numeral.text_ne (NumberStyle.isWellFormed_numeral (by rintro _ ⟨⟩) s r) rfl (by decide)
  | string s =>
    rw [text, Text.quote, Text.quoteChars, String.toList_ofList]
    rintro ⟨⟩
  | boolean b => cases b <;> decide
  | null | undefined => decide

/-! ### Trees -/

/-- The property whose bare name is all that a kind writes: its object is looked up in the scope
chain. -/
def Kind.bareProperty? : Kind Node → Option (Property Node)
  | .scope p => if p.hasBareForm then some p else none
  | .get object p _ => if object.isScopeReceiver && p.hasBareForm then some p else none
  | _ => none

/-- Whether a kind is written as one word or passes on the text of its part. -/
def Kind.isPlain : Kind Node → Bool
  | .literal _ | .this | .register .. | .duplicate _ | .coerce .. | .convert .. => true
  | _ => false

/-- All other kinds write a character that does not occur in `this`. -/
theorem Kind.writesOther_pieces {locals : Locals} {k : Kind Node} (hplain : k.isPlain = false)
    (hbare : k.bareProperty? = none) : (k.pieces locals).any writesOther = true := by
  cases k with
  | scope p =>
    refine Property.writesOther_barePieces (Bool.eq_false_iff.2 fun h => ?_)
    simp [bareProperty?, h] at hbare
  | get object p t =>
    refine Property.writesOther_accessPieces (Bool.eq_false_iff.2 fun h => ?_)
    simp [bareProperty?, h] at hbare
  | getSuper object p => exact p.writesOther_superPieces
  | call lookup object p as =>
    cases lookup <;> rw [pieces, List.any_append, writesOther_arguments, Bool.or_true]
  | assign target v c d =>
    have hassigned : (assignedPieces v c).any writesOther = true := by cases c <;> rfl
    rw [pieces, List.any_append, hassigned, Bool.or_true]
  | binary op l r => exact List.any_eq_true.2 ⟨.own [" ", op.symbol, " "], by simp [pieces], rfl⟩
  | ternary c a b => exact List.any_eq_true.2 ⟨.own [" ? "], by simp [pieces], by decide⟩
  | unary op v =>
    rw [pieces]
    split <;> cases op <;> rfl
  | declare i t v => cases v <;> rfl
  | construct object as | returnValue v | returnVoid | throw v => rfl
  | literal | this | register | duplicate | coerce | convert => cases hplain

theorem Kind.of_bareProperty? (locals : Locals) {k : Kind Node} {p : Property Node}
    (h : k.bareProperty? = some p) :
    k.pieces locals = [.own [p.name.name]] ∧ k.property? = some p ∧ p.hasBareForm = true := by
  cases k with
  | scope q =>
    obtain ⟨hbare, rfl⟩ : q.hasBareForm = true ∧ q = p := by simpa [bareProperty?] using h
    exact ⟨by rw [pieces, Property.barePieces, if_pos hbare], rfl, hbare⟩
  | get object q t =>
    obtain ⟨⟨hscope, hbare⟩, rfl⟩ :
        (object.isScopeReceiver = true ∧ q.hasBareForm = true) ∧ q = p := by
      simpa [bareProperty?] using h
    refine ⟨?_, rfl, hbare⟩
    rw [pieces, Property.accessPieces, if_pos hscope, Property.barePieces, if_pos hbare]
  | _ => cases h

namespace Node

variable {locals : Locals}

/-- Of the kinds that are not plain, only the bare name of a property can be written as `this`. -/
theorem chars_eq_this_iff_of_not_isPlain {k : Kind Node} {o : Origin} (h : k.isPlain = false) :
    chars locals ⟨k, o⟩ = thisChars ↔ ∃ p ∈ k.bareProperty?, p.name.name = "this" := by
  rw [chars_pieces]
  cases hbare : k.bareProperty? with
  | none => exact iff_of_false (rowChars_ne_this (Kind.writesOther_pieces h hbare)) (by simp)
  | some p =>
    rw [(Kind.of_bareProperty? locals hbare).1, rowChars_cons]
    simp [Piece.chars, toList_eq_thisChars]

/-- A tree is written as `this` if the test for that says so, or if it is written as the name of a
property with that name. -/
theorem chars_eq_this_iff (n : Node) : n.chars locals = thisChars ↔
    n.rendersAsThis locals = true ∨ ∃ p ∈ n.asWritten.kind.bareProperty?, p.name.name = "this" := by
  induction n using induct with
  | step k o ih =>
    cases k with
    | literal l =>
      rw [chars_literal]
      simp [l.text_ne_this, rendersAsThis, asWritten, Kind.bareProperty?]
    | this => exact iff_of_true rfl (.inl rfl)
    | register i t =>
      rw [chars_register, toList_eq_thisChars]
      simp [rendersAsThis, asWritten, Kind.bareProperty?]
    | duplicate v | coerce t v =>
      rw [chars_of_single rfl, rendersAsThis, asWritten]
      exact ih v (by simp [Kind.parts, Kind.children])
    | convert t v =>
      rw [rendersAsThis, asWritten]
      by_cases hshown : v.showsConversion t = true
      · rw [hshown]
        refine iff_of_false ?_ (by simp [Kind.bareProperty?])
        rw [chars_pieces, Kind.pieces, if_pos hshown]
        exact rowChars_ne_this (by simp [writesOther])
      · rw [chars_of_single (by rw [Kind.pieces, if_neg hshown]), Bool.eq_false_iff.2 hshown]
        exact ih v (by simp [Kind.parts, Kind.children])
    | _ =>
      rw [chars_eq_this_iff_of_not_isPlain rfl]
      simp [rendersAsThis, asWritten]

/-- No property in a tree has the name `this`; names computed at runtime are not known. -/
def NamesNoThis (n : Node) : Prop :=
  ∀ m, n.Contains m → ∀ p ∈ m.kind.property?, p.runtime = none → p.name.name ≠ "this"

/-- **The test for an implied receiver agrees with the text.**  In a tree where no property is named
`this`, an object passes the test exactly when it is written as the bare word `this`, whatever the
names of registers are. -/
theorem rendersAsThis_iff {n : Node} (hnames : n.NamesNoThis) (locals : Locals) :
    n.rendersAsThis locals = true ↔ n.source locals = "this" := by
  rw [source_eq, ← toList_eq_thisChars, String.toList_ofList, chars_eq_this_iff]
  refine ⟨.inl, Or.rec id fun hbare => ?_⟩
  -- a tree that is written as the bare name of a property has that property in it
  obtain ⟨p, hbare, hname⟩ := hbare
  obtain ⟨-, hp, hform⟩ := Kind.of_bareProperty? locals hbare
  have hcontains : n.Contains n.asWritten := (writes_asWritten locals n).1.contains
  exact absurd hname (hnames n.asWritten hcontains p hp (Property.runtime_eq_none_of_bare hform))

theorem namesNoThis_mk {k : Kind Node} {o : Origin} :
    NamesNoThis ⟨k, o⟩ ↔
      (∀ p ∈ k.property?, p.runtime = none → p.name.name ≠ "this") ∧
        ∀ c ∈ k.parts, c.NamesNoThis :=
  forall_contains_mk

/-- A register with the name `this`, copied and converted to its own type. -/
def copiedReceiver : Node := convert (duplicate (register 1 .int)) .int

/-- `self`, which is read from the scope chain. -/
def readSelf : Node :=
  get (scope (.static (.ofName "self"))) (.static (.ofName "self"))

/-- The first one is written as the receiver, the second one as a name that is not it. -/
theorem rendersAsThis_iff_copiedReceiver :
    copiedReceiver.NamesNoThis ∧ readSelf.NamesNoThis ∧
      copiedReceiver.source (Locals.empty.setName 1 "this") = "this" ∧
      readSelf.rendersAsThis .empty = false ∧ readSelf.source .empty ≠ "this" := by
  have hcopied : copiedReceiver.NamesNoThis := by
    simp [copiedReceiver, convert, duplicate, register, synthetic, namesNoThis_mk, Kind.property?,
      Kind.parts, Kind.children, Kind.compound?]
  have hself : readSelf.NamesNoThis := by
    simp [readSelf, get, scope, synthetic, namesNoThis_mk, Kind.property?, Kind.parts,
      Kind.children, Kind.compound?, Property.children, Property.static, QualifiedName.ofName]
  have hreceiver : copiedReceiver.rendersAsThis (Locals.empty.setName 1 "this") = true := by
    decide +kernel
  have hname : readSelf.rendersAsThis .empty = false := by decide +kernel
  refine ⟨hcopied, hself, (rendersAsThis_iff hcopied _).1 hreceiver, hname, fun hsource => ?_⟩
  rw [(rendersAsThis_iff hself .empty).2 hsource] at hname
  cases hname

/-- The scope chain can have a property with the name `this`. -/
example : (scope (.static (.ofName "this"))).source .empty = "this" ∧
    (scope (.static (.ofName "this"))).rendersAsThis .empty = false := by
  decide +kernel

end Node

end ActionTree
