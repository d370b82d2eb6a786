import ActionTree.Node.Build
import ActionTree.Proofs.Constant.Effects
import ActionTree.Proofs.Writing.Leading
import ActionTree.Proofs.Writing.Pieces
import ActionTree.Proofs.Writing.StoreScan

/-!
# Texts that store

An assignment is written with an equals sign between blanks, or with one behind the operator of its
compound form.  A scan finds it there, unless the operator and the equals sign spell another
operator: then the text is that of a comparison.

* `Kind.settles_pieces` - what a kind writes by itself is passed over, and only an effect stores;
* `Node.settles` - so is the text of a tree;
* `Node.source_assignment` - **an assignment is written like an expression without effects only as
  a comparison**;
* `Node.exists_assignment_source_eq` - some assignments are.
-/

namespace ActionTree

open StoreScan

/-! ### Pieces -/

namespace Piece

/-- The texts of a piece that no part writes are passed over. -/
def Settles (b : Bool) : Piece → Prop
  | own texts => StoreScan.Settles b (texts.flatMap String.toList)
  | part _ _ => True

variable {b : Bool}

theorem Settles.mono {a : Bool} {p : Piece} (h : p.Settles a) (hab : b = false → a = false) :
    p.Settles b := by
  cases p with
  | own texts => exact StoreScan.Settles.mono h hab
  | part grouped n => trivial

theorem settles_own {texts : List String} (h : ∀ t ∈ texts, StoreScan.Settles b t.toList) :
    (own texts).Settles b := settles_flatMap h

/-- Own texts without string literals and equals signs. -/
theorem settles_own_plain {texts : List String}
    (h : (texts.all fun t => t.toList.all isPlain) = true) : (own texts).Settles b :=
  settles_own fun t ht => settles_plain (List.all_eq_true.1 h t ht)

theorem settles_moreArguments (ns : List Node) : ∀ p ∈ moreArguments ns, p.Settles b := by
  induction ns with
  | nil => exact List.forall_mem_nil _
  | cons n ns ih =>
    exact List.forall_mem_cons.2 ⟨settles_own_plain (by decide),
      List.forall_mem_cons.2 ⟨trivial, ih⟩⟩

theorem settles_arguments (ns : List Node) : ∀ p ∈ arguments ns, p.Settles b := by
  cases ns with
  | nil => exact List.forall_mem_singleton.2 (settles_own_plain (by decide))
  | cons n ns =>
    refine List.forall_mem_cons.2 ⟨settles_own_plain (by decide),
      List.forall_mem_cons.2 ⟨trivial, List.forall_mem_append.2 ⟨settles_moreArguments ns, ?_⟩⟩⟩
    exact List.forall_mem_singleton.2 (settles_own_plain (by decide))

/-- Characters of pieces are passed over where those of their parts are. -/
theorem settles_rowChars {locals : Locals} {ps : List Piece} (hown : ∀ p ∈ ps, p.Settles b)
    (hparts : ∀ grouped c, part grouped c ∈ ps → StoreScan.Settles b (c.chars locals)) :
    StoreScan.Settles b (rowChars locals ps) := by
  refine settles_flatMap fun p hp => ?_
  cases p with
  | own texts => exact hown _ hp
  | part grouped c =>
    cases grouped with
    | true => exact settles_group (hparts true c hp)
    | false => exact hparts false c hp

end Piece

namespace Property

variable {b : Bool} (p : Property Node) (object : Node)

theorem settles_memberPieces : ∀ x ∈ p.memberPieces, x.Settles b := by
  have hopen : StoreScan.Settles b "[".toList := settles_plain (by decide)
  have hclose : StoreScan.Settles b "]".toList := settles_plain (by decide)
  rw [memberPieces]
  split
  · exact List.forall_mem_cons.2 ⟨Piece.settles_own_plain (by decide), List.forall_mem_cons.2
      ⟨trivial, List.forall_mem_singleton.2 (Piece.settles_own_plain (by decide))⟩⟩
  · split_ifs with hname
    · refine List.forall_mem_singleton.2 (Piece.settles_own (List.forall_mem_cons.2 ⟨?_, ?_⟩))
      · exact settles_plain (by decide)
      · exact List.forall_mem_singleton.2 (settles_word (isWordChar_of_isIdentifier hname))
    · exact List.forall_mem_singleton.2 (Piece.settles_own (List.forall_mem_cons.2
        ⟨hopen, List.forall_mem_cons.2 ⟨settles_quote _, List.forall_mem_singleton.2 hclose⟩⟩))

theorem settles_barePieces : ∀ x ∈ p.barePieces, x.Settles b := by
  rw [barePieces]
  split_ifs with hbare
  · have hname : isIdentifier p.name.name = true := by simp_all [hasBareForm]
    have hword : StoreScan.Settles b p.name.name.toList :=
      settles_word (isWordChar_of_isIdentifier hname)
    exact List.forall_mem_singleton.2 (Piece.settles_own (List.forall_mem_singleton.2 hword))
  · exact List.forall_mem_cons.2 ⟨Piece.settles_own_plain (by decide), p.settles_memberPieces⟩

theorem settles_accessPieces : ∀ x ∈ p.accessPieces object, x.Settles b := by
  rw [accessPieces]
  split_ifs with hscope
  · exact p.settles_barePieces
  · exact List.forall_mem_cons.2 ⟨trivial, p.settles_memberPieces⟩

theorem settles_superPieces (locals : Locals) :
    ∀ x ∈ p.superPieces locals object, x.Settles b := by
  rw [superPieces]
  split_ifs with himplied
  · exact List.forall_mem_cons.2 ⟨Piece.settles_own_plain (by decide), p.settles_memberPieces⟩
  · exact List.forall_mem_cons.2 ⟨trivial, List.forall_mem_cons.2
      ⟨Piece.settles_own_plain (by decide), p.settles_memberPieces⟩⟩

end Property

/-- The pieces of a target are passed over. -/
theorem Target.settles_pieces (t : Target Node) {b : Bool} :
    ∀ p ∈ t.pieces .empty, p.Settles b := by
  rcases t with i | ⟨_ | _, object, p⟩
  · exact List.forall_mem_singleton.2
      (Piece.settles_own (List.forall_mem_singleton.2 (Locals.settles_name i)))
  · exact p.settles_accessPieces object
  · exact p.settles_superPieces object .empty

/-- The word that follows the target of an assignment, between blanks. -/
def storeWord {α : Type} : Option (Compound α) → List Char
  | some c => c.operator.symbol.toList ++ ['=']
  | none => ['=']

theorem isInWord_storeWord {α : Type} (compound : Option (Compound α)) :
    (storeWord compound).all isInWord = true := by
  cases compound with
  | none => rfl
  | some c =>
    rw [storeWord, List.all_append, isInWord_symbol]
    rfl

/-- The rest of an assignment is its word and the value. -/
theorem exists_assignedPieces (value : Node) (compound : Option (Compound Node)) :
    ∃ texts n, assignedPieces value compound = [.own texts, .operand .assignment n] ∧
      texts.flatMap String.toList = ' ' :: (storeWord compound ++ [' ']) := by
  cases compound with
  | none => exact ⟨_, _, rfl, rfl⟩
  | some c => exact ⟨_, _, rfl, by simp [storeWord]⟩

/-! ### Kinds -/

namespace Kind

/-- Only an assignment has a part that is not evaluated. -/
theorem parts_eq_children {α : Type} {k : Kind α} (h : k.isEffect = false) :
    k.parts = k.children := by
  cases k <;> first | exact List.append_nil _ | cases h

/-- The texts that a kind writes by itself are passed over, and only an effect stores. -/
theorem settles_pieces {k : Kind Node}
    (htype : ∀ q, k.type? = some (.class q) → isIdentifier q.name = true) :
    ∀ p ∈ k.pieces .empty, p.Settles k.isEffect := by
  cases k with
  | literal l =>
    exact List.forall_mem_singleton.2
      (Piece.settles_own (List.forall_mem_singleton.2 l.settles_text))
  | register i t =>
    exact List.forall_mem_singleton.2
      (Piece.settles_own (List.forall_mem_singleton.2 (Locals.settles_name i)))
  | this => exact List.forall_mem_singleton.2 (Piece.settles_own_plain (by decide))
  | scope p => exact p.settles_barePieces
  | duplicate v | coerce t v => exact List.forall_mem_singleton.2 trivial
  | convert t v =>
    have htext : StoreScan.Settles false t.text.toList :=
      t.settles_text fun q hq => htype q (congrArg some hq)
    rw [pieces]
    split_ifs with hshown
    · exact List.forall_mem_cons.2 ⟨Piece.settles_own (List.forall_mem_singleton.2 htext),
        List.forall_mem_singleton.2 trivial⟩
    · exact List.forall_mem_singleton.2 trivial
  | get object p t => exact p.settles_accessPieces object
  | getSuper object p => exact p.settles_superPieces object .empty
  | call lookup object p as =>
    cases lookup with
    | direct =>
      exact List.forall_mem_append.2 ⟨p.settles_accessPieces object, Piece.settles_arguments as⟩
    | super =>
      exact List.forall_mem_append.2
        ⟨p.settles_superPieces object .empty, Piece.settles_arguments as⟩
  | construct object as =>
    exact List.forall_mem_cons.2
      ⟨Piece.settles_own_plain (by decide), Piece.settles_arguments as⟩
  | assign target v compound d =>
    obtain ⟨texts, n, hrest, htexts⟩ := exists_assignedPieces v compound
    have hstore : StoreScan.Settles true (texts.flatMap String.toList) := by
      rw [htexts]
      exact settles_store (isInWord_storeWord compound)
    rw [pieces, hrest]
    exact List.forall_mem_append.2 ⟨target.settles_pieces, List.forall_mem_cons.2
      ⟨hstore, List.forall_mem_singleton.2 trivial⟩⟩
  | binary op l r =>
    have hsymbol : StoreScan.Settles false (' ' :: (op.symbol.toList ++ [' '])) :=
      settles_symbol (isInWord_symbol op) fun _ => isStore_symbol op
    have htexts : (Piece.own [" ", op.symbol, " "]).Settles false := by
      simpa [Piece.Settles] using hsymbol
    exact List.forall_mem_cons.2 ⟨trivial, List.forall_mem_cons.2
      ⟨htexts, List.forall_mem_singleton.2 trivial⟩⟩
  | unary op v =>
    have hsymbol : (Piece.own [op.symbol]).Settles false :=
      Piece.settles_own_plain (by cases op <;> decide)
    rw [pieces]
    split_ifs <;> exact List.forall_mem_cons.2 ⟨hsymbol, List.forall_mem_singleton.2 trivial⟩
  | ternary c a b =>
    exact List.forall_mem_cons.2 ⟨trivial, List.forall_mem_cons.2
      ⟨Piece.settles_own_plain (by decide), List.forall_mem_cons.2 ⟨trivial, List.forall_mem_cons.2
        ⟨Piece.settles_own_plain (by decide), List.forall_mem_singleton.2 trivial⟩⟩⟩⟩
  | declare i t v =>
    have hvar : StoreScan.Settles true "var ".toList := settles_plain (by decide)
    have hcolon : StoreScan.Settles true ":".toList := settles_plain (by decide)
    have htext : StoreScan.Settles true t.text.toList :=
      t.settles_text fun q hq => htype q (congrArg some hq)
    have hdeclared : ∀ text ∈ ["var ", Locals.empty.name i, ":", t.text],
        StoreScan.Settles true text.toList :=
      List.forall_mem_cons.2 ⟨hvar, List.forall_mem_cons.2 ⟨Locals.settles_name i,
        List.forall_mem_cons.2 ⟨hcolon, List.forall_mem_singleton.2 htext⟩⟩⟩
    have hstore : StoreScan.Settles true " = ".toList :=
      settles_store (show ['='].all isInWord = true by decide)
    cases v with
    | none => exact List.forall_mem_singleton.2 (Piece.settles_own hdeclared)
    | some v =>
      refine List.forall_mem_cons.2 ⟨Piece.settles_own ?_, List.forall_mem_singleton.2 trivial⟩
      exact List.forall_mem_append.2 ⟨hdeclared, List.forall_mem_singleton.2 hstore⟩
  | returnValue v | throw v =>
    exact List.forall_mem_cons.2
      ⟨Piece.settles_own_plain (by decide), List.forall_mem_singleton.2 trivial⟩
  | returnVoid => exact List.forall_mem_singleton.2 (Piece.settles_own_plain (by decide))

end Kind

/-! ### Trees -/

/-- A slot that is read is written as one that is assigned to. -/
theorem Target.pieces_reading (t : Target Node) (locals : Locals) :
    t.reading.pieces locals = t.pieces locals := by
  rcases t with i | ⟨_ | _, object, p⟩ <;> rfl

namespace Node

/-- The classes among the types of a tree have identifiers as names. -/
def HasPlainTypes (n : Node) : Prop :=
  ∀ m, n.Contains m → ∀ q, m.kind.type? = some (.class q) → isIdentifier q.name = true

/-- The types of a tree are those of its parts and its own. -/
theorem hasPlainTypes_mk {k : Kind Node} {o : Origin} :
    HasPlainTypes ⟨k, o⟩ ↔ (∀ q, k.type? = some (.class q) → isIdentifier q.name = true) ∧
      ∀ c ∈ k.parts, c.HasPlainTypes :=
  forall_contains_mk

theorem HasPlainTypes.part {k : Kind Node} {o : Origin} (h : HasPlainTypes ⟨k, o⟩) {c : Node}
    (hc : c ∈ k.parts) : c.HasPlainTypes :=
  (hasPlainTypes_mk.1 h).2 c hc

/-- The text of a tree is passed over, and only an effect in it stores. -/
theorem settles {n : Node} (h : n.HasPlainTypes) : Settles n.hasSideEffect (n.chars .empty) := by
  induction n using induct with
  | step k o ih =>
    have hparts {c : Node} (hnone : hasSideEffect ⟨k, o⟩ = false) (hc : c ∈ k.parts) :
        c.hasSideEffect = false := by
      rw [hasSideEffect_mk, Bool.or_eq_false_iff] at hnone
      rw [k.parts_eq_children hnone.1] at hc
      exact Bool.eq_false_iff.2 (List.any_eq_false.1 hnone.2 c hc)
    have hown : ∀ p ∈ k.pieces .empty, p.Settles (hasSideEffect ⟨k, o⟩) := by
      intro p hp
      refine Piece.Settles.mono (Kind.settles_pieces (h _ .refl) p hp) fun hnone => ?_
      rw [hasSideEffect_mk, Bool.or_eq_false_iff] at hnone
      exact hnone.1
    rw [chars_pieces]
    refine Piece.settles_rowChars hown fun grouped c hc => ?_
    have hpart : c ∈ k.parts := Kind.mem_parts_of_mem_pieces .empty hc
    exact (ih c hpart (h.part hpart)).mono fun hnone => hparts hnone hpart

section Assignment

variable {target : Target Node} {value : Node} {compound : Option (Compound Node)}
  {d : Option UInt64} {o : Origin}

/-- The scan of an assignment meets a store, unless the operator of its compound form and the equals
sign spell another operator. -/
theorem stores_assign (h : HasPlainTypes ⟨.assign target value compound d, o⟩)
    (hword : isStore (storeWord compound) = true) :
    (start.run (chars .empty ⟨.assign target value compound d, o⟩)).stores = true := by
  obtain ⟨texts, n, hrest, htexts⟩ := exists_assignedPieces value compound
  have htarget : Settles true (Piece.rowChars .empty (target.pieces .empty)) := by
    refine Piece.settles_rowChars target.settles_pieces fun grouped c hc => ?_
    have hpart : c ∈ (Kind.assign target value compound d).parts :=
      List.mem_append_left _ (List.mem_append_left _ (Target.mem_children_of_mem_pieces hc))
    exact (settles (h.part hpart)).mono fun htrue => Bool.noConfusion htrue
  have hsettled := (htarget start settled_start).1
  rw [chars_pieces, Kind.pieces, hrest, Piece.rowChars_append, run_append, Piece.rowChars_cons,
    run_append, Piece.chars, htexts, run_symbol hsettled (isInWord_storeWord compound), hword]
  exact stores_run (Bool.or_true _) _

theorem isStore_storeWord
    (h : compound.bind (·.operator.withEquals?) = none) : isStore (storeWord compound) = true := by
  cases compound with
  | none => rfl
  | some c => exact isStore_symbol_equals h

/-- A compound form is written like the operator that its own operator and the equals sign spell, on
the slot and in front of the value. -/
theorem chars_assign_of_withEquals {c : Compound Node} {op : BinaryOperator}
    (hop : c.operator.withEquals? = some op) (hloose : c.value.precedence ≤ .assignment) :
    chars .empty ⟨.assign target value (some c) d, o⟩ =
      LedBy.lead .empty op ⟨target.reading, .synthetic⟩ (c.value.chars .empty) := by
  have hsymbol : op.symbol = c.operator.symbol ++ "=" :=
    BinaryOperator.withEquals?_eq_some_iff.1 hop
  have htarget : chars .empty ⟨target.reading, .synthetic⟩ =
      Piece.rowChars .empty (target.pieces .empty) := by
    rw [chars_pieces, target.pieces_reading]
  rw [chars_pieces, Kind.pieces, assignedPieces, Piece.operand_of_le hloose]
  simp [Piece.chars, LedBy.lead, hsymbol, htarget]

end Assignment

/-- Reading a slot has an effect only where finding it has one. -/
theorem hasSideEffect_reading (target : Target Node) (o : Origin) :
    hasSideEffect ⟨target.reading, o⟩ = target.children.any hasSideEffect := by
  rw [hasSideEffect_mk]
  rcases target with i | ⟨_ | _, object, p⟩ <;> rfl

theorem precedence_reading (target : Target Node) (o : Origin) :
    precedence ⟨target.reading, o⟩ = .primary := by
  rcases target with i | ⟨_ | _, object, p⟩ <;> rfl

theorem hasPlainTypes_binary {op : BinaryOperator} {l r : Node} {o : Origin} :
    HasPlainTypes ⟨.binary op l r, o⟩ ↔ l.HasPlainTypes ∧ r.HasPlainTypes := by
  simp [hasPlainTypes_mk, Kind.type?, Kind.parts, Kind.children, Kind.compound?]

theorem hasPlainTypes_ternary {c a b : Node} {o : Origin} :
    HasPlainTypes ⟨.ternary c a b, o⟩ ↔
      c.HasPlainTypes ∧ a.HasPlainTypes ∧ b.HasPlainTypes := by
  simp [hasPlainTypes_mk, Kind.type?, Kind.parts, Kind.children, Kind.compound?]

/-- The types of what is written with an operand in front are those of what it is made of. -/
theorem LedBy.hasPlainTypes {op : BinaryOperator} {left v e : Node} (h : LedBy op left v e)
    (hleft : left.HasPlainTypes) (hv : v.HasPlainTypes) : e.HasPlainTypes := by
  induction h with
  | tight => exact hasPlainTypes_binary.2 ⟨hleft, hv⟩
  | duplicate h o ih | coerce h t o ih | convert h hshown o ih =>
    exact ih (hv.part List.mem_cons_self)
  | group hop hl r o =>
    obtain ⟨hlv, hr⟩ := hasPlainTypes_binary.1 hv
    exact hasPlainTypes_binary.2 ⟨hasPlainTypes_binary.2 ⟨hleft, hlv⟩, hr⟩
  | binary hop hl h r o ih =>
    obtain ⟨hlv, hr⟩ := hasPlainTypes_binary.1 hv
    exact hasPlainTypes_binary.2 ⟨ih hlv, hr⟩
  | groupCondition hc a b o =>
    obtain ⟨hcv, hab⟩ := hasPlainTypes_ternary.1 hv
    exact hasPlainTypes_ternary.2 ⟨hasPlainTypes_binary.2 ⟨hleft, hcv⟩, hab⟩
  | condition hc h a b o ih =>
    obtain ⟨hcv, hab⟩ := hasPlainTypes_ternary.1 hv
    exact hasPlainTypes_ternary.2 ⟨ih hcv, hab⟩

theorem hasPlainTypes_reading {target : Target Node}
    (h : ∀ c ∈ target.children, c.HasPlainTypes) (o : Origin) :
    HasPlainTypes ⟨target.reading, o⟩ := by
  have hparts : target.reading.parts = target.children := by
    rcases target with i | ⟨_ | _, object, p⟩ <;>
      simp [Target.reading, Kind.parts, Kind.children, Kind.compound?, Target.children]
  refine hasPlainTypes_mk.2 ⟨fun q hq => ?_, fun c hc => h c (hparts ▸ hc)⟩
  rcases target with i | ⟨_ | _, object, p⟩ <;> cases hq

/-- An assignment whose compound operator and the equals sign spell another operator is written like
the expression that has this operator, on the assigned slot, in front of the value. -/
theorem source_of_ledBy {target : Target Node} {value : Node} {c : Compound Node}
    {d : Option UInt64} {o : Origin} {op : BinaryOperator} (hop : c.operator.withEquals? = some op)
    (hloose : c.value.precedence ≤ .assignment) {e : Node}
    (he : LedBy op ⟨target.reading, .synthetic⟩ c.value e) :
    source .empty ⟨.assign target value (some c) d, o⟩ = e.source .empty ∧
      e.hasSideEffect = (target.children.any hasSideEffect || c.value.hasSideEffect) := by
  have hleft : precedence ⟨target.reading, .synthetic⟩ ≤ op.precedence := by
    rw [precedence_reading]
    exact Nat.zero_le _
  refine ⟨?_, by rw [he.hasSideEffect_eq, hasSideEffect_reading]⟩
  rw [source_eq, source_eq, chars_assign_of_withEquals hop hloose, he.chars_eq .empty hleft]

/-- An assignment is written like no expression without effects, unless the operator of its compound
form and the equals sign spell another operator.  Then it is written like that operator on the
assigned slot and the value, as long as the value binds tighter, and this expression has the effects
of its parts only.  However tight the value binds, an assignment whose parts have no effects is then
written like some expression without effects, as long as no cast in the value is written. -/
theorem source_assignment {s : Node} {a : Assignment} (hs : s.assignment? = some a) :
    (∀ e : Node, s.HasPlainTypes → e.HasPlainTypes → e.hasSideEffect = false →
        a.compound.bind (·.operator.withEquals?) = none → s.source .empty ≠ e.source .empty) ∧
      (∀ c op, a.compound = some c → c.operator.withEquals? = some op →
        c.value.precedence < op.precedence →
        s.source .empty = (binary op (a.reading .synthetic) c.value).source .empty ∧
          (binary op (a.reading .synthetic) c.value).hasSideEffect =
            (a.target.children.any hasSideEffect || c.value.hasSideEffect)) ∧
      ∀ c op, a.compound = some c → c.operator.withEquals? = some op →
        a.target.children.any hasSideEffect = false → c.value.hasSideEffect = false →
        (∀ m, c.value.Reaches m → ∀ t v, m.kind = .convert t v → v.showsConversion t = false) →
        s.HasPlainTypes →
        ∃ e : Node, e.HasPlainTypes ∧ e.hasSideEffect = false ∧
          s.source .empty = e.source .empty := by
  obtain ⟨k, o⟩ := s
  obtain ⟨target, value, compound, d⟩ := a
  obtain rfl : k = .assign target value compound d := by
    cases k <;> simp_all [assignment?]
  refine ⟨fun e hs he hnone hword hsource => ?_, ?_, ?_⟩
  · have hstores := stores_assign hs (isStore_storeWord hword)
    have hsilent := (settles he start settled_start).2 hnone
    rw [source_eq, source_eq, String.ofList_inj] at hsource
    rw [hsource, hsilent] at hstores
    cases hstores
  · rintro c op rfl hop htight
    have hloose : op.precedence ≤ .assignment := by cases op <;> decide
    exact source_of_ledBy hop (Nat.le_trans (Nat.le_of_lt htight) hloose) (.tight htight)
  · rintro c op rfl hop htarget hvalue hshown hplain
    obtain ⟨e, he⟩ := exists_ledBy op ⟨target.reading, .synthetic⟩ hvalue hshown
    obtain ⟨hsource, heffect⟩ := source_of_ledBy hop (precedence_le_assignment hvalue) he
    rw [htarget, hvalue] at heffect
    refine ⟨e, he.hasPlainTypes (hasPlainTypes_reading (fun n hn => hplain.part ?_) _)
      (hplain.part ?_), heffect, hsource⟩
    · simp [Kind.parts, Kind.children, hn]
    · simp [Kind.parts, Kind.compound?]

/-- `_loc1_ op= 5`. -/
def storeFive (op : BinaryOperator) : Node :=
  (assign (.register 1) (binary op (register 1) (literal (.int 5)))).setCompound
    ⟨op, literal (.int 5)⟩

/-- `_loc1_ <= 5`. -/
def atMostFive : Node := binary .lessEquals (register 1) (literal (.int 5))

/-- `_loc1_ <= 5 == _loc2_`, which stores. -/
def storeLooseFive : Node :=
  (storeFive .lessThan).setCompound
    ⟨.lessThan, binary .equals (literal (.int 5)) (register 2)⟩

theorem hasPlainTypes_fives (op : BinaryOperator) :
    (storeFive op).HasPlainTypes ∧ storeLooseFive.HasPlainTypes ∧ atMostFive.HasPlainTypes := by
  refine ⟨?_, ?_, ?_⟩ <;> simp [storeFive, storeLooseFive, atMostFive, assign, setCompound, binary,
    register, literal, synthetic, hasPlainTypes_mk, Kind.type?, Kind.parts, Kind.children,
    Kind.compound?, Target.children]

/-- `_loc1_ += 5` is written like no comparison, and `_loc1_ <` with `= 5` behind it is; so is the
same with a comparison behind it. -/
theorem source_assignment_fives :
    (storeFive .add).source .empty ≠ atMostFive.source .empty ∧
      (storeFive .lessThan).source .empty = atMostFive.source .empty ∧
      ∃ e : Node, e.HasPlainTypes ∧ e.hasSideEffect = false ∧
        storeLooseFive.source .empty = e.source .empty := by
  have hadd := (source_assignment (s := storeFive .add) rfl).1
  have hless := (source_assignment (s := storeFive .lessThan) rfl).2.1
  have hloose := (source_assignment (s := storeLooseFive) rfl).2.2
  obtain ⟨hstore, hplain, hread⟩ := hasPlainTypes_fives .add
  refine ⟨hadd atMostFive hstore hread rfl rfl, (hless _ .lessEquals rfl rfl (by decide)).1,
    hloose _ .lessEquals rfl rfl rfl rfl ?_ hplain⟩
  -- the comparison and its operands are no casts
  simp [binary, register, literal, synthetic, reaches_mk, Kind.children]

/-- Assignments are not always written unlike expressions without effects. -/
theorem exists_assignment_source_eq :
    ¬ ∀ s e : Node, s.assignment?.isSome = true → s.HasPlainTypes → e.HasPlainTypes →
      e.hasSideEffect = false → s.source .empty ≠ e.source .empty := by
  intro h
  obtain ⟨hstore, -, hread⟩ := hasPlainTypes_fives .lessThan
  have htight : (literal (.int 5)).precedence < BinaryOperator.lessEquals.precedence := by decide
  exact h (storeFive .lessThan) atMostFive rfl hstore hread rfl
    (source_of_ledBy rfl (by decide) (.tight htight)).1

end Node

end ActionTree
