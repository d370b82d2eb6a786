import ActionTree.Node.Build
import ActionTree.Proofs.Json.Numerals
import ActionTree.Proofs.Writing.Occurrence

/-!
# Points behind digits

A receiver is written without parentheses when it binds like a name, and a literal that is not
negative does.  So a point can stand right behind the digits of an integer, where a reader of the
text takes it for a decimal point.

* `Kind.pointed?` - the receiver that has a point behind it in the text of a kind;
* `Node.Stands`, `Node.stands` - what a part can have behind it in the text of a node;
* `Node.writes_point_iff` - **a point follows digits in a text just where a member of such a literal
  is written**;
* `Node.exists_writes_point` - there are such texts.
-/

namespace ActionTree

open Piece

/-! ### Receivers -/

namespace Property

variable (locals : Locals)

/-- The pieces of a property of an object, looked up in either way. -/
def lookupPieces (lookup : Lookup) (object : Node) (p : Property Node) : List Piece :=
  match lookup with
  | .direct => p.accessPieces object
  | .super => p.superPieces locals object

/-- Whether the object is written with a point behind it. -/
def putsPoint (lookup : Lookup) (object : Node) (p : Property Node) : Bool :=
  match lookup with
  | .direct => !object.isScopeReceiver && p.hasBareForm
  | .super => !(object.rendersAsThis locals || object.isScopeReceiver)

/-- The point is the first character behind the object. -/
theorem exists_point {lookup : Lookup} {object : Node} {p : Property Node}
    (h : p.putsPoint locals lookup object = true) :
    ∃ rest cs, p.lookupPieces locals lookup object = .operand .primary object :: rest ∧
      rowChars locals rest = '.' :: cs := by
  cases lookup with
  | direct =>
    obtain ⟨name, runtime⟩ := p
    cases runtime with
    | some n => simp [putsPoint, hasBareForm] at h
    | none =>
      obtain ⟨hobject, hname⟩ : object.isScopeReceiver = false ∧ isIdentifier name.name = true := by
        simpa [putsPoint, hasBareForm] using h
      exact ⟨[.own [".", name.name]], name.name.toList, by
        simp [lookupPieces, accessPieces, memberPieces, hobject, hname], by simp [chars]⟩
  | super =>
    have himplied : (object.rendersAsThis locals || object.isScopeReceiver) = false := by
      simpa [putsPoint] using h
    exact ⟨.own [".", "super"] :: p.memberPieces, _, by
      simp [lookupPieces, superPieces, himplied], rfl⟩

end Property

namespace Kind

variable (locals : Locals)

/-- The receiver that the text of a kind starts with and that has a point behind it. -/
def pointed? (k : Kind Node) : Option Node :=
  match k.access? with
  | some (lookup, object, p) => if p.putsPoint locals lookup object then some object else none
  | none => none

theorem access_of_pointed {k : Kind Node} {object : Node} (h : k.pointed? locals = some object) :
    ∃ lookup p, k.access? = some (lookup, object, p) ∧
      p.putsPoint locals lookup object = true := by
  rw [pointed?] at h
  split at h
  case h_1 lookup object' p haccess =>
    split_ifs at h with hputs
    cases h
    exact ⟨lookup, p, haccess, hputs⟩
  case h_2 => cases h

/-- The pieces behind an access: arguments, or the assigned value. -/
def afterAccess : Kind Node → List Piece
  | .call _ _ _ as => arguments as
  | .assign _ v c _ => assignedPieces v c
  | _ => []

theorem pieces_access {k : Kind Node} {lookup : Lookup} {object : Node} {p : Property Node}
    (h : k.access? = some (lookup, object, p)) :
    k.pieces locals = p.lookupPieces locals lookup object ++ k.afterAccess := by
  cases k with
  | get | getSuper =>
    cases h
    exact (List.append_nil _).symm
  | call lookup object p as =>
    cases h
    cases lookup <;> rfl
  | assign target v c d => rcases target with i | ⟨_ | _, object, p⟩ <;> cases h <;> rfl
  | _ => cases h

end Kind

/-! ### What follows a part -/

namespace Node

variable (locals : Locals)

/-- What a part can have behind it in the text of a node.  A point there follows the receiver of a
property, and a part at the end is in parentheses, or the last operand of an operator, or the node
is written like the part. -/
structure Stands (n : Node) (grouped : Bool) (c : Node) (behind : List Char) : Prop where
  point : behind.head? = some '.' →
    n.kind.pointed? locals = some c ∧ grouped = decide (.primary < c.precedence)
  last : behind = [] →
    grouped = true ∨ 0 < n.precedence ∨ n.asWritten = c.asWritten ∧ n.precedence = c.precedence

/-- The parts among pieces stand so, where more pieces come behind them. -/
def EachStands (n : Node) (ps more : List Piece) : Prop :=
  EachBefore (fun grouped c rest => n.Stands locals grouped c (rowChars locals (rest ++ more))) ps

variable {locals} {n c : Node} {grouped : Bool}

theorem EachStands.append {ps qs more : List Piece} (hps : n.EachStands locals ps (qs ++ more))
    (hqs : n.EachStands locals qs more) : n.EachStands locals (ps ++ qs) more := by
  refine eachBefore_append.2 ⟨?_, hqs⟩
  simp only [List.append_assoc]
  exact hps

theorem EachStands.of_split {ps qs : List Piece}
    (h : n.EachStands locals (ps ++ part grouped c :: qs) []) :
    n.Stands locals grouped c (rowChars locals qs) := by
  simpa only [List.append_nil] using EachBefore.of_split h

theorem stands_of_head {d : Char} {behind : List Char} (h : behind.head? = some d) (hd : d ≠ '.') :
    n.Stands locals grouped c behind where
  point hpoint := absurd (Option.some.inj (h.symm.trans hpoint)) hd
  last hnone := by
    rw [hnone] at h
    cases h

theorem stands_grouped : n.Stands locals true c [] := ⟨nofun, fun _ => .inl rfl⟩

theorem stands_last (h : 0 < n.precedence) : n.Stands locals grouped c [] :=
  ⟨nofun, fun _ => .inr (.inl h)⟩

theorem stands_same (h : n.asWritten = c.asWritten) (hlevel : n.precedence = c.precedence) :
    n.Stands locals grouped c [] :=
  ⟨nofun, fun _ => .inr (.inr ⟨h, hlevel⟩)⟩

section Access

variable {lookup : Lookup} {object : Node} {p : Property Node}

theorem stands_receiver (hpoint : n.kind.pointed? locals = some object) {behind : List Char}
    (h : behind.head? = some '.') :
    n.Stands locals (.primary < object.precedence) object behind where
  point _ := ⟨hpoint, rfl⟩
  last hnone := by
    rw [hnone] at h
    cases h

/-- The expression of a computed name has a bracket behind it. -/
theorem stands_memberPieces (more : List Piece) : n.EachStands locals p.memberPieces more := by
  rw [Property.memberPieces]
  split
  · exact ⟨stands_of_head (d := ']') rfl (by decide), trivial⟩
  · split_ifs <;> trivial

theorem stands_barePieces (more : List Piece) : n.EachStands locals p.barePieces more := by
  rw [Property.barePieces]
  split_ifs
  · trivial
  · exact stands_memberPieces more

theorem head?_memberPieces (more : List Piece) :
    (rowChars locals (p.memberPieces ++ more)).head? =
      some (if p.hasBareForm then '.' else '[') := by
  obtain ⟨name, runtime⟩ := p
  cases runtime with
  | some n => rfl
  | none =>
    by_cases hname : isIdentifier name.name <;>
      simp [Property.memberPieces, Property.hasBareForm, hname, Piece.chars]

theorem stands_lookupPieces
    (h : p.putsPoint locals lookup object = true → n.kind.pointed? locals = some object)
    (more : List Piece) : n.EachStands locals (p.lookupPieces locals lookup object) more := by
  cases lookup with
  | direct =>
    rw [Property.lookupPieces, Property.accessPieces]
    split_ifs with hscope
    · exact stands_barePieces more
    · refine ⟨?_, stands_memberPieces more⟩
      by_cases hbare : p.hasBareForm = true
      · refine stands_receiver (h ?_) ?_
        · simp [Property.putsPoint, hscope, hbare]
        · rw [head?_memberPieces, if_pos hbare]
      · refine stands_of_head (d := '[') ?_ (by decide)
        rw [head?_memberPieces, if_neg hbare]
  | super =>
    rw [Property.lookupPieces, Property.superPieces]
    split_ifs with himplied
    · exact stands_memberPieces more
    · refine ⟨stands_receiver (h ?_) rfl, stands_memberPieces more⟩
      simp only [Property.putsPoint, himplied]
      rfl

/-- The pieces of a kind that accesses a property. -/
theorem stands_access {o : Origin} {k : Kind Node} (h : k.access? = some (lookup, object, p))
    (more : List Piece) :
    EachStands locals ⟨k, o⟩ (p.lookupPieces locals lookup object) more :=
  stands_lookupPieces (fun hpoint => by rw [Kind.pointed?, h]; exact if_pos hpoint) more

end Access

/-! ### All parts -/

theorem exists_head?_moreArguments (locals : Locals) (as : List Node) :
    ∃ d, (rowChars locals (moreArguments as ++ [.own [")"]])).head? = some d ∧ d ≠ '.' := by
  cases as with
  | nil => exact ⟨')', rfl, by decide⟩
  | cons a as => exact ⟨',', rfl, by decide⟩

theorem stands_moreArguments (as : List Node) :
    n.EachStands locals (moreArguments as) [.own [")"]] := by
  induction as with
  | nil => trivial
  | cons a as ih =>
    obtain ⟨d, hd, hne⟩ := exists_head?_moreArguments locals as
    exact ⟨stands_of_head hd hne, ih⟩

/-- Arguments have a comma or a parenthesis behind them. -/
theorem stands_arguments (as : List Node) : n.EachStands locals (arguments as) [] := by
  cases as with
  | nil => trivial
  | cons a as =>
    obtain ⟨d, hd, hne⟩ := exists_head?_moreArguments locals as
    have hmore : n.EachStands locals (moreArguments as ++ [.own [")"]]) [] :=
      (stands_moreArguments as).append trivial
    exact ⟨stands_of_head (by rwa [List.append_nil]) hne, hmore⟩

theorem stands_assignedPieces {target : Target Node} {value : Node}
    {compound : Option (Compound Node)} {d : Option UInt64} {o : Origin} :
    EachStands locals ⟨.assign target value compound d, o⟩ (assignedPieces value compound) [] := by
  cases compound <;> exact ⟨stands_last (Nat.zero_lt_succ _), trivial⟩

theorem stands_afterAccess (k : Kind Node) (o : Origin) :
    EachStands locals ⟨k, o⟩ k.afterAccess [] := by
  cases k with
  | call lookup object p as => exact stands_arguments as
  | assign target v c d => exact stands_assignedPieces
  | _ => trivial

/-- Every part of a node stands there as said. -/
theorem stands (k : Kind Node) (o : Origin) : EachStands locals ⟨k, o⟩ (k.pieces locals) [] := by
  rcases haccess : k.access? with _ | ⟨lookup, object, p⟩
  · cases k with
    | get | getSuper | call => cases haccess
    | literal | this | register | returnVoid => trivial
    | scope p => exact stands_barePieces []
    | duplicate v | coerce t v => exact ⟨stands_same rfl rfl, trivial⟩
    | convert t v =>
      rw [Kind.pieces]
      split_ifs with hshown
      · exact ⟨stands_grouped, trivial⟩
      · exact ⟨stands_same (by rw [asWritten, if_neg hshown]) rfl, trivial⟩
    | construct object as => exact stands_arguments as
    | assign target v c d =>
      cases target with
      | register i => exact stands_assignedPieces
      | property => cases haccess
    | binary op l r =>
      have hloose : 0 < op.precedence := by cases op <;> decide
      exact ⟨stands_of_head (d := ' ') rfl (by decide), stands_last hloose, trivial⟩
    | unary op v =>
      rw [Kind.pieces]
      split_ifs
      · exact ⟨stands_grouped, trivial⟩
      · exact ⟨stands_last (Nat.zero_lt_succ _), trivial⟩
    | ternary c a b =>
      exact ⟨stands_of_head (d := ' ') rfl (by decide), stands_of_head (d := ' ') rfl (by decide),
        stands_last (Nat.zero_lt_succ _), trivial⟩
    | declare i t v =>
      cases v with
      | none => trivial
      | some v => exact ⟨stands_last (Nat.zero_lt_succ _), trivial⟩
    | returnValue v | throw v => exact ⟨stands_last (Nat.zero_lt_succ _), trivial⟩
  · rw [k.pieces_access locals haccess]
    exact (stands_access haccess _).append (stands_afterAccess k o)

end Node

/-! ### Literals of digits -/

/-- The text of a negative literal starts with a minus. -/
theorem Literal.exists_minus {l : Literal} (h : l.isNegative = true) :
    ∃ cs, l.text.toList = '-' :: cs := by
  cases l with
  | int i =>
    have hnegative : i.toInt < 0 := by
      simpa [isNegative, Int32.lt_iff_toInt_lt] using h
    exact ⟨_, by rw [text, integerText, if_pos hnegative, String.toList_ofList]⟩
  | number x =>
    cases x with
    | nan => cases h
    | infinite s =>
      obtain rfl : s = true := h
      exact ⟨"Infinity".toList, rfl⟩
    | finite s r =>
      obtain rfl : s = true := h
      exact ⟨_, by rw [text, numberLiteral, NumberStyle.write, String.toList_ofList]; rfl⟩
  | _ => cases h

namespace Node

variable {locals : Locals} {n m : Node}

/-- A literal that is written with digits only. -/
def IsDigitLiteral (n : Node) : Prop := ∃ l, n.kind = .literal l ∧ IsDigits l.text.toList

theorem IsDigitLiteral.precedence_eq (h : n.IsDigitLiteral) : n.precedence = .primary := by
  obtain ⟨k, o⟩ := n
  obtain ⟨l, rfl, hdigits⟩ := h
  have hpositive : l.isNegative = false := by
    refine Bool.eq_false_iff.2 fun hnegative => ?_
    obtain ⟨cs, htext⟩ := Literal.exists_minus hnegative
    have hminus : '-'.isDigit = true := hdigits.2 '-' (by rw [htext]; exact List.mem_cons_self)
    cases hminus
  show l.precedence = .primary
  rw [Literal.precedence, hpositive]
  rfl

theorem IsDigitLiteral.asWritten_eq (h : n.IsDigitLiteral) : n.asWritten = n := by
  obtain ⟨k, o⟩ := n
  obtain ⟨l, rfl, -⟩ := h
  rfl

/-- What ends a text without parentheses is the node itself as it is written, or an operand. -/
theorem Writes.asWritten_eq {before after : List Char} (h : n.Writes locals m before after)
    (hm : m.asWritten = m) (hafter : after = []) : n.asWritten = m ∨ 0 < n.precedence := by
  induction h with
  | root n => exact .inl hm
  | @part k o ps qs grouped c m before after hpieces _ ih =>
    -- nothing stands behind the part either, so it is the last one
    obtain ⟨hinner, hclosing, hbehind⟩ :
        after = [] ∧ closing grouped = [] ∧ rowChars locals qs = [] := by
      simpa using hafter
    have hstands : Stands locals ⟨k, o⟩ grouped c (rowChars locals qs) :=
      (hpieces ▸ stands k o).of_split
    rcases hstands.last hbehind with rfl | hloose | ⟨hsame, hlevel⟩
    · cases hclosing
    · exact .inr hloose
    · rw [hsame, hlevel]
      exact ih hm hinner

/-- A point behind a literal of digits is the one behind a receiver. -/
theorem Writes.exists_pointed {before after : List Char} (h : n.Writes locals m before after)
    (hm : m.IsDigitLiteral) (hpoint : after.head? = some '.') :
    ∃ a object before after, n.Writes locals a before after ∧
      a.kind.pointed? locals = some object ∧ object.asWritten = m := by
  induction h with
  | root n => cases hpoint
  | @part k o ps qs grouped c m before after hpieces hpart ih =>
    cases after with
    | cons d after =>
      -- the point stands in the text of the part
      obtain ⟨a, object, before', after', hwrites, hrest⟩ := ih hm hpoint
      exact ⟨a, object, _, _, .part hpieces hwrites, hrest⟩
    | nil =>
      -- the part ends with the literal, and the point stands behind it
      have hstands : Stands locals ⟨k, o⟩ grouped c (rowChars locals qs) :=
        (hpieces ▸ stands k o).of_split
      cases grouped with
      | true => cases hpoint
      | false =>
        obtain ⟨hpointed, htight⟩ := hstands.point hpoint
        have hsame : c.asWritten = m :=
          (hpart.asWritten_eq hm.asWritten_eq rfl).resolve_right (of_decide_eq_false htight.symm)
        exact ⟨⟨k, o⟩, c, [], [], .root _, hpointed, hsame⟩

/-- The receiver that has a point behind it is written there. -/
theorem exists_writes_pointed {object : Node} (h : n.kind.pointed? locals = some object)
    (hlevel : object.precedence = .primary) :
    ∃ after, n.Writes locals object [] ('.' :: after) := by
  obtain ⟨k, o⟩ := n
  obtain ⟨lookup, p, haccess, hputs⟩ := Kind.access_of_pointed locals h
  obtain ⟨rest, cs, hreceiver, hrest⟩ := p.exists_point locals hputs
  have hpieces : k.pieces locals = [] ++ .part false object :: (rest ++ k.afterAccess) := by
    rw [k.pieces_access locals haccess, hreceiver, operand_of_le (Nat.le_of_eq hlevel)]
    rfl
  have hwrites := Writes.part (o := o) hpieces (.root object)
  rw [rowChars_append, hrest] at hwrites
  exact ⟨_, hwrites⟩

/-- In the text of a tree, a point stands right behind a literal of digits just where a member of
such a literal is written, perhaps under copies and conversions that leave no trace. -/
theorem writes_point_iff (locals : Locals) (n : Node) :
    (∀ m before after, n.Writes locals m before after →
        n.source locals = String.ofList (before ++ m.chars locals ++ after)) ∧
      ((∃ m before after, n.Writes locals m before ('.' :: after) ∧ m.IsDigitLiteral) ↔
        ∃ a object before after, n.Writes locals a before after ∧
          a.kind.pointed? locals = some object ∧ object.asWritten.IsDigitLiteral) := by
  refine ⟨fun m before after h => by rw [source_eq, h.chars_eq], ?_, ?_⟩
  · rintro ⟨m, before, after, hwrites, hm⟩
    obtain ⟨a, object, before, after, ha, hpointed, hsame⟩ := hwrites.exists_pointed hm rfl
    exact ⟨a, object, before, after, ha, hpointed, hsame ▸ hm⟩
  · rintro ⟨a, object, before, after, ha, hpointed, hobject⟩
    obtain ⟨hwritten, hlevel⟩ := object.writes_asWritten locals
    obtain ⟨rest, hreceiver⟩ :=
      exists_writes_pointed hpointed (hlevel.symm.trans hobject.precedence_eq)
    exact ⟨_, _, _, ha.trans (hreceiver.trans hwritten), hobject⟩

/-- `5.x`. -/
def memberOfFive : Node := get (literal (.int 5)) (.static (.ofName "x"))

/-- The point of `5.x` follows a digit. -/
theorem writes_point_iff_memberOfFive :
    memberOfFive.source .empty = "5.x" ∧
      ∃ m before after, memberOfFive.Writes .empty m before ('.' :: after) ∧ m.IsDigitLiteral := by
  obtain ⟨hsource, hpoint⟩ := writes_point_iff .empty memberOfFive
  have hfive : IsDigitLiteral (literal (.int 5)) := ⟨.int 5, rfl, isDigits_toDigits 5⟩
  exact ⟨hsource memberOfFive [] [] (.root _), hpoint.2 ⟨_, _, [], [], .root _, rfl, hfive⟩⟩

/-- A member of a literal of digits is not always kept apart from them. -/
theorem exists_writes_point :
    ¬ ∀ (object : Node) (name : String), isIdentifier name = true →
      ∀ m before after,
        (get object (.static (.ofName name))).Writes .empty m before ('.' :: after) →
          ¬ m.IsDigitLiteral := by
  intro h
  have hfive : IsDigitLiteral (literal (.int 5)) := ⟨.int 5, rfl, isDigits_toDigits 5⟩
  have hpointed : memberOfFive.kind.pointed? .empty = some (literal (.int 5)) := rfl
  obtain ⟨after, hwrites⟩ := exists_writes_pointed hpointed rfl
  exact h _ "x" (by decide) _ _ _ hwrites hfive

end Node

end ActionTree
