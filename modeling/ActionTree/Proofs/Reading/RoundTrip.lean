import ActionTree.Proofs.Equality.Bare
import ActionTree.Proofs.Reading.Grammar

/-!
# Texts determine expressions

The reader undoes rendering on expressions whose text shows all there is to them, so no two of them
that differ share a text.

* `Node.IsExpression` - these expressions;
* `Node.Legible` - read in a context that asks for no parentheses, the text gives the expression;
* `Node.IsExpression.legible` - every such expression is legible;
* `Node.read?_chars` - its text reads as the expression;
* `Node.beq_of_source_eq` - **texts determine expressions**.
-/

namespace ActionTree

/-! ### Expressions -/

/-- A name that is written after a dot, or one that an expression computes. -/
def Property.IsMember {α : Type} (p : Property α) : Prop :=
  match p.runtime with
  | none => p.name.namespace = .topLevel ∧ isIdentifier p.name.name = true
  | some _ => p.name = .ofName ""

theorem Property.IsMember.isIdentifier {α : Type} {p : Property α} (h : p.IsMember)
    (hstatic : p.runtime = none) : isIdentifier p.name.name = true := by
  rw [Property.IsMember, hstatic] at h
  exact h.2

/-- The kinds of which the text shows all there is. -/
def Kind.IsExpression {α : Type} : Kind α → Prop
  | .literal (.uint _) | .literal (.string _) | .literal (.boolean _) => True
  | .literal .null | .literal .undefined => True
  | .register i t => i ≠ 0 ∧ t = .any
  | .unary .. | .binary .. | .ternary .. => True
  | .assign (.register i) _ none _ => i ≠ 0
  | .get _ p t => p.IsMember ∧ t = .any
  | .call .direct _ p _ => p.IsMember
  | _ => False

/-- Operators bind between a negation and a choice. -/
theorem BinaryOperator.precedence_bounds (op : BinaryOperator) :
    1 < op.precedence ∧ op.precedence ≤ 11 := by
  cases op <;> decide

namespace Node

open Reader

/-- The trees of these kinds throughout. -/
inductive IsExpression : Node → Prop
  | mk {k : Kind Node} {o : Origin} (hkind : k.IsExpression)
      (hparts : ∀ c ∈ k.parts, IsExpression c) : IsExpression ⟨k, o⟩

theorem IsExpression.kind {k : Kind Node} {o : Origin} (h : IsExpression ⟨k, o⟩) :
    k.IsExpression := by
  obtain ⟨hkind, -⟩ := h
  exact hkind

/-- No expression is left out as a receiver. -/
theorem IsExpression.isScopeReceiver {n : Node} (h : n.IsExpression) :
    n.isScopeReceiver = false := by
  obtain ⟨k, o⟩ := n
  cases k with
  | scope | duplicate => exact h.kind.elim
  | _ => rfl

/-- No expression binds looser than an assignment. -/
theorem IsExpression.precedence_le {n : Node} (h : n.IsExpression) :
    n.precedence ≤ .assignment := by
  obtain ⟨k, o⟩ := n
  cases k with
  | literal l =>
    cases l with
    | int | number => exact h.kind.elim
    | _ => exact Nat.zero_le _
  | binary op l r => exact Nat.le_trans op.precedence_bounds.2 (by decide)
  | unary | ternary | assign | get | call | register => exact Nat.le_of_ble_eq_true rfl
  | _ => exact h.kind.elim

/-- The level of the last operand that the text of a node ends with. -/
def tail? : Node → Option Precedence
  | ⟨.unary .., _⟩ => some .unary
  | ⟨.binary op .., _⟩ => some (op.precedence - 1)
  | ⟨.ternary .., _⟩ | ⟨.assign .., _⟩ => some .assignment
  | _ => none

/-- The last operand of a negation, of a binary operator, and of a choice or an assignment, with the
levels as numbers. -/
theorem tail?_cases {n : Node} {q : Nat} (h : n.tail? = some q) :
    (q = 1 ∧ n.precedence = 1) ∨ (q + 1 = n.precedence ∧ n.precedence ≤ 11) ∨
      (q = 13 ∧ 12 ≤ n.precedence) := by
  obtain ⟨k, o⟩ := n
  cases k with
  | unary op v =>
    cases h
    exact .inl ⟨rfl, rfl⟩
  | binary op l r =>
    cases h
    have hop := op.precedence_bounds
    exact .inr (.inl ⟨Nat.sub_add_cancel (Nat.le_of_lt hop.1), hop.2⟩)
  | ternary c a b =>
    cases h
    exact .inr (.inr ⟨rfl, Nat.le_refl 12⟩)
  | assign t v c d =>
    cases h
    exact .inr (.inr ⟨rfl, Nat.le_succ 12⟩)
  | _ => cases h

/-! ### Where a text can end -/

/-- Before the rest, neither the last word of a node nor its last operand goes on. -/
structure Ends (n : Node) (rest : List Char) : Prop where
  breaks : Breaks rest
  stops : ∀ q, n.tail? = some q → Stops q rest

variable {n : Node} {rest : List Char}

theorem Ends.of_closes (h : Closes rest) : n.Ends rest := by
  refine ⟨h.breaks, fun q hq => h.stops.mono ?_⟩
  have hcases := tail?_cases hq
  show q ≤ 13
  grind

/-- A right operand ends where the operator that it belongs to does. -/
theorem Ends.of_stops {level : Nat} (hbreaks : Breaks rest) (hstop : Stops level rest)
    (hlevel : n.precedence ≤ level) (htight : level ≤ 11) : n.Ends rest := by
  refine ⟨hbreaks, fun q hq => hstop.mono ?_⟩
  have hcases := tail?_cases hq
  grind

/-- A left operand ends before an operator that binds no tighter. -/
theorem Ends.of_level {level : Nat} (hbreaks : Breaks rest)
    (hfollow : (follow rest).1.level = level) (hloose : 1 < level) (hlevel : n.precedence ≤ level)
    (htight : n.precedence ≤ 11) : n.Ends rest := by
  refine ⟨hbreaks, fun q hq => ?_⟩
  rw [Stops, hfollow]
  have hcases := tail?_cases hq
  grind

/-- A primary expression ends with its last word. -/
theorem Ends.of_primary (hbreaks : Breaks rest) (hprimary : n.precedence ≤ .primary) :
    n.Ends rest := by
  have hzero : n.precedence = 0 := Nat.le_zero.1 hprimary
  refine ⟨hbreaks, fun q hq => ?_⟩
  have hcases := tail?_cases hq
  grind

/-! ### Legible trees -/

/-- Read at a level that asks for no parentheses, the text gives the expression. -/
structure Legible (n : Node) : Prop where
  expression : n.IsExpression
  reads : ∀ level rest, n.precedence ≤ level → n.Ends rest →
    Reads level n.bare (n.chars .empty) rest

theorem Legible.group (h : n.Legible) {level : Precedence} :
    Reads level n.bare (group (n.chars .empty)) rest :=
  reads_group (h.reads .assignment _ h.expression.precedence_le (.of_closes closes_parenthesis))

/-- An operand is read in its context, with or without parentheses. -/
theorem Legible.operand (h : n.Legible) {context level : Precedence} (hcontext : context ≤ level)
    (hends : n.precedence ≤ context → n.Ends rest) :
    Reads level n.bare (n.operandChars .empty context) rest := by
  unfold operandChars
  split_ifs with hloose
  · exact h.group
  · have hfits := Nat.not_lt.1 hloose
    exact h.reads level rest (Nat.le_trans hfits hcontext) (hends hfits)

/-- An operand that nothing follows is read whole. -/
theorem Legible.argument (h : n.Legible) (hrest : Closes rest) :
    Reads .assignment n.bare (n.operandChars .empty .assignment) rest :=
  h.operand (Nat.le_refl _) fun _ => .of_closes hrest

/-! ### One lemma for each kind -/

variable {o : Origin}

/-- A node whose text is one token. -/
theorem legible_leaf {k : Kind Node} (h : IsExpression ⟨k, o⟩)
    (hstart : ∀ rest, Breaks rest →
      start? (chars .empty ⟨k, o⟩ ++ rest) = some (.leaf (bare ⟨k, o⟩), rest)) :
    Legible ⟨k, o⟩ :=
  ⟨h, fun _ _ _ hends => reads_leaf hstart hends.breaks⟩

theorem legible_literal {l : Literal} (h : IsExpression ⟨.literal l, o⟩) :
    Legible ⟨.literal l, o⟩ := by
  refine legible_leaf h fun rest hrest => ?_
  obtain ⟨hboolean, hnull, hundefined⟩ := start?_constants hrest
  rw [chars_literal, bare_mk]
  cases l with
  | int | number => exact h.kind.elim
  | uint i => exact start?_uint i hrest
  | string s => exact start?_string s rest
  | boolean b => exact hboolean b
  | null => exact hnull
  | undefined => exact hundefined

theorem legible_register {i : UInt32} {t : StaticType} (h : IsExpression ⟨.register i t, o⟩) :
    Legible ⟨.register i t, o⟩ := by
  refine legible_leaf h fun rest hrest => ?_
  obtain ⟨hi, rfl⟩ := h.kind
  rw [chars_register, bare_mk]
  exact start?_register i hi hrest

theorem legible_unary {op : UnaryOperator} {v : Node} (h : IsExpression ⟨.unary op v, o⟩)
    (hv : v.Legible) : Legible ⟨.unary op v, o⟩ := by
  refine ⟨h, fun level rest _ hends => ?_⟩
  have hstop : Stops .unary rest := hends.stops _ rfl
  rw [chars_unary, bare_mk]
  -- The parentheses around a second minus do not change what is read.
  split_ifs with hminus
  · exact reads_unary hv.group hstop
  · refine reads_unary (hv.operand (Nat.le_refl _) fun hlevel => ?_) hstop
    exact .of_stops hends.breaks hstop hlevel (by decide)

theorem legible_binary {op : BinaryOperator} {l r : Node} (h : IsExpression ⟨.binary op l r, o⟩)
    (hl : l.Legible) (hr : r.Legible) : Legible ⟨.binary op l r, o⟩ := by
  refine ⟨h, fun level rest hlevel hends => ?_⟩
  have hop := op.precedence_bounds
  have hstop : Stops (op.precedence - 1) rest := hends.stops _ rfl
  have hright : Reads (op.precedence - 1) r.bare (r.operandChars .empty (op.precedence - 1)) rest :=
    hr.operand (Nat.le_refl _) fun hfits =>
      .of_stops hends.breaks hstop hfits (Nat.le_trans (Nat.sub_le _ 1) hop.2)
  rw [chars_binary, bare_mk, List.append_assoc]
  -- The left operand ends before the operator, which binds no tighter than it.
  refine (hl.operand hlevel fun hfits => ?_).append (extends_operation hlevel hright hstop)
  refine .of_level rfl ?_ hop.1 hfits (Nat.le_trans hfits hop.2)
  have hfollow := follow_operation op (r.operandChars .empty (op.precedence - 1) ++ rest)
  simp only [List.cons_append, List.append_assoc, List.nil_append] at hfollow ⊢
  rw [hfollow, Follow.level]

theorem legible_ternary {c a b : Node} (h : IsExpression ⟨.ternary c a b, o⟩) (hc : c.Legible)
    (ha : a.Legible) (hb : b.Legible) : Legible ⟨.ternary c a b, o⟩ := by
  refine ⟨h, fun level rest hlevel hends => ?_⟩
  have hstop : Stops .assignment rest := hends.stops _ rfl
  have hconditional : .logicalOr ≤ level := Nat.le_of_succ_le hlevel
  have hextends : Extends level c.bare (ternary c.bare a.bare b.bare)
      ([' ', '?', ' '] ++ a.operandChars .empty .assignment ++ [' ', ':', ' '] ++
        b.operandChars .empty .assignment) rest :=
    extends_choice hlevel (ha.argument closes_colon) (hb.argument ⟨hends.breaks, hstop⟩) hstop
  rw [chars_ternary, bare_mk]
  simp only [List.append_assoc] at hextends ⊢
  refine (hc.operand hconditional fun hfits => ?_).append hextends
  refine .of_level rfl ?_ (by decide) (Nat.le_succ_of_le hfits) hfits
  rw [List.append_assoc, follow_choice]
  rfl

theorem legible_assign {i : UInt32} {v : Node} {d : Option UInt64}
    (h : IsExpression ⟨.assign (.register i) v none d, o⟩) (hv : v.Legible) :
    Legible ⟨.assign (.register i) v none d, o⟩ := by
  refine ⟨h, fun level rest hlevel hends => ?_⟩
  have hi : i ≠ 0 := h.kind
  have hstop : Stops .assignment rest := hends.stops _ rfl
  rw [chars_assign, bare_mk, List.append_assoc]
  have htarget : Reads level (register i) (Locals.empty.name i).toList
      ([' ', '=', ' '] ++ v.operandChars .empty .assignment ++ rest) :=
    reads_leaf (fun _ => start?_register i hi) rfl
  exact htarget.append (extends_store hlevel (hv.argument ⟨hends.breaks, hstop⟩) hstop)

/-- The access to a member is read in any context, also as the beginning of a call. -/
theorem reads_access {object : Node} {p : Property Node} (hobject : object.Legible)
    (hmember : p.IsMember) (hname : ∀ n ∈ p.children, n.Legible) {level : Precedence}
    (hrest : Breaks rest) :
    Reads level (get object.bare (p.map bare))
      (object.operandChars .empty .primary ++ memberChars .empty p) rest := by
  obtain ⟨name, runtime⟩ := p
  cases runtime with
  | none =>
    obtain ⟨space, name⟩ := name
    obtain ⟨rfl, hidentifier⟩ := hmember
    have hbreaks : Breaks ('.' :: name.toList ++ rest) := rfl
    exact (hobject.operand (Nat.zero_le _) (.of_primary hbreaks)).append
      (extends_member hidentifier hrest)
  | some n =>
    cases hmember
    have hn := hname n (by simp [Property.children])
    have hinside := hn.reads .assignment (']' :: rest) hn.expression.precedence_le
      (.of_closes closes_bracket)
    have hbreaks : Breaks ('[' :: (n.chars .empty ++ [']']) ++ rest) := rfl
    exact (hobject.operand (Nat.zero_le _) (.of_primary hbreaks)).append (extends_index hinside)

theorem legible_get {object : Node} {p : Property Node} {t : StaticType}
    (h : IsExpression ⟨.get object p t, o⟩) (hobject : object.Legible)
    (hname : ∀ n ∈ p.children, n.Legible) : Legible ⟨.get object p t, o⟩ := by
  refine ⟨h, fun level rest _ hends => ?_⟩
  obtain ⟨hmember, rfl⟩ := h.kind
  rw [chars_get _ _ _ hobject.expression.isScopeReceiver hmember.isIdentifier, bare_mk]
  exact reads_access hobject hmember hname hends.breaks

theorem legible_call {object : Node} {p : Property Node} {as : List Node}
    (h : IsExpression ⟨.call .direct object p as, o⟩) (hobject : object.Legible)
    (hname : ∀ n ∈ p.children, n.Legible) (has : ∀ a ∈ as, a.Legible) :
    Legible ⟨.call .direct object p as, o⟩ := by
  refine ⟨h, fun level rest _ hends => ?_⟩
  have hmember : p.IsMember := h.kind
  have hscope := hobject.expression.isScopeReceiver
  rw [chars_call _ as .any o o hscope hmember.isIdentifier,
    chars_get _ _ _ hscope hmember.isIdentifier, bare_mk]
  have hbreaks : Breaks (Node.group (argumentChars .empty as) ++ rest) := rfl
  refine (reads_access hobject hmember hname hbreaks).append
    (extends_call fun a ha rest hrest => ?_)
  exact (has a ha).argument hrest

/-! ### All expressions -/

theorem IsExpression.legible {n : Node} (h : n.IsExpression) : n.Legible := by
  induction h with
  | @mk k o hkind hparts ih =>
    -- Each kind has its lemma, and all other kinds are no expressions.
    have h : IsExpression ⟨k, o⟩ := ⟨hkind, hparts⟩
    cases k with
    | literal l => exact legible_literal h
    | register i t => exact legible_register h
    | unary op v => exact legible_unary h (ih v (by simp [Kind.parts, Kind.children]))
    | binary op l r =>
      exact legible_binary h (ih l (by simp [Kind.parts, Kind.children]))
        (ih r (by simp [Kind.parts, Kind.children]))
    | ternary c a b =>
      exact legible_ternary h (ih c (by simp [Kind.parts, Kind.children]))
        (ih a (by simp [Kind.parts, Kind.children])) (ih b (by simp [Kind.parts, Kind.children]))
    | get object p t =>
      exact legible_get h (ih object (by simp [Kind.parts, Kind.children]))
        fun n hn => ih n (by simp [Kind.parts, Kind.children, hn])
    | call lookup object p as =>
      cases lookup with
      | super => cases hkind
      | direct =>
        exact legible_call h (ih object (by simp [Kind.parts, Kind.children]))
          (fun n hn => ih n (by simp [Kind.parts, Kind.children, hn]))
          fun a ha => ih a (by simp [Kind.parts, Kind.children, ha])
    | assign t v c d =>
      cases t with
      | property lookup object p => cases hkind
      | register i =>
        cases c with
        | some c => cases hkind
        | none => exact legible_assign h (ih v (by simp [Kind.parts, Kind.children]))
    | _ => cases hkind

/-- The text of an expression reads as the expression. -/
theorem read?_chars {n : Node} (h : n.IsExpression) : read? (n.chars .empty) = some n.bare := by
  have hread := (h.legible.reads .assignment [] h.precedence_le (.of_closes closes_nil)).whole
    closes_nil.stops (Nat.lt_succ_self _)
  rw [List.append_nil] at hread
  simp [read?, hread]

/-- Expressions with the same text are equal: rendering loses nothing but origins and links. -/
theorem beq_of_source_eq {a b : Node} (ha : a.IsExpression) (hb : b.IsExpression)
    (h : a.source .empty = b.source .empty) : (a == b) = true := by
  rw [source_eq, source_eq] at h
  have hchars : a.chars .empty = b.chars .empty := String.ofList_injective h
  have hread : some a.bare = some b.bare := by
    rw [← read?_chars ha, ← read?_chars hb, hchars]
  exact beq_of_bare_eq (Option.some.inj hread)

theorem beq_of_source_eq_doubleMinus :
    let inner := unary .negate (unary .negate (register 1))
    let difference := binary .subtract (literal (.uint 2)) inner
    difference.IsExpression ∧
      (difference.withOrigin (.ofInstruction 7)).source .empty = difference.source .empty ∧
      (difference.withOrigin (.ofInstruction 7) == difference) = true := by
  intro inner difference
  have hregister : (register 1).IsExpression :=
    ⟨⟨by decide, rfl⟩, by simp [Kind.parts, Kind.children, Kind.compound?]⟩
  have hminus : (unary .negate (register 1)).IsExpression :=
    ⟨trivial, by simpa [Kind.parts, Kind.children, Kind.compound?] using hregister⟩
  have hinner : inner.IsExpression :=
    ⟨trivial, by simpa [Kind.parts, Kind.children, Kind.compound?] using hminus⟩
  have htwo : (literal (.uint 2)).IsExpression :=
    ⟨trivial, by simp [Kind.parts, Kind.children, Kind.compound?]⟩
  have hparts : ∀ c ∈ difference.kind.parts, c.IsExpression := by
    simp [difference, binary, synthetic, Kind.parts, Kind.children, Kind.compound?, hinner, htwo]
  have hsource : (difference.withOrigin (.ofInstruction 7)).source .empty =
      difference.source .empty := by decide +kernel
  exact ⟨⟨trivial, hparts⟩, hsource, beq_of_source_eq ⟨trivial, hparts⟩ ⟨trivial, hparts⟩ hsource⟩

end Node

end ActionTree
