import ActionTree.Node.Build
import ActionTree.Proofs.Constant.Known
import ActionTree.Proofs.Constant.Visited

/-!
# Checking a tree twice

A check enters the nodes it looks at and forgets none, and a node that was entered counts as not
known.  Every node other than a literal is checked through its first child, so on the set that one
check leaves the next one fails.

* `Visited.Keeps` - a check forgets no node;
* `Node.keeps_isCompileTime`, `Node.isCompileTime_again` - the check keeps what was entered, and so
  fails the second time;
* `Node.isCompileTime_agrees` - the check, the plain recursion and the evaluator agree.
-/

namespace ActionTree

namespace Visited

/-- A check forgets no node that was entered. -/
def Keeps (check : Visited → Bool × Visited) : Prop :=
  ∀ (seen : Visited) (q : Path), seen.contains q = true → (check seen).2.contains q = true

theorem contains_insert (seen : Visited) (p q : Path) :
    (seen.insert p).contains q = (q == p || seen.contains q) := by
  by_cases hp : seen.contains p = true
  · rw [insert, if_pos hp]
    by_cases hq : q = p
    · rw [hq, hp, beq_self_eq_true, Bool.true_or]
    · rw [beq_false_of_ne hq, Bool.false_or]
  · rw [insert, if_neg hp]
    exact List.contains_cons

/-- A node that was entered fails at once. -/
theorem enter_of_contains {p : Path} {check : Visited → Bool × Visited} {seen : Visited}
    (h : seen.contains p = true) : enter p check seen = (false, seen) :=
  if_pos h

theorem keeps_enter {p : Path} {check : Visited → Bool × Visited} (hcheck : Keeps check) :
    Keeps (enter p check) := by
  intro seen q hq
  by_cases hp : seen.contains p = true
  · rw [enter_of_contains hp]
    exact hq
  · rw [enter, if_neg hp]
    apply hcheck
    rw [contains_insert, hq, Bool.or_true]

/-- After a node is entered the set holds it. -/
theorem contains_enter {p : Path} {check : Visited → Bool × Visited} (hcheck : Keeps check)
    (seen : Visited) : (enter p check seen).2.contains p = true := by
  by_cases hp : seen.contains p = true
  · rw [enter_of_contains hp]
    exact hp
  · rw [enter, if_neg hp]
    apply hcheck
    rw [contains_insert, beq_self_eq_true, Bool.true_or]

/-- A check that goes on with another one where it succeeds. -/
def andThen (check next : Visited → Bool × Visited) (seen : Visited) : Bool × Visited :=
  match check seen with
  | (true, after) => next after
  | (false, after) => (false, after)

/-- What the first check entered stays entered. -/
theorem contains_andThen {check next : Visited → Bool × Visited} {seen : Visited} {q : Path}
    (h : (check seen).2.contains q = true) (hnext : Keeps next) :
    (andThen check next seen).2.contains q = true := by
  unfold andThen
  split
  · rename_i after heq
    rw [heq] at h
    exact hnext after q h
  · rename_i after heq
    rw [heq] at h
    exact h

theorem keeps_andThen {check next : Visited → Bool × Visited} (hcheck : Keeps check)
    (hnext : Keeps next) : Keeps (andThen check next) :=
  fun seen q hq => contains_andThen (hcheck seen q hq) hnext

theorem keeps_fail : Keeps fun seen => (false, seen) := fun _ _ hq => hq

theorem keeps_ite (b : Bool) {check check' : Visited → Bool × Visited} (h : Keeps check)
    (h' : Keeps check') : Keeps fun seen => if b then check seen else check' seen := by
  cases b
  · exact h'
  · exact h

end Visited

namespace Node

open Visited

/-- A binary operation checks the right operand after the left one. -/
theorem isCompileTime_binary (op : BinaryOperator) (l r : Node) (o : Origin) (p : Path) :
    isCompileTime ⟨.binary op l r, o⟩ p = fun seen =>
      if op.isTypeOperator then (false, seen)
      else andThen (enter (0 :: p) (l.isCompileTime (0 :: p)))
        (enter (1 :: p) (r.isCompileTime (1 :: p))) seen :=
  rfl

/-- A choice checks the branch that is taken after the condition. -/
theorem isCompileTime_ternary (c a b : Node) (o : Origin) (p : Path) :
    isCompileTime ⟨.ternary c a b, o⟩ p =
      andThen (enter (0 :: p) (c.isCompileTime (0 :: p))) fun seen =>
        if !c.result.isKnown then (false, seen)
        else if c.result.toBoolean then enter (1 :: p) (a.isCompileTime (1 :: p)) seen
        else enter (2 :: p) (b.isCompileTime (2 :: p)) seen :=
  rfl

/-- The check forgets no node. -/
theorem keeps_isCompileTime (n : Node) : ∀ p, Keeps (n.isCompileTime p) := by
  induction n using induct with
  | step k o ih =>
    intro p
    have entered (i : Nat) (c : Node) (hc : c ∈ k.parts) :
        Keeps (enter (i :: p) (c.isCompileTime (i :: p))) :=
      keeps_enter (ih c hc (i :: p))
    cases k with
    | duplicate v | convert t v | coerce t v | unary op v =>
      exact entered 0 v (by simp [Kind.parts, Kind.children])
    | binary op l r =>
      have hl := entered 0 l (by simp [Kind.parts, Kind.children])
      have hr := entered 1 r (by simp [Kind.parts, Kind.children])
      rw [isCompileTime_binary]
      exact keeps_ite _ keeps_fail (keeps_andThen hl hr)
    | ternary c a b =>
      have hc := entered 0 c (by simp [Kind.parts, Kind.children])
      have ha := entered 1 a (by simp [Kind.parts, Kind.children])
      have hb := entered 2 b (by simp [Kind.parts, Kind.children])
      rw [isCompileTime_ternary]
      exact keeps_andThen hc (keeps_ite _ keeps_fail (keeps_ite _ ha hb))
    | _ => exact keeps_fail

/-- A node other than a literal fails once its first child was entered. -/
theorem isCompileTime_of_contains {n : Node} {p : Path} {seen : Visited}
    (hliteral : n.isLiteral = false) (h : seen.contains (0 :: p) = true) :
    (n.isCompileTime p seen).1 = false := by
  obtain ⟨k, o⟩ := n
  cases k with
  | literal l => cases hliteral
  | duplicate v | convert t v | coerce t v | unary op v =>
    rw [isCompileTime, enter_of_contains h]
  | binary op l r =>
    rw [isCompileTime, enter_of_contains h]
    split <;> rfl
  | ternary c a b => rw [isCompileTime, enter_of_contains h]
  | _ => rfl

/-- The check of a node other than a literal enters the first child, or fails on every set. -/
theorem contains_isCompileTime {n : Node} {p : Path} (hliteral : n.isLiteral = false) :
    (∀ seen, (n.isCompileTime p seen).2.contains (0 :: p) = true) ∨
      ∀ seen, (n.isCompileTime p seen).1 = false := by
  obtain ⟨k, o⟩ := n
  have entered (c : Node) (seen : Visited) :
      (enter (0 :: p) (c.isCompileTime (0 :: p)) seen).2.contains (0 :: p) = true :=
    contains_enter (c.keeps_isCompileTime (0 :: p)) seen
  have kept (i : Nat) (c : Node) : Keeps (enter (i :: p) (c.isCompileTime (i :: p))) :=
    keeps_enter (c.keeps_isCompileTime (i :: p))
  cases k with
  | literal l => cases hliteral
  | duplicate v | convert t v | coerce t v | unary op v => exact Or.inl (entered v)
  | binary op l r =>
    rw [isCompileTime_binary]
    cases op.isTypeOperator with
    | true => exact Or.inr fun _ => rfl
    | false => exact Or.inl fun seen => contains_andThen (entered l seen) (kept 1 r)
  | ternary c a b =>
    left
    intro seen
    rw [isCompileTime_ternary]
    exact contains_andThen (entered c seen)
      (keeps_ite _ keeps_fail (keeps_ite _ (kept 1 a) (kept 2 b)))
  | _ => exact Or.inr fun _ => rfl

/-- On the set that one check leaves the next one fails. -/
theorem isCompileTime_again {n : Node} (hliteral : n.isLiteral = false) (p : Path)
    (seen : Visited) : (n.isCompileTime p (n.isCompileTime p seen).2).1 = false := by
  rcases contains_isCompileTime (p := p) hliteral with hentered | hfails
  · exact isCompileTime_of_contains hliteral (hentered seen)
  · exact hfails _

/-- **The check and the evaluator agree.**  On a set without a node below the root, the check decides
what the plain recursion decides.  Where it fails the value is not known, and where no conversion
leaves the primitive types it fails nowhere else.  A second check on the set of the first one fails
on everything but literals. -/
theorem isCompileTime_agrees (n : Node) (p : Path) (seen : Visited)
    (hseen : ∀ i, seen.Misses (i :: p)) :
    (n.isCompileTime p seen).1 = n.isConstant ∧
      ((n.isCompileTime p seen).1 = false → n.result = .unknown) ∧
      ((∀ m, n.Reaches m → m.kind.leavesPrimitives = false) →
        ((n.isCompileTime p seen).1 = true ↔ n.result ≠ .unknown)) ∧
      (n.isLiteral = false → (n.isCompileTime p (n.isCompileTime p seen).2).1 = false) := by
  have hplain : (n.isCompileTime p seen).1 = n.isConstant :=
    (decides_isCompileTime n p seen hseen).1
  refine ⟨hplain, ?_, ?_, fun hliteral => isCompileTime_again hliteral p seen⟩
  · intro hfails
    rw [hplain] at hfails
    rw [← Value.isKnown_eq_false_iff, Bool.eq_false_iff]
    intro hknown
    rw [isConstant_of_isKnown hknown] at hfails
    cases hfails
  · intro hprimitive
    rw [hplain, ← isKnown_result n hprimitive, ne_eq, ← Value.isKnown_eq_false_iff,
      Bool.not_eq_false]

/-- `int(1 + 2)`. -/
def castSum : Node := convert (binary .add (literal (.int 1)) (literal (.int 2))) .int

/-- The operand of another operation, on a set that holds this operand, the other one and a node
below that. -/
theorem isCompileTime_agrees_castSum :
    (∀ i, (Visited.mk [[0], [1], [2, 1]]).Misses (i :: [0])) ∧
      (castSum.isCompileTime [0] ⟨[[0], [1], [2, 1]]⟩).1 = true ∧
      castSum.result ≠ .unknown ∧
      (castSum.isCompileTime [0] (castSum.isCompileTime [0] ⟨[[0], [1], [2, 1]]⟩).2).1 = false := by
  have hseen : ∀ i, (Visited.mk [[0], [1], [2, 1]]).Misses (i :: [0]) := by
    intro i q hq hsuffix
    simp only [List.mem_cons, List.not_mem_nil, or_false] at hq
    rcases hq with rfl | rfl | rfl <;> simp [List.suffix_cons_iff] at hsuffix
  have hprimitive : ∀ m, castSum.Reaches m → m.kind.leavesPrimitives = false := by
    intro m hm
    simp only [castSum, convert, binary, literal, synthetic, reaches_mk, Kind.children,
      List.mem_cons, List.not_mem_nil, or_false, exists_eq_or_imp, exists_eq_left, false_and,
      exists_false] at hm
    rcases hm with rfl | rfl | rfl | rfl <;> rfl
  obtain ⟨hplain, -, hknown, hagain⟩ := isCompileTime_agrees castSum [0] _ hseen
  have hconstant : (castSum.isCompileTime [0] ⟨[[0], [1], [2, 1]]⟩).1 = true := hplain.trans rfl
  exact ⟨hseen, hconstant, (hknown hprimitive).1 hconstant, hagain rfl⟩

end Node

end ActionTree
