import ActionTree.Node.Constant
import ActionTree.Node.Induction

/-!
# The check with entered nodes decides the same

A check that is handed a set of entered nodes gives up on a node it meets again.  In a tree no path
leads to two nodes, so on a set without a node below the root it never gives up: it decides what the
plain recursion decides, and it enters nodes of this tree only.

* `Visited.Misses` - no node at or below a path was entered;
* `Visited.Decides` - a check gives a fixed answer and stays below its path;
* `Node.decides_isCompileTime` - `Node.isCompileTime` decides `Node.isConstant`.
-/

namespace ActionTree

namespace Visited

/-- No node at or below path `p` was entered. -/
def Misses (seen : Visited) (p : Path) : Prop := ∀ q ∈ seen.paths, ¬p <:+ q

/-- What a check below `p` that started at `seen` leaves: the answer `b`, and no nodes entered but
those below `p`. -/
def Settled (seen : Visited) (p : Path) (b : Bool) (r : Bool × Visited) : Prop :=
  r.1 = b ∧ ∀ q ∈ r.2.paths, q ∈ seen.paths ∨ ∃ i, (i :: p) <:+ q

/-- On every set that misses the subtrees below `p`, the check answers `b` and enters only nodes
below `p`. -/
def Decides (check : Visited → Bool × Visited) (p : Path) (b : Bool) : Prop :=
  ∀ seen : Visited, (∀ i, seen.Misses (i :: p)) → seen.Settled p b (check seen)

theorem misses_empty (p : Path) : empty.Misses p := by
  intro q hq
  cases hq

theorem Misses.child {seen : Visited} {p : Path} (h : seen.Misses p) (i : Nat) :
    seen.Misses (i :: p) :=
  fun q hq hsuffix => h q hq ((List.suffix_cons i p).trans hsuffix)

theorem Misses.not_contains {seen : Visited} {p : Path} (h : seen.Misses p) :
    seen.contains p = false := by
  rw [contains, List.contains_eq_mem, decide_eq_false_iff_not]
  exact fun hmem => h p hmem (List.suffix_refl p)

/-- Two children of one node have no common path. -/
theorem not_suffix_sibling {i j : Nat} {p q : Path} (hij : i ≠ j) (hi : (i :: p) <:+ q) :
    ¬(j :: p) <:+ q := by
  intro hj
  have hsuffix : (i :: p) <:+ (j :: p) := List.suffix_of_suffix_length_le hi hj (by simp)
  have heq : i :: p = j :: p := hsuffix.eq_of_length (by simp)
  exact hij (List.cons.inj heq).1

/-- A check that enters nothing decides what it answers. -/
theorem decides_pure (p : Path) (b : Bool) : Decides (fun seen => (b, seen)) p b :=
  fun _ _ => ⟨rfl, fun _ hq => Or.inl hq⟩

/-- Entering a child that was missed leaves the decision to the check of the child. -/
theorem enter_child {check : Visited → Bool × Visited} {i : Nat} {p : Path} {b : Bool}
    (hcheck : Decides check (i :: p) b) {seen : Visited} (hseen : seen.Misses (i :: p)) :
    (enter (i :: p) check seen).1 = b ∧
      ∀ q ∈ (enter (i :: p) check seen).2.paths, q ∈ seen.paths ∨ (i :: p) <:+ q := by
  have hnot := hseen.not_contains
  have hinsert : (seen.insert (i :: p)).paths = (i :: p) :: seen.paths := by
    rw [insert, if_neg (by simp [hnot])]
  have hbelow : ∀ j, (seen.insert (i :: p)).Misses (j :: i :: p) := by
    intro j q hq hsuffix
    rw [hinsert, List.mem_cons] at hq
    rcases hq with rfl | hq
    · exact absurd hsuffix.length_le (by simp)
    · exact hseen.child j q hq hsuffix
  obtain ⟨hanswer, hpaths⟩ := hcheck _ hbelow
  rw [enter, if_neg (by simp [hnot])]
  refine ⟨hanswer, fun q hq => ?_⟩
  rcases hpaths q hq with hold | ⟨j, hsuffix⟩
  · rw [hinsert, List.mem_cons] at hold
    rcases hold with rfl | hold
    · exact Or.inr (List.suffix_refl _)
    · exact Or.inl hold
  · exact Or.inr ((List.suffix_cons j _).trans hsuffix)

theorem decides_enter {check : Visited → Bool × Visited} {i : Nat} {p : Path} {b : Bool}
    (hcheck : Decides check (i :: p) b) : Decides (enter (i :: p) check) p b := by
  intro seen hseen
  obtain ⟨hanswer, hpaths⟩ := enter_child hcheck (hseen i)
  exact ⟨hanswer, fun q hq => (hpaths q hq).imp id fun hsuffix => ⟨i, hsuffix⟩⟩

/-- What was entered below one child is not in the way of another child. -/
theorem settled_enter_sibling {check : Visited → Bool × Visited} {i j : Nat} {p : Path} {b : Bool}
    {seen after : Visited} (hij : i ≠ j) (hcheck : Decides check (j :: p) b)
    (hseen : seen.Misses (j :: p))
    (hpaths : ∀ q ∈ after.paths, q ∈ seen.paths ∨ (i :: p) <:+ q) :
    seen.Settled p b (enter (j :: p) check after) := by
  have hafter : after.Misses (j :: p) := by
    intro q hq
    rcases hpaths q hq with hold | hsuffix
    · exact hseen q hold
    · exact not_suffix_sibling hij hsuffix
  obtain ⟨hanswer, hlater⟩ := enter_child hcheck hafter
  refine ⟨hanswer, fun q hq => ?_⟩
  rcases hlater q hq with hmid | hsuffix
  · exact (hpaths q hmid).imp id fun hsuffix => ⟨i, hsuffix⟩
  · exact Or.inr ⟨j, hsuffix⟩

theorem settled_after {i : Nat} {p : Path} {seen after : Visited} (b : Bool)
    (hpaths : ∀ q ∈ after.paths, q ∈ seen.paths ∨ (i :: p) <:+ q) :
    seen.Settled p b (b, after) :=
  ⟨rfl, fun q hq => (hpaths q hq).imp id fun hsuffix => ⟨i, hsuffix⟩⟩

end Visited

namespace Node

open Visited

/-- **The two checks agree.**  With nothing entered below the root, the check that shares a set of
entered nodes decides whether the value of the tree is known. -/
theorem decides_isCompileTime (n : Node) : ∀ p, Decides (n.isCompileTime p) p n.isConstant := by
  induction n using induct with
  | step k o ih =>
    intro p
    have single (v : Node) (hv : v ∈ k.parts) :
        Decides (enter (0 :: p) (v.isCompileTime (0 :: p))) p v.isConstant :=
      decides_enter (ih v hv _)
    cases k with
    | duplicate v | convert t v | coerce t v | unary op v =>
      exact single v (by simp [Kind.parts, Kind.children])
    | binary op l r =>
      have hl := ih l (by simp [Kind.parts, Kind.children]) (0 :: p)
      have hr := ih r (by simp [Kind.parts, Kind.children]) (1 :: p)
      intro seen hseen
      cases hop : op.isTypeOperator with
      | true =>
        simp only [isCompileTime, isConstant, hop, if_true, Bool.not_true, Bool.false_and]
        exact decides_pure p false seen hseen
      | false =>
        obtain ⟨hanswer, hpaths⟩ := enter_child hl (hseen 0)
        simp only [isCompileTime, isConstant, hop, Bool.false_eq_true, if_false, Bool.not_false,
          Bool.true_and]
        generalize enter (0 :: p) (l.isCompileTime (0 :: p)) seen = result at hanswer hpaths
        obtain ⟨answer, after⟩ := result
        dsimp only at hanswer hpaths
        rw [← hanswer]
        cases answer with
        | false => exact settled_after false hpaths
        | true => simpa using settled_enter_sibling (by decide) hr (hseen 1) hpaths
    | ternary c a b =>
      -- which branch is entered depends on the value of the condition alone
      have hc := ih c (by simp [Kind.parts, Kind.children]) (0 :: p)
      have ha := ih a (by simp [Kind.parts, Kind.children]) (1 :: p)
      have hb := ih b (by simp [Kind.parts, Kind.children]) (2 :: p)
      intro seen hseen
      obtain ⟨hanswer, hpaths⟩ := enter_child hc (hseen 0)
      simp only [isCompileTime, isConstant]
      generalize enter (0 :: p) (c.isCompileTime (0 :: p)) seen = result at hanswer hpaths
      obtain ⟨answer, after⟩ := result
      dsimp only at hanswer hpaths
      rw [← hanswer]
      cases answer with
      | false => exact settled_after false hpaths
      | true =>
        cases hknown : c.result.isKnown with
        | false => simpa using settled_after false hpaths
        | true =>
          cases hcond : c.result.toBoolean with
          | true => simpa using settled_enter_sibling (by decide) ha (hseen 1) hpaths
          | false => simpa using settled_enter_sibling (by decide) hb (hseen 2) hpaths
    | _ => exact decides_pure p _

/-- On a fresh set the check answers whether the value of the tree is known. -/
theorem isCompileTime_empty (n : Node) (p : Path) :
    (n.isCompileTime p Visited.empty).1 = n.isConstant :=
  (decides_isCompileTime n p _ fun i => misses_empty (i :: p)).1

end Node

end ActionTree
