import ActionTree.Node.Build
import ActionTree.Node.Steps
import Mathlib.Data.List.Count
import Mathlib.Tactic.SplitIfs

/-!
# Writing within a budget of nodes

A writer that nothing stops performs all its steps.  A budget stops it where it would enter one node
too many, and nothing is written after that.

* `Writer.perform` - what a step does to a writer that nothing stops;
* `Writer.run_append` - steps in sequence, where a stop of the first ones is a stop of all;
* `Writer.run_of_covers`, `Writer.run_beyond` - steps that the budget covers, and those it does not;
* `Node.run_steps_budget` - trees.
-/

namespace ActionTree

namespace Writer

/-! ### Steps that nothing stops -/

/-- What a step does to a writer that nothing stops. -/
def perform (w : Writer) : Step → Writer
  | .enter => { w with rendered := w.rendered + 1 }
  | .write text => w.append text

/-- The second writer has more text at the end and has entered so many nodes more; its token and its
budget are those of the first one. -/
structure Extends (nodes : Nat) (w v : Writer) : Prop where
  text : ∃ s, v.text = w.text ++ s
  rendered : v.rendered = w.rendered + nodes
  limit : v.limit = w.limit
  cancelled : v.cancelled = w.cancelled

namespace Extends

theorem refl (w : Writer) : Extends 0 w w := ⟨⟨"", String.append_empty.symm⟩, rfl, rfl, rfl⟩

theorem trans {m n : Nat} {u v w : Writer} (h : Extends m u v) (h' : Extends n v w) :
    Extends (m + n) u w := by
  obtain ⟨s, hs⟩ := h.text
  obtain ⟨s', hs'⟩ := h'.text
  refine ⟨⟨s ++ s', ?_⟩, ?_, h'.limit.trans h.limit, h'.cancelled.trans h.cancelled⟩
  · rw [hs', hs, String.append_assoc]
  · rw [h'.rendered, h.rendered, Nat.add_assoc]

end Extends

theorem extends_append (w : Writer) (text : String) : Extends 0 w (w.append text) := by
  unfold append
  split_ifs
  · exact .refl w
  · exact ⟨⟨w.indentation ++ text, String.append_assoc⟩, rfl, rfl, rfl⟩
  · exact ⟨⟨text, rfl⟩, rfl, rfl, rfl⟩

/-- Steps extend the writer by the nodes that they enter. -/
theorem extends_perform (steps : List Step) (w : Writer) :
    Extends (steps.count .enter) w (steps.foldl perform w) := by
  induction steps generalizing w with
  | nil => exact .refl w
  | cons step steps ih =>
    rw [List.foldl_cons]
    cases step with
    | enter =>
      have henter : Extends 1 w (w.perform .enter) :=
        ⟨⟨"", String.append_empty.symm⟩, rfl, rfl, rfl⟩
      rw [List.count_cons_self, Nat.add_comm]
      exact henter.trans (ih _)
    | write text =>
      rw [List.count_cons_of_ne (by simp), ← Nat.zero_add (steps.count .enter)]
      exact (w.extends_append text).trans (ih _)

/-- What steps write does not depend on the budget. -/
theorem perform_limit (w : Writer) (limit : Option Nat) (step : Step) :
    perform { w with limit := limit } step = { w.perform step with limit := limit } := by
  cases step with
  | enter => rfl
  | write text =>
    show append _ text = { w.append text with limit := limit }
    unfold append
    split_ifs <;> rfl

theorem foldl_perform_limit (steps : List Step) (w : Writer) (limit : Option Nat) :
    steps.foldl perform { w with limit := limit } =
      { steps.foldl perform w with limit := limit } := by
  induction steps generalizing w with
  | nil => rfl
  | cons step steps ih => rw [List.foldl_cons, perform_limit, ih, List.foldl_cons]

/-! ### Running -/

/-- Steps in sequence: the rest is performed where the first ones completed. -/
theorem run_append (steps rest : List Step) (w : Writer) :
    run (steps ++ rest) w =
      match run steps w with
      | (.completed, after) => run rest after
      | (.cancelled, after) => (.cancelled, after) := by
  induction steps generalizing w with
  | nil => rfl
  | cons step steps ih =>
    cases step with
    | enter =>
      rw [List.cons_append, run, run]
      split_ifs
      · rfl
      · rfl
      · exact ih _
    | write text => exact ih _

/-- The token is live and the budget covers the nodes of the steps. -/
structure Covers (w : Writer) (steps : List Step) : Prop where
  live : w.cancelled = false
  enough : ∀ limit, w.limit = some limit → w.rendered + steps.count .enter ≤ limit

/-- Covered steps are all performed. -/
theorem run_of_covers {steps : List Step} {w : Writer} (h : w.Covers steps) :
    run steps w = (.completed, steps.foldl perform w) := by
  induction steps generalizing w with
  | nil => rfl
  | cons step steps ih =>
    cases step with
    | enter =>
      have hcount (limit : Nat) (hl : w.limit = some limit) :
          w.rendered + 1 + steps.count .enter ≤ limit := by
        have henough := h.enough limit hl
        rw [List.count_cons_self] at henough
        omega
      have hspent : w.isSpent = false := by
        unfold isSpent
        cases hl : w.limit with
        | none => rfl
        | some limit =>
          have henough := hcount limit hl
          exact decide_eq_false (by omega)
      rw [run, if_neg (by rw [h.live]; simp), if_neg (by rw [hspent]; simp)]
      exact ih ⟨h.live, hcount⟩
    | write text =>
      have hnext := w.extends_append text
      refine ih ⟨hnext.cancelled.trans h.live, fun limit hl => ?_⟩
      have henough := h.enough limit (hnext.limit.symm.trans hl)
      rw [List.count_cons_of_ne (by simp)] at henough
      rw [hnext.rendered]
      exact henough

/-- Steps that enter more than `n` nodes split where the next one is entered. -/
theorem exists_eq_append_of_lt_count (steps : List Step) {n : Nat} (h : n < steps.count .enter) :
    ∃ before after, steps = before ++ .enter :: after ∧ before.count .enter = n := by
  induction steps generalizing n with
  | nil => simp at h
  | cons step steps ih =>
    cases step with
    | enter =>
      cases n with
      | zero => exact ⟨[], steps, rfl, rfl⟩
      | succ n =>
        rw [List.count_cons_self] at h
        obtain ⟨before, after, rfl, hcount⟩ := ih (Nat.lt_of_succ_lt_succ h)
        exact ⟨.enter :: before, after, rfl, by rw [List.count_cons_self, hcount]⟩
    | write text =>
      rw [List.count_cons_of_ne (by simp)] at h
      obtain ⟨before, after, rfl, hcount⟩ := ih h
      exact ⟨.write text :: before, after, rfl, by rw [List.count_cons_of_ne (by simp), hcount]⟩

/-- Steps beyond the budget are performed up to the first node too many, which cancels the token. -/
theorem run_beyond (steps : List Step) {w : Writer} {limit : Nat} (hlive : w.cancelled = false)
    (hlimit : w.limit = some limit) (hroom : w.rendered ≤ limit)
    (hbeyond : limit < w.rendered + steps.count .enter) :
    ∃ before after, steps = before ++ .enter :: after ∧
      w.rendered + before.count .enter = limit ∧
      run steps w = (.cancelled, (before.foldl perform w).cancel) := by
  obtain ⟨before, after, hsteps, hcount⟩ :=
    exists_eq_append_of_lt_count steps (show limit - w.rendered < steps.count .enter by omega)
  have hcovers : w.Covers before := by
    refine ⟨hlive, fun l hl => ?_⟩
    obtain rfl : limit = l := Option.some.inj (hlimit.symm.trans hl)
    omega
  have hbefore := extends_perform before w
  have hspent : (before.foldl perform w).isSpent = true := by
    rw [isSpent, hbefore.limit, hlimit, hbefore.rendered]
    exact decide_eq_true (by omega)
  refine ⟨before, after, hsteps, by omega, ?_⟩
  rw [hsteps, run_append, run_of_covers hcovers]
  show run (.enter :: after) (before.foldl perform w) = _
  rw [run, if_neg (by rw [hbefore.cancelled, hlive]; simp), if_pos hspent]

/-- Under a cancelled token no node is entered and nothing changes. -/
theorem run_enter_of_cancelled {w : Writer} (h : w.cancelled = true) (steps : List Step) :
    run (.enter :: steps) w = (.cancelled, w) :=
  if_pos h

end Writer

namespace Node

open Writer

/-- **The budget is exact, and what it cuts off is a suffix.**  Without a budget a tree is written
in full.  With one that its nodes do not exceed, the same is written.  With any other the writer
stops after as many nodes as there are in the budget, with a first part of the text; the token is
then cancelled, so no tree is written on any writer that shares it. -/
theorem run_steps_budget (t : Node) (locals : Locals) (indentUnit : String) (limit : Nat) :
    ∃ full, run (t.steps locals) (new indentUnit none false) = (.completed, full) ∧
      (full.rendered ≤ limit →
        ∃ w, run (t.steps locals) (new indentUnit (some limit) false) = (.completed, w) ∧
          w.text = full.text ∧ w.rendered = full.rendered ∧ w.cancelled = false) ∧
      (limit < full.rendered →
        ∃ w rest, run (t.steps locals) (new indentUnit (some limit) false) = (.cancelled, w) ∧
          full.text = w.text ++ rest ∧ w.rendered = limit ∧ w.cancelled = true ∧
          ∀ (later : Node) (locals' : Locals) (other : Writer),
            run (later.steps locals') { other with cancelled := w.cancelled } =
              (.cancelled, { other with cancelled := w.cancelled })) := by
  have hfull := extends_perform (t.steps locals) (new indentUnit none false)
  have hrendered : ((t.steps locals).foldl perform (new indentUnit none false)).rendered =
      (t.steps locals).count .enter := by
    rw [hfull.rendered]
    exact Nat.zero_add _
  have hbudget (steps : List Step) : steps.foldl perform (new indentUnit (some limit) false) =
      { steps.foldl perform (new indentUnit none false) with limit := some limit } :=
    foldl_perform_limit steps (new indentUnit none false) (some limit)
  refine ⟨_, run_of_covers ⟨rfl, fun l hl => by cases hl⟩, fun hwithin => ?_, fun hbeyond => ?_⟩
  · have hcovers : (new indentUnit (some limit) false).Covers (t.steps locals) := by
      refine ⟨rfl, fun l hl => ?_⟩
      obtain rfl : limit = l := Option.some.inj hl
      rw [← hrendered, new, Nat.zero_add]
      exact hwithin
    refine ⟨_, run_of_covers hcovers, ?_⟩
    rw [hbudget]
    exact ⟨rfl, rfl, hfull.cancelled⟩
  · obtain ⟨before, after, hsteps, hcount, hrun⟩ :=
      run_beyond (t.steps locals) (w := new indentUnit (some limit) false) rfl rfl
        (Nat.zero_le _) (by rw [← hrendered, new, Nat.zero_add]; exact hbeyond)
    obtain ⟨rest, hrest⟩ :=
      (extends_perform (.enter :: after) (before.foldl perform (new indentUnit none false))).text
    refine ⟨_, rest, hrun, ?_, ?_, rfl, fun later locals' other => ?_⟩
    · rw [hsteps, List.foldl_append, hrest, hbudget]
      rfl
    · rw [← hcount]
      exact (extends_perform before _).rendered
    · exact run_enter_of_cancelled rfl _

/-- A budget of two nodes is used up by a sum and its left operand. -/
example : run ((binary .add (literal (.int 1)) (register 2)).steps .empty) (new "" (some 2) false) =
    (.cancelled, ⟨"1 + ", "", 0, false, 2, some 2, true⟩) := by
  decide +kernel

end Node

end ActionTree
