import ActionTree.Method.Tasks
import ActionTree.Proofs.Method.Composition

/-!
# What a task does to the end

A method is written by its actions, one after another.  The flag that they find decides how far they
get, and nothing else about them: an action that completes does the same under any flag.

* `Method.render_eq_performAll` - a method is written by its actions;
* `Action.perform_live`, `Action.raised_of_perform` - one action;
* `Task.Follows`, `Task.Follows.step` - the rest of a task, done alone, ends as its method does;
* `Task.Follows.rendering?` - a task that has ended;
* `Task.exists_step`, `Task.remaining_lt_of_step` - a task comes to an end.
-/

namespace ActionTree

/-! ### A method is written by its actions -/

namespace Action

theorem performAll_append (as bs : List Action) (w : Writer) :
    performAll (as ++ bs) w =
      match performAll as w with
      | (.completed, after) => performAll bs after
      | (.cancelled, after) => (.cancelled, after) := by
  induction as generalizing w with
  | nil => rfl
  | cons a as ih =>
    rw [List.cons_append, performAll, performAll]
    split
    · exact ih _
    · rfl

theorem performAll_step (steps : List Step) (w : Writer) :
    performAll (steps.map .step) w = w.run steps := by
  induction steps generalizing w with
  | nil => rfl
  | cons step steps ih =>
    have hrun := Writer.run_append [step] steps w
    rw [List.singleton_append] at hrun
    rw [List.map_cons, performAll, perform, hrun]
    cases Writer.run [step] w with
    | mk outcome after =>
      cases outcome with
      | completed => exact ih after
      | cancelled => rfl

/-- The checks of a folding find what the token is found as, unless there are none. -/
theorem performAll_check (n : Nat) (w : Writer) :
    performAll (List.replicate n .check) w =
      (if (List.range n).any fun _ => w.cancelled then .cancelled else .completed, w) := by
  induction n with
  | zero => rfl
  | succ n ih =>
    rw [List.replicate_succ, performAll, perform]
    cases hw : w.cancelled with
    | false => simp [ih, hw]
    | true =>
      have hany : ((List.range (n + 1)).any fun _ => true) = true :=
        List.any_eq_true.2 ⟨0, List.mem_range.2 (Nat.succ_pos n), rfl⟩
      rw [hany]
      rfl

end Action

open ActionTree.Action

/-- The statements of a method are written by their actions. -/
theorem renderStatements_eq_performAll (options : RenderOptions) (locals : Locals)
    (ss : List Node) (w : Writer) :
    renderStatements options locals ss w =
      performAll (ss.flatMap (options.statementActions locals)) w := by
  induction ss generalizing w with
  | nil => rfl
  | cons s ss ih =>
    -- a prepared tree is written, its line ends, and the other statements follow
    have hwritten (n : Node) (w : Writer) :
        (match w.run (n.steps locals) with
          | (.completed, w) => renderStatements options locals ss (w.append ";").newLine
          | (.cancelled, w) => (.cancelled, w)) =
        performAll ((n.steps locals).map .step ++ [.step (.write ";"), .newLine] ++
          ss.flatMap (options.statementActions locals)) w := by
      rw [List.append_assoc, performAll_append, performAll_step]
      split
      · exact ih _
      · rfl
    rw [renderStatements, List.flatMap_cons, RenderOptions.statementActions,
      RenderOptions.prepare]
    cases hfolds : options.foldsConstants with
    | false =>
      simp only [Bool.false_eq_true, if_false]
      exact hwritten s w
    | true =>
      simp only [if_true]
      rw [Node.foldUnder, List.append_assoc, List.append_assoc, performAll_append,
        performAll_check, ← List.append_assoc]
      split_ifs
      · rfl
      · exact hwritten s.fold w

/-- A method is written by its actions. -/
theorem Method.render_eq_performAll (options : RenderOptions) (m : Method) (cancelled : Bool) :
    m.render options cancelled =
      match performAll (m.actions options) (writer options cancelled) with
      | (.completed, w) => (some ⟨m.name, w.text, w.rendered⟩, w.cancelled)
      | (.cancelled, w) => (none, w.cancelled) := by
  have hopen : performAll m.openActions (writer options cancelled) =
      (.completed, m.openBody (writer options cancelled)) := rfl
  rw [render, actions, List.append_assoc, performAll_append, hopen]
  dsimp only
  rw [performAll_append, ← renderStatements_eq_performAll]
  cases renderStatements options (m.locals options.localStem) m.statements
    (m.openBody (writer options cancelled)) with
  | mk outcome w =>
    cases outcome with
    | completed =>
      have hclose : performAll closeActions w = (.completed, closeBody w) := rfl
      have hextends := w.unindent.extends_append "\x7d"
      have hrendered : (closeBody w).rendered = w.rendered := hextends.rendered
      have hcancelled : (closeBody w).cancelled = w.cancelled := hextends.cancelled
      dsimp only
      rw [hclose]
      dsimp only
      rw [hrendered, hcancelled]
    | cancelled => rfl

/-! ### One action -/

/-- What a text adds does not depend on the token. -/
theorem Writer.append_cancelled (w : Writer) (text : String) (cancelled : Bool) :
    append { w with cancelled := cancelled } text =
      { w.append text with cancelled := cancelled } := by
  unfold append
  split_ifs <;> rfl

namespace Action

variable {a : Action} {w w' : Writer} {raised : Bool}

/-- A node is entered under a live flag and within the budget. -/
theorem perform_enter : (Action.step .enter).perform w = (.completed, w') ↔
    w.cancelled = false ∧ w.isSpent = false ∧ w' = { w with rendered := w.rendered + 1 } := by
  rw [perform, Writer.run, Writer.run]
  split_ifs with hcancelled hspent
  · simp [hcancelled]
  · simp [hspent]
  · simpa [hcancelled, hspent] using eq_comm

/-- What can complete under some flag completes under a live one, with the same effect. -/
theorem perform_live (h : a.perform w = (.completed, w')) :
    a.perform { w with cancelled := false } = (.completed, { w' with cancelled := false }) := by
  cases a with
  | check =>
    obtain rfl : w = w' := (Prod.mk.inj h).2
    rfl
  | step s =>
    cases s with
    | enter =>
      obtain ⟨-, hspent, rfl⟩ := perform_enter.1 h
      exact perform_enter.2 ⟨rfl, hspent, rfl⟩
    | write text =>
      cases h
      rw [perform, Writer.run, Writer.append_cancelled, Writer.run]
  | newLine | indent | unindent =>
    cases h
    rfl

/-- An action that completes leaves the flag as it is. -/
theorem cancelled_of_perform (h : a.perform w = (.completed, w')) :
    w'.cancelled = w.cancelled := by
  cases a with
  | check =>
    obtain rfl : w = w' := (Prod.mk.inj h).2
    rfl
  | step s =>
    cases s with
    | enter =>
      obtain ⟨-, -, rfl⟩ := perform_enter.1 h
      rfl
    | write text =>
      cases h
      exact (w.extends_append text).cancelled
  | newLine | indent | unindent =>
    cases h
    rfl

/-- An action is cancelled under a raised flag, or it raises the flag. -/
theorem raised_of_perform (h : a.perform w = (.cancelled, w')) : w'.cancelled = true := by
  cases a with
  | check =>
    rw [perform] at h
    split_ifs at h with hcancelled
    · cases h
      exact hcancelled
    · cases h
  | step s =>
    cases s with
    | enter =>
      rw [perform, Writer.run] at h
      split_ifs at h with hcancelled
      · cases h
        exact hcancelled
      · cases h
        rfl
      · cases h
    | write => cases h
  | newLine | indent | unindent => cases h

end Action

/-! ### One task -/

namespace Task

variable {options : RenderOptions} {m : Method} {t t' : Task} {raised raised' : Bool}

/-- The rest of a task, done alone, ends as its method does alone. -/
def Follows (options : RenderOptions) (m : Method) : Task → Prop
  | .working w todo => performAll todo { w with cancelled := false } =
      performAll (m.actions options) (Method.writer options false)
  | .cancelled => True

theorem follows_start (options : RenderOptions) (m : Method) :
    (start options m).Follows options m :=
  rfl

/-- A task that ends is cancelled or has written what its method is written as alone. -/
theorem Follows.rendering? (h : t.Follows options m) (hend : t.hasEnded) :
    t = .cancelled ∧ t.rendering? m = none ∨
      t.rendering? m = (m.render options false).1 ∧ (m.render options false).1 ≠ none := by
  cases t with
  | cancelled => exact .inl ⟨rfl, rfl⟩
  | working w todo =>
    cases todo with
    | cons a todo => cases hend
    | nil =>
      have hall : performAll (m.actions options) (Method.writer options false) =
        (.completed, { w with cancelled := false }) := h.symm
      rw [Method.render_eq_performAll, hall]
      exact .inr ⟨rfl, by simp⟩

/-- A step keeps what follows. -/
theorem Follows.step (h : t.Follows options m) (hstep : t.step raised = some (t', raised')) :
    t'.Follows options m := by
  cases t with
  | cancelled => cases hstep
  | working w todo =>
    cases todo with
    | nil => cases hstep
    | cons a todo =>
      rw [Task.step] at hstep
      split at hstep
      case h_1 after ha =>
        cases hstep
        have hlive := perform_live ha
        rw [Follows, performAll, hlive] at h
        exact h
      case h_2 after ha =>
        cases hstep
        trivial

/-- A step that cancels its task or its token under a live flag is one of a method that is cancelled
alone. -/
theorem Follows.cancelled_of_step (h : t.Follows options m)
    (hstep : t.step false = some (t', raised')) (hends : raised' = true ∨ t' = .cancelled) :
    (m.render options false).1 = none := by
  cases t with
  | cancelled => cases hstep
  | working w todo =>
    cases todo with
    | nil => cases hstep
    | cons a todo =>
      rw [Task.step] at hstep
      split at hstep
      case h_1 after ha =>
        cases hstep
        have hflag := cancelled_of_perform ha
        simp [hflag] at hends
      case h_2 after ha =>
        rw [Follows, performAll, ha] at h
        rw [Method.render_eq_performAll, ← h]

theorem exists_step (h : ¬t.hasEnded) (raised : Bool) :
    ∃ t' raised', t.step raised = some (t', raised') := by
  cases t with
  | cancelled => exact absurd rfl h
  | working w todo =>
    cases todo with
    | nil => exact absurd rfl h
    | cons a todo =>
      rw [Task.step]
      split
      · exact ⟨_, _, rfl⟩
      · exact ⟨_, _, rfl⟩

/-- A task that takes a step has not ended. -/
theorem not_hasEnded_of_step (h : t.step raised = some (t', raised')) : ¬t.hasEnded := by
  cases t with
  | cancelled => cases h
  | working w todo =>
    cases todo with
    | nil => cases h
    | cons a todo => exact Bool.false_ne_true

/-- The number of actions that are left of a task. -/
def remaining : Task → Nat
  | .working _ todo => todo.length
  | .cancelled => 0

/-- A step does an action that was left, and a raised flag stays raised. -/
theorem remaining_lt_of_step (h : t.step raised = some (t', raised')) :
    t'.remaining < t.remaining ∧ (raised = true → raised' = true) := by
  cases t with
  | cancelled => cases h
  | working w todo =>
    cases todo with
    | nil => cases h
    | cons a todo =>
      rw [step] at h
      split at h
      case h_1 after ha =>
        cases h
        exact ⟨Nat.lt_succ_self _, fun hraised => (cancelled_of_perform ha).trans hraised⟩
      case h_2 after ha =>
        cases h
        exact ⟨Nat.zero_lt_succ _, fun _ => raised_of_perform ha⟩

end Task

end ActionTree
