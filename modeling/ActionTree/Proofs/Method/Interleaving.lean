import ActionTree.Proofs.Method.Batch
import ActionTree.Proofs.Method.Tasks
import Mathlib.Data.List.Forall2
import Mathlib.Logic.Relation

/-!
# However the actions of a batch come

A task that is not cancelled writes what its method is written as alone, whatever the others do.
Some task is cancelled only if the time is limited or a method is cancelled alone.  So without a
limit of time the order of the actions does not decide whether all methods are written.

* `Batch.IsSound`, `Batch.IsSound.moves`, `Batch.IsSound.reaches` - what every run keeps;
* `Batch.exists_moves`, `Batch.Moves.remaining_lt` - every run comes to an end, and all tasks with
  it;
* `RenderOptions.Ends` - what a batch can end with;
* `RenderOptions.Ends.areOwn`, `none_mem`, `of_none_mem` - what is written and what is cancelled;
* `RenderOptions.ends_renderAll`, `RenderOptions.Ends.eq_renderAll` - methods that run one by one.
-/

namespace ActionTree

open ActionTree.Action

/-! ### All tasks -/

namespace Batch

variable {options : RenderOptions} {ms : List Method} {isParallel isTimed : Bool} {b b' : Batch}

/-- Every task follows its method, and where something was cancelled there was a cause: the time is
limited, or some method is cancelled alone. -/
structure IsSound (options : RenderOptions) (isTimed : Bool) (ms : List Method) (b : Batch) :
    Prop where
  methods : b.tasks.map Prod.fst = ms
  follows : ∀ p ∈ b.tasks, p.2.Follows options p.1
  cause : (b.raised ∨ ∃ m, (m, Task.cancelled) ∈ b.tasks) →
    isTimed ∨ ∃ m ∈ ms, (m.render options false).1 = none

theorem isSound_start (options : RenderOptions) (isTimed : Bool) (ms : List Method) :
    (start options ms).IsSound options isTimed ms where
  methods := by simp [start, Function.comp_def]
  follows := by simp [start, Task.follows_start]
  cause := by simp [start, Task.start]

/-- A move keeps all tasks sound. -/
theorem IsSound.moves (h : b.IsSound options isTimed ms) (hmove : Moves isParallel isTimed b b') :
    b'.IsSound options isTimed ms := by
  cases hmove with
  | timeUp htimed => exact ⟨h.methods, h.follows, fun _ => .inl htimed⟩
  | @task before after m t t' raised raised' _ hstep =>
    obtain ⟨hmethods, hfollows, hcause⟩ := h
    have hm : m ∈ ms := by simp [← hmethods]
    have ht : t.Follows options m := hfollows (m, t) (by simp)
    refine ⟨by simpa using hmethods, ?_, fun hends => ?_⟩
    · intro p hp
      rcases List.mem_append.1 hp with hp | hp
      · exact hfollows p (by simp [hp])
      · rcases List.mem_cons.1 hp with rfl | hp
        · exact ht.step hstep
        · exact hfollows p (by simp [hp])
    · -- what is cancelled now was cancelled before, or this step did it under a live flag
      cases raised with
      | true => exact hcause (.inl rfl)
      | false =>
        by_cases hown : raised' = true ∨ t' = .cancelled
        · exact .inr ⟨m, hm, ht.cancelled_of_step hstep hown⟩
        · obtain ⟨hflag, htask⟩ := not_or.1 hown
          rcases hends with hends | ⟨m', hm'⟩
          · exact absurd hends hflag
          · refine hcause (.inr ⟨m', ?_⟩)
            rcases List.mem_append.1 hm' with hm' | hm'
            · exact List.mem_append_left _ hm'
            · rcases List.mem_cons.1 hm' with heq | hm'
              · cases heq
                exact absurd rfl htask
              · simp [hm']

/-- What a run leads to is sound. -/
theorem IsSound.reaches (h : b.IsSound options isTimed ms)
    (hrun : Relation.ReflTransGen (Moves isParallel isTimed) b b') :
    b'.IsSound options isTimed ms := by
  induction hrun with
  | refl => exact h
  | tail _ hmove ih => exact ih.moves hmove

/-! ### Every run comes to an end -/

/-- While some task has not ended, the batch goes on. -/
theorem exists_moves (isParallel isTimed : Bool) (h : ¬b.HasEnded) :
    ∃ b', Moves isParallel isTimed b b' := by
  obtain ⟨tasks, raised⟩ := b
  cases hfirst : tasks.find? fun p => !p.2.hasEnded with
  | none =>
    have hall : ∀ p ∈ tasks, p.2.hasEnded := by simpa using hfirst
    exact absurd hall h
  | some p =>
    -- it is the turn of the first one
    obtain ⟨hp, before, after, rfl, hbefore⟩ := List.find?_eq_some_iff_append.1 hfirst
    obtain ⟨m, t⟩ := p
    obtain ⟨t', raised', hstep⟩ := Task.exists_step (by simpa using hp) raised
    exact ⟨_, .task (.inr fun p hp => by simpa using hbefore p hp) hstep⟩

/-- The number of moves that a batch can still make, at most. -/
def remaining (b : Batch) : Nat := (b.tasks.map fun p => p.2.remaining).sum + (!b.raised).toNat

theorem Moves.remaining_lt (h : Moves isParallel isTimed b b') : b'.remaining < b.remaining := by
  cases h with
  | timeUp => exact Nat.lt_succ_self _
  | @task before after m t t' raised raised' _ hstep =>
    obtain ⟨hlt, hkept⟩ := Task.remaining_lt_of_step hstep
    have hflag : (!raised').toNat ≤ (!raised).toNat := by
      cases raised with
      | true => simp [hkept rfl]
      | false => cases raised' <;> simp
    simp only [remaining, List.map_append, List.map_cons, List.sum_append, List.sum_cons]
    omega

/-- A batch can be run to its end. -/
theorem exists_reaches_hasEnded (isParallel isTimed : Bool) (b : Batch) :
    ∃ b', Relation.ReflTransGen (Moves isParallel isTimed) b b' ∧ b'.HasEnded := by
  by_cases h : b.HasEnded
  · exact ⟨b, .refl, h⟩
  · obtain ⟨next, hnext⟩ := exists_moves isParallel isTimed h
    obtain ⟨b', hrun, hend⟩ := exists_reaches_hasEnded isParallel isTimed next
    exact ⟨b', .head hnext hrun, hend⟩
termination_by b.remaining
decreasing_by exact hnext.remaining_lt

/-! ### Methods that run one by one -/

/-- A task that is alone in its turn ends as its actions do. -/
theorem exists_task_reaches (isParallel isTimed : Bool) {before : List (Method × Task)}
    (hbefore : ∀ p ∈ before, p.2.hasEnded) (m : Method) (after : List (Method × Task))
    (todo : List Action) (w : Writer) (raised : Bool) :
    ∃ t, t.hasEnded ∧
      Relation.ReflTransGen (Moves isParallel isTimed)
        ⟨before ++ (m, .working w todo) :: after, raised⟩
        ⟨before ++ (m, t) :: after, (performAll todo { w with cancelled := raised }).2.cancelled⟩ ∧
      t.rendering? m = match performAll todo { w with cancelled := raised } with
        | (.completed, w) => some ⟨m.name, w.text, w.rendered⟩
        | (.cancelled, _) => none := by
  induction todo generalizing w raised with
  | nil => exact ⟨.working w [], rfl, .refl, rfl⟩
  | cons a todo ih =>
    rw [performAll]
    have hturn : isParallel = true ∨ ∀ p ∈ before, p.2.hasEnded := .inr hbefore
    split
    case h_1 next ha =>
      have hstep : (Task.working w (a :: todo)).step raised =
          some (.working next todo, next.cancelled) := by
        rw [Task.step, ha]
      obtain ⟨t, hend, hrun, ht⟩ := ih next next.cancelled
      exact ⟨t, hend, .head (.task hturn hstep) hrun, ht⟩
    case h_2 next ha =>
      have hstep : (Task.working w (a :: todo)).step raised =
          some (.cancelled, next.cancelled) := by
        rw [Task.step, ha]
      exact ⟨.cancelled, rfl, .single (.task hturn hstep), rfl⟩

/-- A method in its turn ends as it is rendered. -/
theorem exists_start_reaches (isParallel isTimed : Bool) {before : List (Method × Task)}
    (hbefore : ∀ p ∈ before, p.2.hasEnded) (options : RenderOptions) (m : Method)
    (after : List (Method × Task)) (raised : Bool) :
    ∃ t, t.hasEnded ∧
      Relation.ReflTransGen (Moves isParallel isTimed)
        ⟨before ++ (m, .start options m) :: after, raised⟩
        ⟨before ++ (m, t) :: after, (m.render options raised).2⟩ ∧
      t.rendering? m = (m.render options raised).1 := by
  obtain ⟨t, hend, hrun, ht⟩ := exists_task_reaches isParallel isTimed hbefore m after
    (m.actions options) (Method.writer options false) raised
  have hwriter : { Method.writer options false with cancelled := raised } =
      Method.writer options raised := rfl
  rw [hwriter] at hrun ht
  rw [m.render_eq_performAll]
  cases hall : performAll (m.actions options) (Method.writer options raised) with
  | mk outcome w =>
    rw [hall] at hrun ht
    cases outcome <;> exact ⟨t, hend, hrun, ht⟩

/-- Methods run one by one end as `renderAll` has them. -/
theorem exists_reaches_renderAll (isParallel isTimed : Bool) (options : RenderOptions)
    {before : List (Method × Task)} (hbefore : ∀ p ∈ before, p.2.hasEnded) (ms : List Method)
    (raised : Bool) :
    ∃ tasks : List (Method × Task), (∀ p ∈ tasks, p.2.hasEnded) ∧
      Relation.ReflTransGen (Moves isParallel isTimed)
        ⟨before ++ ms.map (fun m => (m, .start options m)), raised⟩
        ⟨before ++ tasks, (renderAll options ms raised).2⟩ ∧
      tasks.map (fun p => p.2.rendering? p.1) = (renderAll options ms raised).1 := by
  induction ms generalizing before raised with
  | nil => exact ⟨[], List.forall_mem_nil _, .refl, rfl⟩
  | cons m ms ih =>
    obtain ⟨t, hend, hrun, ht⟩ := exists_start_reaches isParallel isTimed hbefore options m
      (ms.map fun m => (m, .start options m)) raised
    have hnext : ∀ p ∈ before ++ [(m, t)], p.2.hasEnded :=
      List.forall_mem_append.2 ⟨hbefore, List.forall_mem_singleton.2 hend⟩
    obtain ⟨tasks, htasks, hrest, hmap⟩ := ih hnext (m.render options raised).2
    refine ⟨(m, t) :: tasks, List.forall_mem_cons.2 ⟨hend, htasks⟩, ?_, ?_⟩
    · simp only [List.append_assoc, List.singleton_append] at hrest
      exact hrun.trans hrest
    · rw [List.map_cons, hmap, ht, renderAll]

/-- Where tasks wait for each other and the time is not limited, the first task that has not ended
goes on. -/
theorem Moves.exists_task (h : Moves false false b b') :
    ∃ before m t t' after raised, b.tasks = before ++ (m, t) :: after ∧
      (∀ p ∈ before, p.2.hasEnded) ∧ t.step b.raised = some (t', raised) ∧
      b' = ⟨before ++ (m, t') :: after, raised⟩ := by
  cases h with
  | task hturn hstep =>
    exact ⟨_, _, _, _, _, _, rfl, hturn.resolve_left Bool.false_ne_true, hstep, rfl⟩
  | timeUp htimed => cases htimed

/-- Such a batch can go on in one way only. -/
theorem rightUnique_moves : Relator.RightUnique (Moves false false) := by
  intro b b₁ b₂ h₁ h₂
  obtain ⟨before₁, m₁, t₁, t₁', after₁, raised₁, htasks₁, hbefore₁, hstep₁, rfl⟩ := h₁.exists_task
  obtain ⟨before₂, m₂, t₂, t₂', after₂, raised₂, htasks₂, hbefore₂, hstep₂, rfl⟩ := h₂.exists_task
  have hfirst {before after : List (Method × Task)} {m : Method} {t : Task}
      (htasks : b.tasks = before ++ (m, t) :: after) (hbefore : ∀ p ∈ before, p.2.hasEnded)
      (ht : ¬t.hasEnded) : before = b.tasks.takeWhile fun p => p.2.hasEnded := by
    rw [htasks, List.takeWhile_append_of_pos hbefore, List.takeWhile_cons_of_neg (by exact ht),
      List.append_nil]
  obtain rfl : before₁ = before₂ :=
    (hfirst htasks₁ hbefore₁ (Task.not_hasEnded_of_step hstep₁)).trans
      (hfirst htasks₂ hbefore₂ (Task.not_hasEnded_of_step hstep₂)).symm
  cases List.append_cancel_left (htasks₁.symm.trans htasks₂)
  cases hstep₁.symm.trans hstep₂
  rfl

end Batch

open Batch

/-! ### The ends of a batch -/

/-- The renderings that a batch can end with. -/
def RenderOptions.Ends (options : RenderOptions) (isTimed : Bool) (ms : List Method)
    (rs : List (Option Rendering)) : Prop :=
  ∃ b, Relation.ReflTransGen (Moves (options.sharesOut ms) isTimed) (start options ms) b ∧
    b.HasEnded ∧ rs = b.renderings

namespace RenderOptions

variable {options : RenderOptions} {isTimed : Bool} {ms : List Method}
  {rs : List (Option Rendering)}

/-- Methods can end as they do one by one, whether or not they are shared out. -/
theorem ends_renderAll (options : RenderOptions) (isTimed : Bool) (ms : List Method) :
    options.Ends isTimed ms (renderAll options ms false).1 := by
  obtain ⟨tasks, hend, hrun, hmap⟩ :=
    exists_reaches_renderAll (options.sharesOut ms) isTimed options (List.forall_mem_nil _) ms false
  exact ⟨_, hrun, hend, hmap.symm⟩

/-- Every method ends as it does alone, or it is cancelled. -/
theorem Ends.areOwn (h : options.Ends isTimed ms rs) :
    List.Forall₂ (fun m r => r = none ∨ r = (m.render options false).1) ms rs := by
  obtain ⟨b, hrun, hend, rfl⟩ := h
  have hsound := (isSound_start options isTimed ms).reaches hrun
  rw [← hsound.methods, Batch.renderings, List.forall₂_map_left_iff, List.forall₂_map_right_iff,
    List.forall₂_same]
  intro p hp
  rcases (hsound.follows p hp).rendering? (hend p hp) with ⟨-, hnone⟩ | ⟨hown, -⟩
  · exact .inl hnone
  · exact .inr hown

/-- Where a method is cancelled alone, some method is cancelled. -/
theorem Ends.none_mem (h : options.Ends isTimed ms rs)
    (hm : ∃ m ∈ ms, (m.render options false).1 = none) : none ∈ rs := by
  obtain ⟨b, hrun, hend, rfl⟩ := h
  have hsound := (isSound_start options isTimed ms).reaches hrun
  obtain ⟨m, hm, halone⟩ := hm
  rw [← hsound.methods] at hm
  obtain ⟨p, hp, rfl⟩ := List.mem_map.1 hm
  rcases (hsound.follows p hp).rendering? (hend p hp) with ⟨-, hnone⟩ | ⟨-, hwritten⟩
  · exact List.mem_map.2 ⟨p, hp, hnone⟩
  · exact absurd halone hwritten

/-- Where a method is cancelled the time is limited, or some method is cancelled alone. -/
theorem Ends.of_none_mem (h : options.Ends isTimed ms rs) (hnone : none ∈ rs) :
    isTimed ∨ ∃ m ∈ ms, (m.render options false).1 = none := by
  obtain ⟨b, hrun, hend, rfl⟩ := h
  have hsound := (isSound_start options isTimed ms).reaches hrun
  obtain ⟨p, hp, hr⟩ := List.mem_map.1 hnone
  rcases (hsound.follows p hp).rendering? (hend p hp) with ⟨hcancelled, -⟩ | ⟨hown, hwritten⟩
  · exact hsound.cause (.inr ⟨p.1, by rw [← hcancelled]; exact hp⟩)
  · exact absurd (hown ▸ hr) hwritten

/-- Methods that are not shared out, in a time that is not limited, end in one way. -/
theorem Ends.eq_renderAll (h : options.Ends false ms rs) (hturns : options.sharesOut ms = false) :
    rs = (renderAll options ms false).1 := by
  obtain ⟨b, hrun, hend, rfl⟩ := h
  obtain ⟨b', hrun', hend', hrenderings⟩ := ends_renderAll options false ms
  rw [hturns] at hrun hrun'
  -- a batch that has ended does not go on
  have hstays {b₁ b₂ : Batch} (hend : b₁.HasEnded)
      (hrun : Relation.ReflTransGen (Moves false false) b₁ b₂) : b₁ = b₂ := by
    refine (Relation.ReflTransGen.cases_head hrun).resolve_right fun ⟨next, hmove, _⟩ => ?_
    obtain ⟨before, m, t, t', after, raised, htasks, -, hstep, -⟩ := hmove.exists_task
    exact Task.not_hasEnded_of_step hstep (hend (m, t) (by simp [htasks]))
  rw [hrenderings]
  rcases Relation.ReflTransGen.total_of_right_unique rightUnique_moves hrun hrun' with h | h
  · rw [hstays hend h]
  · rw [hstays hend' h]

end RenderOptions

end ActionTree
