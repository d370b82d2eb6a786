import ActionTree.Proofs.Method.Composition

/-!
# Batches under a node limit

The methods of a batch share one token.  The first method beyond the limit cancels it, and from
there on only methods without statements are written.

* `renderAll_of_cancelled` - a batch under a cancelled token;
* `renderAll_cons_within`, `renderAll_cons_beyond` - the first method of a batch;
* `renderAll_limited` - the batch as a whole.
-/

namespace ActionTree

/-- Under a cancelled token only methods without statements are written. -/
theorem renderAll_of_cancelled (options : RenderOptions) (ms : List Method) :
    renderAll options ms true = (ms.map (Method.afterCancel options), true) := by
  induction ms with
  | nil => rfl
  | cons m ms ih =>
    rw [renderAll, Method.render_of_cancelled]
    dsimp only
    rw [ih]
    rfl

section Limited

variable {options : RenderOptions} {limit : UInt64} (hlimit : options.nodeLimit = some limit)
  {m : Method} (ms : List Method)

include hlimit

/-- A method within the limit is written and leaves the token to those after it. -/
theorem renderAll_cons_within (h : (m.rendering options).nodes ≤ limit.toNat) :
    renderAll options (m :: ms) false =
      (some (m.rendering options) :: (renderAll options ms false).1,
        (renderAll options ms false).2) := by
  have hm : m.render options false = (some (m.rendering options), false) := by
    refine Method.render_within fun l hl => ?_
    obtain rfl : limit = l := Option.some.inj (hlimit.symm.trans hl)
    exact h
  rw [renderAll, hm]

/-- A method beyond the limit stops all methods with statements from there on. -/
theorem renderAll_cons_beyond (h : limit.toNat < (m.rendering options).nodes) :
    renderAll options (m :: ms) false = ((m :: ms).map (Method.afterCancel options), true) := by
  have hne : m.statements ≠ [] := by
    intro hnil
    rw [Method.rendering, hnil] at h
    exact Nat.not_lt_zero _ h
  rw [renderAll, Method.render_beyond hlimit h]
  dsimp only
  rw [renderAll_of_cancelled, List.map_cons, Method.afterCancel, if_neg hne]

/-- A batch splits at the first method beyond the limit. -/
theorem renderAll_splits :
    let first := ms.findIdx fun m => limit.toNat < (m.rendering options).nodes
    renderAll options ms false =
      ((ms.take first).map (fun m => some (m.rendering options)) ++
        (ms.drop first).map (Method.afterCancel options), decide (first < ms.length)) := by
  induction ms with
  | nil => rfl
  | cons m ms ih =>
    by_cases hm : limit.toNat < (m.rendering options).nodes
    · rw [renderAll_cons_beyond hlimit ms hm, List.findIdx_cons, decide_eq_true hm]
      simp
    · rw [renderAll_cons_within hlimit ms (Nat.le_of_not_lt hm), ih, List.findIdx_cons,
        decide_eq_false hm]
      simp

end Limited

/-- **A node limit stops a batch from the first offender on.**  A method without a limit is always
written.  With a limit, the methods before the first one that has more nodes are written as they are
without it.  From there on those with statements are cancelled, and those without are written as
they are alone.  The token is cancelled exactly when there is such a method. -/
theorem renderAll_limited (options : RenderOptions) (limit : UInt64) (ms : List Method) :
    ∃ alone : Method → Rendering,
      (∀ m : Method, m.render { options with nodeLimit := none } false = (some (alone m), false)) ∧
      (∀ m : Method, m.statements = [] →
        m.render { options with nodeLimit := some limit } false = (some (alone m), false)) ∧
      let first := ms.findIdx fun m => limit.toNat < (alone m).nodes
      renderAll { options with nodeLimit := some limit } ms false =
        ((ms.take first).map (fun m => some (alone m)) ++
          (ms.drop first).map (fun m => if m.statements = [] then some (alone m) else none),
          decide (first < ms.length)) := by
  refine ⟨Method.rendering options, fun m => ?_, fun m hempty => ?_, ?_⟩
  · exact Method.render_within fun l hl => by cases hl
  · have hnodes : (m.rendering { options with nodeLimit := some limit }).nodes = 0 := by
      rw [Method.rendering, hempty]
      rfl
    exact Method.render_within fun l _ => by rw [hnodes]; exact Nat.zero_le _
  · exact renderAll_splits rfl ms

end ActionTree
