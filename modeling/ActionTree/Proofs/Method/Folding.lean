import ActionTree.Proofs.Method.Composition
import ActionTree.Proofs.Writing.Shown
import Mathlib.Algebra.Order.BigOperators.Group.List
import Mathlib.Algebra.Order.Group.Nat

/-!
# Folding within a budget

A literal is one node, and every tree is written with one node at least.  Where folding goes on in
the parts of a node, the same parts of it are written as before: the objects that an access leaves
out, `this` and lookups in the scope chain, are never known ahead.

* `Node.isImplied_fold` - folding leaves the implied objects implied, and no others;
* `Node.nodesAlone_fold_le` - a folded tree is written with no more nodes;
* `statementNodes_folded_le` - so are folded statements;
* `Node.foldUnder_withinBudget` - methods within a limit stay within it when they are folded.
-/

namespace ActionTree

namespace Node

variable {locals : Locals}

/-! ### Implied objects -/

/-- A lookup in the scope chain is not known ahead. -/
theorem not_isConstant_of_isScopeReceiver {n : Node} (h : n.isScopeReceiver = true) :
    n.isConstant = false := by
  obtain ⟨k, o⟩ := n
  cases k with
  | scope p => rfl
  | duplicate v =>
    obtain ⟨k, o'⟩ := v
    cases k with
    | scope p => rfl
    | _ => cases h
  | _ => cases h

/-- Neither is `this`. -/
theorem not_isConstant_of_rendersAsThis {n : Node} (h : n.rendersAsThis locals = true) :
    n.isConstant = false := by
  induction n using induct with
  | step k o ih =>
    cases k with
    | this | register i t => rfl
    | duplicate v | coerce t v => exact ih v (by simp [Kind.parts, Kind.children]) h
    | convert t v =>
      exact ih v (by simp [Kind.parts, Kind.children]) (Bool.and_eq_true_iff.1 h).2
    | _ => cases h

/-- There is nothing to fold in `this`. -/
theorem fold_of_rendersAsThis {n : Node} (h : n.rendersAsThis locals = true) : n.fold = n := by
  induction n using induct with
  | step k o ih =>
    rw [fold_of_not_isConstant (not_isConstant_of_rendersAsThis h)]
    cases k with
    | this | register i t => rfl
    | duplicate v | coerce t v =>
      rw [Kind.map, ih v (by simp [Kind.parts, Kind.children]) h]
    | convert t v =>
      rw [Kind.map, ih v (by simp [Kind.parts, Kind.children]) (Bool.and_eq_true_iff.1 h).2]
    | _ => cases h

/-- Folding leaves lookups in the scope chain, and makes none. -/
theorem isScopeReceiver_fold (n : Node) : n.fold.isScopeReceiver = n.isScopeReceiver := by
  obtain ⟨k, o⟩ := n
  rw [fold_mk]
  split
  · rename_i l hl
    refine (Bool.eq_false_iff.2 fun hscope => ?_).symm
    exact absurd (literal?_eq_some hl).2.1 (by simp [not_isConstant_of_isScopeReceiver hscope])
  · cases k with
    | duplicate v =>
      obtain ⟨k, o'⟩ := v
      show isScopeReceiver ⟨.duplicate (fold ⟨k, o'⟩), o⟩ = _
      rw [fold_mk]
      split
      · rename_i l hl
        cases k with
        | scope p => cases (literal?_eq_some hl).2.1
        | _ => rfl
      · cases k <;> rfl
    | _ => rfl

/-- Folding makes `this` of nothing else. -/
theorem rendersAsThis_fold (locals : Locals) (n : Node) :
    n.fold.rendersAsThis locals = n.rendersAsThis locals := by
  induction n using induct with
  | step k o ih =>
    rw [fold_mk]
    split
    · rename_i l hl
      refine (Bool.eq_false_iff.2 fun hthis => ?_).symm
      exact absurd (literal?_eq_some hl).2.1 (by simp [not_isConstant_of_rendersAsThis hthis])
    · cases k with
      | duplicate v | coerce t v => exact ih v (by simp [Kind.parts, Kind.children])
      | convert t v =>
        have hv := ih v (by simp [Kind.parts, Kind.children])
        rw [Kind.map, rendersAsThis, rendersAsThis, hv]
        by_cases hthis : v.rendersAsThis locals = true
        · rw [fold_of_rendersAsThis hthis]
        · rw [Bool.eq_false_iff.2 hthis, Bool.and_false, Bool.and_false]
      | _ => rfl

/-- Folding leaves the implied objects implied, and no others. -/
theorem isImplied_fold (locals : Locals) (lookup : Lookup) (object : Node) :
    object.fold.isImplied locals lookup = object.isImplied locals lookup := by
  cases lookup with
  | direct => exact object.isScopeReceiver_fold
  | super => rw [isImplied, isImplied, rendersAsThis_fold, isScopeReceiver_fold]

/-! ### Trees -/

/-- A folded tree is written with no more nodes. -/
theorem nodesAlone_fold_le (locals : Locals) (n : Node) :
    n.fold.nodesAlone locals ≤ n.nodesAlone locals := by
  induction n using induct with
  | step k o ih =>
    rw [fold_mk, nodesAlone_mk locals k o]
    split
    · rw [nodesAlone_mk]
      exact Nat.le_add_right 1 _
    · rw [nodesAlone_mk, Kind.shown_map locals fun lookup object _ _ =>
        isImplied_fold locals lookup object, List.map_map]
      refine Nat.add_le_add_left (List.sum_le_sum fun c hc => ?_) 1
      exact ih c (Kind.mem_parts_of_mem_shown locals hc)

end Node

/-! ### Methods -/

/-- Folded statements are written with no more nodes. -/
theorem statementNodes_folded_le (options : RenderOptions) (locals : Locals) (ss : List Node) :
    statementNodes { options with foldsConstants := true } locals ss ≤
      statementNodes { options with foldsConstants := false } locals ss :=
  List.sum_le_sum fun s _ => s.nodesAlone_fold_le locals

/-- A method that is written under a limit is put together from its statements within the limit. -/
theorem Method.rendering_of_render {options : RenderOptions} {m : Method} {r : Rendering}
    (h : (m.render options false).1 = some r) :
    r = m.rendering options ∧ ∀ limit, options.nodeLimit = some limit → r.nodes ≤ limit.toNat := by
  have hwithin (limit : UInt64) (hl : options.nodeLimit = some limit) :
      (m.rendering options).nodes ≤ limit.toNat := by
    refine Nat.le_of_not_lt fun hbeyond => ?_
    rw [render_beyond hl hbeyond] at h
    cases h
  rw [render_within hwithin] at h
  obtain rfl : m.rendering options = r := Option.some.inj h
  exact ⟨rfl, hwithin⟩

namespace Node

/-- **Folding never costs budget.**  Under a token that stays live, a folded tree is written with at
most as many nodes as the tree itself, whatever the names of registers are.  A method that is
written within its node limit without folding is so with folding, and the token stays live. -/
theorem foldUnder_withinBudget (raised : Nat → Bool) (live : ∀ i, raised i = false) :
    (∀ (n : Node) (locals : Locals), ∃ m, n.foldUnder raised = some m ∧
      (Writer.run (m.steps locals) .fresh).2.rendered ≤
        (Writer.run (n.steps locals) .fresh).2.rendered) ∧
    ∀ (options : RenderOptions) (m : Method) (r : Rendering),
      (m.render { options with foldsConstants := false } false).1 = some r →
      ∃ r', m.render { options with foldsConstants := true } false = (some r', false) ∧
        r'.nodes ≤ r.nodes ∧
        ∀ limit, options.nodeLimit = some limit → r'.nodes ≤ limit.toNat := by
  refine ⟨fun n locals => ⟨n.fold, foldUnder_live live n, n.nodesAlone_fold_le locals⟩, ?_⟩
  intro options m r hr
  obtain ⟨rfl, hwithin⟩ := Method.rendering_of_render hr
  have hnodes := statementNodes_folded_le options (m.locals options.localStem) m.statements
  have hroom (limit : UInt64) (hl : options.nodeLimit = some limit) :
      (m.rendering { options with foldsConstants := true }).nodes ≤ limit.toNat :=
    Nat.le_trans hnodes (hwithin limit hl)
  exact ⟨_, Method.render_within hroom, hnodes, hroom⟩

/-- `return super[1 + 2]`, where the receiver is an implied `this`. -/
def readThird : Method :=
  .ofStatements "third"
    [returnValue (getSuper (coerce this .any)
      (.computed (binary .add (literal (.int 1)) (literal (.int 2)))))]

/-- At most five nodes in a method. -/
def fiveNodes : RenderOptions := { RenderOptions.default with nodeLimit := some 5 }

/-- The limit is reached without folding, and not with it. -/
theorem foldUnder_withinBudget_readThird :
    (∀ _ : Nat, false = false) ∧
      (readThird.render { fiveNodes with foldsConstants := false } false).1 =
        some ⟨"third", "function third()\n\x7b\n    return super[1 + 2];\n\x7d\n", 5⟩ ∧
      ∃ r, readThird.render { fiveNodes with foldsConstants := true } false = (some r, false) ∧
        r.source = "function third()\n\x7b\n    return super[3];\n\x7d\n" ∧ r.nodes ≤ 5 := by
  have live : ∀ _ : Nat, false = false := fun _ => rfl
  have hplain : (readThird.render { fiveNodes with foldsConstants := false } false).1 =
      some ⟨"third", "function third()\n\x7b\n    return super[1 + 2];\n\x7d\n", 5⟩ := by
    decide +kernel
  obtain ⟨r, hr, hnodes, -⟩ :=
    (foldUnder_withinBudget (fun _ => false) live).2 fiveNodes readThird _ hplain
  have hsource : (readThird.render { fiveNodes with foldsConstants := true } false).1.map
      (·.source) = some "function third()\n\x7b\n    return super[3];\n\x7d\n" := by
    decide +kernel
  refine ⟨live, hplain, r, hr, ?_, hnodes⟩
  rw [hr] at hsource
  exact Option.some.inj hsource

end Node

end ActionTree
