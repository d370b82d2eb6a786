import ActionTree.Proofs.Constant.Folding
import ActionTree.Proofs.Dependency.Slots
import ActionTree.Proofs.Tree.Preorder

/-!
# Folding and effects

What becomes a literal has no effect anywhere below it, not even in a branch that is not taken, so
folding takes no effect away.  It takes reads away, those of the branches that are not taken.

* `Effect`, `Node.effects` - the effects of a tree in order, each with what it names;
* `Node.hasSideEffect_iff`, `Node.effects_eq_nil` - a tree has a side effect when one of its nodes is
  an effect, and without one there are no effects;
* `Node.reaches_fold` - a node of a folded tree is a literal or has the kind of an old node;
* `Node.effects_fold`, `Node.written_fold`, `Node.reads_fold` - what folding keeps.
-/

namespace ActionTree

variable {α β : Type}

/-! ### Effects -/

/-- What an effect names: its kind, the register that it writes, and the name of its property if
that is known beforehand. -/
structure Effect where
  kind : String
  register : Option UInt32
  name : Option QualifiedName
  deriving DecidableEq

/-- The name of a property, unless it is computed. -/
def Property.staticName? (p : Property α) : Option QualifiedName :=
  match p.runtime with
  | none => some p.name
  | some _ => none

namespace Kind

/-- The register that a kind names. -/
def register? : Kind α → Option UInt32
  | .register i _ | .assign (.register i) .. | .declare i .. => some i
  | _ => none

/-- The static type that a kind names. -/
def type? : Kind α → Option StaticType
  | .register _ t | .convert t _ | .coerce t _ | .get _ _ t | .declare _ t _ => some t
  | _ => none

/-- The property that a kind names. -/
def property? : Kind α → Option (Property α)
  | .scope p | .get _ p _ | .getSuper _ p | .call _ _ p _ => some p
  | .assign (.property _ _ p) .. => some p
  | _ => none

/-- The effect of a kind by itself. -/
def effect? (k : Kind α) : Option Effect :=
  if k.isEffect then some ⟨k.name, k.register?, k.property?.bind Property.staticName?⟩ else none

theorem name_map (f : α → β) (k : Kind α) : (k.map f).name = k.name := by
  cases k with
  | assign target v c d => rcases target with i | ⟨_ | _, object, p⟩ <;> rfl
  | call lookup object p as => cases lookup <;> rfl
  | literal l => cases l <;> rfl
  | _ => rfl

theorem type?_map (f : α → β) (k : Kind α) : (k.map f).type? = k.type? := by
  cases k <;> rfl

/-- The effect of a kind does not depend on its parts. -/
theorem effect?_map (f : α → β) (k : Kind α) : (k.map f).effect? = k.effect? := by
  have hstatic (p : Property α) : (p.map f).staticName? = p.staticName? := by
    obtain ⟨name, runtime⟩ := p
    cases runtime <;> rfl
  have hregister : (k.map f).register? = k.register? := by
    cases k with
    | assign target v c d => cases target <;> rfl
    | _ => rfl
  have hproperty : (k.map f).property? = k.property?.map (·.map f) := by
    cases k with
    | assign target v c d => cases target <;> rfl
    | _ => rfl
  simp only [effect?, isEffect_map, name_map, hregister, hproperty, Option.bind_map,
    Function.comp_def, hstatic]

end Kind

namespace Node

/-- The effects of a tree, those of each node before those below it. -/
def effects (n : Node) : List Effect := n.preorder.filterMap (·.kind.effect?)

theorem effects_mk (k : Kind Node) (o : Origin) :
    effects ⟨k, o⟩ = k.effect?.toList ++ k.children.flatMap effects := by
  rw [effects, preorder_mk, List.filterMap_cons, List.filterMap_flatMap]
  cases k.effect? <;> rfl

/-- A tree has a side effect when one of its nodes is an effect. -/
theorem hasSideEffect_iff {n : Node} :
    n.hasSideEffect = true ↔ ∃ m, n.Reaches m ∧ m.kind.isEffect = true := by
  induction n using induct with
  | step k o ih =>
    have hchildren : k.children.any hasSideEffect = true ↔
        ∃ c ∈ k.children, ∃ m, c.Reaches m ∧ m.kind.isEffect = true := by
      rw [List.any_eq_true]
      exact exists_congr fun c => and_congr_right fun hc => ih c (List.mem_append_left _ hc)
    rw [hasSideEffect_mk, Bool.or_eq_true, hchildren]
    constructor
    · rintro (heffect | ⟨c, hc, m, hm, heffect⟩)
      · exact ⟨_, reaches_mk.2 (Or.inl rfl), heffect⟩
      · exact ⟨m, reaches_mk.2 (Or.inr ⟨c, hc, hm⟩), heffect⟩
    · rintro ⟨m, hm, heffect⟩
      rcases reaches_mk.1 hm with rfl | ⟨c, hc, hm⟩
      · exact Or.inl heffect
      · exact Or.inr ⟨c, hc, m, hm, heffect⟩

/-- A tree without side effects reaches no effect. -/
theorem not_isEffect_of_reaches {n m : Node} (h : n.hasSideEffect = false) (hm : n.Reaches m) :
    m.kind.isEffect = false := by
  rw [← Bool.not_eq_true] at h ⊢
  exact fun heffect => h (hasSideEffect_iff.2 ⟨m, hm, heffect⟩)

/-- A tree without side effects has no effects. -/
theorem effects_eq_nil {n : Node} (h : n.hasSideEffect = false) : n.effects = [] := by
  rw [effects, List.filterMap_eq_nil_iff]
  intro m hm
  rw [Kind.effect?, not_isEffect_of_reaches h (mem_preorder.1 hm)]
  rfl

/-! ### Writes -/

/-- What a kind writes depends on what its children write, and on nothing else that they access. -/
theorem written_congr {f g : α → List Access} {k : Kind α}
    (h : ∀ a ∈ k.children, (f a).filterMap Access.write? = (g a).filterMap Access.write?) :
    (k.map f).accesses.filterMap Access.write? = (k.map g).accesses.filterMap Access.write? := by
  have list (as : List α) (has : ∀ a ∈ as, a ∈ k.children) :
      (as.map f).flatten.filterMap Access.write? = (as.map g).flatten.filterMap Access.write? := by
    rw [List.filterMap_flatten, List.filterMap_flatten, List.map_map, List.map_map]
    exact congrArg List.flatten (List.map_congr_left fun a ha => h a (has a ha))
  have all := list k.children fun a ha => ha
  cases k with
  | assign target v c d =>
    have targets := list target.children fun a ha => by simp [Kind.children, ha]
    have value := h v (by simp [Kind.children])
    have slot : (target.map f).slot = (target.map g).slot := by
      cases target <;> simp [Target.map, Target.slot, Property.key, Property.map]
    simp only [Kind.map, Kind.accesses, Kind.children_map_target, Option.isSome_map,
      List.filterMap_append, targets, value, slot]
    split <;> simp [targets, Access.write?]
  | get object p t | getSuper object p =>
    have receiver := h object (by simp [Kind.children])
    have name := list p.children fun a ha => by simp [Kind.children, ha]
    simp only [Kind.map, Kind.accesses, Kind.children_map_property, List.filterMap_append,
      receiver, name]
    rfl
  | declare i t v =>
    cases v with
    | none => rfl
    | some v => simp [Kind.map, Kind.accesses, h v (by simp [Kind.children])]
  | register i t => rfl
  | _ =>
    rw [← Kind.children_map, ← Kind.children_map] at all
    exact all

/-- Writing is an effect. -/
theorem isEffect_of_writes {k : Kind α} {s : Slot} (h : k.writes? = some s) :
    k.isEffect = true := by
  cases k <;> simp_all [Kind.writes?, Kind.isEffect]

/-- The slots that a tree writes, in the order of evaluation and with repetitions. -/
def written (n : Node) : List Slot := n.accesses.filterMap Access.write?

/-- A tree without side effects writes nothing. -/
theorem written_eq_nil {n : Node} (h : n.hasSideEffect = false) : n.written = [] := by
  rw [written, List.filterMap_eq_nil_iff]
  intro x hx
  obtain ⟨m, hm, hown⟩ := mem_accesses.1 hx
  cases x with
  | read s => rfl
  | write s =>
    have heffect := isEffect_of_writes (Kind.write_mem_ownAccesses.1 hown)
    rw [not_isEffect_of_reaches h hm] at heffect
    cases heffect

/-- What a node writes is made from what its children write. -/
theorem written_map {f : Node → Node} {k : Kind Node} (o o' : Origin)
    (h : ∀ c ∈ k.children, (f c).written = c.written) :
    written ⟨k.map f, o⟩ = written ⟨k, o'⟩ := by
  rw [written, written, accesses_mk, accesses_mk, Kind.map_map]
  exact written_congr h

/-! ### Folding -/

/-- A node of a folded tree is a literal, or an old node with folded parts. -/
theorem reaches_fold {n m : Node} (h : n.fold.Reaches m) :
    (∃ l, m.kind = .literal l) ∨ ∃ c, n.Reaches c ∧ m.kind = c.kind.map fold := by
  induction n using induct with
  | step k o ih =>
    rw [fold_mk] at h
    split at h
    · rename_i l hl
      rcases reaches_mk.1 h with rfl | ⟨c, hc, -⟩
      · exact Or.inl ⟨l, rfl⟩
      · cases hc
    · rcases reaches_mk.1 h with rfl | ⟨c, hc, hm⟩
      · exact Or.inr ⟨⟨k, o⟩, reaches_mk.2 (Or.inl rfl), rfl⟩
      · rw [Kind.children_map] at hc
        obtain ⟨d, hd, rfl⟩ := List.mem_map.1 hc
        refine (ih d (List.mem_append_left _ hd) hm).imp_right ?_
        rintro ⟨c, hc, hkind⟩
        exact ⟨c, reaches_mk.2 (Or.inr ⟨d, hd, hc⟩), hkind⟩

/-- Folding keeps the effects and their order. -/
theorem effects_fold (n : Node) : n.fold.effects = n.effects := by
  induction n using induct with
  | step k o ih =>
    rw [fold_mk]
    split
    · rename_i l hl
      rw [effects_eq_nil (literal?_eq_some hl).1]
      rfl
    · rw [effects_mk, effects_mk, Kind.effect?_map, Kind.children_map, List.flatMap_map]
      congr 1
      rw [List.flatMap_def, List.flatMap_def]
      exact congrArg List.flatten
        (List.map_congr_left fun c hc => ih c (List.mem_append_left _ hc))

/-- Folding keeps what is written and in which order. -/
theorem written_fold (n : Node) : n.fold.written = n.written := by
  induction n using induct with
  | step k o ih =>
    rw [fold_mk]
    split
    · rename_i l hl
      rw [written_eq_nil (literal?_eq_some hl).1]
      rfl
    · exact written_map o o fun c hc => ih c (List.mem_append_left _ hc)

/-- Folding adds no reads. -/
theorem reads_fold {n : Node} {s : Slot} (h : s ∈ n.fold.dependencies.reads) :
    s ∈ n.dependencies.reads := by
  obtain ⟨m, hm, hread⟩ := mem_reads.1 h
  rcases reaches_fold hm with ⟨l, hkind⟩ | ⟨c, hc, hkind⟩
  · rw [hkind] at hread
    cases hread
  · refine mem_reads.2 ⟨c, hc, ?_⟩
    rw [← Kind.read_mem_ownAccesses, ← Kind.ownAccesses_map fold, ← hkind,
      Kind.read_mem_ownAccesses]
    exact hread

/-- **Folding neither adds nor drops nor reorders effects.**  Under a token that stays live, folding
gives a tree with the same effects in the same order, which writes the same slots in the same order
and reads none that the old tree does not read. -/
theorem foldUnder_effects (raised : Nat → Bool) (live : ∀ i, raised i = false) (n : Node) :
    ∃ m, n.foldUnder raised = some m ∧
      m.effects = n.effects ∧
      m.dependencies.writes = n.dependencies.writes ∧
      ∀ s ∈ m.dependencies.reads, s ∈ n.dependencies.reads := by
  refine ⟨n.fold, foldUnder_live live n, n.effects_fold, ?_, fun s hs => reads_fold hs⟩
  show n.fold.written.eraseDups = n.written.eraseDups
  rw [written_fold]

/-- `_loc1_ = f(true ? 2 * 3 : _loc2_)` -/
def callWithChoice : Node :=
  assign (.register 1) (call .direct this (.static (.ofName "f"))
    [ternary (literal (.boolean true)) (binary .multiply (literal (.int 2)) (literal (.int 3)))
      (register 2)])

/-- The argument becomes a literal; the call and the assignment stay, in this order. -/
theorem foldUnder_effects_callWithChoice :
    (∀ i : Nat, (fun _ => false : Nat → Bool) i = false) ∧
      ∃ m, callWithChoice.foldUnder (fun _ => false) = some m ∧
        m.effects = [⟨"SetLocal", some 1, none⟩, ⟨"CallProperty", none, some (.ofName "f")⟩] ∧
        m.dependencies.writes = [.register 1] ∧
        ∀ s ∈ m.dependencies.reads, s = .register 2 := by
  have live : ∀ i : Nat, (fun _ => false : Nat → Bool) i = false := fun _ => rfl
  obtain ⟨m, hm, heffects, hwrites, hreads⟩ :=
    foldUnder_effects (fun _ => false) live callWithChoice
  have hold : callWithChoice.dependencies.reads = [.register 2] := by decide +kernel
  refine ⟨live, m, hm, heffects.trans (by decide +kernel), hwrites.trans (by decide +kernel), ?_⟩
  intro s hs
  rw [hold] at hreads
  exact List.mem_singleton.1 (hreads s hs)

end Node

end ActionTree
