import ActionTree.Node.Build
import ActionTree.Proofs.Dependency.Slots

/-!
# Names computed at runtime

All properties with computed names share one slot, which is compared like any other.  So an
assignment to a computed name keeps its order with accesses to computed names, and with no access to
a static name, unless that name happens to be the key of the shared slot.

* `Node.Touches`, `Node.AssignsComputed` - accesses to properties, and assignments to computed names;
* `Node.mem_dependencies_property` - the slots of the properties that a tree touches;
* `Node.dependsOn_of_assignsComputed` - when statements keep their order, if one of them assigns to a
  computed name;
* `Node.exists_computed_not_dependsOn` - they need not do so.
-/

namespace ActionTree

/-- The slot that the properties with computed names share. -/
def Slot.wildcard (lookup : Lookup) : Slot := .property lookup "[]"

/-- Static names that are spelled like the shared key are confused with the computed ones. -/
theorem Property.key_eq_wildcard_iff {α : Type} {p : Property α} :
    p.key = "[]" ↔ p.runtime.isSome = true ∨ p.name.fullName = "[]" := by
  unfold key
  split
  · simp_all
  · simp_all

namespace Kind

variable {α : Type}

/-- The property that a node assigns by itself. -/
def assigned? : Kind α → Option (Lookup × Property α)
  | .assign (.property lookup _ p) .. => some (lookup, p)
  | _ => none

/-- The property that a node reads or assigns by itself. -/
def touched? : Kind α → Option (Lookup × Property α)
  | .get _ p _ => some (.direct, p)
  | .getSuper _ p => some (.super, p)
  | k => k.assigned?

theorem writes?_eq_property_iff {k : Kind α} {lookup : Lookup} {key : String} :
    k.writes? = some (.property lookup key) ↔
      ∃ p, k.assigned? = some (lookup, p) ∧ p.key = key := by
  cases k with
  | assign target v compound d =>
    cases target <;> simp [writes?, assigned?, Target.slot, and_assoc]
  | declare i t v => cases v <;> simp [writes?, assigned?]
  | _ => simp [writes?, assigned?]

theorem accesses_property_iff {k : Kind α} {lookup : Lookup} {key : String} :
    k.reads? = some (.property lookup key) ∨ k.writes? = some (.property lookup key) ↔
      ∃ p, k.touched? = some (lookup, p) ∧ p.key = key := by
  cases k with
  | assign target v compound d =>
    cases target <;> cases compound <;>
      simp [reads?, writes?, touched?, assigned?, Target.slot, and_assoc]
  | declare i t v => cases v <;> simp [reads?, writes?, touched?, assigned?]
  | _ => simp [reads?, writes?, touched?, assigned?, and_assoc]

end Kind

namespace Node

/-- A node of the tree reads or assigns the property. -/
def Touches (n : Node) (lookup : Lookup) (p : Property Node) : Prop :=
  ∃ m, n.Reaches m ∧ m.kind.touched? = some (lookup, p)

/-- A node of the tree assigns a property whose name is computed. -/
def AssignsComputed (n : Node) (lookup : Lookup) : Prop :=
  ∃ m p, n.Reaches m ∧ m.kind.assigned? = some (lookup, p) ∧ p.runtime.isSome = true

/-- A tree touches a property whose slot is the shared one. -/
def TouchesWildcard (n : Node) (lookup : Lookup) : Prop :=
  ∃ p, n.Touches lookup p ∧ (p.runtime.isSome = true ∨ p.name.fullName = "[]")

/-- The property slots of a tree are those of the properties that it touches. -/
theorem mem_dependencies_property {n : Node} {lookup : Lookup} {key : String} :
    .property lookup key ∈ n.dependencies.reads ∨ .property lookup key ∈ n.dependencies.writes ↔
      ∃ p, n.Touches lookup p ∧ p.key = key := by
  rw [mem_reads, mem_writes, ← exists_or]
  simp only [← and_or_left, Kind.accesses_property_iff]
  constructor
  · rintro ⟨m, hm, p, hp, hkey⟩
    exact ⟨p, ⟨m, hm, hp⟩, hkey⟩
  · rintro ⟨p, ⟨m, hm, hp⟩, hkey⟩
    exact ⟨m, hm, p, hp, hkey⟩

theorem mem_dependencies_wildcard {n : Node} {lookup : Lookup} :
    .wildcard lookup ∈ n.dependencies.reads ∨ .wildcard lookup ∈ n.dependencies.writes ↔
      n.TouchesWildcard lookup := by
  simp only [Slot.wildcard, mem_dependencies_property, Property.key_eq_wildcard_iff,
    TouchesWildcard]

/-- An assignment to a computed name writes the shared slot. -/
theorem AssignsComputed.mem_writes {n : Node} {lookup : Lookup} (h : n.AssignsComputed lookup) :
    .wildcard lookup ∈ n.dependencies.writes := by
  obtain ⟨m, p, hm, hassigned, hcomputed⟩ := h
  exact Node.mem_writes.2 ⟨m, hm, Kind.writes?_eq_property_iff.2
    ⟨p, hassigned, Property.key_eq_wildcard_iff.2 (Or.inl hcomputed)⟩⟩

/-- **Computed names keep their order among themselves.**  Where one of two statements assigns to a
computed name, the later one depends on the earlier one exactly when both touch a property of the
shared slot, or when they conflict at another slot. -/
theorem dependsOn_of_assignsComputed {a b : Node} {lookup : Lookup}
    (h : a.AssignsComputed lookup ∨ b.AssignsComputed lookup) :
    b.dependencies.dependsOn a.dependencies = true ↔
      a.TouchesWildcard lookup ∧ b.TouchesWildcard lookup ∨
        ∃ s, s ≠ .wildcard lookup ∧ b.dependencies.ConflictAt a.dependencies s := by
  rw [Dependencies.dependsOn_iff, ← mem_dependencies_wildcard, ← mem_dependencies_wildcard]
  constructor
  · rintro ⟨s, hs⟩
    by_cases hwild : s = .wildcard lookup
    · subst hwild
      left
      rcases hs with ⟨hread, hwritten⟩ | ⟨hwritten, haccess⟩
      · exact ⟨Or.inr hwritten, Or.inl hread⟩
      · exact ⟨haccess, Or.inr hwritten⟩
    · exact Or.inr ⟨s, hwild, hs⟩
  · rintro (⟨ha, hb⟩ | ⟨s, -, hs⟩)
    · refine ⟨.wildcard lookup, ?_⟩
      rcases h with hassigns | hassigns
      · rcases hb with hread | hwritten
        · exact Or.inl ⟨hread, hassigns.mem_writes⟩
        · exact Or.inr ⟨hwritten, Or.inr hassigns.mem_writes⟩
      · exact Or.inr ⟨hassigns.mem_writes, ha⟩
    · exact ⟨s, hs⟩

/-- `this[_loc1_] = 1`. -/
def assignComputed : Node :=
  assign (.property .direct this (.computed (register 1))) (literal (.int 1))

/-- `return scaled(this[_loc2_])`. -/
def returnScaled : Node :=
  returnValue (call .direct this (.static (.ofName "scaled"))
    [get this (.computed (register 2))])

/-- The read stays behind the assignment, although the two names are computed in different ways. -/
theorem dependsOn_of_assignsComputed_returnScaled :
    assignComputed.AssignsComputed .direct ∧
      returnScaled.dependencies.dependsOn assignComputed.dependencies = true := by
  have hassigns : assignComputed.AssignsComputed .direct :=
    ⟨assignComputed, _, .refl, rfl, rfl⟩
  have hearlier : assignComputed.TouchesWildcard .direct :=
    ⟨_, ⟨assignComputed, .refl, rfl⟩, Or.inl rfl⟩
  have hargument : returnScaled.Reaches (get this (.computed (register 2))) :=
    .tail (.single (List.mem_singleton.2 rfl)) (List.mem_cons_of_mem _ (List.mem_singleton.2 rfl))
  have hlater : returnScaled.TouchesWildcard .direct := ⟨_, ⟨_, hargument, rfl⟩, Or.inl rfl⟩
  exact ⟨hassigns, (dependsOn_of_assignsComputed (Or.inl hassigns)).2 (Or.inl ⟨hearlier, hlater⟩)⟩

/-- `return this.x`. -/
def returnStatic : Node := returnValue (get this (.static (.ofName "x")))

/-- Statements of which one assigns to a computed name and the other touches a property need not
depend on each other. -/
theorem exists_computed_not_dependsOn :
    ¬ ∀ a b : Node,
      a.AssignsComputed .direct ∧ (∃ p, b.Touches .direct p) ∨
        b.AssignsComputed .direct ∧ (∃ p, a.Touches .direct p) →
      b.dependencies.dependsOn a.dependencies = true := by
  intro h
  have hread : returnStatic.Reaches (get this (.static (.ofName "x"))) :=
    .single (List.mem_singleton.2 rfl)
  have hdepends := h assignComputed returnStatic
    (Or.inl ⟨⟨assignComputed, _, .refl, rfl, rfl⟩, _, _, hread, rfl⟩)
  have hfree : returnStatic.dependencies.dependsOn assignComputed.dependencies = false := by
    decide +kernel
  rw [hfree] at hdepends
  cases hdepends

end Node

end ActionTree
