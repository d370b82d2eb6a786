import ActionTree.Proofs.Dependency.Slots
import ActionTree.Proofs.Writing.Congruence

/-!
# Trees without copies

A copy on the operand stack is a value like the one that is copied.  Replacing every copy in a tree
by the value under it leaves what the tree is from outside, what it touches and its text.  Only the
test for a receiver that is looked up in the scope chain looks through one copy and not through
more.

* `Node.withoutCopies` - a tree with every copy replaced by its value;
* `Node.observe_withoutCopies` - a function that does not see a copy and makes its value from those
  of the parts is the same for both trees;
* `Node.returnType_withoutCopies` and its siblings, `Node.accesses_withoutCopies` - such functions;
* `Node.CopiesLookupsOnce` - no receiver is a lookup under two copies or more;
* `Node.chars_withoutCopies` - the text of such a tree without copies.
-/

namespace ActionTree

variable {α β : Type}

namespace Kind

/-- Tells copies. -/
def isCopy : Kind α → Bool
  | .duplicate _ => true
  | _ => false

theorem exists_of_isCopy {k : Kind α} (h : k.isCopy = true) : ∃ v, k = .duplicate v := by
  cases k with
  | duplicate v => exact ⟨v, rfl⟩
  | _ => cases h

/-- Tells lookups in the scope chain. -/
def isLookup : Kind α → Bool
  | .scope _ => true
  | _ => false

@[simp] theorem isCopy_map (f : α → β) (k : Kind α) : (k.map f).isCopy = k.isCopy := by
  cases k <;> rfl

end Kind

namespace Node

/-- A tree with every copy replaced by its value. -/
def withoutCopies : Node → Node :=
  recurse fun kind origin =>
    match kind with
    | .duplicate v => v.2
    | kind => ⟨kind.map (·.2), origin⟩

theorem withoutCopies_duplicate (v : Node) (o : Origin) :
    withoutCopies ⟨.duplicate v, o⟩ = v.withoutCopies := by
  rw [withoutCopies, recurse_mk]
  rfl

theorem withoutCopies_mk {k : Kind Node} (o : Origin) (h : k.isCopy = false) :
    withoutCopies ⟨k, o⟩ = ⟨k.map withoutCopies, o⟩ := by
  rw [withoutCopies, recurse_mk]
  cases k with
  | duplicate v => cases h
  | _ => exact congrArg (fun k : Kind Node => (⟨k, o⟩ : Node)) (Kind.map_map _ _ _)

/-! ### Functions that do not see copies -/

/-- A function that is the same for a copy and its value, and whose value for a node is made from
those for the parts, does not see copies anywhere in a tree. -/
theorem observe_withoutCopies {f : Node → β} (hcopy : ∀ v o, f ⟨.duplicate v, o⟩ = f v)
    (hparts : ∀ k o, (∀ c ∈ k.parts, f c.withoutCopies = f c) →
      f ⟨k.map withoutCopies, o⟩ = f ⟨k, o⟩)
    (n : Node) : f n.withoutCopies = f n := by
  induction n using induct with
  | step k o ih =>
    cases hk : k.isCopy with
    | false => rw [withoutCopies_mk o hk, hparts k o ih]
    | true =>
      obtain ⟨v, rfl⟩ := Kind.exists_of_isCopy hk
      rw [withoutCopies_duplicate, hcopy]
      exact ih v (by simp [Kind.parts, Kind.children])

theorem returnType_withoutCopies (n : Node) : n.withoutCopies.returnType = n.returnType :=
  observe_withoutCopies (fun _ _ => rfl) (fun _ _ => returnType_map _ _) n

theorem precedence_withoutCopies (n : Node) : n.withoutCopies.precedence = n.precedence :=
  observe_withoutCopies (fun _ _ => rfl) (fun _ _ => precedence_map _ _) n

theorem result_withoutCopies (n : Node) : n.withoutCopies.result = n.result :=
  observe_withoutCopies (fun _ _ => rfl) (fun _ _ => result_map _ _) n

theorem isConstant_withoutCopies (n : Node) : n.withoutCopies.isConstant = n.isConstant :=
  observe_withoutCopies (fun _ _ => rfl)
    (fun _ _ => isConstant_map _ _ fun c _ => c.result_withoutCopies) n

theorem hasSideEffect_withoutCopies (n : Node) :
    n.withoutCopies.hasSideEffect = n.hasSideEffect := by
  refine observe_withoutCopies (fun v o => ?_) (fun _ _ => hasSideEffect_map _ _) n
  rw [hasSideEffect_mk]
  exact Bool.or_false _

theorem accesses_withoutCopies (n : Node) : n.withoutCopies.accesses = n.accesses := by
  refine observe_withoutCopies (fun v o => ?_) (fun k o h => ?_) n
  · rw [accesses_mk]
    exact List.append_nil _
  · rw [accesses_mk, accesses_mk, Kind.map_map, Kind.map_congr h]

theorem rendersAsThis_withoutCopies (locals : Locals) (n : Node) :
    n.withoutCopies.rendersAsThis locals = n.rendersAsThis locals :=
  observe_withoutCopies (f := rendersAsThis locals) (fun _ _ => rfl)
    (fun _ _ => rendersAsThis_map _ _ fun c _ => c.returnType_withoutCopies) n

/-- A tree without copies is written around like the tree. -/
theorem alike_withoutCopies (n : Node) : n.withoutCopies.Alike n where
  precedence := n.precedence_withoutCopies
  returnType := n.returnType_withoutCopies
  startsWithMinus :=
    observe_withoutCopies (fun _ _ => rfl) (fun _ _ => startsWithMinus_map _ _) n

/-! ### Receivers under copies -/

/-- The number of copies that a node stands under. -/
def copies : Node → Nat
  | ⟨.duplicate v, _⟩ => v.copies + 1
  | _ => 0

/-- The node under all copies. -/
def copied : Node → Node
  | ⟨.duplicate v, _⟩ => v.copied
  | n => n

/-- A lookup in the scope chain under two copies or more. -/
def IsRecopiedLookup (n : Node) : Prop := 2 ≤ n.copies ∧ n.copied.kind.isLookup = true

/-- No object of an access in a tree is a lookup in the scope chain under two copies or more. -/
def CopiesLookupsOnce (n : Node) : Prop :=
  ∀ m, n.Contains m → ∀ lookup object p, m.kind.access? = some (lookup, object, p) →
    ¬ object.IsRecopiedLookup

/-- The test for a lookup looks through one copy. -/
theorem isScopeReceiver_iff (n : Node) :
    n.isScopeReceiver = true ↔ n.copies ≤ 1 ∧ n.copied.kind.isLookup = true := by
  obtain ⟨k, o⟩ := n
  cases k with
  | duplicate v =>
    obtain ⟨k, o'⟩ := v
    cases k with
    | duplicate w => exact iff_of_false nofun fun h => absurd h.1 (by rw [copies, copies]; omega)
    | _ => simp [isScopeReceiver, throughDuplicate, copies, copied, Kind.isLookup]
  | _ => simp [isScopeReceiver, throughDuplicate, copies, copied, Kind.isLookup]

/-- Without copies nothing hides a lookup. -/
theorem isScopeReceiver_withoutCopies_iff (n : Node) :
    n.withoutCopies.isScopeReceiver = true ↔ n.copied.kind.isLookup = true := by
  induction n using induct with
  | step k o ih =>
    cases k with
    | duplicate v =>
      rw [withoutCopies_duplicate, copied]
      exact ih v (by simp [Kind.parts, Kind.children])
    | _ =>
      rw [withoutCopies_mk o rfl]
      simp [isScopeReceiver, throughDuplicate, Kind.map, copied, Kind.isLookup]

theorem isImplied_withoutCopies (locals : Locals) (lookup : Lookup) {n : Node}
    (h : ¬ n.IsRecopiedLookup) :
    n.withoutCopies.isImplied locals lookup = n.isImplied locals lookup := by
  have hscope : n.withoutCopies.isScopeReceiver = n.isScopeReceiver := by
    rw [Bool.eq_iff_iff, isScopeReceiver_withoutCopies_iff, isScopeReceiver_iff]
    refine ⟨fun hlookup => ⟨?_, hlookup⟩, And.right⟩
    exact Nat.le_of_not_lt fun hcopies => h ⟨hcopies, hlookup⟩
  cases lookup with
  | direct => exact hscope
  | super => rw [isImplied, isImplied, rendersAsThis_withoutCopies, hscope]

/-! ### Texts -/

/-- A tree without copies is written like the tree. -/
theorem chars_withoutCopies (locals : Locals) {n : Node} (hn : n.CopiesLookupsOnce) :
    n.withoutCopies.chars locals = n.chars locals := by
  induction n using induct with
  | step k o ih =>
    obtain ⟨hroot, hbelow⟩ := forall_contains_mk.1 hn
    cases hk : k.isCopy with
    | false =>
      rw [withoutCopies_mk o hk]
      exact chars_map o o (fun c _ => c.alike_withoutCopies)
        (fun lookup object p h => isImplied_withoutCopies locals lookup (hroot lookup object p h))
        fun c hc => ih c hc (hbelow c hc)
    | true =>
      obtain ⟨v, rfl⟩ := Kind.exists_of_isCopy hk
      have hv : v ∈ (Kind.duplicate v).parts := by simp [Kind.parts, Kind.children]
      rw [withoutCopies_duplicate, chars_of_single rfl, ih v hv (hbelow v hv)]

end Node

end ActionTree
