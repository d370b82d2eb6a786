import ActionTree.Node.Build
import ActionTree.Node.Equality
import ActionTree.Node.Induction

/-!
# What equality compares

Equality of trees and the hash of a tree are given kind by kind, and each leaves out other fields.
Both are told here by one tree: the essence of a tree is what is left without the fields that
equality ignores.  Equal trees are those of one essence, so equality is an equivalence, and the
hash is made from the essence, so equal trees have equal hashes.

* `Kind.essence`, `Node.essence` - a tree without origins, links to declarations and compound forms
  of assignments past the class;
* `Kind.agrees_iff` - kinds are equal when they have one essence, given that for their parts;
* `Node.beq_iff` - trees are equal when they have one essence;
* `Node.hashInput_essence` - the hash of a tree is that of its essence;
* `Node.beq_lawfulKey` - equality is an equivalence that the hash respects.
-/

namespace ActionTree

variable {α β γ : Type}

/-! ### Containers of parts -/

section containers

variable {r : α → β → Bool} {f : α → γ} {g : β → γ}

theorem optionAgrees_iff {v : Option α} {w : Option β}
    (h : ∀ a ∈ v.toList, ∀ b, r a b = true ↔ f a = g b) :
    optionAgrees r v w = true ↔ v.map f = w.map g := by
  cases v with
  | none => cases w <;> simp [optionAgrees]
  | some a =>
    cases w with
    | none => simp [optionAgrees]
    | some b => simpa [optionAgrees] using h a (by simp) b

theorem listAgrees_iff {as : List α} {bs : List β}
    (h : ∀ a ∈ as, ∀ b, r a b = true ↔ f a = g b) :
    listAgrees r as bs = true ↔ as.map f = bs.map g := by
  induction as generalizing bs with
  | nil => cases bs <;> simp [listAgrees]
  | cons a as ih =>
    cases bs with
    | nil => simp [listAgrees]
    | cons b bs =>
      have hrest : listAgrees r as bs = true ↔ as.map f = bs.map g :=
        ih fun c hc => h c (List.mem_cons_of_mem a hc)
      simp only [listAgrees, Bool.and_eq_true, h a (by simp) b, hrest, List.map_cons,
        List.cons.injEq]

theorem Property.agrees_iff {p : Property α} {q : Property β}
    (h : ∀ a ∈ p.children, ∀ b, r a b = true ↔ f a = g b) :
    p.agrees r q = true ↔ p.map f = q.map g := by
  rw [agrees, Bool.and_eq_true, beq_iff_eq, optionAgrees_iff h, map, map, mk.injEq]

theorem Compound.agrees_iff {c : Compound α} {d : Compound β}
    (h : ∀ b, r c.value b = true ↔ f c.value = g b) :
    c.agrees r d = true ↔ c.map f = d.map g := by
  rw [agrees, Bool.and_eq_true, beq_iff_eq, h, map, map, mk.injEq]

/-- Equality of optional compound forms, told by what their values are taken to. -/
theorem compoundAgrees_iff {c : Option (Compound α)} {d : Option (Compound β)}
    (h : ∀ a ∈ (c.map (·.value)).toList, ∀ b, r a b = true ↔ f a = g b) :
    optionAgrees (Compound.agrees r) c d = true ↔ c.map (·.map f) = d.map (·.map g) := by
  refine optionAgrees_iff fun a ha b => Compound.agrees_iff ?_
  obtain rfl : c = some a := by simpa using ha
  exact h a.value (by simp)

end containers

/-! ### Kinds -/

/-- Whether equality looks at the compound form of an assignment: past the class it does not. -/
def Target.comparesCompound : Target α → Bool
  | .property .super _ _ => false
  | _ => true

namespace Kind

/-- A kind without its link to a declaration, and past the class also without its compound form. -/
def essence : Kind α → Kind α
  | .assign target v c _ => .assign target v (if target.comparesCompound then c else none) none
  | k => k

theorem essence_map (f : α → β) (k : Kind α) : (k.map f).essence = k.essence.map f := by
  cases k with
  | assign target v c d => rcases target with i | ⟨_ | _, object, p⟩ <;> rfl
  | _ => rfl

/-- The hash leaves out all that equality ignores. -/
theorem hashInput_essence (k : Kind (List HashWord)) : k.essence.hashInput = k.hashInput := by
  cases k with
  | assign target v c d => rcases target with i | ⟨_ | _, object, p⟩ <;> rfl
  | _ => rfl

/-- Kinds are equal when they have one essence, where parts are equal when they are taken to one
thing. -/
theorem agrees_iff {r : α → β → Bool} {f : α → γ} {g : β → γ} {k : Kind α} {l : Kind β}
    (h : ∀ a ∈ k.parts, ∀ b, r a b = true ↔ f a = g b) :
    k.agrees r l = true ↔ (k.map f).essence = (l.map g).essence := by
  have child (a : α) (ha : a ∈ k.children) (b : β) : r a b = true ↔ f a = g b :=
    h a (List.mem_append_left _ ha) b
  have property (p : Property α) (hp : ∀ a ∈ p.children, a ∈ k.children) (q : Property β) :
      p.agrees r q = true ↔ p.map f = q.map g :=
    Property.agrees_iff fun a ha => child a (hp a ha)
  have list (as : List α) (has : ∀ a ∈ as, a ∈ k.children) (bs : List β) :
      listAgrees r as bs = true ↔ as.map f = bs.map g :=
    listAgrees_iff fun a ha => child a (has a ha)
  cases k with
  | assign target v c d =>
    have value := child v (by simp [children])
    have compound (c' : Option (Compound β)) :
        optionAgrees (Compound.agrees r) c c' = true ↔ c.map (·.map f) = c'.map (·.map g) :=
      compoundAgrees_iff fun a ha => h a (List.mem_append_right _ ha)
    rcases target with i | ⟨lookup, object, p⟩
    · cases l with
      | assign target' v' c' d' =>
        rcases target' with j | ⟨_ | _, object', q⟩ <;>
          simp [agrees, map, essence, Target.map, Target.comparesCompound, value, compound,
            and_assoc]
      | _ => simp [agrees, map, essence]
    · have receiver := child object (by simp [children, Target.children])
      have name := property p fun a ha => by simp [children, Target.children, ha]
      cases l with
      | assign target' v' c' d' =>
        rcases target' with j | ⟨_ | _, object', q⟩ <;> cases lookup <;>
          simp [agrees, map, essence, Target.map, Target.comparesCompound, receiver, name, value,
            compound, and_assoc]
      | _ => cases lookup <;> simp [agrees, map, essence]
  | scope p =>
    have name := property p fun a ha => by simp [children, ha]
    cases l <;> simp [agrees, map, essence, name]
  | get object p t | getSuper object p =>
    have receiver := child object (by simp [children])
    have name := property p fun a ha => by simp [children, ha]
    cases l <;> simp [agrees, map, essence, receiver, name, and_assoc]
  | call lookup object p as =>
    have receiver := child object (by simp [children])
    have name := property p fun a ha => by simp [children, ha]
    have arguments := list as fun a ha => by simp [children, ha]
    cases l <;> simp [agrees, map, essence, receiver, name, arguments, and_assoc]
  | construct object as =>
    have receiver := child object (by simp [children])
    have arguments := list as fun a ha => by simp [children, ha]
    cases l <;> simp [agrees, map, essence, receiver, arguments]
  | declare i t v =>
    have value (w : Option β) : optionAgrees r v w = true ↔ v.map f = w.map g :=
      optionAgrees_iff fun a ha => child a (by simpa [children] using ha)
    cases l <;> simp [agrees, map, essence, value, and_assoc]
  | duplicate v | convert t v | coerce t v | unary op v | returnValue v | throw v =>
    have value := child v (by simp [children])
    cases l <;> simp [agrees, map, essence, value]
  | binary op a b =>
    have left := child a (by simp [children])
    have right := child b (by simp [children])
    cases l <;> simp [agrees, map, essence, left, right, and_assoc]
  | ternary c a b =>
    have condition := child c (by simp [children])
    have onTrue := child a (by simp [children])
    have onFalse := child b (by simp [children])
    cases l <;> simp [agrees, map, essence, condition, onTrue, onFalse, and_assoc]
  | literal m | this | register i t | returnVoid =>
    cases l <;> simp [agrees, map, essence]

end Kind

/-! ### Trees -/

namespace Node

/-- A tree without the fields that equality ignores. -/
def essence : Node → Node :=
  recurse fun kind _ => synthetic (kind.map (·.2)).essence

theorem essence_mk (k : Kind Node) (o : Origin) :
    essence ⟨k, o⟩ = synthetic (k.map essence).essence := by
  rw [essence, recurse_mk, Kind.map_map]

/-- Trees are equal when they have one essence. -/
theorem beq_iff {a b : Node} : (a == b) = true ↔ a.essence = b.essence := by
  induction a using induct generalizing b with
  | step k o ih =>
    obtain ⟨l, o'⟩ := b
    have hparts : ∀ c ∈ k.parts, ∀ d, c.agrees d = true ↔ c.essence = d.essence :=
      fun c hc d => ih c hc
    calc (agrees ⟨k, o⟩ ⟨l, o'⟩ = true)
        ↔ k.agrees agrees l = true := by rw [agrees_mk]
      _ ↔ (k.map essence).essence = (l.map essence).essence := Kind.agrees_iff hparts
      _ ↔ essence ⟨k, o⟩ = essence ⟨l, o'⟩ := by
        rw [essence_mk, essence_mk, synthetic, synthetic, mk.injEq, and_iff_left rfl]

/-- The hash of a tree is that of its essence. -/
theorem hashInput_essence (n : Node) : n.essence.hashInput = n.hashInput := by
  induction n using induct with
  | step k o ih =>
    calc (essence ⟨k, o⟩).hashInput
        = ((k.map essence).essence.map hashInput).hashInput := by
          rw [essence_mk, synthetic, hashInput_mk]
      _ = ((k.map essence).map hashInput).hashInput := by
          rw [← Kind.essence_map, Kind.hashInput_essence]
      _ = (k.map hashInput).hashInput := by rw [Kind.map_map, Kind.map_congr ih]
      _ = hashInput ⟨k, o⟩ := (hashInput_mk k o).symm

instance : EquivBEq Node where
  rfl := beq_iff.2 rfl
  symm h := beq_iff.2 (beq_iff.1 h).symm
  trans h h' := beq_iff.2 ((beq_iff.1 h).trans (beq_iff.1 h'))

/-- **Equality is a lawful key.**  Every tree equals itself, equality can be turned around and
chained, and equal trees feed the same to a hash. -/
theorem beq_lawfulKey (a b c : Node) :
    (a == a) = true ∧
      ((a == b) = true → (b == a) = true) ∧
      ((a == b) = true → (b == c) = true → (a == c) = true) ∧
      ((a == b) = true → a.hashInput = b.hashInput) := by
  refine ⟨BEq.rfl, PartialEquivBEq.symm, PartialEquivBEq.trans, fun h => ?_⟩
  rw [← hashInput_essence a, ← hashInput_essence b, beq_iff.1 h]

/-- `super.x = NaN`, by an instruction. -/
def storeNaN (instruction : UInt64) : Node :=
  (assign (.property .super this (.static (.ofName "x"))) (literal (.number .nan))).withOrigin
    (.ofInstruction instruction)

/-- `super.x += 1`, where what is stored turns out to be NaN. -/
def addToNaN : Node :=
  ((storeNaN 7).setCompound ⟨.add, literal (.int 1)⟩).setDeclaration 2

/-- The three trees differ in all that equality ignores. -/
theorem beq_lawfulKey_addToNaN :
    (storeNaN 1 == addToNaN) = true ∧ (addToNaN == storeNaN 2) = true ∧
      (addToNaN == storeNaN 1) = true ∧ (storeNaN 1 == storeNaN 2) = true ∧
      (storeNaN 1).hashInput = addToNaN.hashInput := by
  have hfirst : (storeNaN 1 == addToNaN) = true := by decide +kernel
  have hsecond : (addToNaN == storeNaN 2) = true := by decide +kernel
  obtain ⟨-, hsymm, htrans, hhash⟩ := beq_lawfulKey (storeNaN 1) addToNaN (storeNaN 2)
  exact ⟨hfirst, hsecond, hsymm hfirst, htrans hfirst hsecond, hhash hfirst⟩

end Node

end ActionTree
