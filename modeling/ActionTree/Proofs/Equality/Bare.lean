import ActionTree.Node.Equality
import ActionTree.Node.Induction

/-!
# Trees up to equality

* `Kind.agrees_refl`, `Node.agrees_refl` - every tree equals itself;
* `Kind.agrees_congr` - equality of kinds depends on the equality of their parts alone;
* `Node.bare` - a tree without the origins and the links to declarations, which equality ignores;
* `Node.beq_of_bare_eq` - trees that are the same without them are equal.
-/

namespace ActionTree

variable {α β : Type}

/-! ### Reflexivity -/

theorem optionAgrees_refl {r : α → α → Bool} {v : Option α} (h : ∀ a ∈ v.toList, r a a = true) :
    optionAgrees r v v = true := by
  cases v with
  | none => rfl
  | some a => exact h a (by simp)

theorem listAgrees_refl {r : α → α → Bool} {as : List α} (h : ∀ a ∈ as, r a a = true) :
    listAgrees r as as = true := by
  induction as with
  | nil => rfl
  | cons a as ih =>
    rw [listAgrees, h a (by simp), ih fun b hb => h b (List.mem_cons_of_mem a hb)]
    rfl

theorem Property.agrees_refl {r : α → α → Bool} {p : Property α}
    (h : ∀ a ∈ p.children, r a a = true) : p.agrees r p = true := by
  rw [Property.agrees, optionAgrees_refl h, beq_self_eq_true]
  rfl

/-- A kind equals itself when its parts do. -/
theorem Kind.agrees_refl {r : α → α → Bool} {k : Kind α} (h : ∀ a ∈ k.parts, r a a = true) :
    k.agrees r k = true := by
  have property (p : Property α) (hp : ∀ a ∈ p.children, a ∈ k.parts) : p.agrees r p = true :=
    Property.agrees_refl fun a ha => h a (hp a ha)
  have list (as : List α) (has : ∀ a ∈ as, a ∈ k.parts) : listAgrees r as as = true :=
    listAgrees_refl fun a ha => h a (has a ha)
  have option (v : Option α) (hv : ∀ a ∈ v.toList, a ∈ k.parts) : optionAgrees r v v = true :=
    optionAgrees_refl fun a ha => h a (hv a ha)
  cases k with
  | assign t v c d =>
    have compound : optionAgrees (Compound.agrees r) c c = true := by
      refine optionAgrees_refl fun b hb => ?_
      rw [Compound.agrees, beq_self_eq_true, h b.value (by simp_all [parts, compound?])]
      rfl
    have value := h v (by simp [parts, children])
    cases t with
    | register i => simp [agrees, value, compound]
    | property lookup object p =>
      have target := h object (by simp [parts, children, Target.children])
      have name := property p fun a ha => by simp [parts, children, Target.children, ha]
      cases lookup <;> simp [agrees, target, name, value, compound]
  | scope p => exact property p fun a ha => by simp [parts, children, ha]
  | get object p t =>
    simp [agrees, h object (by simp [parts, children]),
      property p fun a ha => by simp [parts, children, ha]]
  | getSuper object p =>
    simp [agrees, h object (by simp [parts, children]),
      property p fun a ha => by simp [parts, children, ha]]
  | call lookup object p as =>
    simp [agrees, h object (by simp [parts, children]),
      property p fun a ha => by simp [parts, children, ha],
      list as fun a ha => by simp [parts, children, ha]]
  | construct object as =>
    simp [agrees, h object (by simp [parts, children]),
      list as fun a ha => by simp [parts, children, ha]]
  | declare i t v =>
    simp [agrees, option v fun a ha => by simpa [parts, children, compound?] using ha]
  | _ => simp_all [agrees, parts, children, compound?]

theorem Node.agrees_refl (n : Node) : n.agrees n = true := by
  induction n using induct with
  | step k o ih => rw [agrees_mk, Kind.agrees_refl ih]

/-! ### Congruence -/

/-- Equality of kinds depends on the equality of their parts alone. -/
theorem Kind.agrees_congr {r s : α → β → Bool} {k : Kind α} (h : ∀ a ∈ k.parts, r a = s a)
    (l : Kind β) : k.agrees r l = k.agrees s l := by
  let apply (f : β → Bool) (b : β) : Bool := f b
  calc k.agrees r l = (k.map r).agrees apply l := (agrees_map r apply k l).symm
    _ = (k.map s).agrees apply l := by rw [map_congr h]
    _ = k.agrees s l := agrees_map s apply k l

/-! ### Bare trees -/

/-- A kind without its link to a declaration. -/
def Kind.unlinked : Kind α → Kind α
  | .assign target v c _ => .assign target v c none
  | k => k

theorem Kind.agrees_unlinked (r : α → β → Bool) (k : Kind α) (l : Kind β) :
    k.unlinked.agrees r l = k.agrees r l := by
  cases k with
  | assign target v c d =>
    cases l with
    | assign target' w c' d' =>
      rcases target with i | ⟨_ | _, object, p⟩ <;>
        rcases target' with j | ⟨_ | _, object', q⟩ <;> rfl
    | _ => rcases target with i | ⟨_ | _, object, p⟩ <;> rfl
  | _ => rfl

namespace Node

/-- A tree without origins and without links to declarations. -/
def bare : Node → Node :=
  recurse fun kind _ => synthetic (kind.map (·.2)).unlinked

theorem bare_mk (k : Kind Node) (o : Origin) : bare ⟨k, o⟩ = synthetic (k.map bare).unlinked := by
  rw [bare, recurse_mk, Kind.map_map]

theorem agrees_bare (n m : Node) : n.bare.agrees m = n.agrees m := by
  induction n using induct generalizing m with
  | step k o ih =>
    rw [bare_mk, synthetic, agrees_mk, agrees_mk, Kind.agrees_unlinked, Kind.agrees_map]
    exact Kind.agrees_congr (fun c hc => funext (ih c hc)) m.kind

/-- Trees that are the same without origins and links are equal. -/
theorem beq_of_bare_eq {a b : Node} (h : a.bare = b.bare) : (a == b) = true := by
  calc a.agrees b = a.bare.agrees b := (agrees_bare a b).symm
    _ = b.bare.agrees b := by rw [h]
    _ = b.agrees b := agrees_bare b b
    _ = true := agrees_refl b

end Node

end ActionTree
