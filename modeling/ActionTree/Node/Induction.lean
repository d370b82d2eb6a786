import ActionTree.Node.Basic

/-!
# Induction on trees

* `Node.induct` - what passes from the parts of every node to the node holds of all trees.

The parts of a node are its children and the compound value of an assignment.
-/

namespace ActionTree.Node

variable {P : Node → Prop}

mutual

/-- What passes from the parts of every node to the node holds of all trees. -/
theorem induct (step : ∀ k o, (∀ c ∈ k.parts, P c) → P ⟨k, o⟩) : ∀ n, P n
  | ⟨k, o⟩ => step k o (inductKind step k)

/-- The parts of a kind have the property. -/
theorem inductKind (step : ∀ k o, (∀ c ∈ k.parts, P c) → P ⟨k, o⟩) :
    ∀ k : Kind Node, ∀ c ∈ k.parts, P c
  | .literal _, _, h => by simp [Kind.parts, Kind.children, Kind.compound?] at h
  | .this, _, h => by simp [Kind.parts, Kind.children, Kind.compound?] at h
  | .register .., _, h => by simp [Kind.parts, Kind.children, Kind.compound?] at h
  | .returnVoid, _, h => by simp [Kind.parts, Kind.children, Kind.compound?] at h
  | .scope p, c, h => by
    have hc : c ∈ p.children := by simpa [Kind.parts, Kind.children, Kind.compound?] using h
    exact inductProperty step p c hc
  | .duplicate v, c, h => by
    have hc : c = v := by simpa [Kind.parts, Kind.children, Kind.compound?] using h
    exact hc ▸ induct step v
  | .convert _ v, c, h => by
    have hc : c = v := by simpa [Kind.parts, Kind.children, Kind.compound?] using h
    exact hc ▸ induct step v
  | .coerce _ v, c, h => by
    have hc : c = v := by simpa [Kind.parts, Kind.children, Kind.compound?] using h
    exact hc ▸ induct step v
  | .unary _ v, c, h => by
    have hc : c = v := by simpa [Kind.parts, Kind.children, Kind.compound?] using h
    exact hc ▸ induct step v
  | .returnValue v, c, h => by
    have hc : c = v := by simpa [Kind.parts, Kind.children, Kind.compound?] using h
    exact hc ▸ induct step v
  | .throw v, c, h => by
    have hc : c = v := by simpa [Kind.parts, Kind.children, Kind.compound?] using h
    exact hc ▸ induct step v
  | .get object p _, c, h => by
    have hc : c = object ∨ c ∈ p.children := by
      simpa [Kind.parts, Kind.children, Kind.compound?] using h
    rcases hc with hc | hc
    · exact hc ▸ induct step object
    · exact inductProperty step p c hc
  | .getSuper object p, c, h => by
    have hc : c = object ∨ c ∈ p.children := by
      simpa [Kind.parts, Kind.children, Kind.compound?] using h
    rcases hc with hc | hc
    · exact hc ▸ induct step object
    · exact inductProperty step p c hc
  | .call _ object p arguments, c, h => by
    have hc : c = object ∨ c ∈ p.children ∨ c ∈ arguments := by
      simpa [Kind.parts, Kind.children, Kind.compound?] using h
    rcases hc with hc | hc | hc
    · exact hc ▸ induct step object
    · exact inductProperty step p c hc
    · exact inductList step arguments c hc
  | .construct object arguments, c, h => by
    have hc : c = object ∨ c ∈ arguments := by
      simpa [Kind.parts, Kind.children, Kind.compound?] using h
    rcases hc with hc | hc
    · exact hc ▸ induct step object
    · exact inductList step arguments c hc
  | .assign target v compound _, c, h => by
    have hc : c ∈ target.children ∨ c = v ∨ c ∈ (compound.map (·.value)).toList := by
      simpa [Kind.parts, Kind.children, Kind.compound?, or_assoc] using h
    rcases hc with hc | hc | hc
    · exact inductTarget step target c hc
    · exact hc ▸ induct step v
    · exact inductCompound step compound c hc
  | .binary _ l r, c, h => by
    have hc : c = l ∨ c = r := by simpa [Kind.parts, Kind.children, Kind.compound?] using h
    rcases hc with hc | hc
    · exact hc ▸ induct step l
    · exact hc ▸ induct step r
  | .ternary b l r, c, h => by
    have hc : c = b ∨ c = l ∨ c = r := by
      simpa [Kind.parts, Kind.children, Kind.compound?] using h
    rcases hc with hc | hc | hc
    · exact hc ▸ induct step b
    · exact hc ▸ induct step l
    · exact hc ▸ induct step r
  | .declare _ _ v, c, h => by
    have hc : c ∈ v.toList := by simpa [Kind.parts, Kind.children, Kind.compound?] using h
    exact inductOption step v c hc

/-- The expression in a name has the property. -/
theorem inductProperty (step : ∀ k o, (∀ c ∈ k.parts, P c) → P ⟨k, o⟩) :
    ∀ p : Property Node, ∀ c ∈ p.children, P c
  | ⟨_, runtime⟩, c, h => inductOption step runtime c h

/-- The expressions in a target have the property. -/
theorem inductTarget (step : ∀ k o, (∀ c ∈ k.parts, P c) → P ⟨k, o⟩) :
    ∀ t : Target Node, ∀ c ∈ t.children, P c
  | .register _, _, h => by simp [Target.children] at h
  | .property _ object p, c, h => by
    rcases List.mem_cons.1 h with hc | hc
    · exact hc ▸ induct step object
    · exact inductProperty step p c hc

/-- The value of a compound form has the property. -/
theorem inductCompound (step : ∀ k o, (∀ c ∈ k.parts, P c) → P ⟨k, o⟩) :
    ∀ compound : Option (Compound Node), ∀ c ∈ (compound.map (·.value)).toList, P c
  | none, _, h => by simp at h
  | some ⟨_, v⟩, c, h => by
    have hc : c = v := by simpa using h
    exact hc ▸ induct step v

/-- An optional node has the property. -/
theorem inductOption (step : ∀ k o, (∀ c ∈ k.parts, P c) → P ⟨k, o⟩) :
    ∀ v : Option Node, ∀ c ∈ v.toList, P c
  | none, _, h => by simp at h
  | some v, c, h => by
    have hc : c = v := by simpa using h
    exact hc ▸ induct step v

/-- The nodes of a list have the property. -/
theorem inductList (step : ∀ k o, (∀ c ∈ k.parts, P c) → P ⟨k, o⟩) :
    ∀ vs : List Node, ∀ c ∈ vs, P c
  | [], _, h => by simp at h
  | v :: vs, c, h => by
    rcases List.mem_cons.1 h with hc | hc
    · exact hc ▸ induct step v
    · exact inductList step vs c hc

end

end ActionTree.Node
