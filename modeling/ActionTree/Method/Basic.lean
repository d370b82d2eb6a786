import ActionTree.Locals
import ActionTree.Node.Basic

/-!
# Methods

* `LocalNames` - the names of registers, in the order of the registers;
* `LocalNames.insert`, `LocalNames.ofList` - building them; a later name replaces an earlier one;
* `Method` - a name, statements and what is known about the registers;
* `Method.locals` - the names that its statements are written with.
-/

namespace ActionTree

/-! ### Names of registers -/

/-- A list of entries with one more; an entry of the same register is replaced. -/
def insertEntry (register : UInt32) (name : String) :
    List (UInt32 × String) → List (UInt32 × String)
  | [] => [(register, name)]
  | e :: es =>
    if register < e.1 then (register, name) :: e :: es
    else if register = e.1 then (register, name) :: es
    else e :: insertEntry register name es

theorem mem_insertEntry {register : UInt32} {name : String} {es : List (UInt32 × String)}
    {x : UInt32 × String} (h : x ∈ insertEntry register name es) :
    x = (register, name) ∨ x ∈ es := by
  induction es with
  | nil => simpa [insertEntry] using h
  | cons e es ih =>
    rw [insertEntry] at h
    split at h
    · simpa using h
    · split at h
      · rcases List.mem_cons.1 h with h | h
        · exact .inl h
        · exact .inr (List.mem_cons_of_mem _ h)
      · rcases List.mem_cons.1 h with h | h
        · exact .inr (h ▸ List.mem_cons_self)
        · exact (ih h).imp_right (List.mem_cons_of_mem _)

theorem pairwise_insertEntry (register : UInt32) (name : String) {es : List (UInt32 × String)}
    (h : es.Pairwise (·.1 < ·.1)) : (insertEntry register name es).Pairwise (·.1 < ·.1) := by
  induction es with
  | nil => simp [insertEntry]
  | cons e es ih =>
    have hs := List.pairwise_cons.1 h
    rw [insertEntry]
    split
    · rename_i hlt
      refine List.pairwise_cons.2 ⟨fun x hx => ?_, h⟩
      rcases List.mem_cons.1 hx with rfl | hx
      · exact hlt
      · exact UInt32.lt_trans hlt (hs.1 x hx)
    · split
      · rename_i heq
        exact List.pairwise_cons.2 ⟨fun x hx => heq ▸ hs.1 x hx, hs.2⟩
      · rename_i hge hne
        refine List.pairwise_cons.2 ⟨fun x hx => ?_, ih hs.2⟩
        rcases mem_insertEntry hx with rfl | hx
        · exact UInt32.lt_of_le_of_ne (UInt32.not_lt.1 hge) (Ne.symm hne)
        · exact hs.1 x hx

/-- Names by register, in ascending order. -/
structure LocalNames where
  entries : List (UInt32 × String)
  ascending : entries.Pairwise (·.1 < ·.1)

namespace LocalNames

/-- No names. -/
def empty : LocalNames := ⟨[], .nil⟩

/-- The names with one more; a register keeps only its last name. -/
def insert (l : LocalNames) (register : UInt32) (name : String) : LocalNames :=
  ⟨insertEntry register name l.entries, pairwise_insertEntry register name l.ascending⟩

/-- The names of a list of entries, of which later ones win. -/
def ofList (es : List (UInt32 × String)) : LocalNames :=
  es.foldl (fun l e => l.insert e.1 e.2) empty

end LocalNames

/-! ### Methods -/

/-- A method whose statements are known. -/
structure Method where
  name : String
  statements : List Node
  localNames : LocalNames
  className : Option QualifiedName
  isStatic : Bool

namespace Method

/-- A method of no class and without names for its registers. -/
def ofStatements (name : String) (statements : List Node) : Method :=
  ⟨name, statements, .empty, none, false⟩

/-- The names in a method, where registers without a name get one from a stem. -/
def locals (m : Method) (stem : String) : Locals :=
  let given := m.localNames.entries.foldl (fun l e => l.setName e.1 e.2) (Locals.withStem stem)
  match m.className with
  | some q => given.withClass q m.isStatic
  | none => given

end Method

end ActionTree
