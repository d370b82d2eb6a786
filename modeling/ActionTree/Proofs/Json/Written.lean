import ActionTree.Proofs.Json.Numerals
import ActionTree.Proofs.Json.Parsing

/-!
# Values that can be written

A value has a text of its own when its strings are whole, its numerals have a form that JSON allows,
and its keys say rightly whether they are written with escapes.

* `Json.IsWritten` - these values;
* `Json.isWritten_text`, `Json.isWritten_ofMembers` and siblings - values made in the usual ways are
  such values.
-/

namespace ActionTree.Json

/-- A key whose text is whole and that says whether it is written with an escape. -/
structure Key.IsWritten (key : Key) : Prop where
  isSome_text : key.text.isSome = true
  isEscaped_eq : key.isEscaped = needsEscape key.text

mutual

/-- Values that have a text of their own. -/
def IsWritten : Json → Prop
  | .number n => n.IsWellFormed
  | .string s => s.isSome = true
  | .array items => AreWritten items
  | .object members => MembersWritten members
  | _ => True

/-- Items that have a text of their own. -/
def AreWritten : List Json → Prop
  | [] => True
  | item :: items => item.IsWritten ∧ AreWritten items

/-- Members that have a text of their own. -/
def MembersWritten : List (Key × Json) → Prop
  | [] => True
  | (key, value) :: members => key.IsWritten ∧ value.IsWritten ∧ MembersWritten members

end

theorem areWritten_iff {items : List Json} : AreWritten items ↔ ∀ j ∈ items, j.IsWritten := by
  induction items with
  | nil => simp [AreWritten]
  | cons item items ih => rw [AreWritten, ih, List.forall_mem_cons]

theorem membersWritten_iff {members : List (Key × Json)} :
    MembersWritten members ↔ ∀ m ∈ members, m.1.IsWritten ∧ m.2.IsWritten := by
  induction members with
  | nil => simp [MembersWritten]
  | cons member members ih =>
    obtain ⟨key, value⟩ := member
    rw [MembersWritten, ih, List.forall_mem_cons, and_assoc]

/-! ### Making values -/

@[simp] theorem isWritten_text (s : String) : (text s).IsWritten := rfl

@[simp] theorem isWritten_boolean (b : Bool) : (boolean b).IsWritten := trivial

@[simp] theorem isWritten_ofInt (i : Int) : (ofInt i).IsWritten := isWellFormed_toDigits _ _

@[simp] theorem isWritten_ofNat (n : Nat) : (ofNat n).IsWritten := isWellFormed_toDigits _ _

@[simp] theorem isWritten_ofDouble (x : Double) : (ofDouble x).IsWritten := by
  cases x with
  | nan => trivial
  | infinite negative => trivial
  | finite negative rank => exact isWellFormed_numeral negative rank

theorem isWritten_ofOption {α : Type} {encode : α → Json} {o : Option α}
    (h : ∀ a ∈ o, (encode a).IsWritten) : (ofOption encode o).IsWritten := by
  cases o with
  | none => trivial
  | some a => exact h a rfl

theorem isWritten_ofList {α : Type} {encode : α → Json} {as : List α}
    (h : ∀ a ∈ as, (encode a).IsWritten) : (ofList encode as).IsWritten := by
  rw [ofList, IsWritten, areWritten_iff, List.forall_mem_map]
  exact h

/-- An object with plain keys. -/
theorem isWritten_ofMembers {members : List (String × Json)}
    (hkeys : ∀ m ∈ members, needsEscape (some m.1) = false)
    (h : ∀ m ∈ members, m.2.IsWritten) : (ofMembers members).IsWritten := by
  rw [ofMembers, IsWritten, membersWritten_iff, List.forall_mem_map]
  exact fun m hm => ⟨⟨rfl, (hkeys m hm).symm⟩, h m hm⟩

end ActionTree.Json
