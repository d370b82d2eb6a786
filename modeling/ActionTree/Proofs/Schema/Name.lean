import ActionTree.Proofs.Json.Recovery
import ActionTree.Proofs.Json.Written
import ActionTree.Schema.Name

/-!
# Names, types, operators and origins survive JSON

For each of these types the JSON of a value can be written (`isWritten_toJson`) and is read as the
value, given as many levels as it nests (`recovers`).
-/

namespace ActionTree

open Json

variable {levels : Nat}

/-! ### Namespaces and names -/

theorem NamespaceKind.recovers (k : NamespaceKind) :
    Recovers levels NamespaceKind.read (text k.jsonName) k True := by
  have hlookup : NamespaceKind.names.lookup k.jsonName = some k := by
    cases k <;> rfl
  exact recovers_name hlookup

namespace Namespace

theorem recovers (n : Namespace) : Recovers levels Namespace.read n.toJson n True := by
  obtain ⟨kind, name⟩ := n
  refine recovers_record rfl (by decide) fun d hd => ?_
  have hkind := kind.recovers d (Nat.le_of_lt hd)
  have hname := recovers_text name d (Nat.le_of_lt hd)
  simp [Option.bind_eq_some_iff, hkind, hname]

@[simp] theorem isWritten_toJson (n : Namespace) : n.toJson.IsWritten :=
  isWritten_ofMembers (by simp; decide) (by simp)

end Namespace

namespace QualifiedName

theorem recovers (q : QualifiedName) : Recovers levels QualifiedName.read q.toJson q True := by
  obtain ⟨space, name⟩ := q
  refine recovers_record rfl (by decide) fun d hd => ?_
  have hspace := space.recovers d (Nat.le_of_lt hd)
  have hname := recovers_text name d (Nat.le_of_lt hd)
  simp [Option.bind_eq_some_iff, hspace, hname]

@[simp] theorem isWritten_toJson (q : QualifiedName) : q.toJson.IsWritten :=
  isWritten_ofMembers (by simp; decide) (by simp)

end QualifiedName

/-! ### Types -/

namespace StaticType

theorem recovers (t : StaticType) : Recovers levels StaticType.read t.toJson t True := by
  cases t with
  | «class» q =>
    exact recovers_variant (fun _ => rfl) (q.recovers.map fun _ _ => class.inj)
  | _ => exact recovers_bare fun _ => rfl

@[simp] theorem isWritten_toJson (t : StaticType) : t.toJson.IsWritten := by
  cases t with
  | «class» q => exact isWritten_ofMembers (by simp; decide) (by simp)
  | _ => exact isWritten_text _

end StaticType

/-! ### Operators -/

theorem BinaryOperator.recovers (op : BinaryOperator) :
    Recovers levels BinaryOperator.read (text op.jsonName) op True := by
  have hlookup : (all.map fun op => (op.jsonName, op)).lookup op.jsonName = some op := by
    cases op <;> rfl
  exact recovers_name hlookup

theorem UnaryOperator.recovers (op : UnaryOperator) :
    Recovers levels UnaryOperator.read (text op.jsonName) op True := by
  have hlookup : (all.map fun op => (op.jsonName, op)).lookup op.jsonName = some op := by
    cases op <;> rfl
  exact recovers_name hlookup

/-! ### Origins -/

theorem recovers_optionalIndex (i : Option UInt64) :
    Recovers levels (readOption readUInt64) (ofOption (fun i => ofNat i.toNat) i) i True := by
  have h : Recovers levels (readOption readUInt64) (ofOption (fun i => ofNat i.toNat) i) i
      (∀ a ∈ i, True) :=
    recovers_option fun i _ => ⟨by simp [ofNat], recovers_uint64 i⟩
  exact h.congr (by simp)

@[simp] theorem isWritten_optionalIndex (i : Option UInt64) :
    (ofOption (fun i => ofNat i.toNat) i).IsWritten :=
  isWritten_ofOption fun i _ => isWritten_ofNat i.toNat

namespace Origin

theorem recovers (o : Origin) : Recovers levels Origin.read o.toJson o True := by
  obtain ⟨instruction, lineStart⟩ := o
  refine recovers_record rfl (by decide) fun d hd => ?_
  have hinstruction := recovers_optionalIndex instruction d (Nat.le_of_lt hd)
  have hlineStart := recovers_optionalIndex lineStart d (Nat.le_of_lt hd)
  simp [Option.bind_eq_some_iff, hinstruction, hlineStart]

@[simp] theorem isWritten_toJson (o : Origin) : o.toJson.IsWritten :=
  isWritten_ofMembers (by simp; decide) (by simp)

end Origin

end ActionTree
