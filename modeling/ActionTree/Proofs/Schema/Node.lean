import ActionTree.Node.Induction
import ActionTree.Proofs.Schema.Name
import ActionTree.Proofs.Tree.Reach
import ActionTree.Schema.Node

/-!
# Trees survive JSON

* `Node.numbers`, `Node.mem_numbers` - the number literals of a tree;
* `Kind.recovers` - a kind is recovered from JSON when its number and its parts are;
* `Node.recovers` - a tree is recovered when its numbers are;
* `Node.isWritten_toJson` - the JSON of a tree can be written.
-/

namespace ActionTree

open Json

variable {α β : Type} {levels : Nat} {part : Reader α} {encode : α → Json} {kept : α → Prop}

/-- A part is recovered under a condition, and null does not stand for it. -/
def PartRecovers (levels : Nat) (part : Reader α) (encode : α → Json) (kept : α → Prop) (a : α) :
    Prop :=
  encode a ≠ .null ∧ Recovers levels part (encode a) a (kept a)

/-! ### Property names and compound forms -/

theorem ofOption_map (f : β → Json) (g : α → β) (o : Option α) :
    ofOption f (o.map g) = ofOption (fun a => f (g a)) o := by
  cases o <;> rfl

theorem Property.recovers {p : Property α}
    (h : ∀ a ∈ p.children, PartRecovers levels part encode kept a) :
    Recovers levels (Property.read part) (p.map encode).toJson p (∀ a ∈ p.children, kept a) := by
  obtain ⟨name, runtime⟩ := p
  refine recovers_record rfl (by decide) fun d hd => ?_
  have hname := name.recovers d (Nat.le_of_lt hd)
  have hruntime := recovers_option (fun a ha => h a (Option.mem_toList.2 ha)) d (Nat.le_of_lt hd)
  simp [Option.bind_eq_some_iff, map, ofOption_map, hname, hruntime, children]
  grind

theorem Compound.recovers {c : Compound α} (h : PartRecovers levels part encode kept c.value) :
    Recovers levels (Compound.read part) (c.map encode).toJson c (kept c.value) := by
  obtain ⟨op, value⟩ := c
  refine recovers_record rfl (by decide) fun d hd => ?_
  have hop := op.recovers d (Nat.le_of_lt hd)
  have hvalue := h.2 d (Nat.le_of_lt hd)
  simp [Option.bind_eq_some_iff, map, hop, hvalue]
  grind

/-! ### The data of kinds -/

namespace Kind

theorem recovers_value {f : α → Kind α} (hf : Function.Injective f) {v : α}
    (h : PartRecovers levels part encode kept v) :
    Recovers levels (fun d j => (readValue part d j).map f) (ofMembers [("value", encode v)]) (f v)
      (kept v) := by
  refine Recovers.map hf (recovers_record rfl (by decide) fun d hd => ?_)
  have hv := h.2 d (Nat.le_of_lt hd)
  simp [hv]

theorem recovers_conversion {f : StaticType × α → Kind α} (hf : Function.Injective f)
    (t : StaticType) {v : α} (h : PartRecovers levels part encode kept v) :
    Recovers levels (fun d j => (readConversion part d j).map f)
      (ofMembers [("ty", t.toJson), ("value", encode v)]) (f (t, v)) (kept v) := by
  refine Recovers.map hf (recovers_record rfl (by decide) fun d hd => ?_)
  have ht := t.recovers d (Nat.le_of_lt hd)
  have hv := h.2 d (Nat.le_of_lt hd)
  simp [Option.bind_eq_some_iff, ht, hv]
  grind

theorem recovers_register (i : UInt32) (t : StaticType) :
    Recovers levels (readRegister : Reader (Kind α))
      (ofMembers [("register", ofNat i.toNat), ("ty", t.toJson)]) (.register i t) True := by
  refine recovers_record rfl (by decide) fun d hd => ?_
  have hi := recovers_uint32 i d (Nat.le_of_lt hd)
  have ht := t.recovers d (Nat.le_of_lt hd)
  simp [Option.bind_eq_some_iff, hi, ht]

theorem recovers_scope {p : Property α}
    (hp : ∀ a ∈ p.children, PartRecovers levels part encode kept a) :
    Recovers levels (readScope part) (ofMembers [("property", (p.map encode).toJson)]) (.scope p)
      (∀ a ∈ p.children, kept a) := by
  refine recovers_record rfl (by decide) fun d hd => ?_
  have hproperty := Property.recovers hp d (Nat.le_of_lt hd)
  simp [Option.bind_eq_some_iff, hproperty]

theorem recovers_get {object : α} {p : Property α} (t : StaticType)
    (ho : PartRecovers levels part encode kept object)
    (hp : ∀ a ∈ p.children, PartRecovers levels part encode kept a) :
    Recovers levels (readGet part)
      (ofMembers [("object", encode object), ("property", (p.map encode).toJson), ("ty", t.toJson)])
      (.get object p t) (kept object ∧ ∀ a ∈ p.children, kept a) := by
  refine recovers_record rfl (by decide) fun d hd => ?_
  have hobject := ho.2 d (Nat.le_of_lt hd)
  have hproperty := Property.recovers hp d (Nat.le_of_lt hd)
  have ht := t.recovers d (Nat.le_of_lt hd)
  simp [Option.bind_eq_some_iff, hobject, hproperty, ht]
  grind

theorem recovers_getSuper {object : α} {p : Property α}
    (ho : PartRecovers levels part encode kept object)
    (hp : ∀ a ∈ p.children, PartRecovers levels part encode kept a) :
    Recovers levels (readGetSuper part)
      (ofMembers [("object", encode object), ("property", (p.map encode).toJson)])
      (.getSuper object p) (kept object ∧ ∀ a ∈ p.children, kept a) := by
  refine recovers_record rfl (by decide) fun d hd => ?_
  have hobject := ho.2 d (Nat.le_of_lt hd)
  have hproperty := Property.recovers hp d (Nat.le_of_lt hd)
  simp [Option.bind_eq_some_iff, hobject, hproperty]
  grind

theorem recovers_call (lookup : Lookup) {object : α} {p : Property α} {arguments : List α}
    (ho : PartRecovers levels part encode kept object)
    (hp : ∀ a ∈ p.children, PartRecovers levels part encode kept a)
    (has : ∀ a ∈ arguments, PartRecovers levels part encode kept a) :
    Recovers levels (readCall lookup part)
      (ofMembers [("object", encode object), ("property", (p.map encode).toJson),
        ("arguments", ofList encode arguments)])
      (.call lookup object p arguments)
      (kept object ∧ (∀ a ∈ p.children, kept a) ∧ ∀ a ∈ arguments, kept a) := by
  refine recovers_record rfl (by decide) fun d hd => ?_
  have hobject := ho.2 d (Nat.le_of_lt hd)
  have hproperty := Property.recovers hp d (Nat.le_of_lt hd)
  have harguments := recovers_list (fun a ha => (has a ha).2) d (Nat.le_of_lt hd)
  simp [Option.bind_eq_some_iff, hobject, hproperty, harguments]
  grind

theorem recovers_construct {object : α} {arguments : List α}
    (ho : PartRecovers levels part encode kept object)
    (has : ∀ a ∈ arguments, PartRecovers levels part encode kept a) :
    Recovers levels (readConstruct part)
      (ofMembers [("object", encode object), ("arguments", ofList encode arguments)])
      (.construct object arguments) (kept object ∧ ∀ a ∈ arguments, kept a) := by
  refine recovers_record rfl (by decide) fun d hd => ?_
  have hobject := ho.2 d (Nat.le_of_lt hd)
  have harguments := recovers_list (fun a ha => (has a ha).2) d (Nat.le_of_lt hd)
  simp [Option.bind_eq_some_iff, hobject, harguments]
  grind

theorem recovers_compound {c : Option (Compound α)}
    (hc : ∀ a ∈ (c.map (·.value)).toList, PartRecovers levels part encode kept a) :
    Recovers levels (readOption (Compound.read part))
      (ofOption Compound.toJson (c.map (·.map encode))) c
      (∀ a ∈ (c.map (·.value)).toList, kept a) := by
  rw [ofOption_map]
  have h : Recovers levels (readOption (Compound.read part))
      (ofOption (fun c => (Compound.map encode c).toJson) c) c (∀ b ∈ c, kept b.value) := by
    refine recovers_option fun b hb => ⟨?_, Compound.recovers (hc b.value ?_)⟩
    · rintro ⟨⟩
    · exact Option.mem_toList.2 (Option.mem_map_of_mem _ hb)
  exact h.congr (by simp)

theorem recovers_assignProperty (lookup : Lookup) {object v : α} {p : Property α}
    {c : Option (Compound α)} (declaration : Option UInt64)
    (ho : PartRecovers levels part encode kept object)
    (hp : ∀ a ∈ p.children, PartRecovers levels part encode kept a)
    (hv : PartRecovers levels part encode kept v)
    (hc : ∀ a ∈ (c.map (·.value)).toList, PartRecovers levels part encode kept a) :
    Recovers levels (readAssignProperty lookup part)
      (ofMembers (("object", encode object) :: ("property", (p.map encode).toJson) ::
        assignedMembers (encode v) (c.map (·.map encode)) declaration))
      (.assign (.property lookup object p) v c declaration)
      (kept object ∧ (∀ a ∈ p.children, kept a) ∧ kept v ∧
        ∀ a ∈ (c.map (·.value)).toList, kept a) := by
  refine recovers_record rfl (by decide) fun d hd => ?_
  have hobject := ho.2 d (Nat.le_of_lt hd)
  have hproperty := Property.recovers hp d (Nat.le_of_lt hd)
  have hvalue := hv.2 d (Nat.le_of_lt hd)
  have hcompound := recovers_compound hc d (Nat.le_of_lt hd)
  have hdeclaration := recovers_optionalIndex declaration d (Nat.le_of_lt hd)
  simp only [assignedMembers]
  simp [Option.bind_eq_some_iff, hobject, hproperty, hvalue, hcompound, hdeclaration]
  grind

theorem recovers_assignRegister (i : UInt32) {v : α} {c : Option (Compound α)}
    (declaration : Option UInt64) (hv : PartRecovers levels part encode kept v)
    (hc : ∀ a ∈ (c.map (·.value)).toList, PartRecovers levels part encode kept a) :
    Recovers levels (readAssignRegister part)
      (ofMembers (("register", ofNat i.toNat) ::
        assignedMembers (encode v) (c.map (·.map encode)) declaration))
      (.assign (.register i) v c declaration)
      (kept v ∧ ∀ a ∈ (c.map (·.value)).toList, kept a) := by
  refine recovers_record rfl (by decide) fun d hd => ?_
  have hregister := recovers_uint32 i d (Nat.le_of_lt hd)
  have hvalue := hv.2 d (Nat.le_of_lt hd)
  have hcompound := recovers_compound hc d (Nat.le_of_lt hd)
  have hdeclaration := recovers_optionalIndex declaration d (Nat.le_of_lt hd)
  simp only [assignedMembers]
  simp [Option.bind_eq_some_iff, hregister, hvalue, hcompound, hdeclaration]
  grind

theorem recovers_binary (op : BinaryOperator) {l r : α}
    (hl : PartRecovers levels part encode kept l) (hr : PartRecovers levels part encode kept r) :
    Recovers levels (readBinary part)
      (ofMembers [("operator", text op.jsonName), ("left", encode l), ("right", encode r)])
      (.binary op l r) (kept l ∧ kept r) := by
  refine recovers_record rfl (by decide) fun d hd => ?_
  have hop := op.recovers d (Nat.le_of_lt hd)
  have hleft := hl.2 d (Nat.le_of_lt hd)
  have hright := hr.2 d (Nat.le_of_lt hd)
  simp [Option.bind_eq_some_iff, hop, hleft, hright]
  grind

theorem recovers_unary (op : UnaryOperator) {v : α} (hv : PartRecovers levels part encode kept v) :
    Recovers levels (readUnary part)
      (ofMembers [("operator", text op.jsonName), ("value", encode v)]) (.unary op v) (kept v) := by
  refine recovers_record rfl (by decide) fun d hd => ?_
  have hop := op.recovers d (Nat.le_of_lt hd)
  have hvalue := hv.2 d (Nat.le_of_lt hd)
  simp [Option.bind_eq_some_iff, hop, hvalue]
  grind

theorem recovers_ternary {c a b : α} (hc : PartRecovers levels part encode kept c)
    (ha : PartRecovers levels part encode kept a) (hb : PartRecovers levels part encode kept b) :
    Recovers levels (readTernary part)
      (ofMembers [("condition", encode c), ("on_true", encode a), ("on_false", encode b)])
      (.ternary c a b) (kept c ∧ kept a ∧ kept b) := by
  refine recovers_record rfl (by decide) fun d hd => ?_
  have hcondition := hc.2 d (Nat.le_of_lt hd)
  have htrue := ha.2 d (Nat.le_of_lt hd)
  have hfalse := hb.2 d (Nat.le_of_lt hd)
  simp [Option.bind_eq_some_iff, hcondition, htrue, hfalse]
  grind

theorem recovers_declare (i : UInt32) (t : StaticType) {v : Option α}
    (hv : ∀ a ∈ v.toList, PartRecovers levels part encode kept a) :
    Recovers levels (readDeclare part)
      (ofMembers [("register", ofNat i.toNat), ("ty", t.toJson),
        ("value", ofOption id (v.map encode))])
      (.declare i t v) (∀ a ∈ v.toList, kept a) := by
  refine recovers_record rfl (by decide) fun d hd => ?_
  have hregister := recovers_uint32 i d (Nat.le_of_lt hd)
  have ht := t.recovers d (Nat.le_of_lt hd)
  have hvalue := recovers_option (fun a ha => hv a (Option.mem_toList.2 ha)) d (Nat.le_of_lt hd)
  simp [Option.bind_eq_some_iff, ofOption_map, hregister, ht, hvalue]
  grind

/-! ### Kinds -/

/-- The number of a number literal. -/
def number? : Kind α → Option Double
  | .literal (.number x) => some x
  | _ => none

variable {coding : NumberCoding} {keptNumber : Double → Prop}

/-- A literal is recovered when its number is. -/
theorem recovers_literal
    (hcoding : ∀ x, Recovers levels coding.read (coding.write x) x (keptNumber x)) (l : Literal) :
    Recovers levels (Kind.read coding part) ((literal l).toJson coding) (literal l)
      (∀ x ∈ (literal l : Kind α).number?, keptNumber x) := by
  have hinjective : ∀ {β : Type} {f : β → Literal}, Function.Injective f →
      Function.Injective fun b => (literal (f b) : Kind α) :=
    fun hf a b hab => hf (literal.inj hab)
  cases l with
  | int i =>
    exact (recovers_variant (fun _ => rfl) ((recovers_int32 i).map
      (hinjective fun _ _ => Literal.int.inj))).congr (by simp [number?])
  | uint i =>
    exact (recovers_variant (fun _ => rfl) ((recovers_uint32 i).map
      (hinjective fun _ _ => Literal.uint.inj))).congr (by simp [number?])
  | number x =>
    exact (recovers_variant (fun _ => rfl) ((hcoding x).map
      (hinjective fun _ _ => Literal.number.inj))).congr (by simp [number?])
  | string s =>
    exact (recovers_variant (fun _ => rfl) ((recovers_text s).map
      (hinjective fun _ _ => Literal.string.inj))).congr (by simp [number?])
  | boolean b =>
    exact (recovers_variant (fun _ => rfl) ((recovers_boolean b).map
      (hinjective fun _ _ => Literal.boolean.inj))).congr (by simp [number?])
  | null => exact (recovers_bare fun _ => rfl).congr (by simp [number?])
  | undefined => exact (recovers_bare fun _ => rfl).congr (by simp [number?])

/-- A kind is recovered when its number and its parts are. -/
theorem recovers (hcoding : ∀ x, Recovers levels coding.read (coding.write x) x (keptNumber x))
    {k : Kind α} (h : ∀ a ∈ k.parts, PartRecovers levels part encode kept a) :
    Recovers levels (Kind.read coding part) ((k.map encode).toJson coding) k
      ((∀ x ∈ k.number?, keptNumber x) ∧ ∀ a ∈ k.parts, kept a) := by
  simp only [parts, List.forall_mem_append] at h ⊢
  obtain ⟨h, hc⟩ := h
  cases k with
  | literal l => exact (recovers_literal hcoding l).congr (by simp [children, compound?])
  | this => exact (recovers_bare fun _ => rfl).congr (by simp [number?, children, compound?])
  | returnVoid => exact (recovers_bare fun _ => rfl).congr (by simp [number?, children, compound?])
  | register i t =>
    exact (recovers_variant (fun _ => rfl) (recovers_register i t)).congr
      (by simp [number?, children, compound?])
  | scope p =>
    exact (recovers_variant (fun _ => rfl) (recovers_scope h)).congr
      (by simp [number?, children, compound?])
  | duplicate v =>
    have hv := List.forall_mem_singleton.1 h
    have hinjective : Function.Injective (duplicate : α → Kind α) := fun _ _ => duplicate.inj
    exact (recovers_variant (fun _ => rfl) (recovers_value hinjective hv)).congr
      (by simp [number?, children, compound?])
  | returnValue v =>
    have hv := List.forall_mem_singleton.1 h
    have hinjective : Function.Injective (returnValue : α → Kind α) := fun _ _ => returnValue.inj
    exact (recovers_variant (fun _ => rfl) (recovers_value hinjective hv)).congr
      (by simp [number?, children, compound?])
  | throw v =>
    have hv := List.forall_mem_singleton.1 h
    have hinjective : Function.Injective (throw : α → Kind α) := fun _ _ => throw.inj
    exact (recovers_variant (fun _ => rfl) (recovers_value hinjective hv)).congr
      (by simp [number?, children, compound?])
  | convert t v =>
    have hv := List.forall_mem_singleton.1 h
    have hinjective : Function.Injective fun (t, v) => (convert t v : Kind α) := by
      rintro ⟨t, v⟩ ⟨t', v'⟩ ⟨⟩
      rfl
    exact (recovers_variant (fun _ => rfl) (recovers_conversion hinjective t hv)).congr
      (by simp [number?, children, compound?])
  | coerce t v =>
    have hv := List.forall_mem_singleton.1 h
    have hinjective : Function.Injective fun (t, v) => (coerce t v : Kind α) := by
      rintro ⟨t, v⟩ ⟨t', v'⟩ ⟨⟩
      rfl
    exact (recovers_variant (fun _ => rfl) (recovers_conversion hinjective t hv)).congr
      (by simp [number?, children, compound?])
  | get object p t =>
    obtain ⟨ho, hp⟩ := List.forall_mem_cons.1 h
    exact (recovers_variant (fun _ => rfl) (recovers_get t ho hp)).congr
      (by simp [number?, children, compound?])
  | getSuper object p =>
    obtain ⟨ho, hp⟩ := List.forall_mem_cons.1 h
    exact (recovers_variant (fun _ => rfl) (recovers_getSuper ho hp)).congr
      (by simp [number?, children, compound?])
  | call lookup object p arguments =>
    obtain ⟨ho, hrest⟩ := List.forall_mem_cons.1 h
    obtain ⟨hp, has⟩ := List.forall_mem_append.1 hrest
    cases lookup
    all_goals
      exact (recovers_variant (fun _ => rfl) (recovers_call _ ho hp has)).congr
        (by simp [number?, children, compound?, or_imp, forall_and])
  | construct object arguments =>
    obtain ⟨ho, has⟩ := List.forall_mem_cons.1 h
    exact (recovers_variant (fun _ => rfl) (recovers_construct ho has)).congr
      (by simp [number?, children, compound?])
  | assign target v c declaration =>
    obtain ⟨htarget, hv⟩ := List.forall_mem_append.1 h
    have hv := List.forall_mem_singleton.1 hv
    cases target with
    | register i =>
      exact (recovers_variant (fun _ => rfl)
        (recovers_assignRegister i declaration hv hc)).congr
        (by simp [number?, children, compound?, Target.children])
    | property lookup object p =>
      obtain ⟨ho, hp⟩ := List.forall_mem_cons.1 htarget
      cases lookup
      all_goals
        exact (recovers_variant (fun _ => rfl)
          (recovers_assignProperty _ declaration ho hp hv hc)).congr
          (by simp [number?, children, compound?, Target.children, or_imp, forall_and, and_assoc])
  | binary op l r =>
    obtain ⟨hl, hr⟩ := List.forall_mem_cons.1 h
    have hr := List.forall_mem_singleton.1 hr
    exact (recovers_variant (fun _ => rfl) (recovers_binary op hl hr)).congr
      (by simp [number?, children, compound?])
  | unary op v =>
    have hv := List.forall_mem_singleton.1 h
    exact (recovers_variant (fun _ => rfl) (recovers_unary op hv)).congr
      (by simp [number?, children, compound?])
  | ternary c a b =>
    obtain ⟨hc, hrest⟩ := List.forall_mem_cons.1 h
    obtain ⟨ha, hb⟩ := List.forall_mem_cons.1 hrest
    have hb := List.forall_mem_singleton.1 hb
    exact (recovers_variant (fun _ => rfl) (recovers_ternary hc ha hb)).congr
      (by simp [number?, children, compound?])
  | declare i t v =>
    exact (recovers_variant (fun _ => rfl) (recovers_declare i t h)).congr
      (by simp [number?, children, compound?])

theorem number?_map (f : α → β) (k : Kind α) : (k.map f).number? = k.number? := by
  cases k with
  | literal l => cases l <;> rfl
  | _ => rfl

/-! ### Writing kinds -/

theorem needsEscape_name (k : Kind α) : needsEscape (some k.name) = false := by
  unfold name
  split <;> decide

theorem isWritten_property {p : Property α} (h : ∀ a ∈ p.children, (encode a).IsWritten) :
    (p.map encode).toJson.IsWritten := by
  refine isWritten_ofMembers (by simp; decide) ?_
  have hruntime : (ofOption encode p.runtime).IsWritten :=
    isWritten_ofOption fun a ha => h a (Option.mem_toList.2 ha)
  simp [Property.map, ofOption_map, hruntime]

theorem isWritten_compound {c : Option (Compound α)}
    (h : ∀ a ∈ (c.map (·.value)).toList, (encode a).IsWritten) :
    (ofOption Compound.toJson (c.map (·.map encode))).IsWritten := by
  rw [ofOption_map]
  refine isWritten_ofOption fun b hb => isWritten_ofMembers (by simp; decide) ?_
  have hvalue := h b.value (Option.mem_toList.2 (Option.mem_map_of_mem _ hb))
  simp [Compound.map, hvalue]

theorem isWritten_data (hcoding : ∀ x, (coding.write x).IsWritten) {k : Kind α}
    (h : ∀ a ∈ k.parts, (encode a).IsWritten) {j : Json}
    (hj : (k.map encode).data? coding = some j) : j.IsWritten := by
  simp only [parts, List.forall_mem_append] at h
  obtain ⟨h, hc⟩ := h
  cases k with
  | literal l =>
    cases l with
    | int i => cases hj; exact isWritten_ofInt i.toInt
    | uint i => cases hj; exact isWritten_ofNat i.toNat
    | number x => cases hj; exact hcoding x
    | string s => cases hj; exact isWritten_text s
    | boolean b => cases hj; exact isWritten_boolean b
    | null | undefined => cases hj
  | this | returnVoid => cases hj
  | register i t =>
    cases hj
    exact isWritten_ofMembers (by simp; decide) (by simp)
  | scope p =>
    cases hj
    exact isWritten_ofMembers (by simp; decide) (by simp [isWritten_property h])
  | duplicate v | returnValue v | throw v | convert t v | coerce t v | unary op v =>
    cases hj
    have hv := List.forall_mem_singleton.1 h
    exact isWritten_ofMembers (by simp; decide) (by simp [hv])
  | get object p t | getSuper object p =>
    cases hj
    obtain ⟨ho, hp⟩ := List.forall_mem_cons.1 h
    exact isWritten_ofMembers (by simp; decide) (by simp [ho, isWritten_property hp])
  | call lookup object p arguments =>
    cases hj
    obtain ⟨ho, hrest⟩ := List.forall_mem_cons.1 h
    obtain ⟨hp, has⟩ := List.forall_mem_append.1 hrest
    have harguments := isWritten_ofList has
    rw [ofList] at harguments
    exact isWritten_ofMembers (by simp; decide) (by simp [ho, isWritten_property hp, harguments])
  | construct object arguments =>
    cases hj
    obtain ⟨ho, has⟩ := List.forall_mem_cons.1 h
    have harguments := isWritten_ofList has
    rw [ofList] at harguments
    exact isWritten_ofMembers (by simp; decide) (by simp [ho, harguments])
  | assign target v c declaration =>
    obtain ⟨htarget, hv⟩ := List.forall_mem_append.1 h
    have hv := List.forall_mem_singleton.1 hv
    have hcompound := isWritten_compound (c := c) hc
    cases target with
    | register i =>
      cases hj
      exact isWritten_ofMembers (by simp [assignedMembers]; decide)
        (by simp [assignedMembers, hv, hcompound])
    | property lookup object p =>
      cases hj
      obtain ⟨ho, hp⟩ := List.forall_mem_cons.1 htarget
      exact isWritten_ofMembers (by simp [assignedMembers]; decide)
        (by simp [assignedMembers, ho, isWritten_property hp, hv, hcompound])
  | binary op l r =>
    cases hj
    obtain ⟨hl, hr⟩ := List.forall_mem_cons.1 h
    have hr := List.forall_mem_singleton.1 hr
    exact isWritten_ofMembers (by simp; decide) (by simp [hl, hr])
  | ternary c a b =>
    cases hj
    obtain ⟨hc, hrest⟩ := List.forall_mem_cons.1 h
    obtain ⟨ha, hb⟩ := List.forall_mem_cons.1 hrest
    have hb := List.forall_mem_singleton.1 hb
    exact isWritten_ofMembers (by simp; decide) (by simp [hc, ha, hb])
  | declare i t v =>
    cases hj
    have hvalue : (ofOption encode v).IsWritten :=
      isWritten_ofOption fun a ha => h a (Option.mem_toList.2 ha)
    exact isWritten_ofMembers (by simp; decide) (by simp [ofOption_map, hvalue])

/-- The JSON of a kind can be written when its parts can. -/
theorem isWritten_toJson (hcoding : ∀ x, (coding.write x).IsWritten) {k : Kind α}
    (h : ∀ a ∈ k.parts, (encode a).IsWritten) : ((k.map encode).toJson coding).IsWritten := by
  rw [toJson]
  split
  case h_1 j hj =>
    refine isWritten_ofMembers ?_ ?_
    · simpa using needsEscape_name _
    · simpa using isWritten_data hcoding h hj
  case h_2 => exact isWritten_text _

end Kind

/-! ### Trees -/

namespace Node

variable {coding : NumberCoding} {keptNumber : Double → Prop}

/-- The number literals of a tree. -/
def numbers : Node → List Double :=
  recurse fun kind _ => kind.number?.toList ++ kind.parts.flatMap (·.2)

theorem numbers_mk (k : Kind Node) (o : Origin) :
    numbers ⟨k, o⟩ = k.number?.toList ++ k.parts.flatMap numbers := by
  rw [numbers, recurse_mk, Kind.number?_map, Kind.parts_map, List.flatMap_map]

/-- These are the numbers of all nodes that stand in the tree. -/
theorem mem_numbers {n : Node} {x : Double} :
    x ∈ n.numbers ↔ ∃ m, n.Contains m ∧ m.kind.number? = some x := by
  induction n using induct with
  | step k o ih =>
    have hparts : x ∈ k.parts.flatMap numbers ↔
        ∃ c ∈ k.parts, ∃ m, c.Contains m ∧ m.kind.number? = some x := by
      rw [List.mem_flatMap]
      exact exists_congr fun c => and_congr_right fun hc => ih c hc
    rw [numbers_mk, List.mem_append, Option.mem_toList, hparts]
    constructor
    · rintro (hx | ⟨c, hc, m, hm, hx⟩)
      · exact ⟨⟨k, o⟩, contains_mk.2 (.inl rfl), hx⟩
      · exact ⟨m, contains_mk.2 (.inr ⟨c, hc, hm⟩), hx⟩
    · rintro ⟨m, hm, hx⟩
      rcases contains_mk.1 hm with rfl | ⟨c, hc, hm⟩
      · exact .inl hx
      · exact .inr ⟨c, hc, m, hm, hx⟩

theorem toJson_mk (k : Kind Node) (o : Origin) : toJson coding ⟨k, o⟩ =
    ofMembers [("kind", (k.map (toJson coding)).toJson coding), ("source", o.toJson)] := by
  rw [toJson, recurse_mk, Kind.map_map]

theorem toJson_ne_null (n : Node) : n.toJson coding ≠ .null := by
  obtain ⟨k, o⟩ := n
  rw [toJson_mk]
  rintro ⟨⟩

/-- A tree is recovered within any height when its numbers are. -/
theorem recovers_readWithin
    (hcoding : ∀ levels x, Recovers levels coding.read (coding.write x) x (keptNumber x)) (n : Node)
    (height : Nat) : Recovers height (readWithin coding height) (n.toJson coding) n
      (∀ x ∈ n.numbers, keptNumber x) := by
  induction n using induct generalizing height with
  | step k o ih =>
    rw [toJson_mk, numbers_mk]
    cases height with
    | zero =>
      intro d hd
      have hdepth := depth_ofMembers_ne_zero
        [("kind", (k.map (toJson coding)).toJson coding), ("source", o.toJson)]
      have hzero : d = 0 := Nat.le_zero.1 hd
      simp [readWithin, hzero, hdepth]
    | succ height =>
      refine recovers_record rfl (by decide) fun d hd => ?_
      have hd : d ≤ height := by omega
      have hkind := k.recovers (hcoding height)
        (fun c hc => ⟨c.toJson_ne_null, ih c hc height⟩) d hd
      have ho := o.recovers d hd
      simp [Option.bind_eq_some_iff, hkind, ho]
      grind

/-- A tree is recovered when its numbers are. -/
theorem recovers
    (hcoding : ∀ levels x, Recovers levels coding.read (coding.write x) x (keptNumber x)) (n : Node)
    (levels : Nat) : Recovers levels (Node.read coding) (n.toJson coding) n
      (∀ x ∈ n.numbers, keptNumber x) :=
  fun d _ => n.recovers_readWithin hcoding d d (Nat.le_refl d)

/-- The JSON of a tree can be written. -/
theorem isWritten_toJson (hcoding : ∀ x, (coding.write x).IsWritten) (n : Node) :
    (n.toJson coding).IsWritten := by
  induction n using induct with
  | step k o ih =>
    rw [toJson_mk]
    refine isWritten_ofMembers (by simp; decide) ?_
    simp [Kind.isWritten_toJson hcoding ih]

end Node

end ActionTree
