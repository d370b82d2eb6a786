import ActionTree.Command.Render
import ActionTree.Proofs.Constant.Effects
import ActionTree.Proofs.Tree.Reach
import Mathlib.Tactic.SplitIfs

/-!
# What readers take from a document

A reader hands the parts of a document on to other readers.  So what stands in the value that it
makes is a default, or some value in the document spells it.

* `Json.Holds` - a value stands in a document;
* `Json.Spells` - a value in a document is read as something;
* `Json.spells_required`, `Json.spells_defaulted`, `Json.spells_optional`, `Json.spells_list` - what
  is read from the fields of a record and from the items of a list;
* `Kind.SpelledIn`, `Kind.spelledIn_of_read` - a document spells the type and the parts of a kind;
* `Node.spells_type`, `Method.spells_statement` - it spells the types of a tree, and the statements
  of a method.
-/

namespace ActionTree

variable {α β : Type}

/-! ### Documents -/

namespace Json

/-- The values directly in a value. -/
def parts : Json → List Json
  | .array items => items
  | .object members => members.map (·.2)
  | _ => []

/-- A value is the document or stands in it. -/
def Holds : Json → Json → Prop := Relation.ReflTransGen fun j i => i ∈ j.parts

/-- A value in the document is read as this. -/
def Spells (j : Json) (read : Reader α) (a : α) : Prop := ∃ i d, j.Holds i ∧ read d i = some a

variable {i j : Json} {d : Nat} {read : Reader α} {a : α} {names : List String} {name : String}

theorem Spells.self (h : read d j = some a) : j.Spells read a := ⟨j, d, .refl, h⟩

theorem Holds.part (hi : i ∈ j.parts) : j.Holds i := Relation.ReflTransGen.single hi

theorem Spells.of_holds (hi : j.Holds i) (h : i.Spells read a) : j.Spells read a :=
  let ⟨i', d, hheld, ha⟩ := h
  ⟨i', d, hi.trans hheld, ha⟩

/-- What is spelled by all values that are read as something is spelled where that is. -/
theorem Spells.trans {read' : Reader β} {b : β} (h : j.Spells read a)
    (hread : ∀ i d, read d i = some a → i.Spells read' b) : j.Spells read' b := by
  obtain ⟨i, d, hheld, ha⟩ := h
  exact (hread i d ha).of_holds hheld

/-! ### Records -/

theorem knownMembers_mem {members : List (Key × Json)} {fields : Fields}
    (h : knownMembers names members = some fields) :
    ∀ f ∈ fields, f.2 ∈ members.map (·.2) := by
  induction members generalizing fields with
  | nil =>
    cases h
    simp
  | cons member members ih =>
    obtain ⟨⟨key, isEscaped⟩, value⟩ := member
    cases key with
    | none => cases h
    | some key =>
      rw [knownMembers] at h
      split at h
      case h_1 => cases h
      case h_2 rest hrest =>
        have hmem : ∀ f ∈ rest, f.2 ∈ value :: members.map (·.2) :=
          fun f hf => List.mem_cons_of_mem _ (ih hrest f hf)
        split_ifs at h
        · cases h
          exact hmem
        · cases h
          exact List.forall_mem_cons.2 ⟨List.mem_cons_self, hmem⟩

/-- The fields of a record are parts of it. -/
theorem fields?_mem {fields : Fields} (h : fields? names j = some fields) :
    ∀ f ∈ fields, f.2 ∈ j.parts := by
  cases j with
  | object members => exact knownMembers_mem h
  | array items =>
    rw [fields?] at h
    split_ifs at h
    cases h
    exact fun f hf => (List.of_mem_zip hf).2
  | _ => cases h

/-- A record is read from some of its parts. -/
theorem exists_fields {read : Nat → Fields → Option α} (h : record names read d j = some a) :
    ∃ d' fields, (∀ f ∈ fields, f.2 ∈ j.parts) ∧ read d' fields = some a := by
  cases d with
  | zero => cases h
  | succ d =>
    obtain ⟨fields, hfields, ha⟩ := Option.bind_eq_some_iff.1 h
    exact ⟨d, fields, fields?_mem hfields, ha⟩

section Fields

variable {fields : Fields} (hfields : ∀ f ∈ fields, f.2 ∈ j.parts)

include hfields

theorem spells_of_lookup (hi : fields.lookup name = some i) (h : read d i = some a) :
    j.Spells read a := by
  obtain ⟨before, after, rfl, -⟩ := List.lookup_eq_some_iff.1 hi
  exact (Spells.self h).of_holds (.part (hfields (name, i) (by simp)))

theorem spells_required (h : required name read d fields = some a) : j.Spells read a := by
  obtain ⟨i, hi, ha⟩ := Option.bind_eq_some_iff.1 h
  exact spells_of_lookup hfields hi ha

theorem spells_defaulted {default : α} (h : defaulted name default read d fields = some a) :
    a = default ∨ j.Spells read a := by
  rw [defaulted] at h
  split at h
  case h_1 i hi => exact .inr (spells_of_lookup hfields hi h)
  case h_2 => exact .inl (Option.some.inj h).symm

theorem spells_optional {o : Option α} (h : optional name read d fields = some o) :
    ∀ a ∈ o.toList, j.Spells read a := by
  intro a ha
  obtain rfl : o = some a := Option.mem_toList.1 ha
  rcases spells_defaulted hfields h with hnone | hsome
  · cases hnone
  · refine hsome.trans fun i d hi => ?_
    rw [readOption.eq_def] at hi
    split at hi
    case h_1 => cases hi
    case h_2 =>
      obtain ⟨b, hb, hba⟩ := Option.map_eq_some_iff.1 hi
      cases hba
      exact .self hb

end Fields

/-! ### Lists and variants -/

theorem readAll_mem {read : Json → Option α} {items : List Json} {as : List α}
    (h : readAll read items = some as) : ∀ a ∈ as, ∃ i ∈ items, read i = some a := by
  induction items generalizing as with
  | nil =>
    cases h
    simp
  | cons item items ih =>
    rw [readAll] at h
    split at h
    case h_1 b hb =>
      obtain ⟨bs, hbs, rfl⟩ := Option.map_eq_some_iff.1 h
      refine List.forall_mem_cons.2 ⟨⟨item, List.mem_cons_self, hb⟩, fun a ha => ?_⟩
      obtain ⟨i, hi, hread⟩ := ih hbs a ha
      exact ⟨i, List.mem_cons_of_mem _ hi, hread⟩
    case h_2 => cases h

theorem spells_list {as : List α} (h : readList read d j = some as) :
    ∀ a ∈ as, j.Spells read a := by
  intro a ha
  rw [readList.eq_def] at h
  split at h
  case h_1 d items =>
    obtain ⟨i, hi, hread⟩ := readAll_mem h a ha
    exact (Spells.self hread).of_holds (.part hi)
  case h_2 => cases h

/-- A variant is a name alone, or its data is a part. -/
theorem exists_variant {read : Nat → String → Option Json → Option α}
    (h : variant read d j = some a) :
    ∃ d' name data, (∀ i ∈ data, i ∈ j.parts) ∧ read d' name data = some a := by
  rw [variant.eq_def] at h
  split at h
  case h_1 name => exact ⟨d, name, none, by simp, h⟩
  case h_2 d name isEscaped i => exact ⟨d, name, some i, by simp [parts], h⟩
  case h_3 => cases h

theorem eq_of_bare {b : α} {j : Option Json} (h : bare a j = some b) : a = b := by
  rw [bare.eq_def] at h
  split at h <;> cases h <;> rfl

end Json

open Json

/-! ### Parts of kinds -/

section Parts

variable {part : Reader α} {coding : NumberCoding} {j : Json} {d : Nat} {k : Kind α}

theorem Property.spells_child {p : Property α} (h : j.Spells (Property.read part) p) :
    ∀ a ∈ p.children, j.Spells part a := by
  intro a ha
  refine h.trans fun i d hi => ?_
  obtain ⟨d, fields, hfields, hi⟩ := exists_fields hi
  simp only [Option.bind_eq_bind, Option.bind_eq_some_iff, Option.pure_def, Option.some.injEq] at hi
  obtain ⟨name, -, runtime, hruntime, rfl⟩ := hi
  exact spells_optional hfields hruntime a ha

theorem Compound.spells_value {c : Compound α} (h : j.Spells (Compound.read part) c) :
    j.Spells part c.value := by
  refine h.trans fun i d hi => ?_
  obtain ⟨d, fields, hfields, hi⟩ := exists_fields hi
  simp only [Option.bind_eq_bind, Option.bind_eq_some_iff, Option.pure_def, Option.some.injEq] at hi
  obtain ⟨operator, -, value, hvalue, rfl⟩ := hi
  exact spells_required hfields hvalue

namespace Kind

/-- A document spells the type of a kind, unless it is `*`, and all its parts. -/
structure SpelledIn (part : Reader α) (j : Json) (k : Kind α) : Prop where
  type : ∀ t ∈ k.type?, t = .any ∨ j.Spells StaticType.read t
  parts : ∀ a ∈ k.parts, j.Spells part a

/-- A kind without a type is spelled with its parts. -/
theorem SpelledIn.of_parts (htype : k.type? = none) (h : ∀ a ∈ k.parts, j.Spells part a) :
    k.SpelledIn part j :=
  ⟨by simp [htype], h⟩

theorem SpelledIn.of_holds {i : Json} (hi : j.Holds i) (h : k.SpelledIn part i) :
    k.SpelledIn part j :=
  ⟨fun t ht => (h.type t ht).imp_right (.of_holds hi), fun a ha => (h.parts a ha).of_holds hi⟩

theorem spelledIn_register (h : readRegister d j = some k) : k.SpelledIn part j := by
  obtain ⟨d, fields, hfields, h⟩ := exists_fields h
  simp only [Option.bind_eq_bind, Option.bind_eq_some_iff, Option.pure_def, Option.some.injEq] at h
  obtain ⟨i, -, t, ht, rfl⟩ := h
  have htype := spells_defaulted hfields ht
  exact ⟨by simpa [type?] using htype, by simp [parts, children, compound?]⟩

theorem spelledIn_scope (h : readScope part d j = some k) : k.SpelledIn part j := by
  obtain ⟨d, fields, hfields, h⟩ := exists_fields h
  simp only [Option.bind_eq_bind, Option.bind_eq_some_iff, Option.pure_def, Option.some.injEq] at h
  obtain ⟨p, hp, rfl⟩ := h
  have hname := Property.spells_child (spells_required hfields hp)
  exact .of_parts rfl (by simpa [parts, children, compound?] using hname)

theorem spells_value {v : α} (h : readValue part d j = some v) : j.Spells part v := by
  obtain ⟨d, fields, hfields, h⟩ := exists_fields h
  exact spells_required hfields h

theorem spells_conversion {t : StaticType} {v : α} (h : readConversion part d j = some (t, v)) :
    j.Spells StaticType.read t ∧ j.Spells part v := by
  obtain ⟨d, fields, hfields, h⟩ := exists_fields h
  simp only [Option.bind_eq_bind, Option.bind_eq_some_iff, Option.pure_def, Option.some.injEq] at h
  obtain ⟨t, ht, v, hv, ⟨⟩⟩ := h
  exact ⟨spells_required hfields ht, spells_required hfields hv⟩

theorem spelledIn_get (h : readGet part d j = some k) : k.SpelledIn part j := by
  obtain ⟨d, fields, hfields, h⟩ := exists_fields h
  simp only [Option.bind_eq_bind, Option.bind_eq_some_iff, Option.pure_def, Option.some.injEq] at h
  obtain ⟨object, ho, p, hp, t, ht, rfl⟩ := h
  have hobject := spells_required hfields ho
  have hname := Property.spells_child (spells_required hfields hp)
  have htype := spells_defaulted hfields ht
  exact ⟨by simpa [type?] using htype, by simpa [parts, children, compound?] using ⟨hobject, hname⟩⟩

theorem spelledIn_getSuper (h : readGetSuper part d j = some k) : k.SpelledIn part j := by
  obtain ⟨d, fields, hfields, h⟩ := exists_fields h
  simp only [Option.bind_eq_bind, Option.bind_eq_some_iff, Option.pure_def, Option.some.injEq] at h
  obtain ⟨object, ho, p, hp, rfl⟩ := h
  have hobject := spells_required hfields ho
  have hname := Property.spells_child (spells_required hfields hp)
  exact .of_parts rfl (by simpa [parts, children, compound?] using ⟨hobject, hname⟩)

/-- The arguments of a call, none of which have to be there. -/
theorem spells_arguments {fields : Fields} (hfields : ∀ f ∈ fields, f.2 ∈ j.parts) {as : List α}
    (h : defaulted "arguments" [] (readList part) d fields = some as) :
    ∀ a ∈ as, j.Spells part a := by
  intro a ha
  rcases spells_defaulted hfields h with rfl | hlist
  · cases ha
  · exact hlist.trans fun i d hi => spells_list hi a ha

theorem spelledIn_call {lookup : Lookup} (h : readCall lookup part d j = some k) :
    k.SpelledIn part j := by
  obtain ⟨d, fields, hfields, h⟩ := exists_fields h
  simp only [Option.bind_eq_bind, Option.bind_eq_some_iff, Option.pure_def, Option.some.injEq] at h
  obtain ⟨object, ho, p, hp, as, has, rfl⟩ := h
  have hobject := spells_required hfields ho
  have hname := Property.spells_child (spells_required hfields hp)
  have harguments := spells_arguments hfields has
  refine .of_parts rfl ?_
  simp only [parts, children, compound?, Option.map_none, Option.toList_none, List.append_nil]
  exact List.forall_mem_cons.2 ⟨hobject, List.forall_mem_append.2 ⟨hname, harguments⟩⟩

theorem spelledIn_construct (h : readConstruct part d j = some k) : k.SpelledIn part j := by
  obtain ⟨d, fields, hfields, h⟩ := exists_fields h
  simp only [Option.bind_eq_bind, Option.bind_eq_some_iff, Option.pure_def, Option.some.injEq] at h
  obtain ⟨object, ho, as, has, rfl⟩ := h
  have hobject := spells_required hfields ho
  have harguments := spells_arguments hfields has
  exact .of_parts rfl (by simpa [parts, children, compound?] using ⟨hobject, harguments⟩)

/-- The value in a compound form, which does not have to be there. -/
theorem spells_compound {fields : Fields} (hfields : ∀ f ∈ fields, f.2 ∈ j.parts)
    {c : Option (Compound α)}
    (h : optional "compound" (Compound.read part) d fields = some c) :
    ∀ a ∈ (c.map (·.value)).toList, j.Spells part a := by
  intro a ha
  obtain ⟨b, rfl, rfl⟩ := Option.map_eq_some_iff.1 (Option.mem_toList.1 ha)
  exact Compound.spells_value (spells_optional hfields h b (by simp))

theorem spelledIn_assignProperty {lookup : Lookup}
    (h : readAssignProperty lookup part d j = some k) : k.SpelledIn part j := by
  obtain ⟨d, fields, hfields, h⟩ := exists_fields h
  simp only [Option.bind_eq_bind, Option.bind_eq_some_iff, Option.pure_def, Option.some.injEq] at h
  obtain ⟨object, ho, p, hp, v, hv, c, hc, declaration, -, rfl⟩ := h
  have hobject := spells_required hfields ho
  have hname := Property.spells_child (spells_required hfields hp)
  have hvalue := spells_required hfields hv
  have hcompound := spells_compound hfields hc
  refine .of_parts rfl ?_
  simp only [parts, children, Target.children, compound?, List.cons_append, List.append_assoc]
  refine List.forall_mem_cons.2 ⟨hobject, List.forall_mem_append.2 ⟨hname, ?_⟩⟩
  exact List.forall_mem_cons.2 ⟨hvalue, hcompound⟩

theorem spelledIn_assignRegister (h : readAssignRegister part d j = some k) :
    k.SpelledIn part j := by
  obtain ⟨d, fields, hfields, h⟩ := exists_fields h
  simp only [Option.bind_eq_bind, Option.bind_eq_some_iff, Option.pure_def, Option.some.injEq] at h
  obtain ⟨i, -, v, hv, c, hc, declaration, -, rfl⟩ := h
  have hvalue := spells_required hfields hv
  have hcompound := spells_compound hfields hc
  exact .of_parts rfl (List.forall_mem_cons.2 ⟨hvalue, hcompound⟩)

theorem spelledIn_binary (h : readBinary part d j = some k) : k.SpelledIn part j := by
  obtain ⟨d, fields, hfields, h⟩ := exists_fields h
  simp only [Option.bind_eq_bind, Option.bind_eq_some_iff, Option.pure_def, Option.some.injEq] at h
  obtain ⟨op, -, l, hl, r, hr, rfl⟩ := h
  have hleft := spells_required hfields hl
  have hright := spells_required hfields hr
  exact .of_parts rfl (by simpa [parts, children, compound?] using ⟨hleft, hright⟩)

theorem spelledIn_unary (h : readUnary part d j = some k) : k.SpelledIn part j := by
  obtain ⟨d, fields, hfields, h⟩ := exists_fields h
  simp only [Option.bind_eq_bind, Option.bind_eq_some_iff, Option.pure_def, Option.some.injEq] at h
  obtain ⟨op, -, v, hv, rfl⟩ := h
  have hvalue := spells_required hfields hv
  exact .of_parts rfl (by simpa [parts, children, compound?] using hvalue)

theorem spelledIn_ternary (h : readTernary part d j = some k) : k.SpelledIn part j := by
  obtain ⟨d, fields, hfields, h⟩ := exists_fields h
  simp only [Option.bind_eq_bind, Option.bind_eq_some_iff, Option.pure_def, Option.some.injEq] at h
  obtain ⟨c, hc, a, ha, b, hb, rfl⟩ := h
  have hcondition := spells_required hfields hc
  have htrue := spells_required hfields ha
  have hfalse := spells_required hfields hb
  exact .of_parts rfl (by simpa [parts, children, compound?] using ⟨hcondition, htrue, hfalse⟩)

theorem spelledIn_declare (h : readDeclare part d j = some k) : k.SpelledIn part j := by
  obtain ⟨d, fields, hfields, h⟩ := exists_fields h
  simp only [Option.bind_eq_bind, Option.bind_eq_some_iff, Option.pure_def, Option.some.injEq] at h
  obtain ⟨i, -, t, ht, v, hv, rfl⟩ := h
  have htype := spells_defaulted hfields ht
  have hvalue := spells_optional hfields hv
  exact ⟨by simpa [type?] using htype, by simpa [parts, children, compound?] using hvalue⟩

/-- The data of a kind spell its type and its parts. -/
theorem spelledIn_data {name : String} (h : readData coding part name d j = some k) :
    k.SpelledIn part j := by
  have hliteral {l : Literal} (hk : k = .literal l) : k.SpelledIn part j := by
    subst hk
    exact .of_parts rfl (by simp [parts, children, compound?])
  have hsingle {f : α → Kind α} {v : α} (hv : readValue part d j = some v) (hk : f v = k)
      (htype : (f v).type? = none) (hparts : (f v).parts = [v]) : k.SpelledIn part j := by
    subst hk
    exact .of_parts htype (by simpa [hparts] using spells_value hv)
  have hconversion {f : StaticType → α → Kind α} {t : StaticType} {v : α}
      (hv : readConversion part d j = some (t, v)) (hk : f t v = k)
      (htype : (f t v).type? = some t) (hparts : (f t v).parts = [v]) : k.SpelledIn part j := by
    subst hk
    obtain ⟨ht, hv⟩ := spells_conversion hv
    exact ⟨by simpa [htype] using .inr ht, by simpa [hparts] using hv⟩
  unfold readData at h
  split at h
  case h_1 | h_2 | h_3 | h_4 | h_5 =>
    obtain ⟨x, -, hk⟩ := Option.map_eq_some_iff.1 h
    exact hliteral hk.symm
  case h_6 => exact spelledIn_register h
  case h_7 => exact spelledIn_scope h
  case h_8 | h_23 | h_24 =>
    obtain ⟨v, hv, hk⟩ := Option.map_eq_some_iff.1 h
    exact hsingle hv hk rfl rfl
  case h_9 =>
    obtain ⟨⟨t, v⟩, hv, hk⟩ := Option.map_eq_some_iff.1 h
    exact hconversion (f := .convert) hv hk rfl rfl
  case h_10 =>
    obtain ⟨⟨t, v⟩, hv, hk⟩ := Option.map_eq_some_iff.1 h
    exact hconversion (f := .coerce) hv hk rfl rfl
  case h_11 => exact spelledIn_get h
  case h_12 | h_15 => exact spelledIn_assignProperty h
  case h_13 | h_16 => exact spelledIn_call h
  case h_14 => exact spelledIn_getSuper h
  case h_17 => exact spelledIn_construct h
  case h_18 => exact spelledIn_binary h
  case h_19 => exact spelledIn_unary h
  case h_20 => exact spelledIn_ternary h
  case h_21 => exact spelledIn_assignRegister h
  case h_22 => exact spelledIn_declare h
  case h_25 => cases h

/-- A kind is spelled by the document that it is read from. -/
theorem spelledIn_of_read (h : Kind.read coding part d j = some k) : k.SpelledIn part j := by
  have hbare {k' : Kind α} {data : Option Json} (hk : bare k' data = some k)
      (htype : k'.type? = none) (hparts : k'.parts = []) : k.SpelledIn part j := by
    obtain rfl := eq_of_bare hk
    exact .of_parts htype (by simp [hparts])
  obtain ⟨d, name, data, hdata, h⟩ := exists_variant h
  split at h
  case h_1 | h_2 | h_3 | h_4 => exact hbare h rfl rfl
  case h_5 =>
    obtain ⟨i, hi, hk⟩ := Option.bind_eq_some_iff.1 h
    exact (spelledIn_data hk).of_holds (.part (hdata i hi))

end Kind

end Parts

/-! ### Trees and methods -/

section Trees

variable {coding : NumberCoding} {j : Json} {d : Nat}

namespace Node

/-- A node in the tree names a type. -/
def Mentions (n : Node) (t : StaticType) : Prop := ∃ m, n.Contains m ∧ t ∈ m.kind.type?

theorem mentions_mk {k : Kind Node} {o : Origin} {t : StaticType} :
    Mentions ⟨k, o⟩ t ↔ t ∈ k.type? ∨ ∃ c ∈ k.parts, c.Mentions t := by
  constructor
  · rintro ⟨m, hm, ht⟩
    rcases contains_mk.1 hm with rfl | ⟨c, hc, hm⟩
    · exact .inl ht
    · exact .inr ⟨c, hc, m, hm, ht⟩
  · rintro (ht | ⟨c, hc, m, hm, ht⟩)
    · exact ⟨_, .refl, ht⟩
    · exact ⟨m, hm.head hc, ht⟩

theorem spells_type_within {height : Nat} {n : Node} {t : StaticType}
    (h : readWithin coding height d j = some n) (ht : n.Mentions t) :
    t = .any ∨ j.Spells StaticType.read t := by
  induction height generalizing d j n with
  | zero => cases h
  | succ height ih =>
    obtain ⟨d, fields, hfields, h⟩ := exists_fields h
    simp only [Option.bind_eq_bind, Option.bind_eq_some_iff, Option.pure_def,
      Option.some.injEq] at h
    obtain ⟨k, hk, o, -, rfl⟩ := h
    obtain ⟨i, d, hheld, hk⟩ := spells_required hfields hk
    have hspelled := (Kind.spelledIn_of_read hk).of_holds hheld
    rcases mentions_mk.1 ht with ht | ⟨c, hc, ht⟩
    · exact hspelled.type t ht
    · obtain ⟨i, d, hheld, hread⟩ := hspelled.parts c hc
      exact (ih hread ht).imp_right (.of_holds hheld)

/-- A document spells every type in the tree that is read from it, except `*`. -/
theorem spells_type {n : Node} {t : StaticType} (h : j.Spells (Node.read coding) n)
    (ht : n.Mentions t) : t = .any ∨ j.Spells StaticType.read t := by
  obtain ⟨i, d, hheld, hread⟩ := h
  exact (spells_type_within hread ht).imp_right (.of_holds hheld)

end Node

/-- A document spells the statements of the method that is read from it. -/
theorem Method.spells_statement {m : Method} (h : j.Spells (Method.read coding) m) :
    ∀ s ∈ m.statements, j.Spells (Node.read coding) s := by
  intro s hs
  refine h.trans fun i d hi => ?_
  obtain ⟨d, fields, hfields, hi⟩ := exists_fields hi
  simp only [Option.bind_eq_bind, Option.bind_eq_some_iff, Option.pure_def,
    Option.some.injEq] at hi
  obtain ⟨name, -, statements, hstatements, localNames, -, className, -, isStatic, -, rfl⟩ := hi
  exact (spells_required hfields hstatements).trans fun i d hi => spells_list hi s hs

/-- A document spells the methods that are read from it. -/
theorem spells_method {ms : List Method} (h : methodsOf? j = some ms) :
    ∀ m ∈ ms, j.Spells (Method.read .plain) m := by
  intro m hm
  rw [methodsOf?.eq_def] at h
  split at h
  case h_1 items => exact spells_list h m hm
  case h_2 =>
    obtain ⟨m', hread, rfl⟩ := Option.map_eq_some_iff.1 h
    obtain rfl : m = m' := List.mem_singleton.1 hm
    exact .self hread

end Trees

end ActionTree
