import ActionTree.Proofs.Schema.Method
import ActionTree.Proofs.Schema.Spelling

/-!
# Primitive types have one representation, unless a document names a class after one

The type of a name is a primitive where the name is that of one, so the trees that are built with
such types never have a class of that name.  The reader of types takes every class as it is named.
A tree may then have the class `int` beside the type `int`, but only where a document names it.

* `StaticType.IsDisguised` - a class has the name of a primitive;
* `StaticType.exists_ofName_iff` - the other types are those that a name gives;
* `Json.NamesClass`, `StaticType.read_class_iff` - the documents of classes;
* `Node.Arises` - the trees that come about once some documents are read;
* `Node.Arises.fold` - folding makes no others;
* `Node.namesClass_of_isDisguised` - **a document names every disguised class**.
-/

namespace ActionTree

open Json

/-! ### Classes named like primitives -/

namespace StaticType

/-- The names of the primitive types. -/
def primitiveNames : List String := ["Boolean", "int", "uint", "Number", "String", "Object", "*"]

/-- A class at the top level that has the name of a primitive. -/
def IsDisguised (t : StaticType) : Prop :=
  ∃ q : QualifiedName, t = .class q ∧ q.namespace.isTopLevel = true ∧ q.name ∈ primitiveNames

/-- The type of a name is its class just when no primitive has the name. -/
theorem ofName_eq_class_iff {q : QualifiedName} :
    ofName q = .class q ↔ ¬(q.namespace.isTopLevel = true ∧ q.name ∈ primitiveNames) := by
  rw [ofName]
  split
  case isTrue htop => split <;> simp_all [primitiveNames]
  case isFalse htop => simp [htop]

/-- A name gives no class but its own. -/
theorem eq_of_ofName_eq_class {p q : QualifiedName} (h : ofName p = .class q) : p = q := by
  rw [ofName] at h
  split at h
  · split at h <;> cases h
    rfl
  · cases h
    rfl

/-- The types that a name gives are those that are not disguised. -/
theorem exists_ofName_iff {t : StaticType} : (∃ q, ofName q = t) ↔ ¬t.IsDisguised := by
  cases t with
  | «class» q =>
    have hself : (∃ p, ofName p = .class q) ↔ ofName q = .class q :=
      ⟨fun ⟨p, hp⟩ => by rwa [eq_of_ofName_eq_class hp] at hp, fun h => ⟨q, h⟩⟩
    rw [hself, ofName_eq_class_iff, IsDisguised]
    simp
  | boolean => simpa [IsDisguised] using ⟨.ofName "Boolean", rfl⟩
  | int => simpa [IsDisguised] using ⟨.ofName "int", rfl⟩
  | uint => simpa [IsDisguised] using ⟨.ofName "uint", rfl⟩
  | number => simpa [IsDisguised] using ⟨.ofName "Number", rfl⟩
  | string => simpa [IsDisguised] using ⟨.ofName "String", rfl⟩
  | object => simpa [IsDisguised] using ⟨.ofName "Object", rfl⟩
  | any => simpa [IsDisguised] using ⟨.ofName "*", rfl⟩

/-- A class is read from an object that names it, and from nothing else. -/
theorem read_class_iff {d : Nat} {j : Json} {q : QualifiedName} :
    StaticType.read d j = some (.class q) ↔ ∃ d' key data, d = d' + 1 ∧ j = .object [(key, data)] ∧
      key.text = some "Class" ∧ QualifiedName.read d' data = some q := by
  constructor
  · intro h
    rw [StaticType.read, variant.eq_def] at h
    split at h
    case h_1 => split at h <;> cases h
    case h_2 d' name isEscaped i =>
      split at h
      case h_8 =>
        obtain ⟨p, hp, hq⟩ := Option.map_eq_some_iff.1 h
        cases hq
        exact ⟨d', _, i, rfl, rfl, rfl, hp⟩
      case h_9 => cases h
      all_goals cases eq_of_bare h
    case h_3 => cases h
  · rintro ⟨d', ⟨-, isEscaped⟩, data, rfl, rfl, rfl, hq⟩
    exact Option.map_eq_some_iff.2 ⟨q, hq, rfl⟩

end StaticType

/-- An object in the document stands for a class. -/
def Json.NamesClass (j : Json) (q : QualifiedName) : Prop :=
  ∃ key data d, j.Holds (.object [(key, data)]) ∧ key.text = some "Class" ∧
    QualifiedName.read d data = some q

theorem Json.namesClass_of_spells {j : Json} {q : QualifiedName}
    (h : j.Spells StaticType.read (.class q)) : j.NamesClass q := by
  obtain ⟨i, d, hheld, hread⟩ := h
  obtain ⟨d', key, data, -, rfl, hkey, hq⟩ := StaticType.read_class_iff.1 hread
  exact ⟨key, data, d', hheld, hkey, hq⟩

/-! ### The trees that come about -/

namespace Node

/-- The trees that come about once some documents are read: a tree or a statement of a method is read
from a document, a node is built over other trees with the type of a name or a type of another tree,
and the parts of a tree are trees. -/
inductive Arises (documents : Json → Prop) : Node → Prop
  | read {coding : NumberCoding} {j : Json} {d : Nat} {n : Node} (hj : documents j)
      (h : Node.read coding d j = some n) : Arises documents n
  | statement {j : Json} {ms : List Method} {m : Method} {s : Node} (hj : documents j)
      (h : methodsOf? j = some ms) (hm : m ∈ ms) (hs : s ∈ m.statements) : Arises documents s
  | build {k : Kind Node} {o : Origin} (htype : ∀ t ∈ k.type?, ∃ q, StaticType.ofName q = t)
      (hparts : ∀ c ∈ k.parts, Arises documents c) : Arises documents ⟨k, o⟩
  | retype {k : Kind Node} {o : Origin} {n : Node} (h : Arises documents n)
      (htype : ∀ t ∈ k.type?, n.Mentions t)
      (hparts : ∀ c ∈ k.parts, Arises documents c) : Arises documents ⟨k, o⟩
  | part {n c : Node} (h : Arises documents n) (hc : c ∈ n.kind.parts) : Arises documents c

/-- A binary operation has a class as its type only if its left operand has. -/
theorem binaryType_eq_class {op : BinaryOperator} {l r : StaticType} {q : QualifiedName}
    (h : binaryType op l r = .class q) : l = .class q := by
  cases op <;> simp only [binaryType] at h <;> grind

/-- A value has a class as its type only if the class stands in the tree. -/
theorem mentions_of_returnType {n : Node} {q : QualifiedName} (h : n.returnType = .class q) :
    n.Mentions (.class q) := by
  induction n using induct with
  | step k o ih =>
    rw [mentions_mk]
    have hpart {v : Node} (hv : v ∈ k.parts) (h : v.returnType = .class q) :
        ∃ c ∈ k.parts, c.Mentions (.class q) := ⟨v, hv, ih v hv h⟩
    cases k with
    | literal l => cases l <;> cases h
    | register i t | convert t v | coerce t v | get object p t | declare i t v =>
      exact .inl (congrArg some h)
    | duplicate v | assign target v c d | returnValue v =>
      exact .inr (hpart (v := v) (by simp [Kind.parts, Kind.children]) h)
    | binary op l r =>
      exact .inr (hpart (v := l) (by simp [Kind.parts, Kind.children]) (binaryType_eq_class h))
    | unary op v => cases op <;> cases h
    | ternary c a b =>
      rw [returnType] at h
      split at h
      · exact .inr (hpart (v := a) (by simp [Kind.parts, Kind.children]) h)
      · cases h
    | _ => cases h

variable {documents : Json → Prop} {n : Node} {t : StaticType}

/-- A type in a tree is that of a name, or some document spells it. -/
theorem Arises.named_or_spelled (h : n.Arises documents) (ht : n.Mentions t) :
    (∃ q, StaticType.ofName q = t) ∨ ∃ j, documents j ∧ j.Spells StaticType.read t := by
  have hspelled {n : Node} {j : Json} {coding : NumberCoding} {t : StaticType} (hj : documents j)
      (h : j.Spells (Node.read coding) n) (ht : n.Mentions t) :
      (∃ q, StaticType.ofName q = t) ∨ ∃ j, documents j ∧ j.Spells StaticType.read t :=
    (spells_type h ht).imp (fun hany => ⟨.ofName "*", hany.symm⟩) fun h => ⟨j, hj, h⟩
  induction h generalizing t with
  | read hj h => exact hspelled hj (.self h) ht
  | statement hj h hm hs =>
    exact hspelled hj (Method.spells_statement (spells_method h _ hm) _ hs) ht
  | build htype hparts ih =>
    rcases mentions_mk.1 ht with ht | ⟨c, hc, ht⟩
    · exact .inl (htype t ht)
    · exact ih c hc ht
  | retype h htype hparts ih ihparts =>
    rcases mentions_mk.1 ht with ht | ⟨c, hc, ht⟩
    · exact ih (htype t ht)
    · exact ihparts c hc ht
  | part h hc ih =>
    obtain ⟨m, hm, ht⟩ := ht
    exact ih ⟨m, hm.head hc, ht⟩

/-- What comes about can be folded. -/
theorem Arises.fold (h : n.Arises documents) : n.fold.Arises documents := by
  induction n using induct with
  | step k o ih =>
    rw [fold_mk]
    split
    case h_1 l hl =>
      exact .build (by simp [Kind.type?]) (by simp [Kind.parts, Kind.children, Kind.compound?])
    case h_2 =>
      refine .retype h (fun t ht => ⟨_, .refl, ?_⟩) fun c hc => ?_
      · rwa [Kind.type?_map] at ht
      · rw [Kind.parts_map] at hc
        obtain ⟨d, hd, rfl⟩ := List.mem_map.1 hc
        exact ih d hd (h.part hd)

/-- For every type there is a document with it. -/
theorem exists_mentions_of_read (t : StaticType) :
    ∃ j m, Node.read .plain depthLimit j = some m ∧ m.Mentions t := by
  let m := convert this t
  have hnumbers : m.numbers = [] := rfl
  have hdepth : (m.toJson .plain).depth ≤ depthLimit := by
    cases t <;> exact Nat.le_of_ble_eq_true rfl
  have hread := m.recovers (fun _ => NumberCoding.recovers_plain) depthLimit
  rw [hnumbers] at hread
  exact ⟨_, m, (hread _ (Nat.le_refl _)).2 ⟨hdepth, by simp⟩, mentions_mk.2 (.inl rfl)⟩

/-- **A document names every disguised class.**  Where a class named like a primitive stands in a
tree, before or after folding, or is the type of its value, no name gives this type, and some
document that was read has an object that stands for the class.  All such classes are read from some
document. -/
theorem namesClass_of_isDisguised (h : n.Arises documents)
    (ht : n.Mentions t ∨ n.fold.Mentions t ∨ t = n.returnType ∨ t = n.fold.returnType)
    (hdisguised : t.IsDisguised) :
    (∀ q, StaticType.ofName q ≠ t) ∧
      (∃ j q, documents j ∧ t = .class q ∧ j.NamesClass q) ∧
      ∃ j m, Node.read .plain depthLimit j = some m ∧ m.Mentions t := by
  have hname : ¬∃ q, StaticType.ofName q = t := fun h => StaticType.exists_ofName_iff.1 h hdisguised
  obtain ⟨q, rfl, -⟩ := hdisguised
  have hmentions : n.Mentions (.class q) ∨ n.fold.Mentions (.class q) := by
    rcases ht with ht | ht | ht | ht
    · exact .inl ht
    · exact .inr ht
    · exact .inl (mentions_of_returnType ht.symm)
    · exact .inr (mentions_of_returnType ht.symm)
  refine ⟨fun p hp => hname ⟨p, hp⟩, ?_, exists_mentions_of_read _⟩
  obtain ⟨j, hj, hspells⟩ : ∃ j, documents j ∧ j.Spells StaticType.read (.class q) := by
    rcases hmentions with ht | ht
    · exact (h.named_or_spelled ht).resolve_left hname
    · exact (h.fold.named_or_spelled ht).resolve_left hname
  exact ⟨j, q, hj, rfl, Json.namesClass_of_spells hspells⟩

/-- The conversion of 5 to a type, in a document. -/
def castDocument (type : Json) : Json :=
  let five := ofMembers [("kind", ofMembers [("Integer", ofNat 5)])]
  ofMembers [("kind", ofMembers [("Convert", ofMembers [("ty", type), ("value", five)])])]

/-- The class `int`, in a document. -/
def intClass : Json := ofMembers [("Class", ofMembers [("name", text "int")])]

theorem read_castDocument :
    Node.read .plain depthLimit (castDocument intClass) =
        some (convert (literal (.int 5)) (.class (.ofName "int"))) ∧
      Node.read .plain depthLimit (castDocument (text "Int")) =
        some (convert (literal (.int 5)) .int) := by
  exact ⟨rfl, rfl⟩

theorem isDisguised_int : (StaticType.class (.ofName "int")).IsDisguised :=
  ⟨.ofName "int", rfl, rfl, by decide⟩

/-- The document with the class is where it comes from. -/
theorem namesClass_of_isDisguised_castToInt :
    let documents : Json → Prop := (· = castDocument intClass)
    let n := convert (literal (.int 5)) (.class (.ofName "int"))
    n.Arises documents ∧ n.Mentions (.class (.ofName "int")) ∧
      (StaticType.class (.ofName "int")).IsDisguised ∧
      (∀ q, StaticType.ofName q ≠ .class (.ofName "int")) ∧
      (∃ j q, documents j ∧ StaticType.class (.ofName "int") = .class q ∧ j.NamesClass q) ∧
      ∃ j m, Node.read .plain depthLimit j = some m ∧ m.Mentions (.class (.ofName "int")) := by
  intro documents n
  have harises : n.Arises documents := .read rfl read_castDocument.1
  have hmentions : n.Mentions (.class (.ofName "int")) := mentions_mk.2 (.inl rfl)
  exact ⟨harises, hmentions, isDisguised_int,
    namesClass_of_isDisguised harises (.inl hmentions) isDisguised_int⟩

/-- The class `int` and the type `int` coexist: both are read, both have the same name, and only the
cast to the class is written. -/
theorem exists_isDisguised_of_read :
    ∃ n n', Node.read .plain depthLimit (castDocument intClass) = some n ∧
      Node.read .plain depthLimit (castDocument (text "Int")) = some n' ∧
      n.Mentions (.class (.ofName "int")) ∧ (StaticType.class (.ofName "int")).IsDisguised ∧
      n'.Mentions .int ∧ (StaticType.class (.ofName "int")).text = StaticType.int.text ∧
      n.source .empty = "int(5)" ∧ n'.source .empty = "5" :=
  ⟨_, _, read_castDocument.1, read_castDocument.2, mentions_mk.2 (.inl rfl), isDisguised_int,
    mentions_mk.2 (.inl rfl), rfl, by decide +kernel, by decide +kernel⟩

end Node

end ActionTree
