import ActionTree.Node.Basic

/-!
# Equality of trees

Trees are equal when they compute the same thing in the same way.  Origins and declaration links
take no part, and an assignment past the class of an object does not compare its compound form.

* `Kind.agrees` - equality of kinds, given one of their parts;
* `Node.agrees` - equality of trees, which is `==` on nodes;
* `Node.hashInput` - what a hash of a tree covers.
-/

namespace ActionTree

variable {α β : Type}

/-- Equality of optional parts. -/
def optionAgrees (r : α → β → Bool) : Option α → Option β → Bool
  | none, none => true
  | some a, some b => r a b
  | _, _ => false

/-- Equality of lists of parts. -/
def listAgrees (r : α → β → Bool) : List α → List β → Bool
  | [], [] => true
  | a :: as, b :: bs => r a b && listAgrees r as bs
  | _, _ => false

/-- Equality of property names. -/
def Property.agrees (r : α → β → Bool) (p : Property α) (q : Property β) : Bool :=
  p.name == q.name && optionAgrees r p.runtime q.runtime

/-- Equality of compound forms. -/
def Compound.agrees (r : α → β → Bool) (c : Compound α) (d : Compound β) : Bool :=
  c.operator == d.operator && r c.value d.value

/-- Equality of kinds by equality of their parts. -/
def Kind.agrees (r : α → β → Bool) : Kind α → Kind β → Bool
  | .literal l, .literal m => l == m
  | .this, .this => true
  | .register i t, .register j u => i == j && t == u
  | .scope p, .scope q => p.agrees r q
  | .duplicate v, .duplicate w => r v w
  | .convert t v, .convert u w => t == u && r v w
  | .coerce t v, .coerce u w => t == u && r v w
  | .get o p t, .get o' q u => r o o' && p.agrees r q && t == u
  | .getSuper o p, .getSuper o' q => r o o' && p.agrees r q
  | .call l o p as, .call l' o' q bs => l == l' && r o o' && p.agrees r q && listAgrees r as bs
  | .construct o as, .construct o' bs => r o o' && listAgrees r as bs
  | .assign (.register i) v c _, .assign (.register j) w d _ =>
    i == j && r v w && optionAgrees (Compound.agrees r) c d
  | .assign (.property .direct o p) v c _, .assign (.property .direct o' q) w d _ =>
    r o o' && p.agrees r q && r v w && optionAgrees (Compound.agrees r) c d
  | .assign (.property .super o p) v _ _, .assign (.property .super o' q) w _ _ =>
    r o o' && p.agrees r q && r v w
  | .binary op a b, .binary op' a' b' => op == op' && r a a' && r b b'
  | .unary op v, .unary op' w => op == op' && r v w
  | .ternary c a b, .ternary c' a' b' => r c c' && r a a' && r b b'
  | .declare i t v, .declare j u w => i == j && t == u && optionAgrees r v w
  | .returnValue v, .returnValue w => r v w
  | .returnVoid, .returnVoid => true
  | .throw v, .throw w => r v w
  | _, _ => false

/-- Equality of trees. -/
def Node.agrees : Node → Node → Bool :=
  Node.recurse fun kind _ other => kind.agrees (fun a b => a.2 b) other.kind

instance : BEq Node := ⟨Node.agrees⟩

/-! ### The equation of equality -/

theorem optionAgrees_map {γ : Type} (f : α → γ) (r : γ → β → Bool) (a : Option α) (b : Option β) :
    optionAgrees r (a.map f) b = optionAgrees (fun a b => r (f a) b) a b := by
  cases a <;> cases b <;> rfl

theorem listAgrees_map {γ : Type} (f : α → γ) (r : γ → β → Bool) (as : List α) (bs : List β) :
    listAgrees r (as.map f) bs = listAgrees (fun a b => r (f a) b) as bs := by
  induction as generalizing bs with
  | nil => cases bs <;> rfl
  | cons a as ih =>
    cases bs with
    | nil => rfl
    | cons b bs => simp only [List.map_cons, listAgrees, ih]

theorem Property.agrees_map {γ : Type} (f : α → γ) (r : γ → β → Bool) (p : Property α)
    (q : Property β) : (p.map f).agrees r q = p.agrees (fun a b => r (f a) b) q := by
  simp only [Property.agrees, Property.map, optionAgrees_map]

/-- Comparing replaced parts is comparing through the replacement. -/
theorem Kind.agrees_map {γ : Type} (f : α → γ) (r : γ → β → Bool) (k : Kind α) (l : Kind β) :
    (k.map f).agrees r l = k.agrees (fun a b => r (f a) b) l := by
  have compound (c : Option (Compound α)) (d : Option (Compound β)) :
      optionAgrees (Compound.agrees r) (c.map (·.map f)) d
        = optionAgrees (Compound.agrees fun a b => r (f a) b) c d := by
    rw [optionAgrees_map]
    rfl
  cases k with
  | assign t v c d =>
    cases l with
    | assign t' v' c' d' =>
      cases t with
      | register i => cases t' <;> simp only [Kind.map, Target.map, Kind.agrees, compound]
      | property lookup o p =>
        cases lookup <;> cases t' with
        | register j => rfl
        | property lookup' o' p' =>
          cases lookup' <;>
            simp only [Kind.map, Target.map, Kind.agrees, Property.agrees_map, compound]
    | _ => cases t with
      | register i => rfl
      | property lookup o p => cases lookup <;> rfl
  | _ =>
    cases l <;> simp only [Kind.map, Kind.agrees, Property.agrees_map, optionAgrees_map,
      listAgrees_map]

theorem Node.agrees_mk (k : Kind Node) (o : Origin) (m : Node) :
    Node.agrees ⟨k, o⟩ m = k.agrees Node.agrees m.kind := by
  rw [Node.agrees, Node.recurse_mk, Kind.agrees_map]

/-! ### Hashing -/

/-- What is fed to a hash: the name of a variant, a number or a text. -/
inductive HashWord where
  | tag (name : String)
  | number (value : Nat)
  | text (value : String)
  deriving DecidableEq

/-- The name of a namespace kind in hash input. -/
def NamespaceKind.hashTag : NamespaceKind → String
  | .package => "Package"
  | .packageInternal => "PackageInternal"
  | .protected => "Protected"
  | .private => "Private"
  | .explicit => "Explicit"
  | .staticProtected => "StaticProtected"
  | .plain => "Namespace"

/-- The hash input of a qualified name. -/
def QualifiedName.hashInput (q : QualifiedName) : List HashWord :=
  [.tag q.namespace.kind.hashTag, .text q.namespace.name, .text q.name]

/-- The hash input of a type. -/
def StaticType.hashInput : StaticType → List HashWord
  | .class q => .tag "Class" :: q.hashInput
  | t => [.tag t.text]

/-- The hash input of a literal after its variant. -/
def Literal.hashInput : Literal → List HashWord
  | .int i => [.number i.toUInt32.toNat]
  | .uint i => [.number i.toNat]
  | .number x => [.number x.toBits]
  | .string s => [.text s]
  | .boolean b => [.number b.toNat]
  | .null | .undefined => []

/-- The hash input of an optional part. -/
def optionHashInput : Option (List HashWord) → List HashWord
  | none => [.number 0]
  | some ws => .number 1 :: ws

/-- The hash input of a property name. -/
def Property.hashInput (p : Property (List HashWord)) : List HashWord :=
  p.name.hashInput ++ optionHashInput p.runtime

/-- The hash input of a kind from that of its parts.  It covers what equality compares, except that
a conversion gives only its type, an assignment to a property only its target, and one to a register
its target and value. -/
def Kind.hashInput (k : Kind (List HashWord)) : List HashWord :=
  .tag k.name :: match k with
  | .literal l => l.hashInput
  | .this | .returnVoid => []
  | .register i t => .number i.toNat :: t.hashInput
  | .scope p => p.hashInput
  | .duplicate v | .returnValue v | .throw v => v
  | .convert t _ => t.hashInput
  | .coerce t v => t.hashInput ++ v
  | .get o p t => o ++ p.hashInput ++ t.hashInput
  | .getSuper o p => o ++ p.hashInput
  | .call _ o p as => o ++ p.hashInput ++ .number as.length :: as.flatten
  | .construct o as => o ++ .number as.length :: as.flatten
  | .assign (.register i) v _ _ => .number i.toNat :: v
  | .assign (.property _ o p) _ _ _ => o ++ p.hashInput
  | .binary op a b => .text op.symbol :: (a ++ b)
  | .unary op v => .text op.symbol :: v
  | .ternary c a b => c ++ a ++ b
  | .declare i t v => .number i.toNat :: (t.hashInput ++ optionHashInput v)

/-- The hash input of a tree. -/
def Node.hashInput : Node → List HashWord :=
  Node.recurse fun kind _ => (kind.map (·.2)).hashInput

theorem Node.hashInput_mk (k : Kind Node) (o : Origin) :
    Node.hashInput ⟨k, o⟩ = (k.map Node.hashInput).hashInput := by
  rw [Node.hashInput, Node.recurse_mk, Kind.map_map]

end ActionTree
