import ActionTree.Name

/-!
# Names of local registers

* `Locals` - the names given to registers, the prefix for the others and the enclosing class;
* `Locals.name` - the name of a register.
-/

namespace ActionTree

/-- What a method says about the names in it. -/
structure Locals where
  names : List (UInt32 × String)
  stem : String
  className : Option QualifiedName
  isStatic : Bool
  deriving DecidableEq

namespace Locals

/-- The stem of generated names. -/
def defaultStem : String := "_loc"

/-- No given names, and generated names with a stem. -/
def withStem (stem : String) : Locals := ⟨[], stem, none, false⟩

/-- No given names. -/
def empty : Locals := withStem defaultStem

/-- Gives a register a name, in place of one it had. -/
def setName (l : Locals) (register : UInt32) (name : String) : Locals :=
  { l with names := (register, name) :: l.names.filter (·.1 != register) }

/-- Sets the enclosing class. -/
def withClass (l : Locals) (name : QualifiedName) (isStatic : Bool) : Locals :=
  { l with className := some name, isStatic }

/-- The number of registers with a given name. -/
def namedCount (l : Locals) : Nat := l.names.length

/-- The name of a register.  Register 0 is the receiver: `this`, or the class in a static method.  A
register without a given name gets one from the stem and its number. -/
def name (l : Locals) (register : UInt32) : String :=
  match l.names.lookup register with
  | some name => name
  | none =>
    if register = 0 then
      match l.className with
      | some q => if l.isStatic then q.name else "this"
      | none => "this"
    else l.stem ++ String.ofList (Nat.toDigits 10 register.toNat) ++ "_"

end Locals

end ActionTree
