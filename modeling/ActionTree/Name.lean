/-!
# Qualified names

* `Namespace` - a kind and a dotted package name, empty at the top level;
* `QualifiedName` - a namespace and a bare name;
* `QualifiedName.fullName` - the dotted name; on its own a name is shown bare.
-/

namespace ActionTree

/-- The kinds of namespace. -/
inductive NamespaceKind where
  | package
  | packageInternal
  | «protected»
  | «private»
  | explicit
  | staticProtected
  | plain
  deriving DecidableEq, Inhabited

/-- A namespace. -/
structure Namespace where
  kind : NamespaceKind
  name : String
  deriving DecidableEq, Inhabited

/-- The top-level package. -/
def Namespace.topLevel : Namespace := ⟨.package, ""⟩

/-- Whether names in this namespace have no dotted qualifier. -/
def Namespace.isTopLevel (n : Namespace) : Bool := n.name.isEmpty

/-- A name in a namespace. -/
structure QualifiedName where
  «namespace» : Namespace
  name : String
  deriving DecidableEq, Inhabited

namespace QualifiedName

/-- A name in the top-level package. -/
def ofName (name : String) : QualifiedName := ⟨.topLevel, name⟩

/-- A name in a package. -/
def inPackage (package name : String) : QualifiedName := ⟨⟨.package, package⟩, name⟩

/-- The dotted name, or the bare one at the top level. -/
def fullName (q : QualifiedName) : String :=
  if q.namespace.isTopLevel then q.name else q.namespace.name ++ "." ++ q.name

end QualifiedName

end ActionTree
