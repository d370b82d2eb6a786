/-!
# Cancellation tokens

Copies of a token share its flag, and a flag that is raised stays raised.

* `Flags` - the flags of all tokens;
* `Flags.new`, `Flags.cancel`, `Flags.isCancelled` - a token made, cancelled and checked.
-/

namespace ActionTree

/-- A token is the place of its flag; a copy is the same place. -/
abbrev Token := Nat

/-- The flags of the tokens that were made, in order. -/
structure Flags where
  raised : List Bool
  deriving DecidableEq

namespace Flags

/-- No tokens. -/
def none : Flags := ⟨[]⟩

/-- A new token, which is live. -/
def new (f : Flags) : Token × Flags := (f.raised.length, ⟨f.raised ++ [false]⟩)

/-- Cancels a token and all its copies. -/
def cancel (f : Flags) (t : Token) : Flags := ⟨f.raised.set t true⟩

/-- Whether a token is cancelled. -/
def isCancelled (f : Flags) (t : Token) : Bool := f.raised[t]?.getD false

end Flags

end ActionTree
