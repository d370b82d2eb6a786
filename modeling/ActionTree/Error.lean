/-!
# Errors

* `FileFault` - why a file or a directory cannot be used;
* `Error` - what an operation can fail with;
* `Error.message` - the error in words;
* `Error.code`, `Error.help?` - its identifier and a hint for the user;
* `bind_eq_ok`, `bind_eq_error` - how a computation of several parts ends.
-/

namespace ActionTree

/-! ### Faults of files -/

/-- Why a file or a directory cannot be used. -/
inductive FileFault where
  | notFound
  | isDirectory
  | notADirectory
  | notText
  /-- A cause outside this list, in the words of the system. -/
  | other (message : String)
  deriving DecidableEq

/-- The fault in words. -/
def FileFault.message : FileFault → String
  | .notFound => "No such file or directory (os error 2)"
  | .isDirectory => "Is a directory (os error 21)"
  | .notADirectory => "Not a directory (os error 20)"
  | .notText => "stream did not contain valid UTF-8"
  | .other message => message

/-! ### Failures -/

/-- The causes of failure.  Cancellation is an outcome that callers tell apart from failures. -/
inductive Error where
  | io (message : String)
  | config (message : String)
  | json (message : String)
  | unsupportedImage (name : String)
  | unknownCharacter (id : UInt16)
  | notAShape (id : UInt16)
  | cancelled
  | internal (message : String)
  deriving DecidableEq

namespace Error

/-- A character id in words. -/
def idText (id : UInt16) : String := String.ofList (Nat.toDigits 10 id.toNat)

/-- The error in words. -/
def message : Error → String
  | .io m => "I/O error: " ++ m
  | .config m => "Invalid configuration: " ++ m
  | .json m => "JSON error: " ++ m
  | .unsupportedImage name => "Unsupported image format in " ++ name
  | .unknownCharacter id => "No character with id " ++ idText id
  | .notAShape id => "Character " ++ idText id ++ " is not a shape"
  | .cancelled => "Operation was cancelled"
  | .internal m => "Internal error: " ++ m

/-- The identifier of the kind of error. -/
def code : Error → String
  | .io _ => "avm2_dec::io_error"
  | .config _ => "avm2_dec::config_error"
  | .json _ => "avm2_dec::json_error"
  | .unsupportedImage _ => "avm2_dec::unsupported_image_format"
  | .unknownCharacter _ => "avm2_dec::unknown_character"
  | .notAShape _ => "avm2_dec::not_a_shape"
  | .cancelled => "avm2_dec::cancelled"
  | .internal _ => "avm2_dec::internal_error"

/-- A hint on how to mend the error. -/
def help? : Error → Option String
  | .unsupportedImage _ => some "only BMP, JPEG, PNG and GIF images can be imported as bitmaps"
  | _ => none

/-- Tells cancellation. -/
def isCancelled : Error → Bool
  | .cancelled => true
  | _ => false

end Error

/-! ### Computations that may fail -/

section Computations

variable {ε α β : Type} {x : Except ε α} {f : α → Except ε β}

/-- A computation gives a result when its first part does and the rest does for that. -/
theorem bind_eq_ok {b : β} : (x >>= f) = .ok b ↔ ∃ a, x = .ok a ∧ f a = .ok b := by
  cases x <;> simp [bind, Except.bind]

/-- A computation fails where its first part does, or where the rest does for the result of that. -/
theorem bind_eq_error {e : ε} :
    (x >>= f) = .error e ↔ x = .error e ∨ ∃ a, x = .ok a ∧ f a = .error e := by
  cases x <;> simp [bind, Except.bind]

end Computations

end ActionTree
