import ActionTree.Command.Render
import Mathlib.Data.List.Forall2

/-!
# What a rendering loads

Before anything is rendered, a command loads its options and then the methods in all its inputs, in
their order.  The first file that is refused decides the error.

* `Files.HoldsOptions`, `Files.RefusesOptions` - a file of options is accepted or refused;
* `Files.HoldsMethods`, `Files.RefusesMethods` - the same for a file of methods;
* `Files.HoldAllMethods` - some files hold some methods together;
* `RenderCommand.HasOptions` - the options of a command, where flags go before the file;
* `RenderCommand.options_eq_ok_iff`, `RenderCommand.options_eq_error_iff` - loading them;
* `loadAllMethods_eq_ok_iff`, `loadAllMethods_eq_error_iff` - the methods of all inputs.
-/

namespace ActionTree

variable {files : Files} {path : String} {e : Error}

/-! ### Options -/

/-- A file holds options, with a stem for the names of registers. -/
def Files.HoldsOptions (files : Files) (path : String) (options : RenderOptions) : Prop :=
  ∃ text, files.text path = .ok text ∧ Json.ofText RenderOptions.read text = .ok options ∧
    options.localStem ≠ ""

/-- A file is refused as one of options: it cannot be read, it does not hold options, or these have
no stem. -/
inductive Files.RefusesOptions (files : Files) (path : String) : Error → Prop
  | unreadable {fault : FileFault} (h : files.text path = .error fault) :
    RefusesOptions files path (.io fault.message)
  | malformed {text : String} (h : files.text path = .ok text)
      (hread : ∀ options, Json.ofText RenderOptions.read text ≠ .ok options) :
    RefusesOptions files path (.config (path ++ ": " ++ files.complaint .options text))
  | rejected {text : String} {options : RenderOptions} (h : files.text path = .ok text)
      (hread : Json.ofText RenderOptions.read text = .ok options) (hstem : options.localStem = "") :
    RefusesOptions files path (.config "local_name_prefix must not be empty")

namespace RenderOptions

theorem load_eq_ok_iff {options : RenderOptions} :
    load files path = .ok options ↔ files.HoldsOptions path options := by
  constructor
  · intro h
    rw [load] at h
    split at h
    · cases h
    case h_2 text htext =>
      split at h
      · cases h
      case h_2 given hread =>
        split at h
        · cases h
        case isFalse hstem =>
          obtain rfl : given = options := Except.ok.inj h
          exact ⟨text, htext, hread, hstem⟩
  · rintro ⟨text, htext, hread, hstem⟩
    simp [load, htext, hread, hstem]

theorem load_eq_error_iff : load files path = .error e ↔ files.RefusesOptions path e := by
  constructor
  · intro h
    rw [load] at h
    split at h
    case h_1 fault htext =>
      cases h
      exact .unreadable htext
    case h_2 text htext =>
      split at h
      case h_1 e' hread =>
        cases h
        exact .malformed htext fun options => by simp [hread]
      case h_2 options hread =>
        split at h
        case isTrue hstem =>
          cases h
          exact .rejected htext hread hstem
        · cases h
  · rintro (htext | ⟨htext, hread⟩ | ⟨htext, hread, hstem⟩)
    · simp [load, htext]
    · rw [load, htext]
      dsimp only
      split
      · rfl
      case h_2 options hok => exact absurd hok (hread options)
    · simp [load, htext, hread, hstem]

end RenderOptions

namespace RenderCommand

variable {c : RenderCommand}

/-- The options that are given without flags: those of the file, or the usual ones without one. -/
def GivenOptions (files : Files) (c : RenderCommand) (options : RenderOptions) : Prop :=
  match c.config with
  | some path => files.HoldsOptions path options
  | none => options = .default

/-- Options with the flags of a command on top. -/
def withFlags (c : RenderCommand) (given : RenderOptions) : RenderOptions := { given with
  foldsConstants := if c.folds then true else given.foldsConstants
  nodeLimit := if c.nodeLimit.isSome then c.nodeLimit else given.nodeLimit }

/-- The options of a command are the given ones, except where a flag says otherwise. -/
def HasOptions (files : Files) (c : RenderCommand) (options : RenderOptions) : Prop :=
  ∃ given, c.GivenOptions files given ∧ options = c.withFlags given

theorem options_eq : c.options files =
    (match c.config with
      | some path => RenderOptions.load files path
      | none => .ok .default) >>= fun given => .ok (c.withFlags given) := by
  have hflags (given : RenderOptions) : { given with
      foldsConstants := c.folds || given.foldsConstants
      nodeLimit := c.nodeLimit <|> given.nodeLimit } = c.withFlags given := by
    rw [withFlags]
    cases c.folds <;> cases c.nodeLimit <;> rfl
  rw [RenderCommand.options]
  simp only [hflags]
  cases c.config <;> rfl

theorem options_eq_ok_iff {options : RenderOptions} :
    c.options files = .ok options ↔ c.HasOptions files options := by
  rw [options_eq, bind_eq_ok, HasOptions]
  refine exists_congr fun given => and_congr ?_ ?_
  · rw [GivenOptions]
    cases c.config with
    | none => simp [eq_comm]
    | some path => exact RenderOptions.load_eq_ok_iff
  · simp [eq_comm]

theorem options_eq_error_iff :
    c.options files = .error e ↔ ∃ path, c.config = some path ∧ files.RefusesOptions path e := by
  rw [options_eq, bind_eq_error]
  cases c.config with
  | none => simp
  | some path => simp [RenderOptions.load_eq_error_iff]

end RenderCommand

/-! ### Methods -/

/-- A file holds some methods. -/
def Files.HoldsMethods (files : Files) (path : String) (ms : List Method) : Prop :=
  ∃ text j, files.text path = .ok text ∧ Json.wholeOfText? text = some j ∧ methodsOf? j = some ms

/-- A file is refused as one of methods: it cannot be read, it is not JSON, or it does not hold
methods. -/
inductive Files.RefusesMethods (files : Files) (path : String) : Error → Prop
  | unreadable {fault : FileFault} (h : files.text path = .error fault) :
    RefusesMethods files path (.io (path ++ ": " ++ fault.message))
  | malformed {text : String} (h : files.text path = .ok text)
      (hjson : Json.wholeOfText? text = none) :
    RefusesMethods files path (.json (files.complaint .value text))
  | undecodable {text : String} {j : Json} (h : files.text path = .ok text)
      (hjson : Json.wholeOfText? text = some j) (hmethods : methodsOf? j = none) :
    RefusesMethods files path (.json (files.complaint .methods text))

theorem namedText_eq_ok_iff {text : String} :
    files.namedText path = .ok text ↔ files.text path = .ok text := by
  rw [Files.namedText]
  split <;> simp [*]

theorem loadMethods_eq_ok_iff {ms : List Method} :
    loadMethods files path = .ok ms ↔ files.HoldsMethods path ms := by
  simp only [loadMethods, bind_eq_ok, namedText_eq_ok_iff, Files.HoldsMethods, exists_and_left]
  refine exists_congr fun text => and_congr_right fun _ => ?_
  cases Json.wholeOfText? text with
  | none => simp
  | some j => cases hms : methodsOf? j <;> simp [hms]

theorem loadMethods_eq_error_iff :
    loadMethods files path = .error e ↔ files.RefusesMethods path e := by
  simp only [loadMethods, bind_eq_error, namedText_eq_ok_iff]
  constructor
  · rintro (h | ⟨text, htext, h⟩)
    · rw [Files.namedText] at h
      split at h <;> cases h
      exact .unreadable ‹_›
    · split at h
      case h_1 hjson =>
        cases h
        exact .malformed htext hjson
      case h_2 j hjson =>
        split at h <;> cases h
        exact .undecodable htext hjson ‹_›
  · rintro (htext | ⟨htext, hjson⟩ | ⟨htext, hjson, hms⟩)
    · exact .inl (by rw [Files.namedText, htext])
    · exact .inr ⟨_, htext, by rw [hjson]⟩
    · refine .inr ⟨_, htext, ?_⟩
      rw [hjson]
      dsimp only
      rw [hms]

/-- Some files hold some methods together, in the order of the files and of those in each. -/
def Files.HoldAllMethods (files : Files) (paths : List String) (ms : List Method) : Prop :=
  ∃ mss, List.Forall₂ files.HoldsMethods paths mss ∧ ms = mss.flatten

theorem loadAllMethods_eq_ok_iff {paths : List String} {ms : List Method} :
    loadAllMethods files paths = .ok ms ↔ files.HoldAllMethods paths ms := by
  rw [Files.HoldAllMethods]
  induction paths generalizing ms with
  | nil => simp [loadAllMethods, eq_comm]
  | cons path paths ih =>
    simp only [loadAllMethods, bind_eq_ok, loadMethods_eq_ok_iff, ih, List.forall₂_cons_left_iff]
    constructor
    · rintro ⟨here, hhere, _, ⟨mss, hmss, rfl⟩, ⟨⟩⟩
      exact ⟨here :: mss, ⟨here, mss, hhere, hmss, rfl⟩, rfl⟩
    · rintro ⟨_, ⟨here, mss, hhere, hmss, rfl⟩, rfl⟩
      exact ⟨here, hhere, mss.flatten, ⟨mss, hmss, rfl⟩, rfl⟩

/-- Some inputs are refused with the error of the first of them that is. -/
theorem loadAllMethods_eq_error_iff {paths : List String} :
    loadAllMethods files paths = .error e ↔
      ∃ before path after, paths = before ++ path :: after ∧
        (∀ p ∈ before, ∃ ms, files.HoldsMethods p ms) ∧ files.RefusesMethods path e := by
  induction paths with
  | nil => simp [loadAllMethods]
  | cons path paths ih =>
    simp only [loadAllMethods, bind_eq_error, loadMethods_eq_ok_iff, loadMethods_eq_error_iff, ih]
    constructor
    · rintro (h | ⟨ms, hms, ⟨before, p, after, rfl, hbefore, h⟩ | ⟨_, -, ⟨⟩⟩⟩)
      · exact ⟨[], path, paths, rfl, by simp, h⟩
      · exact ⟨path :: before, p, after, rfl, List.forall_mem_cons.2 ⟨⟨ms, hms⟩, hbefore⟩, h⟩
    · rintro ⟨before, p, after, hpaths, hbefore, h⟩
      cases before with
      | nil =>
        cases hpaths
        exact .inl h
      | cons q before =>
        cases hpaths
        obtain ⟨⟨ms, hms⟩, hbefore⟩ := List.forall_mem_cons.1 hbefore
        exact .inr ⟨ms, hms, .inl ⟨before, p, after, rfl, hbefore, h⟩⟩

end ActionTree
