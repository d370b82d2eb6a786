import ActionTree.Command.Basic
import ActionTree.Proofs.Command.Loading
import ActionTree.Proofs.File.Writing
import ActionTree.Proofs.Method.Interleaving
import ActionTree.Proofs.Schema.Character
import ActionTree.Proofs.Schema.Method

/-!
# A rendering writes all or nothing

A command writes once, after it has loaded its options and all its inputs and has rendered all
methods.  Whatever goes wrong before leaves the files as they were.  A method may be cancelled by
its own node limit, or from outside while the batch runs, when the time is up or another method is
beyond its limit; one that is not cancelled has the text that it has alone.

* `FileTree.deliver`, `FileTree.Delivers` - the single write at the end of a command;
* `Endings`, `Endings.Arise` - how the methods of a batch end, in some order of their actions;
* `sources_eq_ok_iff`, `sources_eq_error_iff` - the texts of a batch;
* `RenderCommand.Fails`, `RenderCommand.Renders` - what a rendering comes to;
* `FileTree.run_render` - **a rendering is all or nothing**.
-/

namespace ActionTree

/-! ### Writing -/

namespace FileTree

/-- The end of a command: what it made is written, unless it failed. -/
def deliver (t : FileTree) : Except Error Output → Report × FileTree
  | .error e => (⟨"", "", .error e⟩, t)
  | .ok output =>
    match output.destination with
    | none => (⟨output.text, output.notes, .ok ()⟩, t)
    | some path =>
      match t.write path (utf8Bytes output.text) with
      | .ok after => (⟨"", output.notes, .ok ()⟩, after)
      | .error fault => (⟨"", output.notes, .error (.io fault.message)⟩, t)

theorem run_eq_deliver (t : FileTree) (c : Command) (complaint : Complaint) :
    t.run c complaint = t.deliver (c.output (t.files complaint)) := by
  rw [run]
  cases c.output (t.files complaint) <;> rfl

/-- A text goes to the standard output or to a file.  Where the path admits a file, this holds the
text afterwards, by which it can be read, and nothing else changes.  Where it does not, nothing
changes at all. -/
def Delivers (t : FileTree) (text : String) (destination : Option String)
    (result : Report × FileTree) : Prop :=
  match destination with
  | none => result = (⟨text, "", .ok ()⟩, t)
  | some path =>
    (∀ l, t.Admits path l → ∃ after, result = (⟨"", "", .ok ()⟩, after) ∧
      after.read path = .ok (utf8Bytes text) ∧ after.lookup? l = some (.file (utf8Bytes text)) ∧
      (∀ l' ≠ l, after.lookup? l' = t.lookup? l') ∧
      after.workingDirectory = t.workingDirectory) ∧
    ((∀ l, ¬t.Admits path l) → ∃ fault, t.write path (utf8Bytes text) = .error fault ∧
      result = (⟨"", "", .error (.io fault.message)⟩, t))

theorem delivers_deliver (t : FileTree) (text : String) (destination : Option String) :
    t.Delivers text destination (t.deliver (.ok ⟨"", text, destination⟩)) := by
  cases destination with
  | none => rfl
  | some path =>
    rw [deliver]
    dsimp only
    refine ⟨fun l hl => ?_, fun hnone => ?_⟩
    · have hplace : l ≠ [] := by
        obtain ⟨⟩ := hl
        exact List.cons_ne_nil _ _
      rw [write_eq_ok_iff.2 ⟨l, hl, rfl⟩]
      exact ⟨_, rfl, read_put hl _, lookup?_put_self hplace _,
        fun l' hl' => lookup?_put_of_ne hl' _, rfl⟩
    · obtain ⟨fault, hwrite⟩ := exists_write_eq_error hnone (utf8Bytes text)
      rw [hwrite]
      exact ⟨fault, rfl, rfl⟩

end FileTree

/-! ### Batches -/

/-- How the methods of a batch end under some options: with their texts, or cancelled. -/
abbrev Endings := RenderOptions → List Method → List (Option Rendering)

/-- Every batch ends in a way that some order of its actions leads to. -/
def Endings.Arise (isTimed : Bool) (ends : Endings) : Prop :=
  ∀ options ms, RenderOptions.Ends options isTimed ms (ends options ms)

/-- The methods run one by one, and only a node limit cancels their token. -/
def oneByOne : Endings := fun options ms => (renderAll options ms false).1

theorem arise_oneByOne (isTimed : Bool) : oneByOne.Arise isTimed :=
  fun options ms => options.ends_renderAll isTimed ms

section Batches

variable {options : RenderOptions} {ms : List Method} {rs : List (Option Rendering)} {e : Error}

/-- The texts of a batch are those of its methods. -/
theorem sources_eq_ok_iff {texts : List String} : sources rs = .ok texts ↔
    ∃ renderings : List Rendering, rs = renderings.map some ∧
      texts = renderings.map (·.source) := by
  induction rs generalizing texts with
  | nil =>
    constructor
    · rintro ⟨⟩
      exact ⟨[], rfl, rfl⟩
    · rintro ⟨renderings, hrs, rfl⟩
      cases renderings <;> cases hrs
      rfl
  | cons r rs ih =>
    cases r with
    | none =>
      refine ⟨fun h => (nomatch h), fun ⟨renderings, hrs, _⟩ => ?_⟩
      cases renderings <;> cases hrs
    | some r =>
      have hmap : sources (some r :: rs) = sources rs >>= fun texts => .ok (r.source :: texts) := by
        rw [sources]
        cases sources rs <;> rfl
      rw [hmap, bind_eq_ok]
      constructor
      · rintro ⟨rest, hrest, ⟨⟩⟩
        obtain ⟨renderings, rfl, rfl⟩ := ih.1 hrest
        exact ⟨r :: renderings, rfl, rfl⟩
      · rintro ⟨renderings, hrs, rfl⟩
        cases renderings with
        | nil => cases hrs
        | cons r' renderings =>
          cases hrs
          exact ⟨_, ih.2 ⟨renderings, rfl, rfl⟩, rfl⟩

/-- A batch has no texts when one of its methods was cancelled. -/
theorem sources_eq_error_iff : sources rs = .error e ↔ none ∈ rs ∧ e = .cancelled := by
  induction rs with
  | nil => simp [sources]
  | cons r rs ih =>
    cases r with
    | none => simp [sources, eq_comm]
    | some r =>
      have hmap : sources (some r :: rs) = .error e ↔ sources rs = .error e := by
        rw [sources]
        cases sources rs <;> simp [Except.map]
      simp [hmap, ih]

/-- The texts of a batch that ran to its end are those that its methods have alone. -/
theorem eq_map_some_iff
    (h : List.Forall₂ (fun m r => r = none ∨ r = (m.render options false).1) ms rs)
    {renderings : List Rendering} : rs = renderings.map some ↔
      none ∉ rs ∧ List.Forall₂ (fun m r => (m.render options false).1 = some r) ms renderings := by
  induction h generalizing renderings with
  | nil => cases renderings <;> simp
  | @cons m r ms rs hr hrs ih =>
    cases renderings with
    | nil => simp
    | cons r' renderings =>
      rw [List.map_cons, List.cons.injEq, ih, List.forall₂_cons, List.mem_cons, not_or]
      grind

end Batches

/-! ### Runs -/

namespace RenderCommand

variable {ends : Endings} {files : Files} {c : RenderCommand} {e : Error} {text : String}

/-- The text of all methods, when these end in a given way. -/
def textUnder (ends : Endings) (files : Files) (c : RenderCommand) : Except Error String := do
  let options ← c.options files
  let methods ← loadAllMethods files c.inputs
  let texts ← sources (ends options methods)
  return "\n".intercalate texts

/-- A rendering fails: the file with the options is refused, or an input is while those before it
are not, or a method is cancelled. -/
inductive Fails (ends : Endings) (files : Files) (c : RenderCommand) : Error → Prop
  | options {path : String} {e : Error} (hpath : c.config = some path)
      (h : files.RefusesOptions path e) : Fails ends files c e
  | input {options : RenderOptions} {before after : List String} {path : String} {e : Error}
      (hoptions : c.HasOptions files options) (hinputs : c.inputs = before ++ path :: after)
      (hbefore : ∀ p ∈ before, ∃ ms, files.HoldsMethods p ms)
      (h : files.RefusesMethods path e) : Fails ends files c e
  | cancelled {options : RenderOptions} {ms : List Method} (hoptions : c.HasOptions files options)
      (hmethods : files.HoldAllMethods c.inputs ms) (h : none ∈ ends options ms) :
      Fails ends files c .cancelled

/-- A rendering makes a text: that of all methods in all inputs, each as it is written alone with
the options of the command, with a line break between two of them. -/
def Renders (ends : Endings) (files : Files) (c : RenderCommand) (text : String) : Prop :=
  ∃ options ms renderings, c.HasOptions files options ∧ files.HoldAllMethods c.inputs ms ∧
    none ∉ ends options ms ∧
    List.Forall₂ (fun m r => (m.render options false).1 = some r) ms renderings ∧
    text = "\n".intercalate (renderings.map (·.source))

theorem textUnder_eq_error_iff : c.textUnder ends files = .error e ↔ c.Fails ends files e := by
  simp only [textUnder, bind_eq_error, options_eq_error_iff, options_eq_ok_iff,
    loadAllMethods_eq_error_iff, loadAllMethods_eq_ok_iff, sources_eq_error_iff]
  constructor
  · rintro (⟨path, hpath, h⟩ | ⟨options, hoptions, ⟨before, path, after, hinputs, hbefore, h⟩ |
      ⟨ms, hms, ⟨h, rfl⟩ | ⟨_, -, ⟨⟩⟩⟩⟩)
    · exact .options hpath h
    · exact .input hoptions hinputs hbefore h
    · exact .cancelled hoptions hms h
  · rintro (⟨hpath, h⟩ | ⟨hoptions, hinputs, hbefore, h⟩ | ⟨hoptions, hms, h⟩)
    · exact .inl ⟨_, hpath, h⟩
    · exact .inr ⟨_, hoptions, .inl ⟨_, _, _, hinputs, hbefore, h⟩⟩
    · exact .inr ⟨_, hoptions, .inr ⟨_, hms, .inl ⟨h, rfl⟩⟩⟩

theorem textUnder_eq_ok_iff {isTimed : Bool} (hends : ends.Arise isTimed) :
    c.textUnder ends files = .ok text ↔ c.Renders ends files text := by
  simp only [textUnder, bind_eq_ok, options_eq_ok_iff, loadAllMethods_eq_ok_iff, sources_eq_ok_iff]
  constructor
  · rintro ⟨options, hoptions, ms, hms, _, ⟨renderings, hrs, rfl⟩, ⟨⟩⟩
    obtain ⟨hnone, hown⟩ := (eq_map_some_iff (hends options ms).areOwn).1 hrs
    exact ⟨options, ms, renderings, hoptions, hms, hnone, hown, rfl⟩
  · rintro ⟨options, ms, renderings, hoptions, hms, hnone, hown, rfl⟩
    have hrs := (eq_map_some_iff (hends options ms).areOwn).2 ⟨hnone, hown⟩
    exact ⟨options, hoptions, ms, hms, _, ⟨renderings, hrs, rfl⟩, rfl⟩

end RenderCommand

namespace FileTree

/-- Runs a rendering whose methods end in a given way. -/
def renderUnder (ends : Endings) (complaint : Complaint) (t : FileTree) (c : RenderCommand) :
    Report × FileTree :=
  t.deliver ((c.textUnder ends (t.files complaint)).map fun text => ⟨"", text, c.output⟩)

theorem run_render_eq (t : FileTree) (c : RenderCommand) (complaint : Complaint) :
    t.run (.render c) complaint = t.renderUnder oneByOne complaint c :=
  t.run_eq_deliver (.render c) complaint

/-- **A rendering is all or nothing.**  In whatever order the actions of the methods come: if the
options or an input are refused or a method is cancelled, it ends with this error and leaves all
files as they were.  Otherwise it writes the text of all methods, in the order of the inputs and of
the methods in each, and changes no other file.  One of the two is the case.  Some method is
cancelled where one is cancelled alone, and otherwise only when the time is up. -/
theorem run_render (t : FileTree) (c : RenderCommand) (complaint : Complaint) :
    t.run (.render c) complaint = t.renderUnder oneByOne complaint c ∧
      oneByOne.Arise c.timeout.isSome ∧
      ∀ ends : Endings, ends.Arise c.timeout.isSome →
        let files := t.files complaint
        let result := t.renderUnder ends complaint c
        (∀ e, c.Fails ends files e → result = (⟨"", "", .error e⟩, t)) ∧
        (∀ text, c.Renders ends files text → t.Delivers text c.output result) ∧
        ((∃ e, c.Fails ends files e) ∨ ∃ text, c.Renders ends files text) ∧
        ∀ options ms,
          ((∃ m ∈ ms, (m.render options false).1 = none) → none ∈ ends options ms) ∧
          (none ∈ ends options ms →
            c.timeout.isSome ∨ ∃ m ∈ ms, (m.render options false).1 = none) := by
  refine ⟨t.run_render_eq c complaint, arise_oneByOne _, fun ends hends => ⟨?_, ?_, ?_, ?_⟩⟩
  · intro e h
    rw [renderUnder, RenderCommand.textUnder_eq_error_iff.2 h]
    rfl
  · intro text h
    rw [renderUnder, (RenderCommand.textUnder_eq_ok_iff hends).2 h]
    exact t.delivers_deliver text c.output
  · cases h : c.textUnder ends (t.files complaint) with
    | error e => exact .inl ⟨e, RenderCommand.textUnder_eq_error_iff.1 h⟩
    | ok text => exact .inr ⟨text, (RenderCommand.textUnder_eq_ok_iff hends).1 h⟩
  · exact fun options ms => ⟨(hends options ms).none_mem, (hends options ms).of_none_mem⟩

/-! ### Two inputs -/

/-- A method that keeps a sum in a register. -/
def keepsSum : Method := .ofStatements "f"
  [.assign (.register 1) (.binary .add (.literal (.int 1)) (.literal (.int 2)))]

/-- A method that returns this register. -/
def returnsKept : Method := .ofStatements "g" [.returnValue (.register 1)]

/-- Options under which two methods are shared out. -/
def sharedOptions : RenderOptions :=
  { RenderOptions.default with localStem := "r", parallelThreshold := 2 }

/-- One method in a file, the other one in a list in another file, options outside the working
directory, and an old output. -/
def twoInputs : FileTree where
  entries := [
    (["work"], .directory),
    (["a.json", "work"], .file (utf8Bytes (keepsSum.toJson .plain).compact)),
    (["b.json", "work"],
      .file (utf8Bytes (Json.ofList (Method.toJson .plain) [returnsKept]).compact)),
    (["options.json"], .file (utf8Bytes sharedOptions.toJson.compact)),
    (["out.as"], .file (utf8Bytes "old"))]
  workingDirectory := ["work"]

/-- A command for both inputs, with folding and perhaps a limit. -/
def renderBoth (nodeLimit : Option UInt64) : RenderCommand :=
  ⟨["a.json", "b.json"], some "/out.as", some "../options.json", true, none, nodeLimit⟩

theorem holdAllMethods_twoInputs :
    twoInputs.files.HoldAllMethods ["a.json", "b.json"] [keepsSum, returnsKept] := by
  have hmethod (m : Method) : (m.toJson .plain).IsWritten :=
    m.isWritten_toJson Json.isWritten_ofDouble
  refine ⟨[[keepsSum], [returnsKept]], .cons ?_ (.cons ?_ .nil), rfl⟩
  · exact ⟨_, _, Files.text_of_read rfl, Json.wholeOfText?_compact (hmethod _) rfl, rfl⟩
  · have hlist : (Json.ofList (Method.toJson .plain) [returnsKept]).IsWritten :=
      Json.isWritten_ofList fun m _ => hmethod m
    exact ⟨_, _, Files.text_of_read rfl, Json.wholeOfText?_compact hlist rfl, rfl⟩

/-- The options of this command. -/
def bothOptions (nodeLimit : Option UInt64) : RenderOptions :=
  { sharedOptions with foldsConstants := true, nodeLimit }

theorem hasOptions_twoInputs (nodeLimit : Option UInt64) :
    (renderBoth nodeLimit).HasOptions twoInputs.files (bothOptions nodeLimit) := by
  have hwritten : sharedOptions.toJson.IsWritten :=
    Json.isWritten_ofMembers (by simp; decide)
      (by simp [Json.ofOption, Json.IsWritten, sharedOptions, RenderOptions.default])
  refine ⟨sharedOptions, ⟨_, Files.text_of_read rfl, ?_, by decide⟩, ?_⟩
  · exact (Json.ofText_compact hwritten).2 rfl
  · cases nodeLimit <;> rfl

/-- In whatever order their actions come, both methods are written in place of the old output.
Beyond a limit the old output stays. -/
theorem run_render_twoInputs :
    (∀ ends : Endings, ends.Arise false → ∃ after,
      twoInputs.renderUnder ends .plain (renderBoth none) = (⟨"", "", .ok ()⟩, after) ∧
      after.read "/out.as" = .ok (utf8Bytes
        "function f()\n\x7b\n    r1_ = 3;\n\x7d\n\nfunction g()\n\x7b\n    return r1_;\n\x7d\n")) ∧
      twoInputs.run (.render (renderBoth (some 1))) .plain =
        (⟨"", "", .error .cancelled⟩, twoInputs) := by
  constructor
  · intro ends hends
    obtain ⟨-, -, hall⟩ := twoInputs.run_render (renderBoth none) .plain
    obtain ⟨-, hrenders, -, hcancelled⟩ := hall ends hends
    have hadmits : twoInputs.Admits "/out.as" ["out.as"] :=
      .intro (show components "/out.as" = [""] ++ ["out.as"] from rfl) rfl
        (.stay rfl (.inl rfl) (.nil [])) rfl (by decide)
    have halone (m : Method) :
        (m.render (bothOptions none) false).1 = some (m.rendering (bothOptions none)) := by
      rw [Method.render_within fun _ hl => by cases hl]
    have hnone : none ∉ ends (bothOptions none) [keepsSum, returnsKept] := fun hnone => by
      rcases (hcancelled _ _).2 hnone with htimed | ⟨m, -, hm⟩
      · cases htimed
      · rw [halone] at hm
        cases hm
    have hdelivers := hrenders _ ⟨_, _, _, hasOptions_twoInputs none, holdAllMethods_twoInputs,
      hnone, .cons (halone _) (.cons (halone _) .nil), rfl⟩
    obtain ⟨after, hresult, hread, -⟩ := hdelivers.1 _ hadmits
    refine ⟨after, hresult, hread.trans ?_⟩
    decide +kernel
  · obtain ⟨hrun, harise, hall⟩ := twoInputs.run_render (renderBoth (some 1)) .plain
    rw [hrun]
    refine (hall oneByOne harise).1 _
      (.cancelled (hasOptions_twoInputs (some 1)) holdAllMethods_twoInputs ?_)
    decide +kernel

end FileTree

end ActionTree
