import ActionTree.Proofs.Writing.Layout
import Mathlib.Data.List.Induction
import Mathlib.Order.Bounds.Basic

/-!
# Lines and their indentation

A line is indented where its first visible text is appended, at the level of that moment, and a line
without visible text stays empty.  So the text of a writer is determined by the calls that were made,
stretch by stretch between the line ends.

* `LayoutStep` - a call of a writer that lays out text; `Writer.layOut` - calls in order;
* `LayoutStep.levelAfter` - the level that calls leave behind;
* `LayoutStep.isGreatest_levelAfter` - it is the greatest excess of indents among the last calls;
* `Stretch` - the calls up to a line end beside those before them; `Stretch.line` - the line that
  they make;
* `Writer.layOut_within`, `Writer.layOut_stretch`, `Writer.layOut_stretches` - calls within a line,
  those of a stretch, and those of many stretches;
* `Writer.layOut_new` - all calls of a new writer.
-/

namespace ActionTree

/-- A call of a writer that lays out text. -/
inductive LayoutStep where
  | append (text : String)
  | newLine
  | indent
  | unindent
  deriving DecidableEq

namespace LayoutStep

/-- The text that a call appends; only `append` has one. -/
def shown : LayoutStep → String
  | .append text => text
  | _ => ""

theorem exists_append_of_shown {step : LayoutStep} (h : step.shown ≠ "") :
    ∃ text, step = .append text := by
  cases step with
  | append text => exact ⟨text, rfl⟩
  | newLine => exact absurd rfl h
  | indent => exact absurd rfl h
  | unindent => exact absurd rfl h

/-! ### Levels -/

/-- What a call does to a level: indents and unindents are counted, never below zero. -/
def relevel (level : Nat) : LayoutStep → Nat
  | .append _ => level
  | .newLine => level
  | .indent => level + 1
  | .unindent => level - 1

/-- The level after some calls. -/
def levelAfter (steps : List LayoutStep) : Nat := steps.foldl relevel 0

theorem levelAfter_append (steps more : List LayoutStep) :
    levelAfter (steps ++ more) = more.foldl relevel (levelAfter steps) :=
  List.foldl_append

/-- How many indents there are beyond the unindents. -/
def excess (steps : List LayoutStep) : Int := steps.count .indent - steps.count .unindent

theorem excess_append (steps more : List LayoutStep) :
    excess (steps ++ more) = excess steps + excess more := by
  rw [excess, excess, excess, List.count_append, List.count_append]
  omega

theorem cast_relevel (level : Nat) (step : LayoutStep) :
    (relevel level step : Int) = max 0 (level + excess [step]) := by
  cases step with
  | append text =>
    have he : excess [.append text] = 0 := by simp [excess]
    rw [he, relevel]
    omega
  | newLine =>
    have he : excess [.newLine] = 0 := by decide
    rw [he, relevel]
    omega
  | indent =>
    have he : excess [.indent] = 1 := by decide
    rw [he, relevel]
    omega
  | unindent =>
    have he : excess [.unindent] = -1 := by decide
    rw [he, relevel]
    omega

/-- The level is the greatest excess of indents among the last calls, however many these are: an
unindent that finds no level is forgotten with all calls before it. -/
theorem isGreatest_levelAfter (steps : List LayoutStep) :
    IsGreatest (excess '' {last | last <:+ steps}) (levelAfter steps) := by
  induction steps using List.reverseRecOn with
  | nil =>
    refine ⟨⟨[], List.suffix_rfl, rfl⟩, ?_⟩
    rintro _ ⟨last, hlast, rfl⟩
    rw [List.suffix_nil.1 hlast]
    exact le_refl _
  | append_singleton steps step ih =>
    obtain ⟨⟨last, hlast, heq⟩, hbound⟩ := ih
    rw [levelAfter_append, List.foldl_cons, List.foldl_nil, cast_relevel]
    constructor
    · rcases le_total 0 ((levelAfter steps : Int) + excess [step]) with h | h
      · refine ⟨last ++ [step], List.suffix_concat_iff.2 (.inr ⟨last, rfl, hlast⟩), ?_⟩
        rw [excess_append, heq, max_eq_right h]
      · exact ⟨[], List.nil_suffix, (max_eq_left h).symm⟩
    · rintro _ ⟨last', hlast', rfl⟩
      obtain rfl | ⟨init, rfl, hinit⟩ := List.suffix_concat_iff.1 hlast'
      · exact le_max_left _ _
      · have hle : excess init ≤ levelAfter steps := hbound ⟨init, hinit, rfl⟩
        rw [excess_append]
        exact (Int.add_le_add_right hle _).trans (le_max_right _ _)

end LayoutStep

open LayoutStep

/-! ### Stretches -/

/-- The calls up to a line end or the last one, beside all calls before them. -/
structure Stretch where
  before : List LayoutStep
  steps : List LayoutStep
  deriving DecidableEq

namespace Stretch

/-- The level where the first visible text is appended. -/
def level (s : Stretch) : Nat :=
  levelAfter (s.before ++ s.steps.takeWhile fun step => step.shown = "")

/-- The line that a stretch makes: nothing if nothing is visible, else the texts behind the
indentation. -/
def line (indentUnit : String) (s : Stretch) : String :=
  if ∀ step ∈ s.steps, step.shown = "" then ""
  else String.join (List.replicate s.level indentUnit) ++ String.join (s.steps.map shown)

theorem line_nil (indentUnit : String) (before : List LayoutStep) :
    line indentUnit ⟨before, []⟩ = "" :=
  if_pos (by simp)

/-- A call without visible text could as well come before the stretch. -/
theorem line_cons_of_hidden (indentUnit : String) (before steps : List LayoutStep)
    {step : LayoutStep} (h : step.shown = "") :
    line indentUnit ⟨before, step :: steps⟩ = line indentUnit ⟨before ++ [step], steps⟩ := by
  have hlevel : level ⟨before, step :: steps⟩ = level ⟨before ++ [step], steps⟩ := by
    rw [level, level, List.takeWhile_cons_of_pos (by simpa using h), List.append_assoc]
    rfl
  rw [line, line, hlevel]
  simp [h, String.join_cons]

/-- A stretch that begins with a visible text. -/
theorem line_cons_of_visible (indentUnit : String) (before steps : List LayoutStep)
    {step : LayoutStep} (h : step.shown ≠ "") :
    line indentUnit ⟨before, step :: steps⟩ =
      String.join (List.replicate (levelAfter before) indentUnit) ++
        (step.shown ++ String.join (steps.map shown)) := by
  have hlevel : level ⟨before, step :: steps⟩ = levelAfter before := by
    rw [level, List.takeWhile_cons_of_neg (by simpa using h), List.append_nil]
  rw [line, if_neg (fun hall => h (hall step (List.mem_cons_self ..))), hlevel, List.map_cons,
    String.join_cons]

end Stretch

/-- Consecutive rows of calls, each ended by a line end, as stretches. -/
def stretchesFrom (before : List LayoutStep) : List (List LayoutStep) → List Stretch
  | [] => []
  | steps :: rows => ⟨before, steps⟩ :: stretchesFrom (before ++ steps ++ [.newLine]) rows

/-- The stretches of some calls: there is one more of them than line ends. -/
def stretches (steps : List LayoutStep) : List Stretch :=
  stretchesFrom [] (steps.splitOn .newLine)

theorem stretchesFrom_ne_nil (before : List LayoutStep) {rows : List (List LayoutStep)}
    (h : rows ≠ []) : stretchesFrom before rows ≠ [] := by
  cases rows with
  | nil => exact absurd rfl h
  | cons steps rows => exact List.cons_ne_nil _ _

theorem splitOn_newLine_of_notMem {steps : List LayoutStep} (h : .newLine ∉ steps) :
    steps.splitOn .newLine = [steps] := by
  rw [List.splitOn_eq_splitOnP, List.splitOnP_eq_singleton]
  intro step hstep
  exact beq_false_of_ne fun heq => h (heq ▸ hstep)

theorem splitOn_append_newLine {row : List LayoutStep} (h : .newLine ∉ row)
    (rest : List LayoutStep) :
    (row ++ .newLine :: rest).splitOn .newLine = row :: rest.splitOn .newLine := by
  have hrow := splitOn_newLine_of_notMem h
  rw [List.splitOn_eq_splitOnP] at hrow
  rw [List.splitOn_eq_splitOnP, List.splitOnP_append_cons row rest (by simp), hrow]
  rfl

/-! ### Calls in order -/

namespace Writer

/-- What a call does to a writer. -/
def lay (w : Writer) : LayoutStep → Writer
  | .append text => w.append text
  | .newLine => w.newLine
  | .indent => w.indent
  | .unindent => w.unindent

/-- Calls in order. -/
def layOut (w : Writer) (steps : List LayoutStep) : Writer := steps.foldl lay w

theorem layOut_append (w : Writer) (steps more : List LayoutStep) :
    w.layOut (steps ++ more) = (w.layOut steps).layOut more :=
  List.foldl_append

/-- A call without visible text changes the level at most. -/
theorem lay_of_hidden (w : Writer) {step : LayoutStep} (htext : step.shown = "")
    (hstep : step ≠ .newLine) : w.lay step = { w with level := relevel w.level step } := by
  cases step with
  | append text =>
    obtain rfl : text = "" := htext
    exact w.append_empty
  | newLine => exact absurd rfl hstep
  | indent => rfl
  | unindent => rfl

/-- A call within a line. -/
theorem lay_of_within {w : Writer} (h : w.atLineStart = false) {step : LayoutStep}
    (hstep : step ≠ .newLine) :
    w.lay step = { w with text := w.text ++ step.shown, level := relevel w.level step } := by
  by_cases htext : step.shown = ""
  · rw [lay_of_hidden w htext hstep, htext, String.append_empty]
  · obtain ⟨text, rfl⟩ := exists_append_of_shown htext
    exact append_of_within h text

/-- A call with visible text at the start of a line. -/
theorem lay_of_visible {w : Writer} (h : w.atLineStart = true) {step : LayoutStep}
    (htext : step.shown ≠ "") :
    w.lay step =
      { w with text := w.text ++ w.indentation ++ step.shown, level := relevel w.level step,
               atLineStart := false } := by
  obtain ⟨text, rfl⟩ := exists_append_of_shown htext
  exact append_of_start h htext

/-- Within a line texts follow each other, whatever the level. -/
theorem layOut_within (steps : List LayoutStep) {w : Writer} (h : w.atLineStart = false)
    (hline : .newLine ∉ steps) :
    w.layOut steps =
      { w with text := w.text ++ String.join (steps.map shown),
               level := steps.foldl relevel w.level } := by
  induction steps generalizing w with
  | nil =>
    show w = { w with text := w.text ++ "" }
    rw [String.append_empty]
  | cons step steps ih =>
    have hstep : step ≠ .newLine := (List.ne_of_not_mem_cons hline).symm
    have hrest : .newLine ∉ steps := List.not_mem_of_not_mem_cons hline
    have hlay := lay_of_within h hstep
    have hwithin : (w.lay step).atLineStart = false := by rw [hlay]; exact h
    show (w.lay step).layOut steps = _
    rw [ih hwithin hrest, hlay, List.map_cons, String.join_cons, ← String.append_assoc]
    rfl

/-- **One stretch.**  From the start of a line the calls of a stretch write its line; the writer is
still at the start of the line if and only if nothing was visible. -/
theorem layOut_stretch (before steps : List LayoutStep) {w : Writer} (h : w.atLineStart = true)
    (hlevel : w.level = levelAfter before) (hline : .newLine ∉ steps) :
    w.layOut steps =
      { w with text := w.text ++ Stretch.line w.indentUnit ⟨before, steps⟩,
               level := levelAfter (before ++ steps),
               atLineStart := decide (∀ step ∈ steps, step.shown = "") } := by
  induction steps generalizing w before with
  | nil =>
    rw [Stretch.line_nil, String.append_empty, List.append_nil, ← hlevel]
    simp [layOut, ← h]
  | cons step steps ih =>
    have hstep : step ≠ .newLine := (List.ne_of_not_mem_cons hline).symm
    have hrest : .newLine ∉ steps := List.not_mem_of_not_mem_cons hline
    show (w.lay step).layOut steps = _
    by_cases htext : step.shown = ""
    · have hlay := lay_of_hidden w htext hstep
      have hstart : (w.lay step).atLineStart = true := by rw [hlay]; exact h
      have hnext : (w.lay step).level = levelAfter (before ++ [step]) := by
        rw [hlay, levelAfter_append, ← hlevel]
        rfl
      rw [ih (before ++ [step]) hstart hnext hrest, hlay,
        Stretch.line_cons_of_hidden _ _ _ htext, List.append_assoc]
      simp [htext]
    · -- the line is indented here, and the rest of the stretch is within it
      have hlay := lay_of_visible h htext
      have hwithin : (w.lay step).atLineStart = false := by rw [hlay]
      rw [layOut_within steps hwithin hrest, hlay, Stretch.line_cons_of_visible _ _ _ htext,
        levelAfter_append, ← hlevel]
      simp [htext, indentation, String.append_assoc]

/-- From the start of a line the stretches of some calls write their lines, with a line end between
each two of them. -/
theorem layOut_stretches (before steps : List LayoutStep) {w : Writer} (h : w.atLineStart = true)
    (hlevel : w.level = levelAfter before) :
    (w.layOut steps).text = w.text ++ "\n".intercalate
        ((stretchesFrom before (steps.splitOn .newLine)).map (Stretch.line w.indentUnit)) ∧
      (w.layOut steps).level = levelAfter (before ++ steps) := by
  induction hlength : steps.length using Nat.strongRecOn generalizing steps before w with
  | ind n ih =>
    by_cases hline : .newLine ∈ steps
    · -- the first stretch with its line end, then the rest
      obtain ⟨row, rest, rfl, hrow⟩ := List.eq_append_cons_of_mem hline
      have hshorter : rest.length < n := by
        rw [← hlength, List.length_append, List.length_cons]
        omega
      have hfirst := layOut_stretch before row h hlevel hrow
      have hunit : (w.layOut row).newLine.indentUnit = w.indentUnit := by rw [hfirst]; rfl
      have hnext : (w.layOut row).newLine.level = levelAfter (before ++ row ++ [.newLine]) := by
        rw [hfirst, levelAfter_append (before ++ row)]
        rfl
      obtain ⟨htext, hafter⟩ := ih rest.length hshorter (before ++ row ++ [.newLine]) rest
        (w := (w.layOut row).newLine) rfl hnext rfl
      have hrows := stretchesFrom_ne_nil (before ++ row ++ [.newLine])
        (List.splitOn_ne_nil .newLine rest)
      have hlay : w.layOut (row ++ .newLine :: rest) = (w.layOut row).newLine.layOut rest :=
        layOut_append w row (.newLine :: rest)
      rw [hlay]
      constructor
      · rw [htext, hunit, splitOn_append_newLine hrow, stretchesFrom, List.map_cons,
          String.intercalate_cons_of_ne_nil (by simpa using hrows), hfirst]
        simp [newLine, String.append_assoc]
      · rw [hafter, List.append_assoc, List.append_assoc]
        rfl
    · rw [layOut_stretch before steps h hlevel hline, splitOn_newLine_of_notMem hline]
      exact ⟨by rw [stretchesFrom, stretchesFrom, List.map_singleton,
        String.intercalate_singleton], rfl⟩

/-- **Indentation is deferred to the first visible text.**  The text of a new writer after any calls
consists of the lines of their stretches, with a line end between each two of them.  Levels count
indents and unindents and stop at zero. -/
theorem layOut_new (indentUnit : String) (limit : Option Nat) (cancelled : Bool)
    (steps : List LayoutStep) :
    ((new indentUnit limit cancelled).layOut steps).text =
        "\n".intercalate ((stretches steps).map (Stretch.line indentUnit)) ∧
      ((new indentUnit limit cancelled).layOut steps).level = levelAfter steps ∧
      IsGreatest (excess '' {last | last <:+ steps}) (levelAfter steps) := by
  obtain ⟨htext, hlevel⟩ :=
    layOut_stretches [] steps (w := new indentUnit limit cancelled) rfl rfl
  exact ⟨htext.trans String.empty_append, hlevel, isGreatest_levelAfter steps⟩

/-- The blank line stays empty, and the last line has the level of its first visible text. -/
example : ((new "  " none false).layOut
    [.append "a", .newLine, .indent, .append "", .newLine, .append "", .indent, .append "b",
      .unindent, .unindent, .unindent, .append "c"]).text = "a\n\n    bc" := by
  decide +kernel

end Writer

end ActionTree
