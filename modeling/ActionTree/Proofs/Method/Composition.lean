import ActionTree.Method.Render
import ActionTree.Proofs.Constant.Folding
import ActionTree.Proofs.Writing.Layout
import Mathlib.Algebra.GroupWithZero.Nat

/-!
# Methods are put together from their statements

A method within its node limit is written as its head, one line for each statement and a closing
brace, where a statement reads as it does alone.  A method beyond its limit, or with statements and
a token that was cancelled before, is not written.

* `Method.rendering` - the text put together;
* `renderStatements_within`, `renderStatements_beyond` - the loop over the statements;
* `Method.render_within`, `Method.render_beyond`, `Method.render_of_cancelled` - how a method ends;
* `Method.render_unlimited` - methods without a limit.
-/

namespace ActionTree

/-! ### One statement -/

/-- The tree that is written for a statement. -/
def RenderOptions.shown (options : RenderOptions) (statement : Node) : Node :=
  if options.foldsConstants then statement.fold else statement

theorem RenderOptions.prepare_live (options : RenderOptions) (s : Node) :
    options.prepare false s = some (options.shown s) := by
  unfold prepare shown
  split_ifs
  · exact Node.foldUnder_live (fun _ => rfl) s
  · rfl

namespace Writer

/-- A visible text makes a line of its own. -/
theorem newLine_append {w : Writer} (h : w.atLineStart = true) {text : String} (ht : text ≠ "") :
    (w.append text).newLine = { w with text := w.text ++ (w.indentation ++ (text ++ "\n")) } := by
  rw [append_of_start h ht, newLine]
  simp only [String.append_assoc, h]

end Writer

/-- The line of a statement. -/
def statementLine (indentation : String) (locals : Locals) (n : Node) : String :=
  indentation ++ n.source locals ++ ";\n"

/-- A statement that the budget covers adds its line, whatever stands before it. -/
theorem run_statement (locals : Locals) (n : Node) {w : Writer} (hlive : w.cancelled = false)
    (hstart : w.atLineStart = true)
    (hroom : ∀ limit, w.limit = some limit → w.rendered + n.nodesAlone locals ≤ limit) :
    ∃ after, w.run (n.steps locals) = (.completed, after) ∧
      (after.append ";").newLine = { w with
        text := w.text ++ statementLine w.indentation locals n
        rendered := w.rendered + n.nodesAlone locals } := by
  have hcovers : w.Covers (n.steps locals) :=
    ⟨hlive, fun limit hl => by rw [← n.nodesAlone_eq locals]; exact hroom limit hl⟩
  refine ⟨_, Writer.run_of_covers hcovers, ?_⟩
  have htext : n.source locals ++ ";" ≠ "" := by simp
  have hline := Writer.newLine_append hstart htext
  rw [Writer.foldl_perform, Node.written_steps, ← Node.nodesAlone_eq, Writer.append_rendered,
    Writer.append_append]
  show { ((w.append (n.source locals ++ ";")).newLine) with
    rendered := w.rendered + n.nodesAlone locals } = _
  rw [hline]
  simp only [statementLine, String.append_assoc]
  rfl

/-! ### The loop over the statements -/

section Statements

variable (options : RenderOptions) (locals : Locals)

/-- The number of nodes that some statements are written with. -/
def statementNodes (ss : List Node) : Nat :=
  (ss.map fun s => (options.shown s).nodesAlone locals).sum

theorem statementNodes_cons (s : Node) (ss : List Node) :
    statementNodes options locals (s :: ss) =
      (options.shown s).nodesAlone locals + statementNodes options locals ss := by
  rw [statementNodes, List.map_cons, List.sum_cons, statementNodes]

/-- The lines of some statements. -/
def statementLines (indentation : String) (ss : List Node) : String :=
  String.join (ss.map fun s => statementLine indentation locals (options.shown s))

/-- Under a live token a statement is prepared. -/
theorem renderStatements_cons (s : Node) (ss : List Node) {w : Writer}
    (hlive : w.cancelled = false) :
    renderStatements options locals (s :: ss) w =
      match w.run ((options.shown s).steps locals) with
      | (.completed, after) => renderStatements options locals ss (after.append ";").newLine
      | (.cancelled, after) => (.cancelled, after) := by
  rewrite [renderStatements, hlive, options.prepare_live]
  rfl

/-- Statements within the budget add their lines. -/
theorem renderStatements_within (ss : List Node) {w : Writer} (hlive : w.cancelled = false)
    (hstart : w.atLineStart = true)
    (hroom : ∀ limit, w.limit = some limit →
      w.rendered + statementNodes options locals ss ≤ limit) :
    renderStatements options locals ss w = (.completed, { w with
      text := w.text ++ statementLines options locals w.indentation ss
      rendered := w.rendered + statementNodes options locals ss }) := by
  induction ss generalizing w with
  | nil => simp [renderStatements, statementLines, statementNodes]
  | cons s ss ih =>
    simp only [statementNodes_cons, ← Nat.add_assoc] at hroom ⊢
    obtain ⟨after, hrun, hline⟩ := run_statement locals (options.shown s) hlive hstart
      fun limit hl => by have h := hroom limit hl; omega
    rw [renderStatements_cons options locals s ss hlive]
    simp only [hrun, hline]
    rw [ih (w := { w with
      text := w.text ++ statementLine w.indentation locals (options.shown s)
      rendered := w.rendered + (options.shown s).nodesAlone locals }) hlive hstart hroom]
    simp only [statementLines, List.map_cons, String.join_cons, String.append_assoc]
    rfl

/-- Statements beyond the budget cancel the token. -/
theorem renderStatements_beyond (ss : List Node) {w : Writer} {limit : Nat}
    (hlive : w.cancelled = false) (hstart : w.atLineStart = true) (hlimit : w.limit = some limit)
    (hroom : w.rendered ≤ limit)
    (hbeyond : limit < w.rendered + statementNodes options locals ss) :
    ∃ after, renderStatements options locals ss w = (.cancelled, after) ∧
      after.cancelled = true := by
  induction ss generalizing w with
  | nil =>
    rw [statementNodes, List.map_nil, List.sum_nil] at hbeyond
    omega
  | cons s ss ih =>
    rw [statementNodes_cons, ← Nat.add_assoc] at hbeyond
    rw [renderStatements_cons options locals s ss hlive]
    by_cases hfits : w.rendered + (options.shown s).nodesAlone locals ≤ limit
    · -- the statement is written, and the budget ends in a later one
      have hwithin (l : Nat) (hl : w.limit = some l) :
          w.rendered + (options.shown s).nodesAlone locals ≤ l := by
        obtain rfl : limit = l := Option.some.inj (hlimit.symm.trans hl)
        exact hfits
      obtain ⟨after, hrun, hline⟩ := run_statement locals (options.shown s) hlive hstart hwithin
      simp only [hrun, hline]
      exact ih hlive hstart hlimit hfits hbeyond
    · rw [Node.nodesAlone_eq] at hfits
      obtain ⟨before, -, -, -, hrun⟩ := Writer.run_beyond ((options.shown s).steps locals) hlive
        hlimit hroom (by omega)
      simp only [hrun]
      exact ⟨_, rfl, rfl⟩

/-- Under a cancelled token no statement is written. -/
theorem renderStatements_of_cancelled (s : Node) (ss : List Node) {w : Writer}
    (h : w.cancelled = true) : renderStatements options locals (s :: ss) w = (.cancelled, w) := by
  rw [renderStatements]
  cases options.prepare w.cancelled s with
  | none => rfl
  | some prepared =>
    have hrun : w.run (prepared.steps locals) = (.cancelled, w) :=
      Writer.run_enter_of_cancelled h _
    simp only [hrun]

end Statements

/-! ### Methods -/

namespace Method

/-- The first lines of a method. -/
def head (m : Method) : String := "function " ++ m.name ++ "()\n\x7b\n"

theorem openBody_writer (m : Method) (options : RenderOptions) (cancelled : Bool) :
    m.openBody (writer options cancelled) =
      { writer options cancelled with text := m.head, level := 1 } := by
  have hname : "function " ++ (m.name ++ "()") ≠ "" := by simp
  rw [openBody, Writer.append_append, Writer.append_append, Writer.newLine_append rfl hname,
    Writer.newLine_append rfl (by decide)]
  simp [Writer.indent, writer, Writer.new, Writer.indentation, head, String.append_assoc]

theorem text_closeBody {w : Writer} (hstart : w.atLineStart = true) (hlevel : w.level = 1) :
    (closeBody w).text = w.text ++ "\x7d\n" := by
  have hunindent : w.unindent.atLineStart = true := hstart
  rw [closeBody, Writer.newLine_append hunindent (by decide)]
  simp [Writer.unindent, Writer.indentation, hlevel]

/-- A method put together from its statements, each of them written alone. -/
def rendering (options : RenderOptions) (m : Method) : Rendering :=
  let locals := m.locals options.localStem
  ⟨m.name, m.head ++ statementLines options locals options.indentUnit m.statements ++ "\x7d\n",
    statementNodes options locals m.statements⟩

/-- A method within its limit is put together from its statements, and the token stays live. -/
theorem render_within {options : RenderOptions} {m : Method}
    (h : ∀ limit, options.nodeLimit = some limit → (m.rendering options).nodes ≤ limit.toNat) :
    m.render options false = (some (m.rendering options), false) := by
  have hroom (limit : Nat) (hl : options.nodeLimit.map UInt64.toNat = some limit) :
      0 + statementNodes options (m.locals options.localStem) m.statements ≤ limit := by
    obtain ⟨l, hnode, rfl⟩ := Option.map_eq_some_iff.1 hl
    rw [Nat.zero_add]
    exact h l hnode
  rw [render, openBody_writer,
    renderStatements_within options _ m.statements (by rfl) (by rfl) hroom]
  dsimp only
  rw [text_closeBody (by rfl) (by rfl)]
  simp [rendering, writer, Writer.new, Writer.indentation]

/-- A method beyond its limit is not written and cancels the token. -/
theorem render_beyond {options : RenderOptions} {m : Method} {limit : UInt64}
    (hlimit : options.nodeLimit = some limit) (h : limit.toNat < (m.rendering options).nodes) :
    m.render options false = (none, true) := by
  have hwriter : (writer options false).limit = some limit.toNat := by
    rw [writer, Writer.new, hlimit]
    rfl
  obtain ⟨after, hrun, hcancelled⟩ :=
    renderStatements_beyond options (m.locals options.localStem) m.statements
      (w := { writer options false with text := m.head, level := 1 }) rfl rfl hwriter
      (Nat.zero_le _) (by rw [writer, Writer.new, Nat.zero_add]; exact h)
  rw [render, openBody_writer, hrun]
  dsimp only
  rw [hcancelled]

/-- What becomes of a method under a cancelled token. -/
def afterCancel (options : RenderOptions) (m : Method) : Option Rendering :=
  if m.statements = [] then some (m.rendering options) else none

/-- Under a cancelled token only methods without statements are written. -/
theorem render_of_cancelled (options : RenderOptions) (m : Method) :
    m.render options true = (m.afterCancel options, true) := by
  rw [render, openBody_writer, afterCancel]
  cases hs : m.statements with
  | nil =>
    rw [renderStatements, if_pos rfl]
    dsimp only
    rw [text_closeBody (by rfl) (by rfl)]
    simp [rendering, writer, Writer.new, hs, statementLines, statementNodes]
  | cons s ss =>
    rw [renderStatements_of_cancelled options _ s ss (by rfl), if_neg (by simp)]
    rfl

/-- **A method is composed of its statements.**  Without a node limit and with a live token, a
method is written as its head, a line for each statement in order, which is indented and otherwise
the text that the statement, folded if that is asked for, has alone, and a closing brace.  Its nodes
are those of the statements. -/
theorem render_unlimited (options : RenderOptions) (m : Method) :
    let locals := m.locals options.localStem
    let shown (s : Node) : Node := if options.foldsConstants then s.fold else s
    m.render { options with nodeLimit := none } false =
      (some
        { name := m.name
          source := "function " ++ m.name ++ "()\n\x7b\n"
            ++ String.join (m.statements.map fun s =>
              options.indentUnit ++ (shown s).source locals ++ ";\n")
            ++ "\x7d\n"
          nodes := (m.statements.map fun s =>
            (Writer.run ((shown s).steps locals) .fresh).2.rendered).sum },
        false) :=
  render_within fun _ hl => by cases hl

end Method

end ActionTree
