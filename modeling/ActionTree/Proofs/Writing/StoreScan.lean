import ActionTree.Proofs.Json.Numerals
import ActionTree.Proofs.Naming.Registers
import ActionTree.Proofs.Reading.Characters
import ActionTree.Proofs.Reading.Token

/-!
# A scan for stores

In a text, a store is a word between blanks that has an equals sign and is no operator, such as `=`
or `+=`.  The scan finds such words outside of string literals.

* `BinaryOperator.withEquals?` - the comparisons that an operator and an equals sign spell;
* `StoreScan` - the scan;
* `StoreScan.Settles` - a text is scanned from end to end, and perhaps meets no store;
* `StoreScan.run_symbol` - what a word between blanks does;
* `Literal.settles_text` and siblings - the texts that stand in a tree have no store.
-/

namespace ActionTree

/-! ### Operators that an equals sign makes -/

namespace BinaryOperator

/-- The operator that a symbol and an equals sign behind it spell. -/
def withEquals? : BinaryOperator → Option BinaryOperator
  | .lessThan => some .lessEquals
  | .greaterThan => some .greaterEquals
  | .equals => some .strictEquals
  | .notEquals => some .strictNotEquals
  | _ => none

theorem withEquals?_eq_some_iff {op op' : BinaryOperator} :
    op.withEquals? = some op' ↔ op'.symbol = op.symbol ++ "=" := by
  have hall : ∀ op ∈ all, ∀ op' ∈ all,
      op.withEquals? = some op' ↔ op'.symbol = op.symbol ++ "=" := by
    decide +kernel
  have hmem (op : BinaryOperator) : op ∈ all := by cases op <;> decide
  exact hall op (hmem op) op' (hmem op')

end BinaryOperator

/-! ### The scan -/

/-- Where a scan stands: outside of string literals, inside of one, or behind a backslash there. -/
inductive Place where
  | outside
  | inside
  | escape
  deriving DecidableEq

/-- A scan for stores: the characters since the last blank, and whether a store was met. -/
structure StoreScan where
  place : Place
  word : List Char
  stores : Bool

namespace StoreScan

/-- Tells the words that store: they have an equals sign, and are no operator. -/
def isStore (w : List Char) : Bool :=
  w.contains '=' && !BinaryOperator.all.any fun op => op.symbol.toList == w

/-- Takes one character. -/
def step (s : StoreScan) (c : Char) : StoreScan :=
  match s.place with
  | .outside =>
    if c = '"' then { s with place := .inside }
    else if c = ' ' then ⟨.outside, [], s.stores || isStore s.word⟩
    else { s with word := s.word ++ [c] }
  | .inside =>
    if c = '"' then { s with place := .outside }
    else if c = '\\' then { s with place := .escape }
    else s
  | .escape => { s with place := .inside }

theorem step_blank (w : List Char) (stores : Bool) :
    step ⟨.outside, w, stores⟩ ' ' = ⟨.outside, [], stores || isStore w⟩ := rfl

theorem step_char (w : List Char) (stores : Bool) {c : Char} (hquote : c ≠ '"') (hblank : c ≠ ' ') :
    step ⟨.outside, w, stores⟩ c = ⟨.outside, w ++ [c], stores⟩ := by
  simp [step, hquote, hblank]

/-- Takes one character after another. -/
def run (s : StoreScan) (cs : List Char) : StoreScan := cs.foldl step s

@[simp] theorem run_nil (s : StoreScan) : s.run [] = s := rfl

@[simp] theorem run_cons (s : StoreScan) (c : Char) (cs : List Char) :
    s.run (c :: cs) = (s.step c).run cs := rfl

@[simp] theorem run_append (s : StoreScan) (cs ds : List Char) :
    s.run (cs ++ ds) = (s.run cs).run ds := List.foldl_append

/-- Nothing was scanned. -/
def start : StoreScan := ⟨.outside, [], false⟩

/-- A store that was met stays met. -/
theorem stores_step {s : StoreScan} (h : s.stores = true) (c : Char) :
    (s.step c).stores = true := by
  obtain ⟨place, word, stores⟩ := s
  obtain rfl : stores = true := h
  cases place with
  | outside =>
    simp only [step]
    split_ifs <;> rfl
  | inside =>
    simp only [step]
    split_ifs <;> rfl
  | escape => rfl

theorem stores_run {s : StoreScan} (h : s.stores = true) (cs : List Char) :
    (s.run cs).stores = true := by
  induction cs generalizing s with
  | nil => exact h
  | cons c cs ih => exact ih (stores_step h c)

/-- The scan stands outside of string literals, behind no equals sign. -/
structure Settled (s : StoreScan) : Prop where
  place : s.place = .outside
  word : '=' ∉ s.word

theorem settled_start : start.Settled := ⟨rfl, List.not_mem_nil⟩

/-- A settled scan is settled behind the characters.  If `stores` is false, it meets no store. -/
def Settles (stores : Bool) (cs : List Char) : Prop :=
  ∀ s : StoreScan, s.Settled → (s.run cs).Settled ∧ (stores = false → (s.run cs).stores = s.stores)

section Settles

variable {b : Bool} {cs ds : List Char}

theorem Settles.mono {a : Bool} (h : Settles a cs) (hab : b = false → a = false) : Settles b cs :=
  fun s hs => ⟨(h s hs).1, fun hb => (h s hs).2 (hab hb)⟩

theorem Settles.append (h : Settles b cs) (h' : Settles b ds) : Settles b (cs ++ ds) := by
  intro s hs
  obtain ⟨hfirst, hfirst'⟩ := h s hs
  obtain ⟨hsecond, hsecond'⟩ := h' _ hfirst
  rw [run_append]
  exact ⟨hsecond, fun hb => (hsecond' hb).trans (hfirst' hb)⟩

theorem settles_flatMap {α : Type} {f : α → List Char} {xs : List α}
    (h : ∀ x ∈ xs, Settles b (f x)) : Settles b (xs.flatMap f) := by
  induction xs with
  | nil => exact fun s hs => ⟨hs, fun _ => rfl⟩
  | cons x xs ih =>
    obtain ⟨hx, hxs⟩ := List.forall_mem_cons.1 h
    rw [List.flatMap_cons]
    exact hx.append (ih hxs)

/-! ### Plain text -/

/-- Tells the characters that start no string literal and no store. -/
def isPlain (c : Char) : Bool := c != '"' && c != '='

theorem settles_plain (h : cs.all isPlain = true) : Settles b cs := by
  rw [← List.flatMap_singleton' cs]
  refine settles_flatMap fun c hc s hs => ?_
  obtain ⟨hquote, hequals⟩ : c ≠ '"' ∧ c ≠ '=' := by
    simpa [isPlain] using List.all_eq_true.1 h c hc
  obtain ⟨place, word, stores⟩ := s
  obtain rfl : place = .outside := hs.place
  have hword : '=' ∉ word := hs.word
  have hstore : isStore word = false := by simp [isStore, hword]
  rw [run_cons, run_nil]
  by_cases hblank : c = ' '
  · rw [hblank, step_blank, hstore, Bool.or_false]
    exact ⟨⟨rfl, List.not_mem_nil⟩, fun _ => rfl⟩
  · rw [step_char _ _ hquote hblank]
    exact ⟨⟨rfl, by simp [hword, hequals.symm]⟩, fun _ => rfl⟩

theorem settles_word (h : cs.all isWordChar = true) : Settles b cs := by
  have hword (c : Char) (hc : isWordChar c = true) : isPlain c = true := by
    have hne : c ≠ '"' ∧ c ≠ '=' := by constructor <;> rintro rfl <;> cases hc
    simpa [isPlain] using hne
  exact settles_plain (List.all_eq_true.2 fun c hc => hword c (List.all_eq_true.1 h c hc))

theorem settles_group (h : Settles b cs) : Settles b (Node.group cs) := by
  have hopen : Settles b ['('] := settles_plain (by decide)
  have hclose : Settles b [')'] := settles_plain (by decide)
  exact hopen.append (h.append hclose)

/-! ### Words between blanks -/

/-- Tells the characters of words. -/
def isInWord (c : Char) : Bool := c != '"' && c != ' '

theorem run_chars {w : List Char} (h : w.all isInWord = true) (v : List Char) (stores : Bool) :
    run ⟨.outside, v, stores⟩ w = ⟨.outside, v ++ w, stores⟩ := by
  induction w generalizing v with
  | nil => rw [List.append_nil, run_nil]
  | cons c w ih =>
    obtain ⟨⟨hquote, hblank⟩, hw⟩ : (c ≠ '"' ∧ c ≠ ' ') ∧ w.all isInWord = true := by
      simpa [isInWord] using h
    rw [run_cons, step_char _ _ hquote hblank, ih hw, List.append_assoc, List.singleton_append]

/-- Between blanks it is the word alone that stores or not. -/
theorem run_symbol {s : StoreScan} (hs : s.Settled) {w : List Char}
    (h : w.all isInWord = true) :
    s.run (' ' :: (w ++ [' '])) = ⟨.outside, [], s.stores || isStore w⟩ := by
  obtain ⟨place, word, stores⟩ := s
  obtain rfl : place = .outside := hs.place
  have hword : '=' ∉ word := hs.word
  have hstore : isStore word = false := by simp [isStore, hword]
  rw [run_cons, step_blank, hstore, Bool.or_false, run_append, run_chars h, List.nil_append,
    run_cons, step_blank, run_nil]

theorem settles_symbol {w : List Char} (h : w.all isInWord = true)
    (hb : b = false → isStore w = false) : Settles b (' ' :: (w ++ [' '])) := by
  intro s hs
  rw [run_symbol hs h]
  exact ⟨⟨rfl, List.not_mem_nil⟩, fun hfalse => by rw [hb hfalse, Bool.or_false]⟩

/-- Any word is passed over where stores are allowed for. -/
theorem settles_store {w : List Char} (h : w.all isInWord = true) :
    Settles true (' ' :: (w ++ [' '])) :=
  settles_symbol h fun htrue => Bool.noConfusion htrue

theorem isStore_symbol (op : BinaryOperator) : isStore op.symbol.toList = false := by
  cases op <;> decide

/-- The symbol of an operator is one word. -/
theorem isInWord_symbol (op : BinaryOperator) : op.symbol.toList.all isInWord = true := by
  cases op <;> decide

/-- A symbol with an equals sign behind it stores, unless they spell another operator. -/
theorem isStore_symbol_equals {op : BinaryOperator} (h : op.withEquals? = none) :
    isStore (op.symbol.toList ++ ['=']) = true := by
  cases op <;> first | decide | cases h

/-! ### String literals -/

theorem run_escape {s : StoreScan} (hs : s.place = .inside) (c : Char) :
    s.run (Text.escape c) = s := by
  obtain ⟨place, word, stores⟩ := s
  obtain rfl : place = .inside := hs
  have hchar {d : Char} (hquote : d ≠ '"') (hbackslash : d ≠ '\\') :
      step ⟨.inside, word, stores⟩ d = ⟨.inside, word, stores⟩ := by
    simp [step, hquote, hbackslash]
  rcases Text.escape_cases c with ⟨d, hform, -⟩ | ⟨hcontrol, hform⟩ | ⟨hform, hquote, hbackslash⟩
  · rw [hform]
    rfl
  · obtain ⟨hhigh, hhigh'⟩ := Text.hexDigit_ne (show c.toNat / 16 < 16 by omega)
    obtain ⟨hlow, hlow'⟩ := Text.hexDigit_ne (show c.toNat % 16 < 16 by omega)
    rw [hform]
    show run (step (step ⟨.inside, word, stores⟩ _) _) [] = _
    rw [hchar hhigh hhigh', hchar hlow hlow', run_nil]
  · rw [hform, run_cons, hchar hquote hbackslash, run_nil]

/-- A string literal is passed over, whatever is in it. -/
theorem settles_quote (t : String) : Settles b (Text.quote t).toList := by
  have hinside {s : StoreScan} (hs : s.place = .inside) (cs : List Char) :
      s.run (cs.flatMap Text.escape) = s := by
    induction cs with
    | nil => rfl
    | cons c cs ih => rw [List.flatMap_cons, run_append, run_escape hs, ih]
  intro s hs
  obtain ⟨place, word, stores⟩ := s
  obtain rfl : place = .outside := hs.place
  have hsame : run ⟨.outside, word, stores⟩ (Text.quote t).toList = ⟨.outside, word, stores⟩ := by
    rw [Text.quote, Text.quoteChars, String.toList_ofList, run_cons, run_append]
    show run (run ⟨.inside, word, stores⟩ _) _ = _
    rw [hinside rfl]
    rfl
  rw [hsame]
  exact ⟨hs, fun _ => rfl⟩

end Settles

end StoreScan

open StoreScan

/-! ### The texts that stand in a tree -/

theorem isPlain_of_isDigit {c : Char} (h : c.isDigit = true) : isPlain c = true := by
  simp [isPlain, ne_of_isDigit h (d := '"') rfl, ne_of_isDigit h (d := '=') rfl]

theorem isPlain_toDigits (n : Nat) : (Nat.toDigits 10 n).all isPlain = true :=
  List.all_eq_true.2 fun c hc => isPlain_of_isDigit ((isDigits_toDigits n).2 c hc)

theorem isPlain_numberLiteral (x : Double) : (numberLiteral x).toList.all isPlain = true := by
  cases x with
  | nan => decide
  | infinite s => cases s <;> decide
  | finite s r =>
    have hform : (numberStyle.numeral s r).IsWellFormed :=
      NumberStyle.isWellFormed_numeral (by rintro _ ⟨⟩) s r
    have hmarks : ['-', '+', '.', 'e'].all isPlain = true := by decide
    rw [numberLiteral, NumberStyle.write, String.toList_ofList, List.all_eq_true]
    intro c hc
    rcases Numeral.mem_text hform hc with hdigit | hmark
    · exact isPlain_of_isDigit hdigit
    · exact List.all_eq_true.1 hmarks c hmark

theorem isPlain_integerText (i : Int) : (Literal.integerText i).toList.all isPlain = true := by
  rw [Literal.integerText, String.toList_ofList]
  split
  · rw [List.all_cons, isPlain_toDigits]
    rfl
  · exact isPlain_toDigits _

theorem Literal.settles_text (l : Literal) {b : Bool} : Settles b l.text.toList := by
  cases l with
  | int i => exact settles_plain (isPlain_integerText _)
  | uint i => exact settles_plain (isPlain_integerText _)
  | number x => exact settles_plain (isPlain_numberLiteral x)
  | string s => exact settles_quote s
  | boolean v => cases v <;> exact settles_plain (by decide)
  | null => exact settles_plain (by decide)
  | undefined => exact settles_plain (by decide)

theorem Locals.settles_name (i : UInt32) {b : Bool} : Settles b (Locals.empty.name i).toList := by
  refine settles_word ?_
  by_cases hi : i = 0
  · rw [hi]
    decide
  · have hname : (Locals.empty.name i).toList =
        defaultStem.toList ++ Nat.toDigits 10 i.toNat ++ ['_'] := Locals.empty.madeName_toList hi
    rw [hname, List.all_append, List.all_append, isWordChar_toDigits]
    rfl

theorem StaticType.settles_text (t : StaticType) {b : Bool}
    (h : ∀ q, t = .class q → isIdentifier q.name = true) : Settles b t.text.toList := by
  cases t with
  | «class» q => exact settles_word (isWordChar_of_isIdentifier (h q rfl))
  | _ => exact settles_plain (by decide)

end ActionTree
