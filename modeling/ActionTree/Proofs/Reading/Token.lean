import ActionTree.Node.Build
import ActionTree.Node.Steps
import ActionTree.Proofs.Text.Quoted

/-!
# Reading one token

A minus before an expression negates it and a minus after one subtracts, so tokens are read in two
positions.

* `Start`, `start?` - what an expression starts with;
* `Follow`, `follow` - what comes after an expression, with the level at which it binds;
* `start?_operator`, `start?_string`, `start?_register` and siblings - written tokens are read back;
* `follow_member`, `follow_operation` - so are the tokens after an expression.
-/

namespace ActionTree

/-! ### Words -/

/-- The characters of names and numbers. -/
def isWordChar (c : Char) : Bool := isIdentifierStart c || c.isDigit

/-- No word goes on into the text. -/
def Breaks (cs : List Char) : Prop := cs.takeWhile isWordChar = []

/-- A word is read up to its end. -/
theorem takeWhile_word {w rest : List Char} (hword : w.all isWordChar = true)
    (hrest : Breaks rest) :
    (w ++ rest).takeWhile isWordChar = w ∧ (w ++ rest).dropWhile isWordChar = rest := by
  have hw : ∀ c ∈ w, isWordChar c = true := List.all_eq_true.1 hword
  have hdrop := List.takeWhile_append_dropWhile (p := isWordChar) (l := rest)
  rw [hrest, List.nil_append] at hdrop
  rw [List.takeWhile_append_of_pos hw, List.dropWhile_append_of_pos hw, hrest, hdrop,
    List.append_nil]
  exact ⟨rfl, rfl⟩

/-- Names are words. -/
theorem isWordChar_of_isIdentifier {name : String} (h : isIdentifier name = true) :
    name.toList.all isWordChar = true := by
  unfold isIdentifier at h
  cases hname : name.toList with
  | nil => rfl
  | cons c cs =>
    simp only [hname, Bool.and_eq_true] at h
    simp only [List.all_cons, isWordChar, h.1, Bool.true_or, Bool.true_and]
    exact h.2

/-- Digits are words. -/
theorem isWordChar_toDigits (n : Nat) : (Nat.toDigits 10 n).all isWordChar = true := by
  rw [List.all_eq_true]
  intro c hc
  rw [isWordChar, Nat.isDigit_of_mem_toDigits (by decide) (by decide) hc, Bool.or_true]

/-! ### The start of an expression -/

/-- What an expression starts with. -/
inductive Start where
  | group
  | operator (op : UnaryOperator)
  | leaf (n : Node)

/-- What a word spells, if an expression starts with it. -/
def word? (w rest : List Char) : Option (Start × List Char) :=
  if w = "typeof".toList ∧ rest.head? = some ' ' then some (.operator .typeOf, rest.tail)
  else if w = "void".toList ∧ rest.head? = some ' ' then some (.operator .void, rest.tail)
  else if w = "true".toList then some (.leaf (.literal (.boolean true)), rest)
  else if w = "false".toList then some (.leaf (.literal (.boolean false)), rest)
  else if w = "null".toList then some (.leaf (.literal .null), rest)
  else if w = "undefined".toList then some (.leaf (.literal .undefined), rest)
  else if w.head? = some '_' then
    let digits := (w.drop Locals.defaultStem.length).dropLast
    some (.leaf (.register (UInt32.ofNat (Nat.ofDigitChars 10 digits 0))), rest)
  else if w.all Char.isDigit then
    some (.leaf (.literal (.uint (UInt32.ofNat (Nat.ofDigitChars 10 w 0)))), rest)
  else none

/-- What a text without a word at its start begins with. -/
def symbol? : List Char → Option (Start × List Char)
  | '(' :: rest => some (.group, rest)
  | '!' :: rest => some (.operator .not, rest)
  | '-' :: rest => some (.operator .negate, rest)
  | '~' :: rest => some (.operator .bitNot, rest)
  | '"' :: rest => do
    let (inside, rest) ← Text.splitAtQuote rest
    let s ← Text.unescape inside
    some (.leaf (.literal (.string (String.ofList s))), rest)
  | _ => none

/-- The start of an expression, and the text after it. -/
def start? (cs : List Char) : Option (Start × List Char) :=
  match cs.takeWhile isWordChar with
  | [] => symbol? cs
  | w => word? w (cs.dropWhile isWordChar)

theorem start?_symbol {c : Char} (h : isWordChar c = false) (rest : List Char) :
    start? (c :: rest) = symbol? (c :: rest) := by
  rw [start?, List.takeWhile_cons_of_neg (by simp [h])]

theorem start?_group (rest : List Char) : start? ('(' :: rest) = some (.group, rest) := rfl

theorem start?_operator (op : UnaryOperator) (rest : List Char) :
    start? (op.symbol.toList ++ rest) = some (.operator op, rest) := by
  cases op <;> rfl

theorem start?_string (s : String) (rest : List Char) :
    start? ((Text.quote s).toList ++ rest) = some (.leaf (.literal (.string s)), rest) := by
  have hquote : (Text.quote s).toList ++ rest =
      '"' :: (s.toList.flatMap Text.escape ++ '"' :: rest) := by
    simp [Text.quote, Text.quoteChars]
  rw [hquote, start?_symbol (by decide)]
  simp [symbol?, Text.splitAtQuote_flatMap_escape, Text.unescape_flatMap_escape]

theorem start?_word {w rest : List Char} (hword : w.all isWordChar = true) (hne : w ≠ [])
    (hrest : Breaks rest) : start? (w ++ rest) = word? w rest := by
  obtain ⟨htake, hdrop⟩ := takeWhile_word hword hrest
  rw [start?, htake, hdrop]
  cases w with
  | nil => exact absurd rfl hne
  | cons c cs => rfl

theorem start?_constants {rest : List Char} (hrest : Breaks rest) :
    (∀ b, start? ((Literal.boolean b).text.toList ++ rest) =
        some (.leaf (.literal (.boolean b)), rest)) ∧
      start? (Literal.null.text.toList ++ rest) = some (.leaf (.literal .null), rest) ∧
      start? (Literal.undefined.text.toList ++ rest) = some (.leaf (.literal .undefined), rest) := by
  refine ⟨fun b => ?_, ?_, ?_⟩
  · cases b
    · exact start?_word (show "false".toList.all isWordChar = true by decide) (by decide) hrest
    · exact start?_word (show "true".toList.all isWordChar = true by decide) (by decide) hrest
  · exact start?_word (by decide) (by decide) hrest
  · exact start?_word (by decide) (by decide) hrest

theorem start?_uint (i : UInt32) {rest : List Char} (hrest : Breaks rest) :
    start? ((Literal.uint i).text.toList ++ rest) = some (.leaf (.literal (.uint i)), rest) := by
  have htext : (Literal.uint i).text.toList = Nat.toDigits 10 i.toNat := by
    simp [Literal.text, Literal.integerText]
  have hdigits : (Nat.toDigits 10 i.toNat).all Char.isDigit = true :=
    List.all_eq_true.2 fun c hc => Nat.isDigit_of_mem_toDigits (by decide) (by decide) hc
  have hne : ∀ w : List Char, w.all Char.isDigit = false → Nat.toDigits 10 i.toNat ≠ w := by
    rintro w hw rfl
    rw [hdigits] at hw
    cases hw
  have hhead : (Nat.toDigits 10 i.toNat).head? ≠ some '_' := by
    intro h
    have hunderscore := List.all_eq_true.1 hdigits '_' (List.mem_of_mem_head? h)
    revert hunderscore
    decide
  rw [htext, start?_word (isWordChar_toDigits _) Nat.toDigits_ne_nil hrest, word?,
    if_neg (fun h => hne _ (by decide) h.1), if_neg (fun h => hne _ (by decide) h.1),
    if_neg (hne _ (by decide)), if_neg (hne _ (by decide)), if_neg (hne _ (by decide)),
    if_neg (hne _ (by decide)), if_neg hhead, if_pos hdigits, Nat.ofDigitChars_ten_toDigits,
    UInt32.ofNat_toNat]

theorem start?_register (i : UInt32) (hi : i ≠ 0) {rest : List Char} (hrest : Breaks rest) :
    start? ((Locals.empty.name i).toList ++ rest) = some (.leaf (.register i), rest) := by
  have htext : (Locals.empty.name i).toList =
      ['_', 'l', 'o', 'c'] ++ Nat.toDigits 10 i.toNat ++ ['_'] := by
    simp [Locals.name, Locals.empty, Locals.withStem, Locals.defaultStem, hi]
  have hword : (['_', 'l', 'o', 'c'] ++ Nat.toDigits 10 i.toNat ++ ['_']).all isWordChar = true := by
    rw [List.all_append, List.all_append, isWordChar_toDigits]
    rfl
  have hdigits : ((['_', 'l', 'o', 'c'] ++ Nat.toDigits 10 i.toNat ++ ['_']).drop
      Locals.defaultStem.length).dropLast = Nat.toDigits 10 i.toNat := by
    show (Nat.toDigits 10 i.toNat ++ ['_']).dropLast = _
    rw [List.dropLast_concat]
  rw [htext, start?_word hword (by simp) hrest]
  simp only [word?, hdigits, Nat.ofDigitChars_ten_toDigits, UInt32.ofNat_toNat]
  simp

/-! ### What follows an expression -/

/-- What comes after an expression. -/
inductive Follow where
  | member (name : String)
  | index
  | call
  | operation (op : BinaryOperator)
  | choice
  | store
  | stop

/-- The level at which a token takes the expression before it as an operand. -/
def Follow.level : Follow → Precedence
  | .member _ | .index | .call => .primary
  | .operation op => op.precedence
  | .choice => .conditional
  | .store => .assignment
  | .stop => .statement

/-- What a symbol between blanks is. -/
def Follow.ofSymbol (symbol : List Char) : Follow :=
  if symbol = ['?'] then .choice
  else if symbol = ['='] then .store
  else match BinaryOperator.all.find? fun op => op.symbol.toList == symbol with
    | some op => .operation op
    | none => .stop

/-- What comes after an expression, and the text after it. -/
def follow : List Char → Follow × List Char
  | '.' :: rest => (.member (String.ofList (rest.takeWhile isWordChar)), rest.dropWhile isWordChar)
  | '[' :: rest => (.index, rest)
  | '(' :: rest => (.call, rest)
  | ' ' :: rest => (.ofSymbol (rest.takeWhile (· != ' ')), (rest.dropWhile (· != ' ')).tail)
  | rest => (.stop, rest)

/-- A text leaves an expression alone at a level when what comes after binds looser. -/
def Stops (level : Precedence) (cs : List Char) : Prop := level < (follow cs).1.level

theorem Stops.mono {p q : Precedence} {cs : List Char} (h : Stops p cs) (hq : q ≤ p) : Stops q cs :=
  Nat.lt_of_le_of_lt hq h

theorem follow_member {name : String} (hname : isIdentifier name = true) {rest : List Char}
    (hrest : Breaks rest) : follow ('.' :: name.toList ++ rest) = (.member name, rest) := by
  obtain ⟨htake, hdrop⟩ := takeWhile_word (isWordChar_of_isIdentifier hname) hrest
  rw [List.cons_append, follow, htake, hdrop, String.ofList_toList]

/-- A symbol between blanks. -/
theorem follow_symbol {symbol : List Char} (h : ' ' ∉ symbol) (rest : List Char) :
    follow (' ' :: symbol ++ ' ' :: rest) = (.ofSymbol symbol, rest) := by
  have hsymbol : ∀ c ∈ symbol, (c != ' ') = true := fun c hc => by
    rw [bne_iff_ne]
    rintro rfl
    exact h hc
  rw [List.cons_append, follow, List.takeWhile_append_of_pos hsymbol,
    List.dropWhile_append_of_pos hsymbol]
  simp

theorem follow_choice (rest : List Char) : follow ([' ', '?', ' '] ++ rest) = (.choice, rest) :=
  follow_symbol (show ' ' ∉ ['?'] by decide) rest

theorem follow_store (rest : List Char) : follow ([' ', '=', ' '] ++ rest) = (.store, rest) :=
  follow_symbol (show ' ' ∉ ['='] by decide) rest

/-- The colon of a choice binds nothing by itself. -/
theorem follow_colon (rest : List Char) : follow ([' ', ':', ' '] ++ rest) = (.stop, rest) :=
  follow_symbol (show ' ' ∉ [':'] by decide) rest

theorem follow_operation (op : BinaryOperator) (rest : List Char) :
    follow (' ' :: op.symbol.toList ++ ' ' :: rest) = (.operation op, rest) := by
  rw [follow_symbol (by cases op <;> decide)]
  cases op <;> rfl

end ActionTree
