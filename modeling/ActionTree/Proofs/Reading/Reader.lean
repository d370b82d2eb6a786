import ActionTree.Proofs.Reading.Token

/-!
# A reader of expressions

The reader climbs precedences: it reads an operand, then goes on as long as what follows binds at
the level asked for.

* `Reader.expression`, `Reader.extend`, `Reader.arguments` - the reader, which gives up when its
  fuel runs out;
* `Reader.extend_stops` - it leaves alone what binds looser than the level;
* `Reader.extend_operation` and its siblings - one step for each token after an expression.
-/

namespace ActionTree.Reader

open Node

/-- The text after a mark that has to stand at its start. -/
def expect : List Char → List Char → Option (List Char)
  | [], cs => some cs
  | _ :: _, [] => none
  | m :: mark, c :: cs => if m = c then expect mark cs else none

@[simp] theorem expect_append (mark cs : List Char) : expect mark (mark ++ cs) = some cs := by
  induction mark with
  | nil => rfl
  | cons m mark ih => rw [List.cons_append, expect, if_pos rfl, ih]

mutual

/-- Reads an expression that binds at a level, and gives the text after it. -/
def expression : Nat → Precedence → List Char → Option (Node × List Char)
  | 0, _, _ => none
  | fuel + 1, level, cs => do
    match ← start? cs with
    | (.group, rest) =>
      let (n, rest) ← expression fuel .assignment rest
      extend fuel level n (← expect [')'] rest)
    | (.operator op, rest) =>
      let (v, rest) ← expression fuel .unary rest
      extend fuel level (unary op v) rest
    | (.leaf n, rest) => extend fuel level n rest

/-- Reads on after an expression. -/
def extend : Nat → Precedence → Node → List Char → Option (Node × List Char)
  | 0, _, _, _ => none
  | fuel + 1, level, n, cs =>
    let (token, rest) := follow cs
    if level < token.level then some (n, cs)
    else match token with
      | .member name => extend fuel level (get n (.static (.ofName name))) rest
      | .index => do
        let (i, rest) ← expression fuel .assignment rest
        extend fuel level (get n (.computed i)) (← expect [']'] rest)
      | .call => do
        let (as, rest) ← arguments fuel rest
        match n.kind with
        | .get object p _ => extend fuel level (call .direct object p as) rest
        | _ => none
      | .operation op => do
        let (r, rest) ← expression fuel (op.precedence - 1) rest
        extend fuel level (binary op n r) rest
      | .choice => do
        let (a, rest) ← expression fuel .assignment rest
        let (b, rest) ← expression fuel .assignment (← expect [' ', ':', ' '] rest)
        extend fuel level (ternary n a b) rest
      | .store => do
        let (v, rest) ← expression fuel .assignment rest
        match n.kind with
        | .register i _ => extend fuel level (assign (.register i) v) rest
        | _ => none
      | .stop => some (n, cs)

/-- Reads the arguments of a call behind its opening parenthesis. -/
def arguments : Nat → List Char → Option (List Node × List Char)
  | 0, _ => none
  | fuel + 1, cs =>
    match cs with
    | ')' :: rest => some ([], rest)
    | _ => do
      let (a, rest) ← expression fuel .assignment cs
      match rest with
      | ')' :: rest => some ([a], rest)
      | ',' :: ' ' :: rest => do
        let (as, rest) ← arguments fuel rest
        some (a :: as, rest)
      | _ => none

end

/-- Reads a whole text. -/
def read? (cs : List Char) : Option Node := do
  match ← expression (cs.length + 1) .assignment cs with
  | (n, []) => some n
  | _ => none

/-! ### Steps of the reader -/

variable {fuel : Nat} {level : Precedence} {n : Node} {cs rest rest' : List Char}

theorem expression_leaf (h : start? cs = some (.leaf n, rest)) :
    expression (fuel + 1) level cs = extend fuel level n rest := by
  simp [expression, h]

theorem expression_group (h : start? cs = some (.group, rest))
    (hinside : expression fuel .assignment rest = some (n, ')' :: rest')) :
    expression (fuel + 1) level cs = extend fuel level n rest' := by
  simp [expression, h, hinside, expect]

theorem expression_operator {op : UnaryOperator} (h : start? cs = some (.operator op, rest))
    (hoperand : expression fuel .unary rest = some (n, rest')) :
    expression (fuel + 1) level cs = extend fuel level (unary op n) rest' := by
  simp [expression, h, hoperand]

/-- What binds looser than the level is left alone. -/
theorem extend_stops (hfuel : 0 < fuel) (h : Stops level cs) :
    extend fuel level n cs = some (n, cs) := by
  obtain ⟨fuel, rfl⟩ := Nat.exists_eq_succ_of_ne_zero (Nat.ne_of_gt hfuel)
  rw [Nat.succ_eq_add_one, extend]
  exact if_pos h

theorem extend_member {name : String} (h : follow cs = (.member name, rest)) :
    extend (fuel + 1) level n cs = extend fuel level (get n (.static (.ofName name))) rest := by
  simp [extend, h, Follow.level, Precedence.primary]

theorem extend_index (h : follow cs = (.index, rest)) {i : Node}
    (hinside : expression fuel .assignment rest = some (i, ']' :: rest')) :
    extend (fuel + 1) level n cs = extend fuel level (get n (.computed i)) rest' := by
  simp [extend, h, hinside, expect, Follow.level, Precedence.primary]

theorem extend_call (h : follow cs = (.call, rest)) {object : Node} {p : Property Node}
    {as : List Node} (harguments : arguments fuel rest = some (as, rest')) :
    extend (fuel + 1) level (get object p) cs =
      extend fuel level (call .direct object p as) rest' := by
  simp [extend, h, harguments, Follow.level, Precedence.primary, Node.get, synthetic]

theorem extend_operation {op : BinaryOperator} (h : follow cs = (.operation op, rest))
    (hlevel : op.precedence ≤ level) {r : Node}
    (hright : expression fuel (op.precedence - 1) rest = some (r, rest')) :
    extend (fuel + 1) level n cs = extend fuel level (binary op n r) rest' := by
  simp [extend, h, hright, Follow.level, Nat.not_lt.2 hlevel]

theorem extend_choice (h : follow cs = (.choice, rest)) (hlevel : .conditional ≤ level) {a b : Node}
    {middle : List Char}
    (htrue : expression fuel .assignment rest = some (a, [' ', ':', ' '] ++ middle))
    (hfalse : expression fuel .assignment middle = some (b, rest')) :
    extend (fuel + 1) level n cs = extend fuel level (ternary n a b) rest' := by
  simp only [extend, h, Follow.level, Nat.not_lt.2 hlevel, if_false, htrue, expect_append, hfalse,
    Option.bind_eq_bind, Option.bind_some]

theorem extend_store (h : follow cs = (.store, rest)) (hlevel : .assignment ≤ level) {i : UInt32}
    {v : Node} (hvalue : expression fuel .assignment rest = some (v, rest')) :
    extend (fuel + 1) level (register i) cs = extend fuel level (assign (.register i) v) rest' := by
  simp [extend, h, hvalue, Follow.level, Nat.not_lt.2 hlevel, register, synthetic]

end ActionTree.Reader
