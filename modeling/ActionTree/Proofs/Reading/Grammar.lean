import ActionTree.Proofs.Reading.Characters
import ActionTree.Proofs.Reading.Reader

/-!
# What the reader accepts

One rule for each form of expression: if the reader gets through the parts, it gets through the
whole.  The reader is asked to read a text and to go on after it, so a left operand is read before
it is known what it is an operand of.  A character of text costs at most one unit of fuel.

* `Reader.Reads` - from a text the reader gets to an expression, and goes on after it;
* `Reader.Extends` - from one expression it gets to another;
* `Reader.Reads.whole` - it stops there when what follows binds looser;
* `Reader.reads_unary`, `Reader.extends_operation` and their siblings - the rules.
-/

namespace ActionTree.Reader

open Node

/-! ### Fuel -/

/-- With more fuel than the cost, one reading comes to another, and spends no more than the cost. -/
def Advances (cost : Nat) (f g : Nat → Option (Node × List Char)) : Prop :=
  ∀ fuel, cost < fuel → ∃ left, fuel ≤ left + cost ∧ f fuel = g left

variable {f g h : Nat → Option (Node × List Char)}

theorem Advances.trans {c d : Nat} (hfirst : Advances c f g) (hsecond : Advances d g h) :
    Advances (c + d) f h := by
  intro fuel hfuel
  obtain ⟨middle, hmiddle, hf⟩ := hfirst fuel (by omega)
  obtain ⟨left, hleft, hg⟩ := hsecond middle (by omega)
  exact ⟨left, by omega, hf.trans hg⟩

/-- One step of the reader costs one unit of fuel. -/
theorem Advances.of_step {cost : Nat} (hpos : 0 < cost)
    (hstep : ∀ fuel, cost ≤ fuel → f (fuel + 1) = g fuel) : Advances cost f g := by
  intro fuel hfuel
  obtain ⟨fuel, rfl⟩ := Nat.exists_eq_add_of_lt hfuel
  exact ⟨cost + fuel, by omega, hstep (cost + fuel) (by omega)⟩

/-! ### Texts that are read -/

/-- At a level, and before a rest, the text is read as the expression. -/
def Reads (level : Precedence) (n : Node) (cs rest : List Char) : Prop :=
  Advances cs.length (fun fuel => expression fuel level (cs ++ rest))
    fun fuel => extend fuel level n rest

/-- A text that takes the reader from one expression to another. -/
def Extends (level : Precedence) (n m : Node) (cs rest : List Char) : Prop :=
  Advances cs.length (fun fuel => extend fuel level n (cs ++ rest))
    fun fuel => extend fuel level m rest

variable {level : Precedence} {n : Node} {cs rest : List Char}

/-- Where nothing extends it, the expression is what was read. -/
theorem Reads.whole (h : Reads level n cs rest) (hstop : Stops level rest) {fuel : Nat}
    (hfuel : cs.length < fuel) : expression fuel level (cs ++ rest) = some (n, rest) := by
  obtain ⟨left, hleft, hread⟩ := h fuel hfuel
  exact hread.trans (extend_stops (by omega) hstop)

theorem Reads.append {m : Node} {more : List Char} (h : Reads level n cs (more ++ rest))
    (hmore : Extends level n m more rest) : Reads level m (cs ++ more) rest := by
  rw [Reads, List.length_append, List.append_assoc]
  exact h.trans hmore

theorem reads_of_step (hne : cs ≠ []) (h : ∀ fuel, cs.length ≤ fuel →
    expression (fuel + 1) level (cs ++ rest) = extend fuel level n rest) :
    Reads level n cs rest :=
  .of_step (List.length_pos_iff.2 hne) h

theorem extends_of_step {m : Node} (hne : cs ≠ []) (h : ∀ fuel, cs.length ≤ fuel →
    extend (fuel + 1) level n (cs ++ rest) = extend fuel level m rest) :
    Extends level n m cs rest :=
  .of_step (List.length_pos_iff.2 hne) h

/-! ### The ends of texts -/

/-- A text behind which no expression goes on. -/
structure Closes (cs : List Char) : Prop where
  breaks : Breaks cs
  stops : Stops .assignment cs

theorem stops_of_follow (h : (follow cs).1 = .stop) : Stops .assignment cs := by
  rw [Stops, h]
  decide

theorem closes_nil : Closes [] := ⟨rfl, stops_of_follow rfl⟩

theorem closes_parenthesis : Closes (')' :: rest) := ⟨rfl, stops_of_follow rfl⟩

theorem closes_bracket : Closes (']' :: rest) := ⟨rfl, stops_of_follow rfl⟩

theorem closes_comma : Closes (',' :: rest) := ⟨rfl, stops_of_follow rfl⟩

theorem closes_colon : Closes ([' ', ':', ' '] ++ rest) :=
  ⟨rfl, stops_of_follow (congrArg Prod.fst (follow_colon rest))⟩

/-! ### Operands -/

theorem reads_leaf (h : ∀ rest, Breaks rest → start? (cs ++ rest) = some (.leaf n, rest))
    (hrest : Breaks rest) : Reads level n cs rest := by
  refine reads_of_step ?_ fun _ _ => expression_leaf (h rest hrest)
  rintro rfl
  cases h [] rfl

theorem reads_group (h : Reads .assignment n cs (')' :: rest)) : Reads level n (group cs) rest := by
  refine reads_of_step (by simp [group]) fun fuel hfuel => ?_
  simp only [group, List.length_cons, List.length_append] at hfuel
  have hinside := h.whole closes_parenthesis.stops (show cs.length < fuel by omega)
  refine expression_group ?_ hinside
  rw [group, List.cons_append, start?_group, List.append_assoc]
  rfl

theorem reads_unary {op : UnaryOperator} (h : Reads .unary n cs rest) (hstop : Stops .unary rest) :
    Reads level (unary op n) (op.symbol.toList ++ cs) rest := by
  have hsymbol : op.symbol.toList ≠ [] := by cases op <;> decide
  have hpos := List.length_pos_iff.2 hsymbol
  refine reads_of_step (List.append_ne_nil_of_left_ne_nil hsymbol cs) fun fuel hfuel => ?_
  rw [List.length_append] at hfuel
  have hoperand := h.whole hstop (show cs.length < fuel by omega)
  rw [List.append_assoc]
  exact expression_operator (start?_operator op _) hoperand

/-! ### What extends an operand -/

theorem extends_member {name : String} (hname : isIdentifier name = true) (hrest : Breaks rest) :
    Extends level n (get n (.static (.ofName name))) ('.' :: name.toList) rest :=
  extends_of_step (by simp) fun _ _ => extend_member (follow_member hname hrest)

theorem extends_index {i : Node} (h : Reads .assignment i cs (']' :: rest)) :
    Extends level n (get n (.computed i)) ('[' :: (cs ++ [']'])) rest := by
  refine extends_of_step (by simp) fun fuel hfuel => ?_
  simp only [List.length_cons, List.length_append] at hfuel
  have hinside := h.whole closes_bracket.stops (show cs.length < fuel by omega)
  refine extend_index ?_ hinside
  rw [List.cons_append, follow, List.append_assoc]
  rfl

theorem extends_operation {op : BinaryOperator} (hlevel : op.precedence ≤ level) {r : Node}
    (h : Reads (op.precedence - 1) r cs rest) (hstop : Stops (op.precedence - 1) rest) :
    Extends level n (binary op n r) (' ' :: op.symbol.toList ++ [' '] ++ cs) rest := by
  refine extends_of_step (by simp) fun fuel hfuel => ?_
  simp only [List.length_cons, List.length_append] at hfuel
  have hright := h.whole hstop (show cs.length < fuel by omega)
  refine extend_operation ?_ hlevel hright
  rw [← follow_operation]
  simp

theorem extends_choice (hlevel : .conditional ≤ level) {a b : Node} {onTrue onFalse : List Char}
    (htrue : Reads .assignment a onTrue ([' ', ':', ' '] ++ (onFalse ++ rest)))
    (hfalse : Reads .assignment b onFalse rest) (hstop : Stops .assignment rest) :
    Extends level n (ternary n a b)
      ([' ', '?', ' '] ++ onTrue ++ [' ', ':', ' '] ++ onFalse) rest := by
  refine extends_of_step (by simp) fun fuel hfuel => ?_
  simp only [List.length_cons, List.length_append] at hfuel
  have ha := htrue.whole closes_colon.stops (show onTrue.length < fuel by omega)
  have hb := hfalse.whole hstop (show onFalse.length < fuel by omega)
  refine extend_choice ?_ hlevel ha hb
  rw [← follow_choice]
  simp

theorem extends_store (hlevel : .assignment ≤ level) {i : UInt32} {v : Node}
    (h : Reads .assignment v cs rest) (hstop : Stops .assignment rest) :
    Extends level (register i) (assign (.register i) v) ([' ', '=', ' '] ++ cs) rest := by
  refine extends_of_step (by simp) fun fuel hfuel => ?_
  simp only [List.length_cons, List.length_append] at hfuel
  have hvalue := h.whole hstop (show cs.length < fuel by omega)
  refine extend_store ?_ hlevel hvalue
  rw [← follow_store, List.append_assoc]

/-! ### Arguments -/

theorem arguments_nil {fuel : Nat} (hfuel : 0 < fuel) :
    arguments fuel (')' :: rest) = some ([], rest) := by
  obtain ⟨fuel, rfl⟩ := Nat.exists_eq_succ_of_ne_zero (Nat.ne_of_gt hfuel)
  rw [arguments]

/-- No expression starts with a closing parenthesis. -/
theorem expression_parenthesis (fuel : Nat) : expression fuel level (')' :: cs) = none := by
  cases fuel with
  | zero => rfl
  | succ fuel =>
    have hstart : start? (')' :: cs) = none := rfl
    rw [expression, hstart]
    rfl

theorem arguments_last {fuel : Nat} (h : expression fuel .assignment cs = some (n, ')' :: rest)) :
    arguments (fuel + 1) cs = some ([n], rest) := by
  unfold arguments
  split
  · rw [expression_parenthesis] at h
    cases h
  · simp [h]

theorem arguments_more {fuel : Nat} {as : List Node} {rest' : List Char}
    (h : expression fuel .assignment cs = some (n, ',' :: ' ' :: rest'))
    (hmore : arguments fuel rest' = some (as, rest)) :
    arguments (fuel + 1) cs = some (n :: as, rest) := by
  unfold arguments
  split
  · rw [expression_parenthesis] at h
    cases h
  · simp [h, hmore]

/-- The arguments behind a comma are arguments again. -/
theorem argumentChars_cons_cons (locals : Locals) (a b : Node) (as : List Node) :
    argumentChars locals (a :: b :: as) =
      a.operandChars locals .assignment ++ (',' :: ' ' :: argumentChars locals (b :: as)) := rfl

/-- Arguments are read one after another.  `read` is what each of them is read as. -/
theorem arguments_argumentChars {read : Node → Node} {as : List Node}
    (h : ∀ a ∈ as, ∀ rest, Closes rest →
      Reads .assignment (read a) (a.operandChars .empty .assignment) rest)
    {fuel : Nat} (hfuel : (argumentChars .empty as).length + 1 < fuel) :
    arguments fuel (argumentChars .empty as ++ ')' :: rest) = some (as.map read, rest) := by
  induction as generalizing fuel with
  | nil => exact arguments_nil (by omega)
  | cons a as ih =>
    obtain ⟨fuel, rfl⟩ := Nat.exists_eq_succ_of_ne_zero (show fuel ≠ 0 by omega)
    cases as with
    | nil =>
      have hchars : argumentChars .empty [a] = a.operandChars .empty .assignment :=
        List.append_nil _
      rw [hchars] at hfuel ⊢
      exact arguments_last ((h a (by simp) _ closes_parenthesis).whole closes_parenthesis.stops
        (by omega))
    | cons b as =>
      rw [argumentChars_cons_cons] at hfuel ⊢
      simp only [List.length_append, List.length_cons] at hfuel
      have hcomma : Closes (',' :: ' ' :: (argumentChars .empty (b :: as) ++ ')' :: rest)) :=
        closes_comma
      have hfirst := (h a (by simp) _ hcomma).whole hcomma.stops
        (show (a.operandChars .empty .assignment).length < fuel by omega)
      have hmore : arguments fuel (argumentChars .empty (b :: as) ++ ')' :: rest) =
          some ((b :: as).map read, rest) :=
        ih (fun c hc => h c (List.mem_cons_of_mem a hc)) (by omega)
      rw [List.append_assoc]
      exact arguments_more hfirst hmore

theorem extends_call {read : Node → Node} {object : Node} {p : Property Node} {as : List Node}
    (h : ∀ a ∈ as, ∀ rest, Closes rest →
      Reads .assignment (read a) (a.operandChars .empty .assignment) rest) :
    Extends level (get object p) (call .direct object p (as.map read))
      (group (argumentChars .empty as)) rest := by
  refine extends_of_step (by simp [group]) fun fuel hfuel => ?_
  simp only [group, List.length_cons, List.length_append, List.length_nil] at hfuel
  have hread : arguments fuel (argumentChars .empty as ++ ')' :: rest) =
      some (as.map read, rest) := arguments_argumentChars h (by omega)
  refine extend_call ?_ hread
  rw [group, List.cons_append, follow, List.append_assoc]
  rfl

end ActionTree.Reader
