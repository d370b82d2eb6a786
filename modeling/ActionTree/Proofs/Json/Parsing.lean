import ActionTree.Json.Parse
import ActionTree.Json.Print
import Mathlib.Data.List.Basic

/-!
# Tokens are parsed back

* `Json.tokens` - the tokens of a value;
* `Json.run_tokens` - a parser that awaits a value takes them for this value, whatever is open;
* `Json.ofTokens?_tokens` - alone they spell the value.
-/

namespace ActionTree.Json

/-! ### The tokens of a value -/

/-- Whether a text is written with an escape. -/
def needsEscape (s : Option String) : Bool := (s.getD "").toList.any fun c => escapeChar c ≠ [c]

mutual

/-- The tokens of a value. -/
def tokens : Json → List Token
  | .null => [.null]
  | .boolean b => [.boolean b]
  | .number n => [.number n]
  | .string s => [.string s (needsEscape s)]
  | .array items => .openArray :: (itemTokens items ++ [.closeArray])
  | .object members => .openObject :: (memberTokens members ++ [.closeObject])

/-- The tokens of items with commas between them. -/
def itemTokens : List Json → List Token
  | [] => []
  | item :: items => item.tokens ++ moreItemTokens items

/-- The tokens of items with a comma before each. -/
def moreItemTokens : List Json → List Token
  | [] => []
  | item :: items => .comma :: (item.tokens ++ moreItemTokens items)

/-- The tokens of members with commas between them. -/
def memberTokens : List (Key × Json) → List Token
  | [] => []
  | (key, value) :: members =>
    .string key.text key.isEscaped :: .colon :: (value.tokens ++ moreMemberTokens members)

/-- The tokens of members with a comma before each. -/
def moreMemberTokens : List (Key × Json) → List Token
  | [] => []
  | (key, value) :: members =>
    .comma :: .string key.text key.isEscaped :: .colon :: (value.tokens ++ moreMemberTokens members)

end

/-! ### Running a parser -/

namespace Parser

/-- A parser after some tokens. -/
def run (p : Parser) (ts : List Token) : Option Parser := ts.foldlM step? p

@[simp] theorem run_nil (p : Parser) : p.run [] = some p := rfl

@[simp] theorem run_cons (p : Parser) (t : Token) (ts : List Token) :
    p.run (t :: ts) = (p.step? t).bind fun q => q.run ts := rfl

theorem run_append (p : Parser) (ts us : List Token) :
    p.run (ts ++ us) = (p.run ts).bind fun q => q.run us := List.foldlM_append

/-- The first token of a value does not end an array, so it does not matter whether one was just
opened. -/
theorem run_firstItem (frames : List Frame) (j : Json) (ts : List Token) :
    run ⟨frames, .firstItem⟩ (j.tokens ++ ts) = run ⟨frames, .value⟩ (j.tokens ++ ts) := by
  cases j <;> rfl

end Parser

mutual

/-- A parser that awaits a value takes the tokens of a value for it, whatever is open. -/
theorem run_tokens : ∀ (j : Json) (frames : List Frame),
    Parser.run ⟨frames, .value⟩ j.tokens = some ⟨frames, .after j⟩
  | .null, _ => rfl
  | .boolean _, _ => rfl
  | .number _, _ => rfl
  | .string _, _ => rfl
  | .array [], _ => rfl
  | .array (item :: items), frames => by
    have hopen : Parser.run ⟨frames, .value⟩ (Json.array (item :: items)).tokens =
        Parser.run ⟨.array [] :: frames, .firstItem⟩
          (item.tokens ++ (moreItemTokens items ++ [.closeArray])) := by
      rw [tokens, itemTokens, List.append_assoc]
      rfl
    rw [hopen, Parser.run_firstItem, Parser.run_append, run_tokens item, Option.bind_some,
      run_moreItemTokens items]
    rfl
  | .object [], _ => rfl
  | .object ((key, value) :: members), frames => by
    have hopen : Parser.run ⟨frames, .value⟩ (Json.object ((key, value) :: members)).tokens =
        Parser.run ⟨.object [] key :: frames, .value⟩
          (value.tokens ++ (moreMemberTokens members ++ [.closeObject])) := by
      rw [tokens, memberTokens, List.cons_append, List.cons_append, List.append_assoc]
      rfl
    rw [hopen, Parser.run_append, run_tokens value, Option.bind_some, run_moreMemberTokens members]
    rfl

/-- After an item of an array the tokens of more items and the end of the array complete it. -/
theorem run_moreItemTokens : ∀ (items done : List Json) (value : Json) (frames : List Frame),
    Parser.run ⟨.array done :: frames, .after value⟩ (moreItemTokens items ++ [.closeArray]) =
      some ⟨frames, .after (.array ((value :: done).reverse ++ items))⟩
  | [], done, value, frames => by
    rw [moreItemTokens, List.append_nil]
    rfl
  | item :: items, done, value, frames => by
    have hcomma : Parser.run ⟨.array done :: frames, .after value⟩
        (moreItemTokens (item :: items) ++ [.closeArray]) =
          Parser.run ⟨.array (value :: done) :: frames, .value⟩
            (item.tokens ++ (moreItemTokens items ++ [.closeArray])) := by
      rw [moreItemTokens, List.cons_append, List.append_assoc]
      rfl
    rw [hcomma, Parser.run_append, run_tokens item, Option.bind_some, run_moreItemTokens items]
    simp

/-- After a member of an object the tokens of more members and the end of the object complete it. -/
theorem run_moreMemberTokens : ∀ (members done : List (Key × Json)) (key : Key) (value : Json)
    (frames : List Frame),
    Parser.run ⟨.object done key :: frames, .after value⟩
        (moreMemberTokens members ++ [.closeObject]) =
      some ⟨frames, .after (.object (((key, value) :: done).reverse ++ members))⟩
  | [], done, key, value, frames => by
    rw [moreMemberTokens, List.append_nil]
    rfl
  | (k, v) :: members, done, key, value, frames => by
    have hcomma : Parser.run ⟨.object done key :: frames, .after value⟩
        (moreMemberTokens ((k, v) :: members) ++ [.closeObject]) =
          Parser.run ⟨.object ((key, value) :: done) k :: frames, .value⟩
            (v.tokens ++ (moreMemberTokens members ++ [.closeObject])) := by
      rw [moreMemberTokens, List.cons_append, List.cons_append, List.cons_append,
        List.append_assoc]
      rfl
    rw [hcomma, Parser.run_append, run_tokens v, Option.bind_some, run_moreMemberTokens members]
    simp

end

/-- The tokens of a value spell it. -/
theorem ofTokens?_tokens (j : Json) : ofTokens? j.tokens = some j := by
  have hrun : Parser.run ⟨[], .value⟩ j.tokens = some ⟨[], .after j⟩ := run_tokens j []
  rw [Parser.run] at hrun
  rw [ofTokens?, hrun]
  rfl

end ActionTree.Json
