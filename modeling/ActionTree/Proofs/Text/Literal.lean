import ActionTree.Proofs.Text.Quoted
import Mathlib.Algebra.Ring.Parity
import Mathlib.Data.List.DropRight

/-!
# String literals end where they seem to

A quote belongs to the inside of a literal just when the run of backslashes in front of it is odd.
So a literal is told apart from whatever follows it, and two literals with texts behind them are
equal only when both parts are.

* `Text.backslashRun` - the length of the run of backslashes at the end of a text;
* `Text.backslashRun_of_splitAtQuote` - runs in front of quotes up to the first one that is not
  escaped;
* `Text.le_toNat_of_mem_escape` - no control character stands in a literal;
* `Text.quote_append_eq_iff` - a literal and what follows it;
* `Text.quote_selfDelimiting` - the form of a literal.
-/

namespace ActionTree.Text

/-! ### Runs of backslashes -/

/-- The number of backslashes at the end of a text. -/
def backslashRun (cs : List Char) : ℕ := (cs.rtakeWhile (· = '\\')).length

theorem backslashRun_concat (cs : List Char) (c : Char) :
    backslashRun (cs ++ [c]) = if c = '\\' then backslashRun cs + 1 else 0 := by
  unfold backslashRun
  by_cases hc : c = '\\'
  · rw [List.rtakeWhile_concat_pos _ _ _ (by simpa using hc), if_pos hc, List.length_append,
      List.length_singleton]
  · rw [List.rtakeWhile_concat_neg _ _ _ (by simpa using hc), if_neg hc, List.length_nil]

theorem backslashRun_concat_of_ne (cs : List Char) {c : Char} (hc : c ≠ '\\') :
    backslashRun (cs ++ [c]) = 0 := by
  rw [backslashRun_concat, if_neg hc]

/-- Behind an even run, a backslash and the character that it escapes leave the run even. -/
theorem even_backslashRun_escaped {cs : List Char} (hcs : Even (backslashRun cs)) (c : Char) :
    Even (backslashRun (cs ++ ['\\', c])) := by
  have hsplit : cs ++ ['\\', c] = (cs ++ ['\\']) ++ [c] := by rw [List.append_assoc]; rfl
  rw [hsplit, backslashRun_concat, backslashRun_concat, if_pos rfl]
  split_ifs
  · exact hcs.add even_two
  · exact Even.zero

/-- Up to the first quote that is not escaped: the run in front of this quote is even, and the run
in front of each earlier one is odd.  What stands before the text ends with an even run. -/
theorem backslashRun_of_splitAtQuote {text inside rest before : List Char}
    (hsplit : splitAtQuote text = some (inside, rest)) (hbefore : Even (backslashRun before)) :
    Even (backslashRun (before ++ inside)) ∧
      ∀ left right, inside = left ++ '"' :: right → Odd (backslashRun (before ++ left)) := by
  fun_induction splitAtQuote text generalizing inside before with
  | case1 => cases hsplit
  | case2 tail =>
    cases hsplit
    refine ⟨by rwa [List.append_nil], fun left right h => ?_⟩
    simp at h
  | case3 c tail ih =>
    obtain ⟨⟨inside', rest'⟩, htail, heq⟩ := Option.map_eq_some_iff.1 hsplit
    cases heq
    obtain ⟨heven, hodd⟩ := ih htail (even_backslashRun_escaped hbefore c)
    rw [List.append_assoc] at heven
    refine ⟨heven, fun left right h => ?_⟩
    match left, h with
    | [_], h =>
      -- the quote is the character that the backslash escapes
      cases h
      rw [backslashRun_concat, if_pos rfl]
      exact hbefore.add_one
    | _ :: _ :: left, h =>
      cases h
      simpa using hodd left right rfl
  | case4 c tail hquote hescape ih =>
    obtain ⟨⟨inside', rest'⟩, htail, heq⟩ := Option.map_eq_some_iff.1 hsplit
    cases heq
    have hbackslash : c ≠ '\\' := by
      rintro rfl
      cases tail with
      | nil => cases htail
      | cons d tail => exact hescape d tail rfl rfl
    have hzero : Even (backslashRun (before ++ [c])) := by
      rw [backslashRun_concat_of_ne before hbackslash]
      exact Even.zero
    obtain ⟨heven, hodd⟩ := ih htail hzero
    rw [List.append_assoc] at heven
    refine ⟨heven, fun left right h => ?_⟩
    match left, h with
    | [], h => cases h; exact (hquote rfl).elim
    | _ :: left, h =>
      cases h
      simpa using hodd left right rfl

/-! ### Literals -/

theorem le_toNat_hexDigit {n : ℕ} (h : n < 16) : 0x20 ≤ (hexDigit n).toNat := by
  have hall : ∀ n : Fin 16, 0x20 ≤ (hexDigit n.1).toNat := by decide
  exact hall ⟨n, h⟩

/-- A character is escaped without control characters. -/
theorem le_toNat_of_mem_escape {c d : Char} (h : d ∈ escape c) : 0x20 ≤ d.toNat := by
  have hpair {e : Char} (he : 0x20 ≤ e.toNat) (hd : d ∈ ['\\', e]) : 0x20 ≤ d.toNat := by
    rcases List.mem_pair.1 hd with rfl | rfl
    · decide
    · exact he
  unfold escape at h
  split_ifs at h with hquote hbackslash hnewline hreturn htab hback hfeed hcontrol
  iterate 7 exact hpair (by decide) h
  · have hhigh := le_toNat_hexDigit (show c.toNat / 16 < 16 by omega)
    have hlow := le_toNat_hexDigit (show c.toNat % 16 < 16 by omega)
    simp only [List.mem_cons, List.not_mem_nil, or_false] at h
    rcases h with rfl | rfl | rfl | rfl
    · decide
    · decide
    · exact hhigh
    · exact hlow
  · obtain rfl := List.mem_singleton.1 h
    omega

/-- The characters of a literal. -/
theorem toList_quote (s : String) :
    (quote s).toList = '"' :: (s.toList.flatMap escape ++ ['"']) := String.toList_ofList

theorem le_toNat_of_mem_quote {s : String} {c : Char} (h : c ∈ (quote s).toList) :
    0x20 ≤ c.toNat := by
  rw [toList_quote, List.mem_cons, List.mem_append, List.mem_flatMap, List.mem_singleton] at h
  rcases h with rfl | ⟨d, -, hd⟩ | rfl
  · decide
  · exact le_toNat_of_mem_escape hd
  · decide

/-- The first quote of a literal, whatever follows it, that is not escaped. -/
theorem splitAtQuote_quote_append (s u : String) :
    ∃ text, (quote s ++ u).toList = '"' :: text ∧
      splitAtQuote text = some (s.toList.flatMap escape, u.toList) := by
  refine ⟨s.toList.flatMap escape ++ '"' :: u.toList, ?_, splitAtQuote_flatMap_escape _ _⟩
  rw [String.toList_append, toList_quote, List.cons_append, List.append_assoc,
    List.singleton_append]

/-- Literals with texts behind them are equal only when the literals are, and the texts. -/
theorem quote_append_eq_iff (s t u v : String) : quote s ++ u = quote t ++ v ↔ s = t ∧ u = v := by
  constructor
  · intro h
    obtain ⟨text, htext, hsplit⟩ := splitAtQuote_quote_append s u
    obtain ⟨text', htext', hsplit'⟩ := splitAtQuote_quote_append t v
    rw [h, htext'] at htext
    cases htext
    rw [hsplit'] at hsplit
    obtain ⟨hinside, hrest⟩ := Prod.mk.inj (Option.some.inj hsplit)
    have hread := unescape_flatMap_escape t.toList
    rw [hinside, unescape_flatMap_escape] at hread
    exact ⟨String.toList_inj.1 (Option.some.inj hread), String.toList_inj.1 hrest.symm⟩
  · rintro ⟨rfl, rfl⟩
    rfl

/-- **String literals delimit themselves.**  A literal is an inside between two quotes, without
control characters.  Each quote inside has an odd run of backslashes in front of it, and the closing
one an even run.  The inside denotes the text, and no other text has a literal that this one, with
anything behind it, begins with. -/
theorem quote_selfDelimiting (s : String) :
    (quote s).toList = '"' :: (s.toList.flatMap escape ++ ['"']) ∧
    (∀ c ∈ (quote s).toList, 0x20 ≤ c.toNat) ∧
    (∀ left right, s.toList.flatMap escape = left ++ '"' :: right → Odd (backslashRun left)) ∧
    Even (backslashRun (s.toList.flatMap escape)) ∧
    unescape (s.toList.flatMap escape) = some s.toList ∧
    ∀ t u v, quote s ++ u = quote t ++ v ↔ s = t ∧ u = v := by
  have hsplit := splitAtQuote_flatMap_escape s.toList []
  have hnone : Even (backslashRun []) := Even.zero
  obtain ⟨hclosing, hinside⟩ := backslashRun_of_splitAtQuote hsplit hnone
  exact ⟨toList_quote s, fun c => le_toNat_of_mem_quote, hinside, hclosing,
    unescape_flatMap_escape s.toList, fun t u v => quote_append_eq_iff s t u v⟩

/-- A backslash and a quote: the quote inside has three backslashes in front of it. -/
theorem quote_selfDelimiting_backslashQuote :
    "\\\"".toList.flatMap escape = ['\\', '\\', '\\'] ++ ['"'] ∧
      Odd (backslashRun ['\\', '\\', '\\']) ∧
        '"' ∈ (quote "\\\"").toList ∧ 0x20 ≤ '"'.toNat := by
  have hinside : "\\\"".toList.flatMap escape = ['\\', '\\', '\\'] ++ ['"'] := by decide
  have hmem : '"' ∈ (quote "\\\"").toList := by decide +kernel
  obtain ⟨-, hcontrol, hquote, -⟩ := quote_selfDelimiting "\\\""
  exact ⟨hinside, hquote _ _ hinside, hmem, hcontrol _ hmem⟩

end ActionTree.Text
