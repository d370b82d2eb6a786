import ActionTree.Proofs.Json.Written

/-!
# Text is scanned back

A scanner that stands between tokens takes the text of a value for the tokens of this value.  A
number or name at the end of the text is only complete with the next separator, so what is said of
the scanner's state is what it holds after ending a word.

* `Json.Scans` - some characters give some tokens, whatever was read before;
* `Json.scans_chars` - the text of a value gives its tokens;
* `Json.parse?_compact` - and so the text is parsed back.
-/

namespace ActionTree.Json

/-! ### Running a scanner -/

namespace Scanner

/-- A scanner after some characters. -/
def run (s : Scanner) (cs : List Char) : Option Scanner := cs.foldlM step? s

@[simp] theorem run_nil (s : Scanner) : s.run [] = some s := rfl

theorem run_cons (s : Scanner) (c : Char) (cs : List Char) :
    s.run (c :: cs) = (s.step? c).bind fun s' => s'.run cs := rfl

theorem run_append (s : Scanner) (cs ds : List Char) :
    s.run (cs ++ ds) = (s.run cs).bind fun s' => s'.run ds := List.foldlM_append

end Scanner

/-- Characters that end a word. -/
def IsSeparator (c : Char) : Prop :=
  Scanner.isSpace c = true ∨ c = '"' ∨ (Scanner.punctuation? c).isSome = true

instance (c : Char) : Decidable (IsSeparator c) := inferInstanceAs (Decidable (_ ∨ _ ∨ _))

/-- A separator does to a scanner in a word what it does after the word. -/
theorem Scanner.step?_of_flush? {s : Scanner} {ts : List Token} {c : Char}
    (h : s.flush? = some ⟨ts, .between⟩) (hc : IsSeparator c) :
    s.step? c = step? ⟨ts, .between⟩ c := by
  obtain ⟨tokens, standing⟩ := s
  cases standing with
  | word cs =>
    show outside? ⟨tokens, .word cs⟩ c = outside? ⟨ts, .between⟩ c
    have hflush : flush? ⟨ts, .between⟩ = some ⟨ts, .between⟩ := rfl
    rw [outside?, outside?, h, hflush]
    rcases hc with hspace | rfl | hpunctuation
    · rw [if_pos hspace, if_pos hspace]
    · rfl
    · obtain ⟨t, ht⟩ := Option.isSome_iff_exists.1 hpunctuation
      rw [ht]
  | between =>
    cases h
    rfl
  | inString pieces => cases h
  | escape pieces => cases h
  | code pieces digits value => cases h

/-! ### Characters that give tokens -/

/-- Between other tokens some characters give some tokens. -/
def Scans (cs : List Char) (ts : List Token) : Prop :=
  ∀ before, ∃ s : Scanner, Scanner.run ⟨before, .between⟩ cs = some s ∧
    s.flush? = some ⟨ts.reverse ++ before, .between⟩

theorem scans_nil : Scans [] [] := fun before => ⟨⟨before, .between⟩, rfl, rfl⟩

/-- A character that is a token by itself. -/
theorem Scans.cons {c : Char} {t : Token} {cs : List Char} {ts : List Token} (h : Scans cs ts)
    (hstep : ∀ before, Scanner.step? ⟨before, .between⟩ c = some ⟨t :: before, .between⟩) :
    Scans (c :: cs) (t :: ts) := by
  intro before
  obtain ⟨s, hrun, hflush⟩ := h (t :: before)
  refine ⟨s, ?_, ?_⟩
  · rw [Scanner.run_cons, hstep, Option.bind_some, hrun]
  · rw [hflush, List.reverse_cons, List.append_assoc, List.singleton_append]

/-- Characters that begin with a separator. -/
def BeginsSeparate (cs : List Char) : Prop := ∃ c rest, cs = c :: rest ∧ IsSeparator c

/-- What begins with a separator may follow any tokens. -/
theorem Scans.append {cs ds : List Char} {ts us : List Token} (h : Scans cs ts)
    (hds : BeginsSeparate ds) (h' : Scans ds us) : Scans (cs ++ ds) (ts ++ us) := by
  obtain ⟨c, rest, rfl, hc⟩ := hds
  intro before
  obtain ⟨s, hrun, hflush⟩ := h before
  obtain ⟨s', hrun', hflush'⟩ := h' (ts.reverse ++ before)
  refine ⟨s', ?_, ?_⟩
  · rw [Scanner.run_append, hrun, Option.bind_some, Scanner.run_cons,
      Scanner.step?_of_flush? hflush hc, ← Scanner.run_cons, hrun']
  · rw [hflush', List.reverse_append, List.append_assoc]

/-- All of a text that gives tokens is scanned. -/
theorem Scans.scan? {cs : List Char} {ts : List Token} (h : Scans cs ts) :
    scan? cs = some ts := by
  obtain ⟨s, hrun, hflush⟩ := h []
  rw [Scanner.run] at hrun
  rw [Json.scan?, hrun, Option.bind_some, Scanner.finish?, hflush]
  simp

/-! ### Words -/

/-- Characters that words are made of. -/
def IsWordPart (c : Char) : Prop :=
  Scanner.isSpace c = false ∧ c ≠ '"' ∧ Scanner.punctuation? c = none

instance (c : Char) : Decidable (IsWordPart c) := inferInstanceAs (Decidable (_ ∧ _ ∧ _))

theorem IsWordPart.outside?_word {c : Char} (h : IsWordPart c) (ts : List Token) (cs : List Char) :
    Scanner.outside? ⟨ts, .word cs⟩ c = some ⟨ts, .word (c :: cs)⟩ := by
  obtain ⟨hspace, hquote, hpunctuation⟩ := h
  simp only [Scanner.outside?, hspace, hquote, hpunctuation, Bool.false_eq_true, if_false]

theorem IsWordPart.outside?_between {c : Char} (h : IsWordPart c) (ts : List Token) :
    Scanner.outside? ⟨ts, .between⟩ c = some ⟨ts, .word [c]⟩ := by
  obtain ⟨hspace, hquote, hpunctuation⟩ := h
  simp only [Scanner.outside?, hspace, hquote, hpunctuation, Bool.false_eq_true, if_false]

/-- The rest of a word. -/
theorem run_word {w : List Char} (hw : ∀ c ∈ w, IsWordPart c) (before : List Token)
    (cs : List Char) :
    Scanner.run ⟨before, .word cs⟩ w = some ⟨before, .word (w.reverse ++ cs)⟩ := by
  induction w generalizing cs with
  | nil => rfl
  | cons c w ih =>
    have hstep : Scanner.step? ⟨before, .word cs⟩ c = some ⟨before, .word (c :: cs)⟩ :=
      (hw c List.mem_cons_self).outside?_word before cs
    rw [Scanner.run_cons, hstep, Option.bind_some, ih fun d hd => hw d (List.mem_cons_of_mem c hd)]
    simp

/-- A word that spells a token. -/
theorem scans_word {w : List Char} {t : Token} (hw : ∀ c ∈ w, IsWordPart c) (hne : w ≠ [])
    (ht : wordToken? w = some t) : Scans w [t] := by
  intro before
  cases w with
  | nil => exact absurd rfl hne
  | cons c w =>
    have hstep : Scanner.step? ⟨before, .between⟩ c = some ⟨before, .word [c]⟩ :=
      (hw c List.mem_cons_self).outside?_between before
    refine ⟨⟨before, .word (w.reverse ++ [c])⟩, ?_, ?_⟩
    · rw [Scanner.run_cons, hstep, Option.bind_some,
        run_word fun d hd => hw d (List.mem_cons_of_mem c hd)]
    · show (wordToken? (w.reverse ++ [c]).reverse).map _ = _
      rw [List.reverse_append, List.reverse_reverse, List.reverse_singleton,
        List.singleton_append, ht]
      rfl

/-- A word that can be checked letter by letter. -/
theorem scans_letters {w : List Char} {t : Token} (hw : w.all (decide <| IsWordPart ·) = true)
    (ht : wordToken? w = some t) : Scans w [t] := by
  refine scans_word (fun c hc => of_decide_eq_true (List.all_eq_true.1 hw c hc)) ?_ ht
  rintro rfl
  cases ht

theorem isWordPart_of_isDigit {c : Char} (h : c.isDigit = true) : IsWordPart c := by
  have hne : ∀ d : Char, d.isDigit = false → c ≠ d := fun d hd => ne_of_isDigit h hd
  refine ⟨?_, hne '"' rfl, ?_⟩
  · simp [Scanner.isSpace, hne ' ' rfl, hne '\t' rfl, hne '\n' rfl, hne '\r' rfl]
  · rw [Scanner.punctuation?, if_neg (hne _ rfl), if_neg (hne _ rfl), if_neg (hne _ rfl),
      if_neg (hne _ rfl), if_neg (hne _ rfl), if_neg (hne _ rfl)]

theorem scans_numeral {n : Numeral} (h : n.IsWellFormed) : Scans n.text [.number n] := by
  refine scans_word (fun c hc => ?_) ?_ (wordToken?_text h)
  · rcases Numeral.mem_text h hc with hdigit | hother
    · exact isWordPart_of_isDigit hdigit
    · rw [List.mem_cons, List.mem_cons, List.mem_cons, List.mem_singleton] at hother
      rcases hother with rfl | rfl | rfl | rfl <;> decide
  · obtain ⟨c, cs, htext, -⟩ := Numeral.head?_unsignedText h
    rw [Numeral.text, htext]
    split <;> exact List.cons_ne_nil _ _

/-! ### Strings -/

/-- The piece that a character of a string is read as. -/
def Piece.ofChar (c : Char) : Piece := if escapeChar c = [c] then .char c else .escaped c

theorem isEscaped_ofChar (c : Char) : (Piece.ofChar c).isEscaped = decide (escapeChar c ≠ [c]) := by
  rw [Piece.ofChar]
  split
  · rename_i h
    simp [Piece.isEscaped, h]
  · rename_i h
    simp [Piece.isEscaped, h]

theorem joinPieces_ofChar (cs : List Char) : joinPieces (cs.map Piece.ofChar) = some cs := by
  induction cs with
  | nil => rfl
  | cons c cs ih =>
    rw [List.map_cons, Piece.ofChar]
    split <;> rw [joinPieces, ih] <;> rfl

/-- The pieces of a string are its token. -/
theorem stringToken_ofChar (s : String) :
    stringToken (s.toList.map Piece.ofChar) = .string (some s) (needsEscape (some s)) := by
  have hany : (s.toList.map Piece.ofChar).any Piece.isEscaped =
      s.toList.any fun c => decide (escapeChar c ≠ [c]) := by
    rw [List.any_map]
    exact List.any_congr rfl isEscaped_ofChar
  rw [stringToken, joinPieces_ofChar, hany]
  simp [needsEscape]

/-- The three forms that a character has inside a string. -/
theorem escapeChar_cases (c : Char) :
    (∃ d, escapeChar c = ['\\', d] ∧ d ≠ 'u' ∧ simpleEscape? d = some c) ∨
      (c.toNat < 0x20 ∧ escapeChar c =
        ['\\', 'u', '0', '0', Nat.digitChar (c.toNat / 16), Nat.digitChar (c.toNat % 16)]) ∨
      (escapeChar c = [c] ∧ c ≠ '"' ∧ c ≠ '\\' ∧ ¬c.toNat < 0x20) := by
  unfold escapeChar
  split_ifs with hquote hbackslash hback htab hnewline hfeed hreturn hcontrol
  · exact .inl ⟨_, rfl, by decide, by rw [hquote]; rfl⟩
  · exact .inl ⟨_, rfl, by decide, by rw [hbackslash]; rfl⟩
  · exact .inl ⟨_, rfl, by decide, by rw [hback]; rfl⟩
  · exact .inl ⟨_, rfl, by decide, by rw [htab]; rfl⟩
  · exact .inl ⟨_, rfl, by decide, by rw [hnewline]; rfl⟩
  · exact .inl ⟨_, rfl, by decide, by rw [hfeed]; rfl⟩
  · exact .inl ⟨_, rfl, by decide, by rw [hreturn]; rfl⟩
  · exact .inr (.inl ⟨hcontrol, rfl⟩)
  · exact .inr (.inr ⟨rfl, hquote, hbackslash, hcontrol⟩)

/-- The digits of an escape give their value. -/
theorem hexValue?_digitChar {n : Nat} (h : n < 16) : Text.hexValue? (Nat.digitChar n) = some n := by
  have hall : ∀ n : Fin 16, Text.hexValue? (Nat.digitChar n.1) = some n.1 := by decide
  exact hall ⟨n, h⟩

/-- A scanner in a string reads an escaped character as one piece. -/
theorem run_escapeChar (c : Char) (before : List Token) (pieces : List Piece) :
    Scanner.run ⟨before, .inString pieces⟩ (escapeChar c) =
      some ⟨before, .inString (.ofChar c :: pieces)⟩ := by
  have hbackslash : Scanner.step? ⟨before, .inString pieces⟩ '\\' =
      some ⟨before, .escape pieces⟩ := rfl
  rcases escapeChar_cases c with ⟨d, hform, hu, hd⟩ | ⟨hcontrol, hform⟩ |
    ⟨hform, hquote, hother, hcontrol⟩
  · have hpiece : Piece.ofChar c = .escaped c := by
      rw [Piece.ofChar, if_neg (by simp [hform])]
    have hletter : Scanner.step? ⟨before, .escape pieces⟩ d =
        some ⟨before, .inString (.escaped c :: pieces)⟩ := by
      simp [Scanner.step?, hu, hd]
    rw [hform, hpiece, Scanner.run_cons, hbackslash, Option.bind_some, Scanner.run_cons, hletter]
    rfl
  · have hpiece : Piece.ofChar c = .escaped c := by
      rw [Piece.ofChar, if_neg (by simp [hform])]
    have hzeros : Scanner.run ⟨before, .inString pieces⟩ ['\\', 'u', '0', '0'] =
        some ⟨before, .code pieces 2 0⟩ := rfl
    have hhigh : Scanner.step? ⟨before, .code pieces 2 0⟩ (Nat.digitChar (c.toNat / 16)) =
        some ⟨before, .code pieces 3 (c.toNat / 16)⟩ := by
      simp [Scanner.step?, hexValue?_digitChar (show c.toNat / 16 < 16 by omega)]
    have hcode : c.toNat / 16 * 16 + c.toNat % 16 = c.toNat := by omega
    have hlow : Scanner.step? ⟨before, .code pieces 3 (c.toNat / 16)⟩
        (Nat.digitChar (c.toNat % 16)) = some ⟨before, .inString (.escaped c :: pieces)⟩ := by
      have hofCode : Piece.ofCode c.toNat = .escaped c := by
        rw [Piece.ofCode, if_neg (by omega), Char.ofNat_toNat]
      simp [Scanner.step?, hexValue?_digitChar (show c.toNat % 16 < 16 by omega), hcode, hofCode]
    have hsplit : escapeChar c = ['\\', 'u', '0', '0'] ++
        [Nat.digitChar (c.toNat / 16), Nat.digitChar (c.toNat % 16)] := hform
    rw [hsplit, hpiece, Scanner.run_append, hzeros, Option.bind_some, Scanner.run_cons, hhigh,
      Option.bind_some, Scanner.run_cons, hlow]
    rfl
  · have hpiece : Piece.ofChar c = .char c := by
      rw [Piece.ofChar, if_pos hform]
    have hstep : Scanner.step? ⟨before, .inString pieces⟩ c =
        some ⟨before, .inString (.char c :: pieces)⟩ := by
      simp only [Scanner.step?, if_neg hquote, if_neg hother, if_neg hcontrol]
    rw [hform, hpiece, Scanner.run_cons, hstep]
    rfl

/-- A scanner in a string reads an escaped text. -/
theorem run_flatMap_escapeChar (cs : List Char) (before : List Token) (pieces : List Piece) :
    Scanner.run ⟨before, .inString pieces⟩ (cs.flatMap escapeChar) =
      some ⟨before, .inString ((cs.map Piece.ofChar).reverse ++ pieces)⟩ := by
  induction cs generalizing pieces with
  | nil => rfl
  | cons c cs ih =>
    rw [List.flatMap_cons, Scanner.run_append, run_escapeChar, Option.bind_some, ih]
    simp

/-- A string in quotes. -/
theorem Scans.string {cs : List Char} {ts : List Token} (h : Scans cs ts) {s : Option String}
    (hs : s.isSome = true) : Scans (stringChars s ++ cs) (.string s (needsEscape s) :: ts) := by
  obtain ⟨s, rfl⟩ := Option.isSome_iff_exists.1 hs
  intro before
  obtain ⟨after, hrun, hflush⟩ := h (.string (some s) (needsEscape (some s)) :: before)
  have hopen : Scanner.step? ⟨before, .between⟩ '"' = some ⟨before, .inString []⟩ := rfl
  have hclose : Scanner.step? ⟨before, .inString (s.toList.map Piece.ofChar).reverse⟩ '"' =
      some ⟨.string (some s) (needsEscape (some s)) :: before, .between⟩ := by
    rw [← stringToken_ofChar]
    simp [Scanner.step?]
  refine ⟨after, ?_, ?_⟩
  · rw [stringChars, Option.getD_some, List.cons_append, List.append_assoc, Scanner.run_cons,
      hopen, Option.bind_some, Scanner.run_append, run_flatMap_escapeChar, Option.bind_some,
      List.append_nil, List.singleton_append, Scanner.run_cons, hclose, Option.bind_some, hrun]
  · rw [hflush, List.reverse_cons, List.append_assoc, List.singleton_append]

/-- A key with what follows its colon. -/
theorem scans_member {key : Key} {cs : List Char} {ts : List Token} (hkey : key.IsWritten)
    (h : Scans cs ts) : Scans (stringChars key.text ++ ':' :: cs)
      (.string key.text key.isEscaped :: .colon :: ts) := by
  rw [hkey.isEscaped_eq]
  exact (h.cons fun _ => rfl).string hkey.isSome_text

/-! ### Values -/

theorem beginsSeparate_moreItemChars (items : List Json) :
    BeginsSeparate (moreItemChars items ++ [']']) := by
  cases items with
  | nil => exact ⟨']', [], rfl, by decide⟩
  | cons item items => exact ⟨',', _, rfl, by decide⟩

theorem beginsSeparate_moreMemberChars (members : List (Key × Json)) :
    BeginsSeparate (moreMemberChars members ++ ['\x7d']) := by
  cases members with
  | nil => exact ⟨'\x7d', [], rfl, by decide⟩
  | cons member members => exact ⟨',', _, rfl, by decide⟩

mutual

/-- The text of a value gives its tokens. -/
theorem scans_chars : ∀ j : Json, j.IsWritten → Scans j.chars j.tokens
  | .null, _ => scans_letters (by decide) rfl
  | .boolean true, _ => scans_letters (by decide) rfl
  | .boolean false, _ => scans_letters (by decide) rfl
  | .number _, h => scans_numeral h
  | .string s, h => by
    have hscans := scans_nil.string h
    rw [List.append_nil] at hscans
    exact hscans
  | .array [], _ => (scans_nil.cons fun _ => rfl).cons fun _ => rfl
  | .array (item :: items), h => by
    obtain ⟨hitem, hitems⟩ := h
    have hscans := (scans_chars item hitem).append (beginsSeparate_moreItemChars items)
      (scans_moreItemChars items hitems)
    rw [chars, itemChars, List.append_assoc, tokens, itemTokens, List.append_assoc]
    exact hscans.cons fun _ => rfl
  | .object [], _ => (scans_nil.cons fun _ => rfl).cons fun _ => rfl
  | .object ((key, value) :: members), h => by
    obtain ⟨hkey, hvalue, hmembers⟩ := h
    have hscans := scans_member hkey ((scans_chars value hvalue).append
      (beginsSeparate_moreMemberChars members) (scans_moreMemberChars members hmembers))
    rw [chars, memberChars, tokens, memberTokens, List.append_assoc, List.cons_append,
      List.append_assoc, List.cons_append, List.cons_append, List.append_assoc]
    exact hscans.cons fun _ => rfl

/-- The texts of more items and the end of their array give the tokens of these. -/
theorem scans_moreItemChars : ∀ items : List Json, AreWritten items →
    Scans (moreItemChars items ++ [']']) (moreItemTokens items ++ [.closeArray])
  | [], _ => scans_nil.cons fun _ => rfl
  | item :: items, h => by
    obtain ⟨hitem, hitems⟩ := h
    have hscans := (scans_chars item hitem).append (beginsSeparate_moreItemChars items)
      (scans_moreItemChars items hitems)
    rw [moreItemChars, moreItemTokens, List.cons_append, List.append_assoc, List.cons_append,
      List.append_assoc]
    exact hscans.cons fun _ => rfl

/-- The texts of more members and the end of their object give the tokens of these. -/
theorem scans_moreMemberChars : ∀ members : List (Key × Json), MembersWritten members →
    Scans (moreMemberChars members ++ ['\x7d']) (moreMemberTokens members ++ [.closeObject])
  | [], _ => scans_nil.cons fun _ => rfl
  | (key, value) :: members, h => by
    obtain ⟨hkey, hvalue, hmembers⟩ := h
    have hscans := scans_member hkey ((scans_chars value hvalue).append
      (beginsSeparate_moreMemberChars members) (scans_moreMemberChars members hmembers))
    rw [moreMemberChars, moreMemberTokens, List.cons_append, List.append_assoc, List.cons_append,
      List.append_assoc, List.cons_append, List.cons_append, List.cons_append, List.append_assoc]
    exact hscans.cons fun _ => rfl

end

/-- The text of a value is parsed back. -/
theorem parse?_compact {j : Json} (h : j.IsWritten) : parse? j.compact = some j := by
  rw [parse?, compact, String.toList_ofList, (scans_chars j h).scan?, Option.bind_some,
    ofTokens?_tokens]

end ActionTree.Json
