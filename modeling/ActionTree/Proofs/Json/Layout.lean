import ActionTree.Proofs.Json.Scanning

/-!
# Indented text is scanned back

Line breaks and blanks stand only between tokens, where a scanner passes over them.

* `Json.Scans.blank`, `Json.Scans.lineBreak` - blanks in front give no tokens;
* `Json.scans_prettyChars` - the indented text of a value gives its tokens;
* `Json.parse?_pretty` - and so the text is parsed back.
-/

namespace ActionTree.Json

/-! ### Blanks -/

theorem Scans.blank {c : Char} {cs : List Char} {ts : List Token} (h : Scans cs ts)
    (hc : Scanner.isSpace c = true) : Scans (c :: cs) ts := by
  intro before
  have hstep : Scanner.step? ⟨before, .between⟩ c = some ⟨before, .between⟩ := if_pos hc
  rw [Scanner.run_cons, hstep]
  exact h before

theorem Scans.blanks {bs cs : List Char} {ts : List Token} (h : Scans cs ts)
    (hbs : ∀ c ∈ bs, Scanner.isSpace c = true) : Scans (bs ++ cs) ts := by
  induction bs with
  | nil => exact h
  | cons b bs ih =>
    obtain ⟨hb, hbs⟩ := List.forall_mem_cons.1 hbs
    exact (ih hbs).blank hb

theorem isSpace_of_mem_lineBreak {level : Nat} :
    ∀ c ∈ lineBreak level, Scanner.isSpace c = true := by
  refine List.forall_mem_cons.2 ⟨rfl, fun c hc => ?_⟩
  rw [List.eq_of_mem_replicate hc]
  rfl

theorem Scans.lineBreak {cs : List Char} {ts : List Token} (h : Scans cs ts) (level : Nat) :
    Scans (lineBreak level ++ cs) ts := h.blanks isSpace_of_mem_lineBreak

/-! ### Values -/

theorem beginsSeparate_lineBreak (level : Nat) (cs : List Char) :
    BeginsSeparate (lineBreak level ++ cs) := ⟨'\n', _, rfl, by decide⟩

theorem beginsSeparate_prettyItems (level : Nat) (items : List Json) :
    BeginsSeparate (prettyItems (level + 1) items ++ (lineBreak level ++ [']'])) := by
  cases items with
  | nil => exact beginsSeparate_lineBreak level [']']
  | cons item items => exact ⟨',', _, rfl, by decide⟩

theorem beginsSeparate_prettyMembers (level : Nat) (members : List (Key × Json)) :
    BeginsSeparate (prettyMembers (level + 1) members ++ (lineBreak level ++ ['\x7d'])) := by
  cases members with
  | nil => exact beginsSeparate_lineBreak level ['\x7d']
  | cons member members => exact ⟨',', _, rfl, by decide⟩

mutual

/-- The indented text of a value gives its tokens. -/
theorem scans_prettyChars : ∀ (j : Json) (level : Nat), j.IsWritten →
    Scans (j.prettyChars level) j.tokens
  | .null, _, h => scans_chars .null h
  | .boolean b, _, h => scans_chars (.boolean b) h
  | .number n, _, h => scans_chars (.number n) h
  | .string s, _, h => scans_chars (.string s) h
  | .array [], _, h => scans_chars (.array []) h
  | .array (item :: items), level, h => by
    obtain ⟨hitem, hitems⟩ := h
    have hscans := (scans_prettyChars item (level + 1) hitem).append
      (beginsSeparate_prettyItems level items) (scans_prettyItems items level hitems)
    have hopen := (hscans.lineBreak (level + 1)).cons (c := '[') (t := .openArray) fun _ => rfl
    rw [prettyChars, tokens, itemTokens]
    simpa only [List.append_assoc] using hopen
  | .object [], _, h => scans_chars (.object []) h
  | .object ((key, value) :: members), level, h => by
    obtain ⟨hkey, hvalue, hmembers⟩ := h
    have hscans := (scans_prettyChars value (level + 1) hvalue).append
      (beginsSeparate_prettyMembers level members) (scans_prettyMembers members level hmembers)
    have hmember := scans_member hkey (hscans.blank (c := ' ') rfl)
    have hopen := (hmember.lineBreak (level + 1)).cons (c := '\x7b') (t := .openObject)
      fun _ => rfl
    rw [prettyChars, tokens, memberTokens]
    simpa only [List.append_assoc, List.cons_append] using hopen

/-- The indented texts of more items and the end of their array give the tokens of these. -/
theorem scans_prettyItems : ∀ (items : List Json) (level : Nat), AreWritten items →
    Scans (prettyItems (level + 1) items ++ (lineBreak level ++ [']']))
      (moreItemTokens items ++ [.closeArray])
  | [], level, _ => (scans_nil.cons fun _ => rfl).lineBreak level
  | item :: items, level, h => by
    obtain ⟨hitem, hitems⟩ := h
    have hscans := (scans_prettyChars item (level + 1) hitem).append
      (beginsSeparate_prettyItems level items) (scans_prettyItems items level hitems)
    have hcomma := (hscans.lineBreak (level + 1)).cons (c := ',') (t := .comma) fun _ => rfl
    rw [prettyItems, moreItemTokens]
    simpa only [List.append_assoc, List.cons_append] using hcomma

/-- The indented texts of more members and the end of their object give the tokens of these. -/
theorem scans_prettyMembers : ∀ (members : List (Key × Json)) (level : Nat),
    MembersWritten members →
    Scans (prettyMembers (level + 1) members ++ (lineBreak level ++ ['\x7d']))
      (moreMemberTokens members ++ [.closeObject])
  | [], level, _ => (scans_nil.cons fun _ => rfl).lineBreak level
  | (key, value) :: members, level, h => by
    obtain ⟨hkey, hvalue, hmembers⟩ := h
    have hscans := (scans_prettyChars value (level + 1) hvalue).append
      (beginsSeparate_prettyMembers level members) (scans_prettyMembers members level hmembers)
    have hmember := scans_member hkey (hscans.blank (c := ' ') rfl)
    have hcomma := (hmember.lineBreak (level + 1)).cons (c := ',') (t := .comma) fun _ => rfl
    rw [prettyMembers, moreMemberTokens]
    simpa only [List.append_assoc, List.cons_append] using hcomma

end

/-- The indented text of a value is parsed back. -/
theorem parse?_pretty {j : Json} (h : j.IsWritten) : parse? j.pretty = some j := by
  rw [parse?, pretty, String.toList_ofList, (scans_prettyChars j 0 h).scan?, Option.bind_some,
    ofTokens?_tokens]

end ActionTree.Json
