import ActionTree.Command.Document
import ActionTree.Proofs.Json.Scanning
import ActionTree.Proofs.Schema.Node
import ActionTree.Schema.Method

/-!
# Methods survive JSON

The names of registers are written in ascending order under keys that spell the registers, and are
read into the same order.

* `LocalNames.recovers` - names of registers are always recovered;
* `Method.recovers` - a method is recovered when the numbers in its statements are;
* `Method.ofText_compact_iff` - the text of a method is read back as this method, exactly when it
  does not nest too deep and each number in it is finite and read back from its own text.
-/

namespace ActionTree

open Json

variable {levels : Nat}

/-! ### Keys of registers -/

theorem registerOfKey?_registerKey (r : UInt32) : registerOfKey? (registerKey r) = some r := by
  have hdigits : (registerKey r).toList = Nat.toDigits 10 r.toNat := String.toList_ofList
  have hvalue := Numeral.digitsValue_toDigits r.toNat
  rw [registerOfKey?, hdigits, hvalue, if_pos ⟨r.toNat_lt, rfl⟩, UInt32.ofNat_toNat]

theorem escapeChar_of_isDigit {c : Char} (h : c.isDigit = true) : escapeChar c = [c] := by
  have hne : ∀ d : Char, d.isDigit = false → c ≠ d := fun d hd => ne_of_isDigit h hd
  have hcontrol : ¬c.toNat < 0x20 := by
    have hdigit : '0' ≤ c ∧ c ≤ '9' := by simpa [Char.isDigit, Char.le_def] using h
    have hzero : '0'.toNat ≤ c.toNat := hdigit.1
    have hvalue : '0'.toNat = 0x30 := rfl
    omega
  rw [escapeChar, if_neg (hne _ rfl), if_neg (hne _ rfl), if_neg (hne _ rfl), if_neg (hne _ rfl),
    if_neg (hne _ rfl), if_neg (hne _ rfl), if_neg (hne _ rfl), if_neg hcontrol]

theorem needsEscape_registerKey (r : UInt32) : needsEscape (some (registerKey r)) = false := by
  rw [needsEscape, List.any_eq_false]
  intro c hc
  have hmem : c ∈ Nat.toDigits 10 r.toNat := by simpa [registerKey] using hc
  have hdigit : c.isDigit = true := (isDigits_toDigits r.toNat).2 c hmem
  simp [escapeChar_of_isDigit hdigit]

/-! ### Names of registers -/

/-- An entry past all others comes last. -/
theorem insertEntry_of_lt {register : UInt32} {name : String} {es : List (UInt32 × String)}
    (h : ∀ e ∈ es, e.1 < register) : insertEntry register name es = es ++ [(register, name)] := by
  induction es with
  | nil => rfl
  | cons e es ih =>
    obtain ⟨he, hes⟩ := List.forall_mem_cons.1 h
    have hnot : ¬register < e.1 := UInt32.lt_asymm he
    have hne : register ≠ e.1 := (UInt32.ne_of_lt he).symm
    rw [insertEntry, if_neg hnot, if_neg hne, ih hes]
    rfl

namespace LocalNames

theorem entries_foldl_insert {es : List (UInt32 × String)} {l : LocalNames}
    (h : (l.entries ++ es).Pairwise (·.1 < ·.1)) :
    (es.foldl (fun l e => l.insert e.1 e.2) l).entries = l.entries ++ es := by
  induction es generalizing l with
  | nil => simp
  | cons e es ih =>
    have hlast : (l.insert e.1 e.2).entries = l.entries ++ [e] :=
      insertEntry_of_lt fun x hx => (List.pairwise_append.1 h).2.2 x hx e List.mem_cons_self
    rw [List.foldl_cons, ih (by rw [hlast]; simpa using h), hlast]
    simp

/-- Entries in ascending order are kept as they are. -/
theorem ofList_entries (l : LocalNames) : ofList l.entries = l := by
  have hentries : (ofList l.entries).entries = l.entries :=
    entries_foldl_insert (by simpa [empty] using l.ascending)
  cases hl : ofList l.entries with
  | mk entries ascending =>
    cases l
    simp_all

theorem readEntries_map (d : Nat) (es : List (UInt32 × String)) :
    readEntries d (es.map fun e => (.ofText (registerKey e.1), text e.2)) = some es := by
  induction es with
  | nil => rfl
  | cons e es ih =>
    have hkey : (Key.ofText (registerKey e.1)).plainText? = some (registerKey e.1) := rfl
    rw [List.map_cons, readEntries, hkey, Option.bind_some, registerOfKey?_registerKey, ih]
    rfl

theorem recovers (l : LocalNames) : Recovers levels LocalNames.read l.toJson l True := by
  intro d hd
  cases d with
  | zero => simp [read, toJson, depth_ofMembers_ne_zero]
  | succ d =>
    have hread : read (d + 1) l.toJson = (readEntries d (l.entries.map fun e =>
        (.ofText (registerKey e.1), text e.2))).map ofList := by
      simp [toJson, ofMembers, read, Function.comp_def]
    rw [hread, readEntries_map, Option.map_some, ofList_entries, toJson, depth_ofMembers_le,
      List.forall_mem_map]
    simp [text, depth]

theorem isWritten_toJson (l : LocalNames) : l.toJson.IsWritten := by
  refine isWritten_ofMembers ?_ ?_
  · exact List.forall_mem_map.2 fun e _ => needsEscape_registerKey e.1
  · exact List.forall_mem_map.2 fun e _ => isWritten_text e.2

end LocalNames

/-! ### Methods -/

namespace Method

/-- The number literals in the statements of a method. -/
def numbers (m : Method) : List Double := m.statements.flatMap Node.numbers

theorem recovers_className (q : Option QualifiedName) :
    Recovers levels (readOption QualifiedName.read) (ofOption QualifiedName.toJson q) q True := by
  have h : Recovers levels (readOption QualifiedName.read) (ofOption QualifiedName.toJson q) q
      (∀ a ∈ q, True) :=
    recovers_option fun a _ => ⟨by rintro ⟨⟩, a.recovers⟩
  exact h.congr (by simp)

/-- A method is recovered when the numbers in its statements are. -/
theorem recovers {coding : NumberCoding} {keptNumber : Double → Prop}
    (hcoding : ∀ levels x, Recovers levels coding.read (coding.write x) x (keptNumber x))
    (m : Method) :
    Recovers levels (Method.read coding) (m.toJson coding) m (∀ x ∈ m.numbers, keptNumber x) := by
  obtain ⟨name, statements, localNames, className, isStatic⟩ := m
  refine recovers_record rfl (by decide) fun d hd => ?_
  have hstatements := recovers_list
    (fun (n : Node) (_ : n ∈ statements) => n.recovers hcoding levels) d (Nat.le_of_lt hd)
  have hlocalNames := localNames.recovers d (Nat.le_of_lt hd)
  have hclassName := recovers_className className d (Nat.le_of_lt hd)
  have hname := recovers_text name d (Nat.le_of_lt hd)
  have hisStatic := recovers_boolean isStatic d (Nat.le_of_lt hd)
  simp [-Bool.exists_bool, Option.bind_eq_some_iff, hname, hstatements, hlocalNames, hclassName,
    hisStatic, numbers]
  grind

theorem isWritten_toJson {coding : NumberCoding} (hcoding : ∀ x, (coding.write x).IsWritten)
    (m : Method) : (m.toJson coding).IsWritten := by
  refine isWritten_ofMembers (by simp; decide) ?_
  have hstatements : (ofList (Node.toJson coding) m.statements).IsWritten :=
    isWritten_ofList fun n _ => n.isWritten_toJson hcoding
  have hclassName : (ofOption QualifiedName.toJson m.className).IsWritten :=
    isWritten_ofOption fun q _ => q.isWritten_toJson
  simp [hstatements, hclassName, LocalNames.isWritten_toJson]

/-! ### Texts -/

end Method

theorem Json.ofText_compact {α : Type} {read : Reader α} {j : Json} {a : α} (h : j.IsWritten) :
    ofText read j.compact = .ok a ↔ read depthLimit j = some a := by
  rw [ofText, parse?_compact h, Option.bind_some]
  cases read depthLimit j <;> simp

/-- The compact text of a value is read as this value, if all of it can be read. -/
theorem Json.wholeOfText?_compact {j : Json} (hwritten : j.IsWritten)
    (hread : isReadable depthLimit j = true) : wholeOfText? j.compact = some j.distinct := by
  rw [wholeOfText?, parse?_compact hwritten, Option.filter_some_pos hread, Option.map_some]

/-- A number is recovered when its own text is read back, for which it has to be finite. -/
theorem NumberCoding.recovers_plain (x : Double) :
    Recovers levels NumberCoding.plain.read (NumberCoding.plain.write x) x
      (x.isFinite = true ∧ ofText readDouble (ofDouble x).compact = .ok x) := by
  intro d _
  show readDouble d (ofDouble x) = some x ↔ (ofDouble x).depth ≤ d ∧ _
  rw [Json.ofText_compact (isWritten_ofDouble x)]
  cases x with
  | nan => simp [ofDouble, readDouble, Double.isFinite]
  | infinite negative => simp [ofDouble, readDouble, Double.isFinite]
  | finite negative rank => simp [ofDouble, readDouble, Double.isFinite, depth]

-- The last bit of 1.1370645697077955 is lost: its 17 digits are rounded before they are scaled.
example : ofText readDouble (ofDouble (.ofBits 0x3ff2316a9e455d5d)).compact =
    .ok (.ofBits 0x3ff2316a9e455d5e) := by decide +kernel

namespace Method

theorem ofText_compact_iff (m : Method) :
    ofText (Method.read .plain) (m.toJson .plain).compact = .ok m ↔
      (m.toJson .plain).depth ≤ depthLimit ∧
        ∀ x ∈ m.numbers, x.isFinite = true ∧ ofText readDouble (ofDouble x).compact = .ok x := by
  rw [Json.ofText_compact (m.isWritten_toJson isWritten_ofDouble)]
  exact m.recovers (fun _ => NumberCoding.recovers_plain) depthLimit (Nat.le_refl _)

end Method

end ActionTree
