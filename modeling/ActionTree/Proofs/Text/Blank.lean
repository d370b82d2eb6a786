import ActionTree.Text.Basic
import Mathlib.Data.List.DropRight

/-!
# Blanks at the ends of a text

The blanks are the characters with the property `White_Space`.  ECMAScript has almost the same ones,
but counts the byte order mark among them and not the next line character.

* `strip` - a text without given blanks at its ends;
* `exists_strip`, `strip_append` - what is stripped;
* `isStrWhiteSpace` - the blanks of ECMAScript;
* `isBlank_eq_isStrWhiteSpace` - the two characters in which they differ.
-/

namespace ActionTree

/-! ### Stripping -/

/-- The text between the blanks at its ends. -/
def strip (isBlank : Char → Bool) (cs : List Char) : List Char :=
  (cs.dropWhile isBlank).rdropWhile isBlank

theorem trim_eq_strip (cs : List Char) : Text.trim cs = strip Text.isBlank cs := rfl

section Strip

variable {isBlank : Char → Bool}

/-- What is stripped and what is left. -/
theorem exists_strip (isBlank : Char → Bool) (cs : List Char) :
    ∃ before after, cs = before ++ strip isBlank cs ++ after ∧
      (∀ c ∈ before, isBlank c = true) ∧ ∀ c ∈ after, isBlank c = true := by
  refine ⟨cs.takeWhile isBlank, (cs.dropWhile isBlank).rtakeWhile isBlank, ?_,
    fun c hc => List.mem_takeWhile_imp hc, fun c hc => List.mem_rtakeWhile_imp hc⟩
  rw [strip, List.append_assoc, List.rdropWhile_append_rtakeWhile,
    List.takeWhile_append_dropWhile]

/-- Blanks at the ends are stripped, and nothing of a text without blanks between them. -/
theorem strip_append {before core after : List Char} (hbefore : ∀ c ∈ before, isBlank c = true)
    (hcore : ∀ c ∈ core, isBlank c = false) (hafter : ∀ c ∈ after, isBlank c = true) :
    strip isBlank (before ++ core ++ after) = core := by
  have hkeep {cs : List Char} (h : ∀ c ∈ cs, isBlank c = false) : cs.dropWhile isBlank = cs :=
    List.dropWhile_eq_self_iff.2 fun hl => by simp [h cs[0] (List.getElem_mem hl)]
  rw [strip, List.append_assoc, List.dropWhile_append_of_pos hbefore]
  cases core with
  | nil =>
    rw [List.nil_append, List.dropWhile_eq_nil_iff.2 hafter]
    rfl
  | cons c rest =>
    have hc : isBlank c = false := hcore c List.mem_cons_self
    have hreverse : ∀ d ∈ (c :: rest).reverse, isBlank d = false :=
      fun d hd => hcore d (List.mem_reverse.1 hd)
    rw [List.cons_append, List.dropWhile_cons_of_neg (by simp [hc]), ← List.cons_append,
      List.rdropWhile, List.reverse_append,
      List.dropWhile_append_of_pos fun d hd => hafter d (List.mem_reverse.1 hd), hkeep hreverse,
      List.reverse_reverse]

end Strip

/-! ### The blanks of ECMAScript -/

/-- The characters of the category `Zs`. -/
def isSpaceSeparator (c : Char) : Bool :=
  let n := c.toNat
  n == 0x20 || n == 0xa0 || n == 0x1680 || (0x2000 ≤ n && n ≤ 0x200a) || n == 0x202f
    || n == 0x205f || n == 0x3000

/-- The white space of ECMAScript: tabs, the form feed, the byte order mark and the category
`Zs`. -/
def isWhiteSpace (c : Char) : Bool :=
  let n := c.toNat
  n == 0x09 || n == 0x0b || n == 0x0c || n == 0xfeff || isSpaceSeparator c

/-- The line terminators of ECMAScript. -/
def isLineTerminator (c : Char) : Bool :=
  let n := c.toNat
  n == 0x0a || n == 0x0d || n == 0x2028 || n == 0x2029

/-- What ECMAScript allows around a number. -/
def isStrWhiteSpace (c : Char) : Bool := isWhiteSpace c || isLineTerminator c

/-- The blanks are those of ECMAScript but for two characters. -/
theorem isBlank_eq_isStrWhiteSpace {c : Char} (hnext : c ≠ '\u0085') (hmark : c ≠ '\ufeff') :
    Text.isBlank c = isStrWhiteSpace c := by
  have hnext' : c.toNat ≠ 0x85 := fun h => hnext (Char.ext (UInt32.toNat_inj.1 h))
  have hmark' : c.toNat ≠ 0xfeff := fun h => hmark (Char.ext (UInt32.toNat_inj.1 h))
  rw [Bool.eq_iff_iff]
  simp only [Text.isBlank, isStrWhiteSpace, isWhiteSpace, isLineTerminator, isSpaceSeparator,
    Bool.or_eq_true, Bool.and_eq_true, decide_eq_true_eq, beq_iff_eq]
  omega

end ActionTree
