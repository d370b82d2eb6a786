import ActionTree.Text.Utf8
import Mathlib.Data.List.Basic

/-!
# Text is read back from its bytes

The bytes of a character begin with one that announces the others, and the range of the second one
leaves out just the overlong forms, surrogates and codes that are no characters.

* `Utf8.decodeFrom_encode` - the bytes of a character give this character, whatever stands around;
* `Utf8.decode_toUTF8` - the bytes of a text give this text.
-/

namespace ActionTree.Utf8

variable {index : Nat} {bytes : List UInt8} {done : List Char}

/-! ### Bytes -/

theorem within_iff {lo hi b : UInt8} :
    within lo hi b = true ↔ lo.toNat ≤ b.toNat ∧ b.toNat ≤ hi.toNat := by
  rw [within, Bool.and_eq_true, decide_eq_true_eq, decide_eq_true_eq, UInt8.le_iff_toNat_le,
    UInt8.le_iff_toNat_le]

theorem beq_iff_toNat {b b' : UInt8} : (b == b') = true ↔ b.toNat = b'.toNat := by
  rw [beq_iff_eq, UInt8.toNat_inj]

/-- The first byte of a character of two. -/
theorem continuation_two {b : UInt8} (hlo : 0xc2 ≤ b.toNat) (hhi : b.toNat ≤ 0xdf) :
    continuation b = some (1, 0x80, 0xbf) := by
  simp only [continuation, within_iff, UInt8.reduceToNat]
  exact if_pos ⟨hlo, hhi⟩

/-- The first byte of a character of three. -/
theorem continuation_three {b : UInt8} (hlo : 0xe0 ≤ b.toNat) (hhi : b.toNat ≤ 0xef) :
    ∃ lo hi, continuation b = some (2, lo, hi) ∧
      (lo.toNat = 0x80 ∨ b.toNat = 0xe0 ∧ lo.toNat = 0xa0) ∧
      (hi.toNat = 0xbf ∨ b.toNat = 0xed ∧ hi.toNat = 0x9f) := by
  simp only [continuation, within_iff, beq_iff_toNat, UInt8.reduceToNat]
  split_ifs
  · omega
  · exact ⟨_, _, rfl, .inr ⟨by assumption, rfl⟩, .inl rfl⟩
  · exact ⟨_, _, rfl, .inl rfl, .inr ⟨by assumption, rfl⟩⟩
  · exact ⟨_, _, rfl, .inl rfl, .inl rfl⟩
  all_goals omega

/-- The first byte of a character of four. -/
theorem continuation_four {b : UInt8} (hlo : 0xf0 ≤ b.toNat) (hhi : b.toNat ≤ 0xf4) :
    ∃ lo hi, continuation b = some (3, lo, hi) ∧
      (lo.toNat = 0x80 ∨ b.toNat = 0xf0 ∧ lo.toNat = 0x90) ∧
      (hi.toNat = 0xbf ∨ b.toNat = 0xf4 ∧ hi.toNat = 0x8f) := by
  simp only [continuation, within_iff, beq_iff_toNat, UInt8.reduceToNat]
  split_ifs
  all_goals try omega
  · exact ⟨_, _, rfl, .inr ⟨by assumption, rfl⟩, .inl rfl⟩
  · exact ⟨_, _, rfl, .inl rfl, .inl rfl⟩
  · exact ⟨_, _, rfl, .inl rfl, .inr ⟨by assumption, rfl⟩⟩

theorem toNat_ofNat_of_lt {n : Nat} (h : n < 256) : (UInt8.ofNat n).toNat = n := by
  rw [UInt8.toNat_ofNat', Nat.mod_eq_of_lt h]

/-- A byte behind the first one holds six bits. -/
theorem toNat_tail (n : Nat) : (UInt8.ofNat (n % 0x40 + 0x80)).toNat = n % 0x40 + 0x80 :=
  toNat_ofNat_of_lt (by omega)

theorem tail_mod (n : Nat) : (n % 0x40 + 0x80) % 64 = n % 0x40 := by omega

theorem tail_ge (n : Nat) : (0x80 : UInt8).toNat ≤ (UInt8.ofNat (n % 0x40 + 0x80)).toNat := by
  rw [toNat_tail]
  exact Nat.le_add_left 0x80 _

theorem tail_le (n : Nat) : (UInt8.ofNat (n % 0x40 + 0x80)).toNat ≤ (0xbf : UInt8).toNat := by
  have hmax : (0xbf : UInt8).toNat = 0xbf := rfl
  rw [toNat_tail]
  omega

/-! ### Steps -/

theorem decodeFrom_ascii {b : UInt8} (hb : b.toNat < 0x80) :
    decodeFrom (b :: bytes) index none done =
      decodeFrom bytes (index + 1) none (Char.ofNat b.toNat :: done) := by
  rw [decodeFrom, if_pos (UInt8.lt_iff_toNat_lt.2 hb)]

theorem decodeFrom_lead {b lo hi : UInt8} {n : Nat} (hb : 0x80 ≤ b.toNat)
    (h : continuation b = some (n, lo, hi)) :
    decodeFrom (b :: bytes) index none done =
      decodeFrom bytes index
        (some ⟨b.toNat % (if n = 1 then 0x20 else if n = 2 then 0x10 else 8), 1, n, lo, hi⟩)
        done := by
  have hnot : ¬b < 0x80 := fun hlt => absurd (UInt8.lt_iff_toNat_lt.1 hlt) (Nat.not_lt.2 hb)
  rw [decodeFrom, if_neg hnot, h]

/-- A byte in the middle of a character. -/
theorem decodeFrom_more {b lo hi : UInt8} {code taken needed : Nat} (hlo : lo.toNat ≤ b.toNat)
    (hhi : b.toNat ≤ hi.toNat) :
    decodeFrom (b :: bytes) index (some ⟨code, taken, needed + 2, lo, hi⟩) done =
      decodeFrom bytes index
        (some ⟨code * 64 + b.toNat % 64, taken + 1, needed + 1, 0x80, 0xbf⟩) done := by
  rw [decodeFrom, if_pos (within_iff.2 ⟨hlo, hhi⟩)]
  have hneeded : needed + 2 ≠ 1 := by omega
  exact if_neg hneeded

/-- The last byte of a character. -/
theorem decodeFrom_last {b lo hi : UInt8} {code taken : Nat} (hlo : lo.toNat ≤ b.toNat)
    (hhi : b.toNat ≤ hi.toNat) :
    decodeFrom (b :: bytes) index (some ⟨code, taken, 1, lo, hi⟩) done =
      decodeFrom bytes (index + taken + 1) none
        (Char.ofNat (code * 64 + b.toNat % 64) :: done) := by
  rw [decodeFrom, if_pos (within_iff.2 ⟨hlo, hhi⟩)]
  exact if_pos rfl

/-! ### Characters -/

/-- The bytes of a character give this character, whatever stands around. -/
theorem decodeFrom_encode (c : Char) (bytes : List UInt8) (index : Nat) (done : List Char) :
    ∃ index', decodeFrom (String.utf8EncodeChar c ++ bytes) index none done =
      decodeFrom bytes index' none (c :: done) := by
  have hvalid : c.toNat < 0xd800 ∨ 0xdfff < c.toNat ∧ c.toNat < 0x110000 := c.valid
  have hback : Char.ofNat c.toNat = c := Char.ofNat_toNat c
  have hcode : c.val.toNat = c.toNat := rfl
  rw [String.utf8EncodeChar, hcode]
  generalize c.toNat = v at hvalid hback
  -- one, two, three or four bytes
  split_ifs with hone htwo hthree
  · have hb := toNat_ofNat_of_lt (show v < 256 by omega)
    refine ⟨index + 1, ?_⟩
    rw [List.singleton_append, decodeFrom_ascii (by omega), hb, hback]
  · have hb := toNat_ofNat_of_lt (show v / 64 % 0x20 + 0xc0 < 256 by omega)
    have hcharacter : (v / 64 % 0x20 + 0xc0) % 0x20 * 64 + v % 0x40 = v := by omega
    refine ⟨index + 1 + 1, ?_⟩
    rw [List.cons_append, List.singleton_append,
      decodeFrom_lead (by omega) (continuation_two (by omega) (by omega)), if_pos rfl,
      decodeFrom_last (tail_ge _) (tail_le _), hb, toNat_tail, tail_mod, hcharacter, hback]
  · have hb := toNat_ofNat_of_lt (show v / 4096 % 0x10 + 0xe0 < 256 by omega)
    obtain ⟨lo, hi, hcontinuation, hlo, hhi⟩ :=
      continuation_three (b := UInt8.ofNat (v / 4096 % 0x10 + 0xe0)) (by omega) (by omega)
    have hcharacter :
        ((v / 4096 % 0x10 + 0xe0) % 0x10 * 64 + v / 64 % 0x40) * 64 + v % 0x40 = v := by omega
    refine ⟨index + 2 + 1, ?_⟩
    rw [List.cons_append, List.cons_append, List.singleton_append,
      decodeFrom_lead (by omega) hcontinuation, if_neg (by decide), if_pos rfl,
      decodeFrom_more (by rw [toNat_tail]; omega) (by rw [toNat_tail]; omega),
      decodeFrom_last (tail_ge _) (tail_le _), hb, toNat_tail, tail_mod, toNat_tail, tail_mod,
      hcharacter, hback]
  · have hb := toNat_ofNat_of_lt (show v / 262144 % 0x08 + 0xf0 < 256 by omega)
    obtain ⟨lo, hi, hcontinuation, hlo, hhi⟩ :=
      continuation_four (b := UInt8.ofNat (v / 262144 % 0x08 + 0xf0)) (by omega) (by omega)
    have hcharacter : (((v / 262144 % 0x08 + 0xf0) % 8 * 64 + v / 4096 % 0x40) * 64 +
        v / 64 % 0x40) * 64 + v % 0x40 = v := by omega
    refine ⟨index + 3 + 1, ?_⟩
    rw [List.cons_append, List.cons_append, List.cons_append, List.singleton_append,
      decodeFrom_lead (by omega) hcontinuation, if_neg (by decide), if_neg (by decide),
      decodeFrom_more (by rw [toNat_tail]; omega) (by rw [toNat_tail]; omega),
      decodeFrom_more (tail_ge _) (tail_le _),
      decodeFrom_last (tail_ge _) (tail_le _), hb, toNat_tail, tail_mod, toNat_tail, tail_mod,
      toNat_tail, tail_mod, hcharacter, hback]

/-- The bytes of a row of characters give these characters. -/
theorem decodeFrom_flatMap_encode (cs : List Char) (index : Nat) (done : List Char) :
    decodeFrom (cs.flatMap String.utf8EncodeChar) index none done = .ok (done.reverse ++ cs) := by
  induction cs generalizing index done with
  | nil => rw [List.flatMap_nil, decodeFrom, List.append_nil]
  | cons c cs ih =>
    obtain ⟨index', hstep⟩ := decodeFrom_encode c (cs.flatMap String.utf8EncodeChar) index done
    rw [List.flatMap_cons, hstep, ih, List.reverse_cons, List.append_assoc, List.singleton_append]

/-! ### Texts -/

theorem toList_loop (bs : ByteArray) (i : Nat) (r : List UInt8) :
    ByteArray.toList.loop bs i r = r.reverse ++ bs.data.toList.drop i := by
  fun_induction ByteArray.toList.loop bs i r with
  | case1 i r hi ih =>
    have hlength : i < bs.data.toList.length := hi
    have hget : bs.get! i = bs.data.toList[i] := getElem!_pos bs.data i hi
    rw [ih, List.reverse_cons, List.append_assoc, List.singleton_append, hget,
      List.getElem_cons_drop]
  | case2 i r hi =>
    have hlength : bs.data.toList.length ≤ i := Nat.le_of_not_lt hi
    rw [List.drop_eq_nil_of_le hlength, List.append_nil]

/-- The bytes of a text give this text. -/
theorem decode_toUTF8 (s : String) : decode s.toUTF8.toList = .ok s := by
  have hbytes : s.toUTF8.toList = s.toList.flatMap String.utf8EncodeChar := by
    rw [ByteArray.toList, toList_loop, List.reverse_nil, List.nil_append, List.drop_zero,
      String.toUTF8_eq_toByteArray, ← String.utf8Encode_toList, List.utf8Encode,
      List.toList_data_toByteArray]
  rw [decode, hbytes, decodeFrom_flatMap_encode, List.reverse_nil, List.nil_append]
  exact congrArg Except.ok s.ofList_toList

end ActionTree.Utf8
