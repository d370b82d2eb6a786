import ActionTree.Text.Basic
import Mathlib.Data.List.Lex

/-!
# Texts as 16 bit units

A character below `0x10000` is one unit, and a character past it two, one from each of two ranges
that no character lies in.

* `Text.Coded` - the units that code a text;
* `Text.coded_iff`, `Text.Coded.unique` - every text has one list of them, and no two texts the same;
* `Text.Precedes`, `Text.lt_iff_precedes` - the order of two lists at the first place where they
  differ;
* `Text.unitsBefore_iff`, `Text.unitsBefore_trichotomy`, `Text.unitsBefore_trans` - the order of
  texts.
-/

namespace ActionTree.Text

/-! ### Coding -/

/-- The units that code a text. -/
inductive Coded : List Char → List ℕ → Prop
  | nil : Coded [] []
  | one {c : Char} {cs : List Char} {us : List ℕ} (hc : c.toNat < 0x10000) (hcs : Coded cs us) :
      Coded (c :: cs) (c.toNat :: us)
  | two {c : Char} {cs : List Char} {us : List ℕ} {high low : ℕ}
      (hhigh : 0xd800 ≤ high ∧ high < 0xdc00) (hlow : 0xdc00 ≤ low ∧ low < 0xe000)
      (hc : c.toNat = 0x10000 + (high - 0xd800) * 0x400 + (low - 0xdc00)) (hcs : Coded cs us) :
      Coded (c :: cs) (high :: low :: us)

/-- No character lies between the characters of one unit and those from `0xe000` on. -/
theorem not_surrogate (c : Char) : c.toNat < 0xd800 ∨ 0xdfff < c.toNat ∧ c.toNat < 0x110000 :=
  c.valid

theorem coded_units16 (cs : List Char) : Coded cs (cs.flatMap charUnits) := by
  induction cs with
  | nil => exact .nil
  | cons c cs ih =>
    rw [List.flatMap_cons, charUnits]
    have hvalid := not_surrogate c
    by_cases hc : c.toNat < 0x10000
    · rw [if_pos hc]
      exact .one hc ih
    · rw [if_neg hc]
      exact .two (by omega) (by omega) (by omega) ih

/-- The first unit tells how many units the first character has. -/
theorem Coded.unique {cs ds : List Char} {us : List ℕ} (hcs : Coded cs us) (hds : Coded ds us) :
    cs = ds := by
  induction hcs generalizing ds with
  | nil =>
    cases hds
    rfl
  | @one c cs us hc _ ih =>
    have hvalid := not_surrogate c
    generalize htoNat : c.toNat = n at hds
    cases hds with
    | @one d ds us hd hds =>
      rw [ih hds, Char.toNat_inj.1 htoNat]
    | two hhigh hlow hd hds => omega
  | @two c cs us high low hhigh hlow hc _ ih =>
    generalize hunits : high :: low :: us = units at hds
    cases hds with
    | nil => cases hunits
    | @one d ds us hd hds =>
      have hvalid := not_surrogate d
      have hhead : high = d.toNat := (List.cons.inj hunits).1
      omega
    | two hhigh' hlow' hd hds =>
      cases hunits
      rw [ih hds, Char.toNat_inj.1 (hc.trans hd.symm)]

theorem Coded.eq {cs : List Char} {us : List ℕ} (h : Coded cs us) : us = cs.flatMap charUnits := by
  induction h with
  | nil => rfl
  | @one c cs us hc _ ih =>
    rw [List.flatMap_cons, charUnits, if_pos hc, ih]
    rfl
  | @two c cs us high low hhigh hlow hc _ ih =>
    rw [List.flatMap_cons, charUnits, if_neg (by omega), ih, hc]
    have hhigh' : 0xd800 + (0x10000 + (high - 0xd800) * 0x400 + (low - 0xdc00) - 0x10000) / 0x400 =
      high := by omega
    have hlow' : 0xdc00 + (0x10000 + (high - 0xd800) * 0x400 + (low - 0xdc00) - 0x10000) % 0x400 =
      low := by omega
    rw [hhigh', hlow']
    rfl

theorem coded_iff (cs : List Char) (us : List ℕ) : Coded cs us ↔ us = cs.flatMap charUnits := by
  constructor
  · exact Coded.eq
  · rintro rfl
    exact coded_units16 cs

theorem units16_injective {s t : String} (h : units16 s = units16 t) : s = t := by
  have hs : Coded s.toList (units16 t) := h ▸ coded_units16 s.toList
  exact String.toList_injective (hs.unique (coded_units16 t.toList))

/-! ### Order -/

/-- A list of units comes before another one that goes on behind it, or that has the greater unit at
the first place where they differ. -/
inductive Precedes : List ℕ → List ℕ → Prop
  | shorter (common : List ℕ) (v : ℕ) (vs : List ℕ) : Precedes common (common ++ v :: vs)
  | smaller (common us vs : List ℕ) {u v : ℕ} (h : u < v) :
      Precedes (common ++ u :: us) (common ++ v :: vs)

theorem Precedes.cons {us vs : List ℕ} (u : ℕ) (h : Precedes us vs) :
    Precedes (u :: us) (u :: vs) := by
  cases h with
  | shorter common v vs => exact .shorter (u :: us) v vs
  | smaller common us vs h => exact .smaller (u :: common) us vs h

theorem lt_iff_precedes (us vs : List ℕ) : us < vs ↔ Precedes us vs := by
  constructor
  · intro h
    induction us generalizing vs with
    | nil =>
      cases vs with
      | nil => exact absurd h (List.not_lt_nil _)
      | cons v vs => exact .shorter [] v vs
    | cons u us ih =>
      cases vs with
      | nil => exact absurd h (List.not_lt_nil _)
      | cons v vs =>
        rcases List.cons_lt_cons_iff.1 h with hlt | ⟨rfl, hrest⟩
        · exact .smaller [] us vs hlt
        · exact (ih vs hrest).cons u
  · intro h
    cases h with
    | shorter common v vs =>
      have hnil : us ++ [] < us ++ v :: vs := List.append_left_lt (List.nil_lt_cons v vs)
      rwa [List.append_nil] at hnil
    | smaller common us vs h =>
      exact List.append_left_lt (List.cons_lt_cons_iff.2 (.inl h))

/-- The order of texts is the order of the units that code them. -/
theorem unitsBefore_iff (s t : String) : unitsBefore s t = true ↔
    ∃ us vs, Coded s.toList us ∧ Coded t.toList vs ∧ Precedes us vs := by
  rw [unitsBefore, decide_eq_true_iff, lt_iff_precedes]
  simp only [coded_iff, exists_and_left, exists_eq_left, units16]

theorem unitsBefore_irrefl (s : String) : unitsBefore s s = false :=
  decide_eq_false (lt_irrefl _)

theorem unitsBefore_trans {s t u : String} (hst : unitsBefore s t = true)
    (htu : unitsBefore t u = true) : unitsBefore s u = true :=
  decide_eq_true (lt_trans (of_decide_eq_true hst) (of_decide_eq_true htu))

theorem unitsBefore_trichotomy (s t : String) :
    unitsBefore s t = true ∨ s = t ∨ unitsBefore t s = true := by
  rcases lt_trichotomy (units16 s) (units16 t) with h | h | h
  · exact .inl (decide_eq_true h)
  · exact .inr (.inl (units16_injective h))
  · exact .inr (.inr (decide_eq_true h))

/-- The order is not that of the characters. -/
example : unitsBefore "😀" "\uffff" = true ∧ "\uffff" < "😀" := by decide +kernel

end ActionTree.Text
