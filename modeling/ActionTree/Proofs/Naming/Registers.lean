import ActionTree.Locals
import Mathlib.Data.List.Pairwise

/-!
# Names that two registers share

A register's name is a given one, or else made for it: the receiver has the name `this` or that of
its class, and the other registers have the stem and their number.  Nothing keeps given names and
class names away from made ones, so two registers can have one name even where the given names
differ.

* `Locals.madeName` - the name of a register that none is given for;
* `Locals.madeName_injective` - those of two registers other than 0 differ, whatever the stem is;
* `Locals.Clash` - the two ways to a shared name;
* `Locals.name_eq_iff` - there are no others.
-/

namespace ActionTree.Locals

/-- The name that is given to a register. -/
def givenName? (l : Locals) (register : UInt32) : Option String := l.names.lookup register

/-- The name that a register has where none is given for it. -/
def madeName (l : Locals) (register : UInt32) : String := name { l with names := [] } register

theorem name_eq (l : Locals) (r : UInt32) : l.name r = (l.givenName? r).getD (l.madeName r) := by
  rw [name, givenName?]
  cases l.names.lookup r with
  | some name => rfl
  | none => rfl

theorem name_of_given {l : Locals} {r : UInt32} {name : String} (h : l.givenName? r = some name) :
    l.name r = name := by
  rw [name_eq, h]
  rfl

theorem name_of_not_given {l : Locals} {r : UInt32} (h : l.givenName? r = none) :
    l.name r = l.madeName r := by
  rw [name_eq, h]
  rfl

/-! ### Made names -/

theorem madeName_toList (l : Locals) {r : UInt32} (hr : r ≠ 0) :
    (l.madeName r).toList = l.stem.toList ++ Nat.toDigits 10 r.toNat ++ ['_'] := by
  simp [madeName, name, hr]

/-- The number in a made name tells the register. -/
theorem madeName_injective (l : Locals) {r s : UInt32} (hr : r ≠ 0) (hs : s ≠ 0)
    (h : l.madeName r = l.madeName s) : r = s := by
  have hchars : l.stem.toList ++ Nat.toDigits 10 r.toNat ++ ['_'] =
      l.stem.toList ++ Nat.toDigits 10 s.toNat ++ ['_'] := by
    rw [← madeName_toList l hr, ← madeName_toList l hs, h]
  have hdigits : Nat.toDigits 10 r.toNat = Nat.toDigits 10 s.toNat :=
    List.append_cancel_left (List.append_cancel_right hchars)
  have hnumber : r.toNat = s.toNat := by
    rw [← Nat.ofDigitChars_ten_toDigits (n := r.toNat), hdigits, Nat.ofDigitChars_ten_toDigits]
  exact UInt32.toNat_inj.1 hnumber

/-- A made name ends with an underscore, unlike `this`. -/
theorem madeName_ne_this (l : Locals) {r : UInt32} (hr : r ≠ 0) : l.madeName r ≠ "this" := by
  intro h
  have hlast := congrArg List.getLast? (madeName_toList l hr)
  rw [h, List.getLast?_concat] at hlast
  exact absurd hlast (by decide)

/-- The receiver is `this` or the class of a static method. -/
theorem madeName_zero (l : Locals) :
    l.madeName 0 = "this" ∨
      ∃ q, l.className = some q ∧ l.isStatic = true ∧ l.madeName 0 = q.name := by
  obtain ⟨names, stem, className, isStatic⟩ := l
  cases className with
  | none => exact .inl rfl
  | some q =>
    cases isStatic with
    | false => exact .inl rfl
    | true => exact .inr ⟨q, rfl, rfl, rfl⟩

/-! ### Shared names -/

/-- No name is given to two registers. -/
def GivesEachOnce (l : Locals) : Prop :=
  ∀ r s name, l.givenName? r = some name → l.givenName? s = some name → r = s

theorem givesEachOnce_of_pairwise {l : Locals} (h : l.names.Pairwise fun a b => a.2 ≠ b.2) :
    l.GivesEachOnce := by
  intro r s name hr hs
  have hmem : ∀ i, l.givenName? i = some name → (i, name) ∈ l.names := by
    intro i hi
    obtain ⟨before, after, hsplit, -⟩ := List.lookup_eq_some_iff.1 hi
    rw [hsplit]
    exact List.mem_append_right _ List.mem_cons_self
  have : Std.Symm fun a b : UInt32 × String => a.2 ≠ b.2 := ⟨fun _ _ hne => hne.symm⟩
  refine Classical.byContradiction fun hrs => ?_
  exact h.forall (hmem r hr) (hmem s hs) (fun hpair => hrs (congrArg Prod.fst hpair)) rfl

/-- Two registers share a name: the first one is given the name that is made for the second, or it
is the receiver of a static method, whose class has that name. -/
inductive Clash (l : Locals) : UInt32 → UInt32 → Prop
  | given {r s : UInt32} (hr : l.givenName? r = some (l.madeName s)) (hs : l.givenName? s = none) :
      Clash l r s
  | receiver {s : UInt32} {q : QualifiedName} (hr : l.givenName? 0 = none)
      (hs : l.givenName? s = none) (hne : s ≠ 0) (hclass : l.className = some q)
      (hstatic : l.isStatic = true) (hname : q.name = l.madeName s) : Clash l 0 s

variable {l : Locals} {r s : UInt32}

theorem Clash.name_eq (h : l.Clash r s) : l.name r = l.name s := by
  cases h with
  | given hr hs => rw [name_of_given hr, name_of_not_given hs]
  | @receiver s q hr hs hne hclass hstatic hname =>
    have hzero : l.madeName 0 = q.name := by simp [madeName, name, hclass, hstatic]
    rw [name_of_not_given hr, name_of_not_given hs, hzero, hname]

/-- A given name that equals a made one. -/
theorem clash_of_given {name : String} (hr : l.givenName? r = some name)
    (hs : l.givenName? s = none) (h : l.name r = l.name s) : l.Clash r s := by
  rw [name_of_given hr, name_of_not_given hs] at h
  exact .given (hr.trans (congrArg some h)) hs

/-- The receiver's name equals one with a number only where the class has that name. -/
theorem clash_of_receiver (hr : l.givenName? 0 = none) (hs : l.givenName? s = none) (hne : s ≠ 0)
    (h : l.madeName 0 = l.madeName s) : l.Clash 0 s := by
  rcases l.madeName_zero with hthis | ⟨q, hclass, hstatic, hname⟩
  · exact absurd (h.symm.trans hthis) (l.madeName_ne_this hne)
  · exact .receiver hr hs hne hclass hstatic (hname.symm.trans h)

/-- Two made names are equal only where one is the receiver's. -/
theorem clash_of_made (hr : l.givenName? r = none) (hs : l.givenName? s = none) (hrs : r ≠ s)
    (h : l.name r = l.name s) : l.Clash r s ∨ l.Clash s r := by
  rw [name_of_not_given hr, name_of_not_given hs] at h
  by_cases hr0 : r = 0
  · subst hr0
    exact .inl (clash_of_receiver hr hs hrs.symm h)
  · by_cases hs0 : s = 0
    · subst hs0
      exact .inr (clash_of_receiver hs hr hr0 h.symm)
    · exact absurd (l.madeName_injective hr0 hs0 h) hrs

/-- **When two registers share a name.**  Where no name is given twice, this happens in two ways
only: one register is given the name that is made for the other, or one is the receiver of a static
method and the class is named like the other. -/
theorem name_eq_iff (hl : l.GivesEachOnce) (r s : UInt32) :
    l.name r = l.name s ↔ r = s ∨ l.Clash r s ∨ l.Clash s r := by
  constructor
  · intro h
    rw [or_iff_not_imp_left]
    intro hrs
    cases hr : l.givenName? r with
    | some name =>
      cases hs : l.givenName? s with
      | some name' =>
        rw [name_of_given hr, name_of_given hs] at h
        exact absurd (hl r s name hr (hs.trans (congrArg some h.symm))) hrs
      | none => exact .inl (clash_of_given hr hs h)
    | none =>
      cases hs : l.givenName? s with
      | some name' => exact .inr (clash_of_given hs hr h.symm)
      | none => exact clash_of_made hr hs hrs h
  · rintro (rfl | h | h)
    · rfl
    · exact h.name_eq
    · exact h.name_eq.symm

/-- A static method of the class `_loc3`, whose first argument has a given name. -/
def staticMethod : Locals := (empty.setName 1 "count").withClass (.ofName "_loc3") true

/-- The class `_loc3` and the register `_loc3_` are kept apart by the underscore. -/
theorem name_eq_iff_staticMethod :
    staticMethod.GivesEachOnce ∧ staticMethod.name 0 ≠ staticMethod.name 3 := by
  have hl : staticMethod.GivesEachOnce := givesEachOnce_of_pairwise (by decide)
  refine ⟨hl, fun h => ?_⟩
  have hgiven : staticMethod.givenName? 0 = none ∧ staticMethod.givenName? 3 = none := by decide
  rcases (name_eq_iff hl 0 3).1 h with h | h | h
  · revert h
    decide
  · cases h with
    | given hr => exact nomatch hgiven.1.symm.trans hr
    | receiver _ _ _ hclass _ hname =>
      cases hclass
      revert hname
      decide +kernel
  · cases h with
    | given hr => exact nomatch hgiven.2.symm.trans hr

/-- A given name can be the one that is made for another register. -/
theorem exists_shared_name :
    ¬ ∀ l : Locals, l.GivesEachOnce → ∀ r s, l.name r = l.name s → r = s := by
  intro h
  have hsame := h (empty.setName 1 "_loc2_") (givesEachOnce_of_pairwise (by decide)) 1 2
    (by decide +kernel)
  revert hsame
  decide

end ActionTree.Locals
