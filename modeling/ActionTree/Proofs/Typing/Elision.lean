import ActionTree.Proofs.Typing.Soundness

/-!
# Casts that are not written

A cast is left out where the static type of the operand fits the target.  The three number types
fit each other, and a string that may be `null` fits `String`, so leaving a cast out can change a
value.

* `StaticType.needsCast_eq_false` - the pairs of types without a cast;
* `Value.convert_eq_self_iff` - the values that a conversion to a primitive type keeps;
* `Node.result_convert_of_elided` - what an unwritten cast to each type does to the value.
-/

namespace ActionTree

/-- A typed operand needs no cast between booleans, between numbers and between strings. -/
theorem StaticType.needsCast_eq_false {target operand : StaticType}
    (h : target.needsCast operand = false) (hany : operand ≠ .any) :
    (target = .boolean ∧ operand = .boolean) ∨
      (target.isNumeric = true ∧ operand.isNumeric = true) ∨
      (target = .string ∧ operand = .string) := by
  cases target <;> simp_all [needsCast, isNumeric]

namespace Value

/-- A conversion keeps the values of its type, except that `null` becomes a string. -/
theorem convert_eq_self_iff {v : Value} {t : StaticType} (hknown : (v.convert t).isKnown = true)
    (ht : t ≠ .object) : v.convert t = v ↔ v.HasType t ∧ (t = .string → v ≠ .null) := by
  have hv := isKnown_of_convert hknown
  simp only [convert, hv, if_true] at hknown ⊢
  cases t with
  | boolean => cases v <;> simp [HasType, toBoolean]
  | number => cases v <;> simp [HasType, toNumber]
  | int => simpa using ofInt32_toInt32_eq_iff
  | uint => simpa using ofUInt32_toUInt32_eq_iff
  | string => cases v <;> simp [HasType, toText]
  | object => exact absurd rfl ht
  | any | «class» q => cases hknown

end Value

namespace Node

/-- Outside the strings every known value has the inferred type. -/
theorem hasType_result {n : Node} (hknown : n.result.isKnown = true)
    (htype : n.returnType ≠ .string) : n.result.HasType n.returnType := by
  have htyped := n.typed hknown
  rwa [if_neg (fun hsum => htype hsum.1)] at htyped

/-- What an unwritten cast of a typed operand does to the value.  Casts to booleans and to numbers
change nothing.  A cast to a word type changes the numbers outside that type, which an operand of
the type itself cannot have.  A cast to `String` keeps strings only, and gives `null` a text. -/
theorem result_convert_of_elided {t : StaticType} {v : Node} (o : Origin)
    (htype : v.returnType ≠ .any) (hknown : (result ⟨.convert t v, o⟩).isKnown = true)
    (helided : showsConversion t v = false) :
    match t with
    | .boolean | .number => result ⟨.convert t v, o⟩ = v.result
    | .int | .uint =>
      (result ⟨.convert t v, o⟩ = v.result ↔ v.result.HasType t) ∧
        (v.returnType = t → result ⟨.convert t v, o⟩ = v.result)
    | .string =>
      (result ⟨.convert t v, o⟩ = v.result ↔ ∃ s, v.result = .string s) ∧
        (v.result = .null → result ⟨.convert t v, o⟩ = .string "null")
    | _ => False := by
  have hv := Value.isKnown_of_convert hknown
  have hkeeps := @Value.convert_eq_self_iff _ _ hknown
  rcases StaticType.needsCast_eq_false helided htype with
    ⟨rfl, hbool⟩ | ⟨hnumeric, hoperand⟩ | ⟨rfl, -⟩
  · have hvalue := hasType_result hv (by rw [hbool]; simp)
    rw [hbool] at hvalue
    exact (hkeeps (by simp)).2 ⟨hvalue, by simp⟩
  · have hvalue := hasType_result hv (by rintro h; rw [h] at hoperand; cases hoperand)
    cases t with
    | number =>
      have hnumber : v.result.HasType .number := hvalue.toNumber hoperand
      exact (hkeeps (by simp)).2 ⟨hnumber, by simp⟩
    | int | uint =>
      have hword := (hkeeps (by simp)).trans (and_iff_left (by simp))
      exact ⟨hword, fun hsame => hword.2 (by rwa [hsame] at hvalue)⟩
    | _ => cases hnumeric
  · refine ⟨?_, fun hnull => ?_⟩
    · have hstring : v.result.HasType .string ∧ v.result ≠ .null ↔ ∃ s, v.result = .string s := by
        cases v.result <;> simp [Value.HasType]
      exact (hkeeps (by simp)).trans ((and_congr_right' (by simp)).trans hstring)
    · change v.result.convert .string = _
      rw [hnull]
      rfl

/-- The largest unsigned word. -/
def allOnes : Node := literal (.uint 4294967295)

theorem result_convert_of_elided_allOnes :
    allOnes.returnType ≠ .any ∧ (convert allOnes .int).result.isKnown = true ∧
      showsConversion .int allOnes = false ∧ ¬ allOnes.result.HasType .int := by
  have htype : allOnes.returnType ≠ .any := by decide
  refine ⟨htype, rfl, rfl, fun hword => ?_⟩
  have hsame := (result_convert_of_elided .synthetic (t := .int) htype rfl rfl).1.2 hword
  revert hsame
  decide +kernel

/-- Leaving out a cast can change the value: as a signed word the number is `-1`. -/
theorem exists_elided_result_ne :
    ¬ ∀ (t : StaticType) (v : Node), v.returnType ≠ .any → (convert v t).result.isKnown = true →
      showsConversion t v = false → (convert v t).result = v.result := by
  intro h
  have hsame := h .int allOnes (by decide) rfl rfl
  revert hsame
  decide +kernel

end Node

end ActionTree
