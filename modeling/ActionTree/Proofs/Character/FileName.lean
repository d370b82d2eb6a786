import ActionTree.Character.Bulk
import ActionTree.Proofs.Json.Numerals
import Mathlib.Data.List.Nodup
import Mathlib.Data.List.TakeWhile

/-!
# Names of files for shapes

The name of a file for a shape begins with the id of the shape and a dot or an underscore, and ends
with an extension that can be imported.  No name is one for two shapes.

* `IsNamedFor` - these names, with the place of the extension in the order of preference;
* `extensionRank?_eq_some_iff`, `belongsTo_iff` - the two ends of a name;
* `mem_candidates` - the files for a shape;
* `IsNamedFor.id_unique` - a name tells the shape.
-/

namespace ActionTree

/-- A name that ends with the extension at a place of the list; capitals count as small letters. -/
def HasExtensionAt (rank : Nat) (name : String) : Prop :=
  ∃ stem extension, stem ≠ "" ∧ '.' ∉ extension.toList ∧ name = stem ++ "." ++ extension ∧
    importExtensions[rank]? = some extension.toLower

/-- A name that begins with an id and a dot or an underscore. -/
def BeginsWithId (id : UInt16) (name : String) : Prop :=
  ∃ rest, name = Error.idText id ++ "." ++ rest ∨ name = Error.idText id ++ "_" ++ rest

/-- A name of a file for a shape, with the place of its extension in the order of preference. -/
structure IsNamedFor (id : UInt16) (rank : Nat) (name : String) : Prop where
  front : BeginsWithId id name
  back : HasExtensionAt rank name

/-! ### Extensions -/

theorem extension?_eq_some_iff {name extension : String} :
    extension? name = some extension ↔
      ∃ stem, stem ≠ "" ∧ '.' ∉ extension.toList ∧ name = stem ++ "." ++ extension := by
  constructor
  · intro h
    rw [extension?] at h
    split at h
    · rename_i c d rest hdrop
      obtain rfl := Option.some.inj h
      have hc : c = '.' := by
        have hhead := List.head?_dropWhile_not (· ≠ '.') name.toList.reverse
        rw [hdrop] at hhead
        simpa using hhead
      have hsplit := List.takeWhile_append_dropWhile (p := (· ≠ '.')) (l := name.toList.reverse)
      rw [hdrop, hc] at hsplit
      have hname := congrArg List.reverse hsplit
      rw [List.reverse_reverse] at hname
      refine ⟨String.ofList (d :: rest).reverse, by simp, ?_, ?_⟩
      · intro hdot
        rw [String.toList_ofList, List.mem_reverse] at hdot
        simpa using List.mem_takeWhile_imp hdot
      · refine String.ext_iff.2 (hname.symm.trans ?_)
        simp
    · cases h
  · rintro ⟨stem, hstem, hdot, rfl⟩
    have hreversed : (stem ++ "." ++ extension).toList.reverse =
        extension.toList.reverse ++ '.' :: stem.toList.reverse := by simp
    have hno : ∀ c ∈ extension.toList.reverse, decide (c ≠ '.') = true := by
      intro c hc
      refine decide_eq_true fun h => hdot ?_
      rw [← h]
      exact List.mem_reverse.1 hc
    rw [extension?, hreversed, List.dropWhile_append_of_pos hno, List.takeWhile_append_of_pos hno]
    cases hrest : stem.toList.reverse with
    | nil => exact absurd (String.toList_eq_nil_iff.1 (List.reverse_eq_nil_iff.1 hrest)) hstem
    | cons d rest => simp

/-- The place of an extension is that of the only entry of the list that it equals. -/
theorem extensionRank?_eq_some_iff {name : String} {rank : Nat} :
    extensionRank? name = some rank ↔ HasExtensionAt rank name := by
  have hplace (e : String) : importExtensions.findIdx? (· == e) = some rank ↔
      importExtensions[rank]? = some e := by
    have hnodup : importExtensions.Nodup := by decide
    rw [List.findIdx?_eq_some_iff_getElem, List.getElem?_eq_some_iff]
    constructor
    · rintro ⟨hlt, heq, -⟩
      exact ⟨hlt, by simpa using heq⟩
    · rintro ⟨hlt, rfl⟩
      refine ⟨hlt, by simp, fun j hj heq => ?_⟩
      have hij := (hnodup.getElem_inj_iff).1 (by simpa using heq)
      omega
  rw [extensionRank?, Option.bind_eq_some_iff]
  constructor
  · rintro ⟨extension, hext, hrank⟩
    obtain ⟨stem, hstem, hdot, hname⟩ := extension?_eq_some_iff.1 hext
    exact ⟨stem, extension, hstem, hdot, hname, (hplace _).1 hrank⟩
  · rintro ⟨stem, extension, hstem, hdot, hname, hrank⟩
    exact ⟨extension, extension?_eq_some_iff.2 ⟨stem, hstem, hdot, hname⟩, (hplace _).2 hrank⟩

/-! ### Ids -/

theorem beginsWithId_iff {id : UInt16} {name : String} :
    BeginsWithId id name ↔ ∃ c rest, (c = '.' ∨ c = '_') ∧
      (Error.idText id).toList ++ c :: rest = name.toList := by
  constructor
  · rintro ⟨rest, rfl | rfl⟩
    · exact ⟨'.', rest.toList, .inl rfl, by simp⟩
    · exact ⟨'_', rest.toList, .inr rfl, by simp⟩
  · rintro ⟨c, rest, rfl | rfl, hname⟩
    · exact ⟨String.ofList rest, .inl (String.ext_iff.2 (hname.symm.trans (by simp)))⟩
    · exact ⟨String.ofList rest, .inr (String.ext_iff.2 (hname.symm.trans (by simp)))⟩

theorem belongsTo_iff {id : UInt16} {name : String} :
    belongsTo id name = true ↔ BeginsWithId id name := by
  rw [beginsWithId_iff]
  constructor
  · intro h
    rw [belongsTo] at h
    split at h
    · rename_i c rest hrest
      exact ⟨c, rest, by simpa using h, List.isPrefixOf?_eq_some_iff_append_eq.1 hrest⟩
    · cases h
  · rintro ⟨c, rest, hc, hname⟩
    rw [belongsTo, List.isPrefixOf?_eq_some_iff_append_eq.2 hname]
    simpa using hc

/-! ### Names -/

/-- The files for a shape that can be imported are those that are named for it. -/
theorem mem_candidates {files : List ImportFile} {id : UInt16} {f : ImportFile} :
    f ∈ candidates files id ↔ f ∈ files ∧ ∃ rank, IsNamedFor id rank f.name := by
  rw [candidates, List.mem_filter, Bool.and_eq_true, Option.isSome_iff_exists, belongsTo_iff]
  simp only [extensionRank?_eq_some_iff]
  exact and_congr_right fun _ =>
    ⟨fun ⟨⟨rank, hback⟩, hfront⟩ => ⟨rank, hfront, hback⟩,
      fun ⟨rank, hfront, hback⟩ => ⟨⟨rank, hback⟩, hfront⟩⟩

/-- The digits in front end where the dot or the underscore stands, so they are the id's. -/
theorem IsNamedFor.id_unique {id id' : UInt16} {rank rank' : Nat} {name : String}
    (h : IsNamedFor id rank name) (h' : IsNamedFor id' rank' name) : id = id' := by
  obtain ⟨c, rest, hc, hname⟩ := beginsWithId_iff.1 h.front
  obtain ⟨c', rest', hc', hname'⟩ := beginsWithId_iff.1 h'.front
  have hdigits (i : UInt16) (d : Char) (ds : List Char) (hd : d = '.' ∨ d = '_') :
      ((Error.idText i).toList ++ d :: ds).takeWhile Char.isDigit =
        Nat.toDigits 10 i.toNat := by
    rw [Error.idText, String.toList_ofList]
    refine (takeWhile_isDigit (isDigits_toDigits i.toNat).2 fun e he => ?_).1
    obtain rfl := Option.some.inj he
    rcases hd with rfl | rfl <;> rfl
  have heq : Nat.toDigits 10 id.toNat = Nat.toDigits 10 id'.toNat := by
    rw [← hdigits id c rest hc, ← hdigits id' c' rest' hc', hname, hname']
  have hvalue := congrArg (Nat.ofDigitChars 10 · 0) heq
  simp only [Nat.ofDigitChars_ten_toDigits] at hvalue
  exact UInt16.toNat_inj.1 hvalue

end ActionTree
