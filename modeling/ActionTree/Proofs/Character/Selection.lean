import ActionTree.Proofs.Character.FileName
import Mathlib.Data.Prod.Lex
import Mathlib.Data.String.Basic

/-!
# The files chosen for shapes

Each shape with a file that is named for it gets the least of these files, by the place of the
extension and then by the name.  This depends on which files there are and not on their order.

* `IsPreferred` - the least of the files for a shape;
* `preferred?_candidates_iff` - it is the one that is found;
* `CharacterTable.IsSelection`, `CharacterTable.isSelection_selection` - the files chosen for all
  shapes of a table;
* `CharacterTable.length_selection` - their number;
* `CharacterTable.selection_perm`, `CharacterTable.selectionWarnings_perm` - the order of the files
  does not matter.
-/

namespace ActionTree

/-! ### The order of preference -/

/-- A file's place in the order of preference: by the extension, then by the name. -/
def ImportFile.place (f : ImportFile) : ℕ ×ₗ String :=
  toLex ((extensionRank? f.name).getD 0, f.name)

theorem ImportFile.place_eq {id : UInt16} {rank : Nat} {f : ImportFile}
    (h : IsNamedFor id rank f.name) : f.place = toLex (rank, f.name) := by
  rw [place, extensionRank?_eq_some_iff.2 h.back, Option.getD_some]

theorem ImportFile.precedes_iff {a b : ImportFile} (ha : (extensionRank? a.name).isSome)
    (hb : (extensionRank? b.name).isSome) : a.precedes b = true ↔ a.place < b.place := by
  obtain ⟨r, hr⟩ := Option.isSome_iff_exists.1 ha
  obtain ⟨s, hs⟩ := Option.isSome_iff_exists.1 hb
  rw [precedes, place, place, hr, hs, Prod.Lex.toLex_lt_toLex]
  simp

theorem preferred?_eq_none_iff {files : List ImportFile} :
    preferred? files = none ↔ files = [] := by
  cases files with
  | nil => exact ⟨fun _ => rfl, fun _ => rfl⟩
  | cons f files =>
    refine ⟨fun h => ?_, fun h => nomatch h⟩
    rw [preferred?] at h
    split at h <;> cases h

/-- The preferred one of some files comes before all others. -/
theorem preferred?_least {files : List ImportFile} {f : ImportFile}
    (hranked : ∀ g ∈ files, (extensionRank? g.name).isSome) (h : preferred? files = some f) :
    f ∈ files ∧ ∀ g ∈ files, f.place ≤ g.place := by
  induction files generalizing f with
  | nil => cases h
  | cons d files ih =>
    have hfiles (g : ImportFile) (hg : g ∈ files) : (extensionRank? g.name).isSome :=
      hranked g (List.mem_cons_of_mem d hg)
    rw [preferred?] at h
    split at h
    · rename_i hnone
      obtain rfl := Option.some.inj h
      rw [preferred?_eq_none_iff.1 hnone]
      simp
    · rename_i g hg
      obtain ⟨hmem, hleast⟩ := ih hfiles hg
      have hprecedes := ImportFile.precedes_iff (hfiles g hmem) (hranked d List.mem_cons_self)
      obtain rfl := Option.some.inj h
      split
      · rename_i hlt
        refine ⟨List.mem_cons_of_mem d hmem, List.forall_mem_cons.2 ⟨?_, hleast⟩⟩
        exact le_of_lt (hprecedes.1 hlt)
      · rename_i hlt
        have hle : d.place ≤ g.place := not_lt.1 fun hlt' => hlt (hprecedes.2 hlt')
        refine ⟨List.mem_cons_self, List.forall_mem_cons.2 ⟨le_refl _, fun e he => ?_⟩⟩
        exact hle.trans (hleast e he)

/-! ### The file for one shape -/

/-- The least of the files that are named for a shape: by the place of the extension, then by the
name. -/
structure IsPreferred (files : List ImportFile) (id : UInt16) (f : ImportFile) : Prop where
  mem : f ∈ files
  least : ∃ rank, IsNamedFor id rank f.name ∧ ∀ g ∈ files, ∀ rank', IsNamedFor id rank' g.name →
    toLex (rank, f.name) ≤ toLex (rank', g.name)

theorem IsPreferred.mem_candidates {files : List ImportFile} {id : UInt16} {f : ImportFile}
    (h : IsPreferred files id f) : f ∈ candidates files id := by
  obtain ⟨rank, hnamed, -⟩ := h.least
  exact ActionTree.mem_candidates.2 ⟨h.mem, rank, hnamed⟩

theorem isPreferred_iff {files : List ImportFile} {id : UInt16} {f : ImportFile} :
    IsPreferred files id f ↔ f ∈ candidates files id ∧
      ∀ g ∈ candidates files id, f.place ≤ g.place := by
  constructor
  · intro h
    refine ⟨h.mem_candidates, fun g hg => ?_⟩
    obtain ⟨rank, hnamed, hleast⟩ := h.least
    obtain ⟨hmem, rank', hnamed'⟩ := mem_candidates.1 hg
    rw [ImportFile.place_eq hnamed, ImportFile.place_eq hnamed']
    exact hleast g hmem rank' hnamed'
  · rintro ⟨hf, hleast⟩
    obtain ⟨hmem, rank, hnamed⟩ := mem_candidates.1 hf
    refine ⟨hmem, rank, hnamed, fun g hg rank' hnamed' => ?_⟩
    rw [← ImportFile.place_eq hnamed, ← ImportFile.place_eq hnamed']
    exact hleast g (mem_candidates.2 ⟨hg, rank', hnamed'⟩)

section Files

variable {files files' : List ImportFile} (hnames : (files.map ImportFile.name).Nodup)

include hnames

/-- Files with different names have no common place, so only one of them can be the least. -/
theorem IsPreferred.unique {id : UInt16} {f g : ImportFile} (hf : IsPreferred files id f)
    (hg : IsPreferred files id g) : f = g := by
  have hplace : f.place = g.place :=
    le_antisymm ((isPreferred_iff.1 hf).2 g hg.mem_candidates)
      ((isPreferred_iff.1 hg).2 f hf.mem_candidates)
  have hname : f.name = g.name := congrArg (fun p => (ofLex p).2) hplace
  exact List.inj_on_of_nodup_map hnames hf.mem hg.mem hname

theorem preferred?_candidates_iff {id : UInt16} {f : ImportFile} :
    preferred? (candidates files id) = some f ↔ IsPreferred files id f := by
  have hranked (g : ImportFile) (hg : g ∈ candidates files id) :
      (extensionRank? g.name).isSome := by
    obtain ⟨-, rank, hnamed⟩ := mem_candidates.1 hg
    exact Option.isSome_iff_exists.2 ⟨rank, extensionRank?_eq_some_iff.2 hnamed.back⟩
  constructor
  · intro h
    exact isPreferred_iff.2 (preferred?_least hranked h)
  · intro h
    cases hfound : preferred? (candidates files id) with
    | none =>
      have hmem := h.mem_candidates
      rw [preferred?_eq_none_iff.1 hfound] at hmem
      cases hmem
    | some g =>
      have hg := isPreferred_iff.2 (preferred?_least hranked hfound)
      rw [hg.unique hnames h]

theorem preferred?_perm (h : files'.Perm files) (id : UInt16) :
    preferred? (candidates files' id) = preferred? (candidates files id) := by
  have hnames' : (files'.map ImportFile.name).Nodup := (h.map _).nodup_iff.2 hnames
  refine Option.ext fun f => ?_
  rw [preferred?_candidates_iff hnames', preferred?_candidates_iff hnames]
  constructor
  · rintro ⟨hmem, rank, hnamed, hleast⟩
    exact ⟨h.mem_iff.1 hmem, rank, hnamed, fun g hg => hleast g (h.mem_iff.2 hg)⟩
  · rintro ⟨hmem, rank, hnamed, hleast⟩
    exact ⟨h.mem_iff.2 hmem, rank, hnamed, fun g hg => hleast g (h.mem_iff.1 hg)⟩

end Files

/-! ### The files for all shapes -/

namespace CharacterTable

/-- Whether a table has a shape with an id. -/
def HasShape (t : CharacterTable) (id : UInt16) : Prop :=
  ∃ c ∈ t.characters, c.isShape = true ∧ c.id = id

theorem mem_shapeIds {t : CharacterTable} {id : UInt16} : id ∈ t.shapeIds ↔ t.HasShape id := by
  rw [shapeIds, List.mem_mergeSort, List.mem_map]
  simp [HasShape, and_assoc]

/-- The ids of shapes ascend where no two characters share one. -/
theorem shapeIds_pairwise {t : CharacterTable} (hids : (t.characters.map Character.id).Nodup) :
    t.shapeIds.Pairwise (· < ·) := by
  have hle : t.shapeIds.Pairwise (· ≤ ·) := by
    have hsorted : t.shapeIds.Pairwise fun a b => decide (a ≤ b) = true := by
      refine List.pairwise_mergeSort (fun a b c hab hbc => ?_) (fun a b => ?_) _
      · exact decide_eq_true (UInt16.le_trans (of_decide_eq_true hab) (of_decide_eq_true hbc))
      · simpa using UInt16.le_total a b
    exact hsorted.imp of_decide_eq_true
  have hne : t.shapeIds.Nodup := by
    rw [shapeIds, (List.mergeSort_perm _ _).nodup_iff]
    exact hids.sublist (List.filter_sublist.map Character.id)
  exact (hle.and hne).imp fun h => UInt16.lt_of_le_of_ne h.1 h.2

/-- Files chosen for the shapes of a table: for each shape that some file is named for there is one,
the least, in the order of the shapes, and no file is chosen twice. -/
structure IsSelection (t : CharacterTable) (files : List ImportFile)
    (chosen : List (UInt16 × ImportFile)) : Prop where
  ascending : chosen.Pairwise fun a b => a.1 < b.1
  mem_iff : ∀ id f, (id, f) ∈ chosen ↔ t.HasShape id ∧ IsPreferred files id f
  existsUnique : ∀ id, t.HasShape id → (∃ f ∈ files, ∃ rank, IsNamedFor id rank f.name) →
    ∃! f, (id, f) ∈ chosen
  distinct : (chosen.map fun c => c.2.name).Nodup

section Selection

variable {t : CharacterTable} {files files' : List ImportFile}

theorem mem_selection {id : UInt16} {f : ImportFile} :
    (id, f) ∈ t.selection files ↔ t.HasShape id ∧ preferred? (candidates files id) = some f := by
  rw [selection, List.mem_filterMap, ← mem_shapeIds]
  constructor
  · rintro ⟨i, hi, h⟩
    obtain ⟨g, hg, heq⟩ := Option.map_eq_some_iff.1 h
    obtain ⟨rfl, rfl⟩ := Prod.mk.inj heq
    exact ⟨hi, hg⟩
  · rintro ⟨hid, hf⟩
    exact ⟨id, hid, by rw [hf, Option.map_some]⟩

theorem isSelection_selection (hids : (t.characters.map Character.id).Nodup)
    (hnames : (files.map ImportFile.name).Nodup) : t.IsSelection files (t.selection files) := by
  have hascending : (t.selection files).Pairwise fun a b => a.1 < b.1 := by
    refine (shapeIds_pairwise hids).filterMap _ fun i j hij a ha b hb => ?_
    obtain ⟨f, -, rfl⟩ := Option.map_eq_some_iff.1 ha
    obtain ⟨g, -, rfl⟩ := Option.map_eq_some_iff.1 hb
    exact hij
  have hmem (id : UInt16) (f : ImportFile) :
      (id, f) ∈ t.selection files ↔ t.HasShape id ∧ IsPreferred files id f := by
    rw [mem_selection, preferred?_candidates_iff hnames]
  refine ⟨hascending, hmem, ?_, ?_⟩
  · rintro id hid ⟨g, hg, rank, hnamed⟩
    cases hfound : preferred? (candidates files id) with
    | none =>
      have hcandidate := mem_candidates.2 ⟨hg, rank, hnamed⟩
      rw [preferred?_eq_none_iff.1 hfound] at hcandidate
      cases hcandidate
    | some f =>
      refine ⟨f, mem_selection.2 ⟨hid, hfound⟩, fun f' hf' => ?_⟩
      exact Option.some.inj ((mem_selection.1 hf').2.symm.trans hfound)
  · -- a file that is chosen for two shapes is named for both
    refine List.pairwise_map.2 (hascending.imp_of_mem fun {a b} ha hb hlt hname => ?_)
    obtain ⟨rank, hnamed, -⟩ := ((hmem a.1 a.2).1 ha).2.least
    obtain ⟨rank', hnamed', -⟩ := ((hmem b.1 b.2).1 hb).2.least
    rw [← hname] at hnamed'
    exact UInt16.ne_of_lt hlt (hnamed.id_unique hnamed')

/-- There is a file for each shape that some file is named for. -/
theorem length_selection :
    (t.selection files).length =
      t.characters.countP fun c => c.isShape && !(candidates files c.id).isEmpty := by
  have hsome (id : UInt16) :
      ((preferred? (candidates files id)).map fun f => (id, f)).isSome =
        !(candidates files id).isEmpty := by
    rw [Option.isSome_map, Bool.eq_iff_iff, Option.isSome_iff_ne_none, ne_eq,
      preferred?_eq_none_iff]
    simp
  rw [selection, List.length_filterMap_eq_countP, shapeIds, (List.mergeSort_perm _ _).countP_eq,
    List.countP_map, List.countP_filter]
  refine List.countP_congr fun c _ => ?_
  simp only [Function.comp_apply, hsome, Bool.and_comm]

section Order

variable (hnames : (files.map ImportFile.name).Nodup) (h : files'.Perm files)

include hnames h

theorem selection_perm : t.selection files' = t.selection files := by
  rw [selection, selection]
  simp only [preferred?_perm hnames h]

theorem selectionWarnings_perm : t.selectionWarnings files' = t.selectionWarnings files := by
  have hlength (id : UInt16) :
      (candidates files' id).length = (candidates files id).length :=
    (h.filter _).length_eq
  rw [selectionWarnings, selectionWarnings, selection_perm hnames h]
  simp only [hlength]

end Order

end Selection

end CharacterTable

end ActionTree
