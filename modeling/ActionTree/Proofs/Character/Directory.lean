import ActionTree.Command.ImportShapes
import ActionTree.Proofs.Character.Import
import ActionTree.Proofs.Character.Selection

/-!
# Importing a directory

The chosen files are imported in the order of their shapes.  A file that fails leaves the table as
it was and is reported.

* `FileImport` - what becomes of one file, and `FileImports` of several in order;
* `CharacterTable.fileImport_importFile`, `CharacterTable.importSelected_fileImports` - importing
  does just this;
* `CharacterTable.importFiles_perm` - the order of the files does not matter;
* `CharacterTable.importDirectory_eq` - the import of a directory as a whole.
-/

namespace ActionTree

/-! ### Files in order -/

/-- What becomes of one file for a shape: the error if it fails, and the table after it.  A drawing
is imported as text, and anything else as an image with a tag code of its format. -/
inductive FileImport (stretch : Bool) (id : UInt16) (f : ImportFile) (t : CharacterTable) :
    Option Error → CharacterTable → Prop
  | drawing {bytes : List UInt8} {svg : String} {after : CharacterTable}
      (hread : f.content = .ok bytes) (hrank : HasExtensionAt 0 f.name)
      (htext : Utf8.decode bytes = .ok svg) (himport : t.importSvg id svg = (.ok (), after)) :
      FileImport stretch id f t none after
  | image {bytes : List UInt8} {rank : Nat} {image : UInt16} {after : CharacterTable}
      (hread : f.content = .ok bytes) (hrank : HasExtensionAt rank f.name) (hne : rank ≠ 0)
      (himport : t.importImage id bytes 0 stretch = (.ok image, after)) :
      FileImport stretch id f t none after
  | unreadable {fault : FileFault} (hread : f.content = .error fault) :
      FileImport stretch id f t (some (.io fault.message)) t
  | notText {bytes : List UInt8} {fault : Utf8.Fault}
      (hread : f.content = .ok bytes) (hrank : HasExtensionAt 0 f.name)
      (htext : Utf8.decode bytes = .error fault) :
      FileImport stretch id f t (some (.io (f.name ++ " is not UTF-8: " ++ fault.message))) t
  | drawingRefused {bytes : List UInt8} {svg : String} {e : Error}
      (hread : f.content = .ok bytes) (hrank : HasExtensionAt 0 f.name)
      (htext : Utf8.decode bytes = .ok svg) (himport : t.importSvg id svg = (.error e, t)) :
      FileImport stretch id f t (some e) t
  | imageRefused {bytes : List UInt8} {rank : Nat} {e : Error}
      (hread : f.content = .ok bytes) (hrank : HasExtensionAt rank f.name) (hne : rank ≠ 0)
      (himport : t.importImage id bytes 0 stretch = (.error e, t)) :
      FileImport stretch id f t (some e) t

/-- What becomes of files in order: those that fail, each with its error, and the table at the
end. -/
inductive FileImports (stretch : Bool) : CharacterTable → List (UInt16 × ImportFile) →
    List (UInt16 × ImportFile × Error) → CharacterTable → Prop
  | nil {t : CharacterTable} : FileImports stretch t [] [] t
  | imported {t after final : CharacterTable} {id : UInt16} {f : ImportFile}
      {rest : List (UInt16 × ImportFile)} {failed : List (UInt16 × ImportFile × Error)}
      (hfile : FileImport stretch id f t none after)
      (hrest : FileImports stretch after rest failed final) :
      FileImports stretch t ((id, f) :: rest) failed final
  | failed {t final : CharacterTable} {id : UInt16} {f : ImportFile} {e : Error}
      {rest : List (UInt16 × ImportFile)} {failed : List (UInt16 × ImportFile × Error)}
      (hfile : FileImport stretch id f t (some e) t)
      (hrest : FileImports stretch t rest failed final) :
      FileImports stretch t ((id, f) :: rest) ((id, f, e) :: failed) final

namespace CharacterTable

/-! ### One file -/

section File

variable (t : CharacterTable) (id : UInt16) {f : ImportFile} (stretch : Bool)

/-- A file with an extension that can be imported is, or fails and leaves the table. -/
theorem fileImport_importFile {rank : Nat} (hrank : HasExtensionAt rank f.name) :
    (∃ after, t.importFile id f stretch = (.ok (), after) ∧
      FileImport stretch id f t none after) ∨
    ∃ e, t.importFile id f stretch = (.error e, t) ∧ FileImport stretch id f t (some e) t := by
  rw [importFile]
  cases hread : f.content with
  | error fault => exact .inr ⟨_, rfl, .unreadable hread⟩
  | ok bytes =>
    dsimp only
    rw [extensionRank?_eq_some_iff.2 hrank]
    by_cases hzero : rank = 0
    · subst hzero
      rw [if_pos rfl]
      cases htext : Utf8.decode bytes with
      | error fault => exact .inr ⟨_, rfl, .notText hread hrank htext⟩
      | ok svg =>
        obtain ⟨e, he⟩ | ⟨before, s, after, -, -, hok⟩ := t.importSvg_cases id svg
        · exact .inr ⟨e, he, .drawingRefused hread hrank htext he⟩
        · exact .inl ⟨_, hok, .drawing hread hrank htext hok⟩
    · rw [if_neg (by simpa using hzero)]
      obtain ⟨e, he⟩ | ⟨before, s, after, image, -, -, -, hok⟩ :=
        t.importImage_cases id bytes 0 stretch
      · refine .inr ⟨e, ?_, .imageRefused hread hrank hzero he⟩
        rw [he]
        rfl
      · refine .inl ⟨_, ?_, .image hread hrank hzero hok⟩
        rw [hok]
        rfl

end File

/-! ### The chosen files -/

/-- The warnings about files that failed. -/
def failureWarnings (failed : List (UInt16 × ImportFile × Error)) : List String :=
  failed.map fun (id, f, e) => failureWarning id f.name e

/-- Under a live token files are imported in order.  The report counts those that are imported and
tells of the others. -/
theorem importSelected_fileImports (stretch : Bool) {chosen : List (UInt16 × ImportFile)}
    (hranked : ∀ c ∈ chosen, ∃ rank, HasExtensionAt rank c.2.name) (report : ImportReport)
    (t : CharacterTable) :
    ∃ imported failed after, FileImports stretch t chosen failed after ∧
      imported + failed.length = chosen.length ∧
      importSelected stretch (fun _ => false) chosen report t =
        (.ok ⟨report.imported + imported, report.warnings ++ failureWarnings failed⟩, after) := by
  induction chosen generalizing report t with
  | nil => exact ⟨0, [], t, .nil, rfl, by simp [importSelected, failureWarnings]⟩
  | cons c rest ih =>
    obtain ⟨id, f⟩ := c
    obtain ⟨rank, hrank⟩ := hranked (id, f) List.mem_cons_self
    have hrest (c : UInt16 × ImportFile) (hc : c ∈ rest) :
        ∃ rank, HasExtensionAt rank c.2.name := hranked c (List.mem_cons_of_mem _ hc)
    rw [importSelected, if_neg (by simp)]
    obtain ⟨next, hok, hfile⟩ | ⟨e, herror, hfile⟩ := t.fileImport_importFile id stretch hrank
    · obtain ⟨imported, failed, after, hruns, hcount, hreport⟩ :=
        ih hrest { report with imported := report.imported + 1 } next
      refine ⟨imported + 1, failed, after, .imported hfile hruns, ?_, ?_⟩
      · rw [List.length_cons]
        omega
      · rw [hok]
        dsimp only
        rw [hreport, Nat.add_assoc, Nat.add_comm 1]
    · obtain ⟨imported, failed, after, hruns, hcount, hreport⟩ :=
        ih hrest { report with warnings := report.warnings ++ [failureWarning id f.name e] } t
      refine ⟨imported, (id, f, e) :: failed, after, .failed hfile hruns, ?_, ?_⟩
      · rw [List.length_cons, List.length_cons]
        omega
      · rw [herror]
        dsimp only
        rw [hreport, List.append_assoc]
        rfl

/-! ### Directories -/

section Directory

variable {t : CharacterTable} {files : List ImportFile}

/-- The warnings about shapes with several files tell the file that is chosen. -/
theorem selectionWarnings_eq :
    t.selectionWarnings files =
      ((t.selection files).filter fun c => 1 < (candidates files c.1).length).map
        fun (id, f) => severalWarning id f.name := by
  rw [selectionWarnings]
  induction t.selection files with
  | nil => rfl
  | cons c rest ih =>
    rw [List.filterMap_cons, List.filter_cons, ih]
    by_cases hseveral : 1 < (candidates files c.1).length <;> simp [hseveral]

/-- The order of the files in a directory does not matter. -/
theorem importFiles_perm {files' : List ImportFile}
    (hnames : (files.map ImportFile.name).Nodup) (h : files'.Perm files) (stretch : Bool)
    (cancelled : Bool) :
    t.importFiles files' stretch cancelled = t.importFiles files stretch cancelled := by
  rw [importFiles, importFiles, importFilesUnder, importFilesUnder, selection_perm hnames h,
    selectionWarnings_perm hnames h]

/-- **A directory is imported by an ordered selection of its files.**  For each shape that some file
is named for the least of these files is chosen, by the place of its extension and then by its name,
and no file is chosen twice.  The chosen files are imported in ascending order of the shapes, where
one that fails leaves the table.  The report counts the others and warns of each shape with several
files and of each file that failed.  All this is the same in whatever order the directory lists its
files. -/
theorem importDirectory_eq (hids : (t.characters.map Character.id).Nodup)
    (hnames : (files.map ImportFile.name).Nodup) (stretch : Bool) :
    (∀ id f, f ∈ candidates files id ↔ f ∈ files ∧ ∃ rank, IsNamedFor id rank f.name) ∧
    ∃ chosen failed imported after,
      t.IsSelection files chosen ∧ FileImports stretch t chosen failed after ∧
      imported + failed.length =
        t.characters.countP (fun c => c.isShape && !(candidates files c.id).isEmpty) ∧
      ∀ (source : Files) (directory : String) (listed : List ImportFile),
        source.list directory = .ok listed → listed.Perm files →
        t.importDirectory source directory stretch false =
          (.ok
            { imported
              warnings :=
                ((chosen.filter fun c => 1 < (candidates files c.1).length).map
                    fun (id, f) => severalWarning id f.name) ++
                  failed.map fun (id, f, e) => failureWarning id f.name e },
            after) := by
  refine ⟨fun id f => mem_candidates, ?_⟩
  have hselection := isSelection_selection hids hnames
  have hranked (c : UInt16 × ImportFile) (hc : c ∈ t.selection files) :
      ∃ rank, HasExtensionAt rank c.2.name := by
    obtain ⟨rank, hnamed, -⟩ := ((hselection.mem_iff c.1 c.2).1 hc).2.least
    exact ⟨rank, hnamed.back⟩
  obtain ⟨imported, failed, after, hruns, hcount, hreport⟩ :=
    importSelected_fileImports stretch hranked ⟨0, t.selectionWarnings files⟩ t
  refine ⟨t.selection files, failed, imported, after, hselection, hruns,
    hcount.trans length_selection, fun source directory listed hlist hperm => ?_⟩
  rw [importDirectory, importDirectoryUnder, hlist]
  show t.importFiles listed stretch false = _
  rw [importFiles_perm hnames hperm, importFiles, importFilesUnder, hreport, Nat.zero_add,
    selectionWarnings_eq, failureWarnings]

end Directory

def overlappingIds : CharacterTable :=
  ⟨[.ofBounds 12 .shape2 .zero, ⟨2, .jpegImage, .image .jpeg 0 0 [0xff, 0xd8], false⟩,
    .ofBounds 3 .shape .zero, .ofBounds 1 .shape3 .zero]⟩

/-- Two files for shape 1, two for shape 12, one that cannot be read, and one named for an image. -/
def overlappingFiles : List ImportFile :=
  [⟨"12.gif", .ok [0x47, 0x49, 0x46, 0x38]⟩, ⟨"1.png", .ok [0x89, 0x50]⟩,
    ⟨"1_2.SVG", .ok [0x3c, 0x2f, 0x3e]⟩, ⟨"3.bmp", .error .notFound⟩,
    ⟨"12_1.jpg", .ok [0xff, 0xd8]⟩, ⟨"2.png", .ok []⟩]

def overlappingSource : Files :=
  { read := fun _ => .error .notFound, list := fun _ => .ok overlappingFiles.reverse }

theorem importDirectory_eq_overlapping :
    (overlappingIds.characters.map Character.id).Nodup ∧
    (overlappingFiles.map ImportFile.name).Nodup ∧
    ∃ chosen failed after,
      overlappingIds.IsSelection overlappingFiles chosen ∧
      FileImports true overlappingIds chosen failed after ∧
      2 + failed.length = 3 ∧
      overlappingIds.importDirectory overlappingSource "in" true false =
        (.ok ⟨2, ["Multiple matching files for shape tag 1 exists, 1_2.SVG selected",
          "Multiple matching files for shape tag 12 exists, 12_1.jpg selected",
          "Cannot import shape 3 from file 3.bmp: " ++
            "I/O error: No such file or directory (os error 2)"]⟩, after) := by
  have hids : (overlappingIds.characters.map Character.id).Nodup := by decide
  have hnames : (overlappingFiles.map ImportFile.name).Nodup := by decide
  refine ⟨hids, hnames, ?_⟩
  obtain ⟨-, chosen, failed, imported, after, hselection, hruns, hcount, hreport⟩ :=
    importDirectory_eq hids hnames true
  have hrun := hreport overlappingSource "in" overlappingFiles.reverse rfl
    (List.reverse_perm overlappingFiles)
  -- the report of the run itself; the shapes are sorted first
  have hshapes : overlappingIds.shapeIds = [1, 3, 12] :=
    List.Perm.eq_of_pairwise (fun a b _ _ hab hba => absurd hab (UInt16.lt_asymm hba))
      (shapeIds_pairwise hids) (by decide) ((List.mergeSort_perm _ _).trans (by decide))
  have hresult : (overlappingIds.importFiles overlappingFiles.reverse true false).1 =
      .ok ⟨2, ["Multiple matching files for shape tag 1 exists, 1_2.SVG selected",
        "Multiple matching files for shape tag 12 exists, 12_1.jpg selected",
        "Cannot import shape 3 from file 3.bmp: " ++
          "I/O error: No such file or directory (os error 2)"]⟩ := by
    rw [importFiles, importFilesUnder, selectionWarnings, selection, hshapes]
    decide +kernel
  have hsame := (congrArg Prod.fst hrun).symm.trans hresult
  have himported : imported = 2 := congrArg ImportReport.imported (Except.ok.inj hsame)
  rw [himported] at hcount
  rw [Except.ok.inj hsame] at hrun
  exact ⟨chosen, failed, after, hselection, hruns, hcount.trans (by decide +kernel), hrun⟩

end CharacterTable

end ActionTree
