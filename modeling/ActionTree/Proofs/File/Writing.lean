import ActionTree.File.Tree
import Mathlib.Tactic.SplitIfs

/-!
# Writing a file

A file is written where its path ends in a name, the rest of the path leads to a directory, and no
directory has that name there.  It can then be read by the same path, and nothing else changes.

* `FileTree.Leads` - components lead from one place to another;
* `FileTree.Admits` - a path lets a file be written at a place;
* `FileTree.write_eq_ok_iff` - when a file is written, and where;
* `FileTree.lookup?_put_self`, `lookup?_put_of_ne` - what is in the tree afterwards;
* `FileTree.read_put` - the file is read back.
-/

namespace ActionTree.FileTree

variable {t after : FileTree} {path : String} {bytes : List UInt8} {l l' : Location}

/-! ### Paths -/

/-- Components lead from one place to another.  Each of them is taken in a directory. -/
inductive Leads (t : FileTree) : Location → List String → Location → Prop
  | nil (l : Location) : Leads t l [] l
  | stay {l l' : Location} {c : String} {cs : List String} (hl : t.lookup? l = some .directory)
      (hc : c = "" ∨ c = ".") (h : Leads t l cs l') : Leads t l (c :: cs) l'
  | up {l l' : Location} {cs : List String} (hl : t.lookup? l = some .directory)
      (h : Leads t l.tail cs l') : Leads t l (".." :: cs) l'
  | down {l l' : Location} {c : String} {cs : List String} (hl : t.lookup? l = some .directory)
      (hc : isName c) (h : Leads t (c :: l) cs l') : Leads t l (c :: cs) l'

theorem isName_iff {c : String} : isName c ↔ c ≠ "" ∧ c ≠ "." ∧ c ≠ ".." := by
  simp [isName]

theorem step_eq_ok_iff {c : String} : t.step l c = .ok l' ↔ t.lookup? l = some .directory ∧
    ((c = "" ∨ c = ".") ∧ l' = l ∨ c = ".." ∧ l' = l.tail ∨ isName c ∧ l' = c :: l) := by
  rw [step, isName_iff]
  cases t.lookup? l with
  | none => simp
  | some e =>
    cases e with
    | file => simp
    | directory =>
      dsimp only
      split_ifs <;> grind

theorem walk_eq_ok_iff {cs : List String} : t.walk l cs = .ok l' ↔ t.Leads l cs l' := by
  rw [walk]
  induction cs generalizing l with
  | nil =>
    refine ⟨?_, fun h => ?_⟩
    · rintro ⟨⟩
      exact .nil _
    · cases h
      rfl
  | cons c cs ih =>
    rw [List.foldlM_cons, bind_eq_ok]
    simp only [step_eq_ok_iff, ih]
    constructor
    · rintro ⟨_, ⟨hl, ⟨hc, rfl⟩ | ⟨rfl, rfl⟩ | ⟨hc, rfl⟩⟩, h⟩
      · exact .stay hl hc h
      · exact .up hl h
      · exact .down hl hc h
    · intro h
      cases h with
      | stay hl hc h => exact ⟨_, ⟨hl, .inl ⟨hc, rfl⟩⟩, h⟩
      | up hl h => exact ⟨_, ⟨hl, .inr (.inl ⟨rfl, rfl⟩)⟩, h⟩
      | down hl hc h => exact ⟨_, ⟨hl, .inr (.inr ⟨hc, rfl⟩)⟩, h⟩

namespace Leads

theorem append {cs cs' : List String} {m : Location} (h : t.Leads l cs m) (h' : t.Leads m cs' l') :
    t.Leads l (cs ++ cs') l' := by
  induction h with
  | nil => exact h'
  | stay hl hc _ ih => exact .stay hl hc (ih h')
  | up hl _ ih => exact .up hl (ih h')
  | down hl hc _ ih => exact .down hl hc (ih h')

/-- What leads somewhere still does when no directory was lost. -/
theorem mono {cs : List String} (h : t.Leads l cs l')
    (hkeep : ∀ l, t.lookup? l = some .directory → after.lookup? l = some .directory) :
    after.Leads l cs l' := by
  induction h with
  | nil => exact .nil _
  | stay hl hc _ ih => exact .stay (hkeep _ hl) hc ih
  | up hl _ ih => exact .up (hkeep _ hl) ih
  | down hl hc _ ih => exact .down (hkeep _ hl) hc ih

end Leads

/-- A path lets a file be written at a place: it ends in a name, what comes before leads to a
directory, and nothing or a file has this name there. -/
inductive Admits (t : FileTree) (path : String) : Location → Prop
  | intro {parents : List String} {name : String} {directory : Location}
    (hpath : components path = parents ++ [name]) (hname : isName name)
    (hparents : t.Leads (t.start path) parents directory)
    (hdirectory : t.lookup? directory = some .directory)
    (hfree : t.lookup? (name :: directory) ≠ some .directory) : Admits t path (name :: directory)

/-- A path that ends in a name is not empty. -/
theorem ne_empty_of_components {parents : List String} {name : String}
    (hpath : components path = parents ++ [name]) (hname : isName name) : path ≠ "" := by
  rintro rfl
  have hlast : [] ++ [""] = parents ++ [name] := hpath
  obtain ⟨-, hempty⟩ := List.append_inj' hlast rfl
  exact (isName_iff.1 hname).1 (List.singleton_inj.1 hempty).symm

theorem resolveNew_eq_ok_iff : t.resolveNew path = .ok l ↔
    ∃ parents name directory, components path = parents ++ [name] ∧ isName name ∧
      t.Leads (t.start path) parents directory ∧ t.lookup? directory = some .directory ∧
      l = name :: directory := by
  -- a name at the end is what is left of the reversed components
  have hkept {parents : List String} {name : String} (hpath : components path = parents ++ [name])
      (hname : isName name) :
      (components path).reverse.dropWhile (· = "") = name :: parents.reverse := by
    rw [hpath, List.reverse_append, List.reverse_singleton, List.singleton_append]
    exact List.dropWhile_cons_of_neg (by simpa using (isName_iff.1 hname).1)
  constructor
  · intro h
    rw [resolveNew] at h
    split at h
    · cases h
    split at h
    · cases h
    case h_2 last parents hrest =>
      obtain ⟨directory, hdirectory, h⟩ := bind_eq_ok.1 h
      obtain ⟨place, hplace, h⟩ := bind_eq_ok.1 h
      split at h
      case isFalse => cases h
      case isTrue hlast =>
        cases h
        obtain ⟨name, hget, hname⟩ := (Option.any_eq_true _ _).1 hlast
        obtain ⟨parents', hpath⟩ := List.getLast?_eq_some_iff.1 hget
        rw [hkept hpath hname] at hrest
        obtain ⟨rfl, rfl⟩ := List.cons.inj hrest
        rw [List.reverse_reverse, walk_eq_ok_iff] at hdirectory
        obtain ⟨hentry, hstep⟩ := step_eq_ok_iff.1 hplace
        refine ⟨parents', name, directory, hpath, hname, hdirectory, hentry, ?_⟩
        have hne := isName_iff.1 hname
        grind
  · rintro ⟨parents, name, directory, hpath, hname, hparents, hentry, rfl⟩
    have hwalk := walk_eq_ok_iff.2 hparents
    have hstep := step_eq_ok_iff.2 ⟨hentry, .inr (.inr ⟨hname, rfl⟩)⟩
    have hlast : (components path).getLast?.any isName = true := by
      rw [hpath, List.getLast?_concat]
      exact hname
    rw [resolveNew, if_neg (ne_empty_of_components hpath hname), hkept hpath hname]
    dsimp only
    rw [List.reverse_reverse]
    exact bind_eq_ok.2 ⟨_, hwalk, bind_eq_ok.2 ⟨_, hstep, if_pos hlast⟩⟩

/-! ### What is in the tree afterwards -/

theorem lookup?_put_self (hl : l ≠ []) (e : FileEntry) :
    FileTree.lookup? (t.put l e) l = some e := by
  unfold lookup?
  rw [if_neg hl, put, List.lookup_cons_self]

theorem lookup?_put_of_ne (h : l' ≠ l) (e : FileEntry) :
    FileTree.lookup? (t.put l e) l' = t.lookup? l' := by
  have hfilter (es : List (Location × FileEntry)) :
      (es.filter (·.1 != l)).lookup l' = es.lookup l' := by
    induction es with
    | nil => rfl
    | cons e es ih =>
      rw [List.filter_cons, List.lookup_cons]
      split
      case isTrue hkeep => rw [List.lookup_cons, ih]
      case isFalse hdrop =>
        have hl : e.1 = l := by simpa using hdrop
        rw [ih, hl, beq_eq_false_iff_ne.2 h]
  unfold lookup?
  rw [put, List.lookup_cons, beq_eq_false_iff_ne.2 h]
  dsimp only
  rw [hfilter]

/-- **A file is written exactly where its path admits one**, and only this place changes. -/
theorem write_eq_ok_iff : t.write path bytes = .ok after ↔
    ∃ l, t.Admits path l ∧ after = t.put l (.file bytes) := by
  rw [write, bind_eq_ok]
  simp only [resolveNew_eq_ok_iff]
  constructor
  · rintro ⟨_, ⟨parents, name, directory, hpath, hname, hparents, hentry, rfl⟩, h⟩
    split at h
    · cases h
    case h_2 hfree =>
      cases h
      exact ⟨_, .intro hpath hname hparents hentry hfree, rfl⟩
  · rintro ⟨_, ⟨hpath, hname, hparents, hentry, hfree⟩, rfl⟩
    refine ⟨_, ⟨_, _, _, hpath, hname, hparents, hentry, rfl⟩, ?_⟩
    split
    · contradiction
    · rfl

/-- A path that admits no file is refused with some fault. -/
theorem exists_write_eq_error (h : ∀ l, ¬t.Admits path l) (bytes : List UInt8) :
    ∃ fault, t.write path bytes = .error fault := by
  cases hwrite : t.write path bytes with
  | error fault => exact ⟨fault, rfl⟩
  | ok after =>
    obtain ⟨l, hl, -⟩ := write_eq_ok_iff.1 hwrite
    exact absurd hl (h l)

theorem resolve_eq_ok_iff :
    t.resolve path = .ok l ↔ path ≠ "" ∧ t.Leads (t.start path) (components path) l := by
  rw [resolve]
  split <;> simp [walk_eq_ok_iff, *]

/-- What was written is read by the same path. -/
theorem read_put (h : t.Admits path l) (bytes : List UInt8) :
    (t.put l (.file bytes)).read path = .ok bytes := by
  obtain @⟨parents, name, directory, hpath, hname, hparents, hentry, hfree⟩ := h
  have hkeep (l : Location) (hl : t.lookup? l = some .directory) :
      (t.put (name :: directory) (.file bytes)).lookup? l = some .directory := by
    rw [lookup?_put_of_ne (by rintro rfl; exact hfree hl), hl]
  have hleads := (hparents.mono hkeep).append (.down (hkeep _ hentry) hname (.nil _))
  have hresolve : (t.put (name :: directory) (.file bytes)).resolve path =
      .ok (name :: directory) := by
    rw [resolve_eq_ok_iff, hpath]
    exact ⟨ne_empty_of_components hpath hname, hleads⟩
  exact bind_eq_ok.2 ⟨_, hresolve, by rw [lookup?_put_self (List.cons_ne_nil _ _)]⟩

end ActionTree.FileTree
