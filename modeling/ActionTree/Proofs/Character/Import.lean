import ActionTree.Character.Import
import Mathlib.Data.List.Basic

/-!
# What an import does

An import looks for the first character with an id.  If it is a shape and nothing else is wrong,
this character changes and at most an image comes in front of it.

* `CharacterTable.HasFirst` - the first character with an id, between the others;
* `CharacterTable.lt_of_nextId` - a new id is above all others;
* `CharacterTable.importImage_of_newImage` - once an image is made, nothing fails any more;
* `CharacterTable.importImage_cases`, `CharacterTable.importSvg_cases` - all that an import can do.
-/

namespace ActionTree

namespace CharacterTable

/-! ### The first character with an id -/

/-- The first character with an id, with those before it and those after it. -/
structure HasFirst (id : UInt16) (characters before : List Character) (c : Character)
    (after : List Character) : Prop where
  split : characters = before ++ c :: after
  fresh : ∀ d ∈ before, d.id ≠ id
  id_eq : c.id = id

theorem hasFirst_of_find? {id : UInt16} {cs : List Character} {c : Character}
    (h : cs.find? (·.id == id) = some c) : ∃ before after, HasFirst id cs before c after := by
  obtain ⟨hid, before, after, hsplit, hfresh⟩ := List.find?_eq_some_iff_append.1 h
  exact ⟨before, after, hsplit, fun d hd => by simpa using hfresh d hd, by simpa using hid⟩

theorem HasFirst.insertBeforeFirst? {id : UInt16} {cs before after : List Character}
    {c : Character} (h : HasFirst id cs before c after) (new : Character) :
    insertBeforeFirst? id new cs = some (before ++ new :: c :: after) := by
  obtain ⟨rfl, hfresh, hid⟩ := h
  induction before with
  | nil => rw [List.nil_append, ActionTree.insertBeforeFirst?, if_pos hid, List.nil_append]
  | cons d before ih =>
    have hd : d.id ≠ id := hfresh d (by simp)
    rw [List.cons_append, ActionTree.insertBeforeFirst?, if_neg hd,
      ih fun e he => hfresh e (List.mem_cons_of_mem d he)]
    rfl

theorem HasFirst.modifyFirst {id : UInt16} {cs before after : List Character} {c : Character}
    (h : HasFirst id cs before c after) (change : Character → Character) :
    modifyFirst id change cs = before ++ change c :: after := by
  obtain ⟨rfl, hfresh, hid⟩ := h
  induction before with
  | nil => rw [List.nil_append, ActionTree.modifyFirst, if_pos hid, List.nil_append]
  | cons d before ih =>
    have hd : d.id ≠ id := hfresh d (by simp)
    rw [List.cons_append, ActionTree.modifyFirst, if_neg hd,
      ih fun e he => hfresh e (List.mem_cons_of_mem d he), List.cons_append]

/-- A character of another id in front does not get in the way. -/
theorem HasFirst.behind {id : UInt16} {cs before after : List Character} {c new : Character}
    (h : HasFirst id cs before c after) (hnew : new.id ≠ id) :
    HasFirst id (before ++ new :: c :: after) (before ++ [new]) c after where
  split := by simp
  fresh := by
    intro d hd
    rcases List.mem_append.1 hd with hd | hd
    · exact h.fresh d hd
    · rw [List.mem_singleton.1 hd]
      exact hnew
  id_eq := h.id_eq

/-- The first character with an id is found, if it is a shape. -/
theorem HasFirst.shape? {id : UInt16} {cs before after : List Character} {c : Character}
    (h : HasFirst id cs before c after) (hshape : c.isShape = true) :
    CharacterTable.shape? ⟨cs⟩ id = .ok c := by
  have hfind : cs.find? (·.id == id) = some c := by
    rw [List.find?_eq_some_iff_append]
    exact ⟨by simp [h.id_eq], before, after, h.split, fun d hd => by simp [h.fresh d hd]⟩
  rw [CharacterTable.shape?, CharacterTable.find?, hfind]
  dsimp only
  rw [if_pos hshape]

/-- The shape with an id is the first character with that id. -/
theorem hasFirst_of_shape? {t : CharacterTable} {id : UInt16} {s : Character}
    (h : t.shape? id = .ok s) :
    s.isShape = true ∧ ∃ before after, HasFirst id t.characters before s after := by
  rw [shape?] at h
  split at h
  · cases h
  · rename_i c hfind
    split at h
    · rename_i hshape
      cases h
      exact ⟨hshape, hasFirst_of_find? hfind⟩
    · cases h

/-! ### New ids -/

/-- A new id is above all others. -/
theorem lt_of_nextId {t : CharacterTable} {id : UInt16} (h : t.nextId = .ok id) :
    ∀ c ∈ t.characters, c.id < id := by
  intro c hc
  have hmem : c.id.toNat ∈ t.characters.map (·.id.toNat) := List.mem_map_of_mem hc
  rw [nextId] at h
  split at h
  · rename_i hnone
    rw [greatestId?, List.max?_eq_none_iff] at hnone
    rw [hnone] at hmem
    cases hmem
  · rename_i m hmax
    split at h
    · rename_i hsize
      cases h
      have hle : c.id.toNat ≤ m := (List.max?_eq_some_iff.1 hmax).2 _ hmem
      rw [UInt16.lt_iff_toNat_lt, UInt16.toNat_ofNat_of_lt' hsize]
      omega
    · cases h

/-! ### Images -/

/-- A new image belongs to a shape of the table, and its id is above all others. -/
theorem newImage_ok {t : CharacterTable} {shape : UInt16} {bytes : List UInt8} {kind : TagCode}
    {image : Character} (h : t.newImage shape bytes kind = .ok image) :
    image.isImage = true ∧ (∀ c ∈ t.characters, c.id < image.id) ∧
      ∃ s, t.shape? shape = .ok s := by
  unfold newImage at h
  obtain ⟨format, -, h⟩ := bind_eq_ok.1 h
  obtain ⟨s, hs, h⟩ := bind_eq_ok.1 h
  obtain ⟨code, -, h⟩ := bind_eq_ok.1 h
  obtain ⟨id, hid, h⟩ := bind_eq_ok.1 h
  cases h
  exact ⟨rfl, lt_of_nextId hid, s, hs⟩

/-- The table with a new image in front of a shape, where the shape is found again and shows it. -/
theorem insertBefore?_modify {t : CharacterTable} {shape : UInt16} {before after : List Character}
    {s image : Character} (h : HasFirst shape t.characters before s after)
    (hshape : s.isShape = true) (himage : image.id ≠ shape) (change : Character → Character) :
    ∃ inserted, t.insertBefore? shape image = .ok inserted ∧ inserted.shape? shape = .ok s ∧
      inserted.modify shape change = ⟨before ++ image :: change s :: after⟩ := by
  refine ⟨⟨before ++ image :: s :: after⟩, ?_, ?_, ?_⟩
  · rw [insertBefore?, h.insertBeforeFirst?]
  · exact (h.behind himage).shape? hshape
  · rw [modify, (h.behind himage).modifyFirst, List.append_assoc]
    rfl

/-- Once the image is made, nothing fails any more: the image comes in front of the first character
with the shape's id, which is a shape and shows it. -/
theorem importImage_of_newImage {t : CharacterTable} {shape : UInt16} {bytes : List UInt8}
    {kind : TagCode} {image : Character} (h : t.newImage shape bytes kind = .ok image)
    (stretch : Bool) :
    ∃ before s after, HasFirst shape t.characters before s after ∧ s.isShape = true ∧
      t.importImage shape bytes kind stretch =
        (.ok image.id, ⟨before ++ image :: showImage image stretch s :: after⟩) := by
  obtain ⟨-, habove, s, hs⟩ := newImage_ok h
  obtain ⟨hshape, before, after, hfirst⟩ := hasFirst_of_shape? hs
  -- the new id is another one, so both lookups behind the image find the same shape
  have hne : image.id ≠ shape := by
    have hlt : s.id < image.id := habove s (by rw [hfirst.split]; simp)
    rw [hfirst.id_eq] at hlt
    exact (UInt16.ne_of_lt hlt).symm
  obtain ⟨inserted, hinsert, hagain, hmodify⟩ :=
    insertBefore?_modify hfirst hshape hne (showImage image stretch)
  refine ⟨before, s, after, hfirst, hshape, ?_⟩
  rw [importImage, h]
  dsimp only
  rw [hinsert]
  dsimp only
  rw [hagain]
  dsimp only
  rw [hmodify]

/-- An import of an image fails and leaves the table, or puts a new image in front of the first
character with the shape's id, which is a shape and shows the image. -/
theorem importImage_cases (t : CharacterTable) (shape : UInt16) (bytes : List UInt8)
    (kind : TagCode) (stretch : Bool) :
    (∃ e, t.importImage shape bytes kind stretch = (.error e, t)) ∨
      ∃ before s after image, HasFirst shape t.characters before s after ∧ s.isShape = true ∧
        t.newImage shape bytes kind = .ok image ∧ t.importImage shape bytes kind stretch =
          (.ok image.id, ⟨before ++ image :: showImage image stretch s :: after⟩) := by
  cases hnew : t.newImage shape bytes kind with
  | error e =>
    left
    exact ⟨e, by rw [importImage, hnew]⟩
  | ok image =>
    right
    obtain ⟨before, s, after, hfirst, hshape, hok⟩ := importImage_of_newImage hnew stretch
    exact ⟨before, s, after, image, hfirst, hshape, rfl, hok⟩

/-! ### Drawings -/

/-- An import of a drawing fails and leaves the table, or fills the first character with the shape's
id, which is a shape. -/
theorem importSvg_cases (t : CharacterTable) (shape : UInt16) (svg : String) :
    (∃ e, t.importSvg shape svg = (.error e, t)) ∨
      ∃ before s after, HasFirst shape t.characters before s after ∧ s.isShape = true ∧
        t.importSvg shape svg = (.ok (), ⟨before ++ s.filled (.vector svg) :: after⟩) := by
  cases hs : t.shape? shape with
  | error e =>
    left
    exact ⟨e, by rw [importSvg, hs]⟩
  | ok s =>
    right
    obtain ⟨hshape, before, after, hfirst⟩ := hasFirst_of_shape? hs
    refine ⟨before, s, after, hfirst, hshape, ?_⟩
    rw [importSvg, hs]
    dsimp only
    rw [modify, hfirst.modifyFirst]

end CharacterTable

end ActionTree
