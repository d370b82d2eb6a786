import ActionTree.Proofs.Character.Import

/-!
# An import of an image does all or nothing

An import of an image changes a table in two steps, and can fail before the first one and between
them.  It leaves the table as it is, or there is one image more and one shape shows it.

* `Rect.IsResized` - bounds with the origin of others and a size in pixels, told in integers;
* `CharacterTable.AcceptsImage` - what an import asks of the table, the bytes and the tag code;
* `CharacterTable.IsNewImage` - the character that encoded bytes become;
* `Character.ShowsInstead` - a shape before and after it is filled with an image;
* `CharacterTable.InsertsImage` - a table with one image more in front of the shape that shows it;
* `CharacterTable.importImage_atomic` - an import inserts an image if it is accepted, and else
  leaves the table.
-/

namespace ActionTree

/-! ### Bounds -/

namespace Rect

/-- The greatest coordinate. -/
def limit : Int := 2147483647

/-- Bounds with the origin of others and a size in pixels.  Each side ends 20 twips per pixel behind
the origin, as far as 32 bits hold the extent and then the end. -/
structure IsResized (r : Rect) (width height : UInt32) (r' : Rect) : Prop where
  xMin : r'.xMin = r.xMin
  yMin : r'.yMin = r.yMin
  xMax : r'.xMax.toInt = min (r.xMin.toInt + min (20 * (width.toNat : Int)) limit) limit
  yMax : r'.yMax.toInt = min (r.yMin.toInt + min (20 * (height.toNat : Int)) limit) limit

/-- An integer above the least coordinate is kept up to the greatest one. -/
theorem toInt_saturate {i : Int} (h : -2147483648 ≤ i) : (saturate i).toInt = min i limit := by
  have hleast : Int32.minValue.toInt = -2147483648 := rfl
  have hgreatest : Int32.maxValue.toInt = limit := rfl
  rw [saturate, hleast, hgreatest, Int.max_eq_right (by simp only [limit]; omega)]
  exact Int32.toInt_ofInt_of_le (by simp only [limit]; omega) (by simp only [limit]; omega)

theorem toInt_twips (pixels : UInt32) :
    (twips pixels).toInt = min (20 * (pixels.toNat : Int)) limit := by
  rw [twips, toInt_saturate (by simp only [twipsPerPixel]; omega), twipsPerPixel, Int.mul_comm]

theorem isResized_resized (r : Rect) (width height : UInt32) :
    r.IsResized width height (r.resized width height) := by
  -- the end lies behind the origin, so it can only be too great
  have hend (least : Int32) (pixels : UInt32) :
      (saturate (least.toInt + (twips pixels).toInt)).toInt =
        min (least.toInt + min (20 * (pixels.toNat : Int)) limit) limit := by
    have hleast := least.le_toInt
    rw [toInt_twips, toInt_saturate (by simp only [limit]; omega)]
  exact ⟨rfl, rfl, hend r.xMin width, hend r.yMin height⟩

end Rect

/-! ### Shapes that show an image -/

/-- A shape before and after it is filled with an image.  Its bounds stay when the image is
stretched over them or has an empty side, and else take the size of the image. -/
structure Character.ShowsInstead (image : UInt16) (width height : UInt32) (stretch : Bool)
    (s s' : Character) : Prop where
  id_eq : s'.id = s.id
  code_eq : s'.code = s.code
  modified : s'.modified = true
  content : ∃ bounds fill bounds', s.content = .shape bounds fill ∧
    s'.content = .shape bounds' (some (.bitmap image)) ∧
    if stretch = false ∧ 0 < width ∧ 0 < height then bounds.IsResized width height bounds'
    else bounds' = bounds

theorem Character.showsInstead_filled_fitted (image : UInt16) (width height : UInt32)
    (stretch : Bool) {s : Character} (h : s.isShape = true) :
    ShowsInstead image width height stretch s
      ((if stretch then s else s.fitted width height).filled (.bitmap image)) := by
  obtain ⟨id, code, content, modified⟩ := s
  cases content with
  | shape bounds fill =>
    cases stretch with
    | true => exact ⟨rfl, rfl, rfl, bounds, fill, bounds, rfl, rfl, by simp⟩
    | false =>
      by_cases hsize : 0 < width ∧ 0 < height
      · have hshown : (Character.fitted width height ⟨id, code, .shape bounds fill, modified⟩) =
            ⟨id, code, .shape (bounds.resized width height) fill, modified⟩ := by
          simp [fitted, hsize]
        rw [if_neg Bool.false_ne_true, hshown]
        refine ⟨rfl, rfl, rfl, bounds, fill, _, rfl, rfl, ?_⟩
        rw [if_pos ⟨rfl, hsize⟩]
        exact bounds.isResized_resized width height
      · have hshown : (Character.fitted width height ⟨id, code, .shape bounds fill, modified⟩) =
            ⟨id, code, .shape bounds fill, modified⟩ := by
          simp [fitted, hsize]
        rw [if_neg Bool.false_ne_true, hshown]
        refine ⟨rfl, rfl, rfl, bounds, fill, bounds, rfl, rfl, ?_⟩
        rw [if_neg fun hfit => hsize hfit.2]
  | image | other => cases h

namespace CharacterTable

/-! ### New images -/

/-- The character that encoded bytes become.  Its id is one above the greatest in use, its code the
one that was asked for or else the one of its format, and its size zero where the header does not
tell it. -/
structure IsNewImage (t : CharacterTable) (bytes : List UInt8) (kind : TagCode)
    (width height : UInt32) (image : Character) : Prop where
  succ : ∃ c ∈ t.characters, image.id.toNat = c.id.toNat + 1
  above : ∀ c ∈ t.characters, c.id < image.id
  modified : image.modified = true
  content : ∃ format, ImageFormat.sniff bytes = some format ∧
    (width, height) = (format.size? bytes).getD (0, 0) ∧
    image.content = .image format width height bytes ∧
    image.code = if kind ≠ 0 then kind else if format = .jpeg then .jpegImage else .losslessImage

theorem detect_eq_ok_iff {name : String} {bytes : List UInt8} {format : ImageFormat} :
    ImageFormat.detect name bytes = .ok format ↔ ImageFormat.sniff bytes = some format := by
  rw [ImageFormat.detect]
  cases ImageFormat.sniff bytes <;> simp

/-- A new id is one above some id of the table, unless the table is empty. -/
theorem exists_of_nextId {t : CharacterTable} {id : UInt16} (h : t.nextId = .ok id)
    (hne : t.characters ≠ []) : ∃ c ∈ t.characters, id.toNat = c.id.toNat + 1 := by
  rw [nextId] at h
  split at h
  · rename_i hnone
    rw [greatestId?, List.max?_eq_none_iff, List.map_eq_nil_iff] at hnone
    exact absurd hnone hne
  · rename_i m hmax
    split at h
    · rename_i hsize
      cases h
      obtain ⟨c, hc, rfl⟩ := List.mem_map.1 (List.max?_eq_some_iff.1 hmax).1
      exact ⟨c, hc, UInt16.toNat_ofNat_of_lt' hsize⟩
    · cases h

/-- There is a new id as long as the last one is not in use. -/
theorem isOk_nextId_iff {t : CharacterTable} :
    (∃ id, t.nextId = .ok id) ↔ ∀ c ∈ t.characters, c.id.toNat + 1 < UInt16.size := by
  have hmem (c : Character) (hc : c ∈ t.characters) : c.id.toNat ∈ t.characters.map (·.id.toNat) :=
    List.mem_map_of_mem hc
  rw [nextId]
  cases hmax : t.greatestId? with
  | none =>
    rw [greatestId?, List.max?_eq_none_iff, List.map_eq_nil_iff] at hmax
    simp [hmax]
  | some m =>
    obtain ⟨hgreatest, hle⟩ := List.max?_eq_some_iff.1 hmax
    dsimp only
    constructor
    · rintro ⟨id, hid⟩ c hc
      split at hid
      · have hcm := hle _ (hmem c hc)
        omega
      · cases hid
    · intro hroom
      obtain ⟨c, hc, rfl⟩ := List.mem_map.1 hgreatest
      exact ⟨_, if_pos (hroom c hc)⟩

theorem isOk_imageCode_iff {format : ImageFormat} {kind : TagCode} :
    (∃ code, imageCode format kind = .ok code) ↔ kind = 0 ∨ kind.isImage = true := by
  unfold imageCode
  split
  · simp_all
  · split <;> simp_all

theorem imageCode_ok {format : ImageFormat} {kind code : TagCode}
    (h : imageCode format kind = .ok code) :
    code = if kind ≠ 0 then kind else if format = .jpeg then .jpegImage else .losslessImage := by
  unfold imageCode at h
  split at h
  · rename_i hkind
    cases h
    rw [if_neg (not_not_intro hkind)]
  · rename_i hkind
    rw [if_pos hkind]
    split at h
    · cases h
      rfl
    · cases h

/-! ### Imports -/

/-- What an import asks for: bytes of a known format, a shape that is the first character with the
id, a tag code of images or none, and an id above all others. -/
structure AcceptsImage (t : CharacterTable) (shape : UInt16) (bytes : List UInt8) (kind : TagCode) :
    Prop where
  format : ∃ format, ImageFormat.sniff bytes = some format
  shape : ∃ before s after, HasFirst shape t.characters before s after ∧ s.isShape = true
  kind : kind = 0 ∨ kind.isImage = true
  room : ∀ c ∈ t.characters, c.id.toNat + 1 < UInt16.size

/-- A table after an image came in front of the first character with an id, a shape that now shows
it.  All other characters are as they were. -/
def InsertsImage (t : CharacterTable) (shape : UInt16) (bytes : List UInt8) (kind : TagCode)
    (stretch : Bool) (id : UInt16) (t' : CharacterTable) : Prop :=
  ∃ before s after image s' width height,
    HasFirst shape t.characters before s after ∧
      t'.characters = before ++ image :: s' :: after ∧
      image.id = id ∧ t.IsNewImage bytes kind width height image ∧
      s.ShowsInstead id width height stretch s'

/-- An image is made when the import is accepted. -/
theorem isOk_newImage_iff {t : CharacterTable} {shape : UInt16} {bytes : List UInt8}
    {kind : TagCode} :
    (∃ image, t.newImage shape bytes kind = .ok image) ↔ t.AcceptsImage shape bytes kind := by
  constructor
  · rintro ⟨image, h⟩
    unfold newImage at h
    obtain ⟨format, hformat, h⟩ := bind_eq_ok.1 h
    obtain ⟨s, hs, h⟩ := bind_eq_ok.1 h
    obtain ⟨code, hcode, h⟩ := bind_eq_ok.1 h
    obtain ⟨id, hid, -⟩ := bind_eq_ok.1 h
    obtain ⟨hshape, before, after, hfirst⟩ := hasFirst_of_shape? hs
    exact
      { format := ⟨format, detect_eq_ok_iff.1 hformat⟩
        shape := ⟨before, s, after, hfirst, hshape⟩
        kind := isOk_imageCode_iff.1 ⟨code, hcode⟩
        room := isOk_nextId_iff.1 ⟨id, hid⟩ }
  · rintro ⟨⟨format, hformat⟩, ⟨before, s, after, hfirst, hshape⟩, hkind, hroom⟩
    obtain ⟨code, hcode⟩ : ∃ code, imageCode format kind = .ok code :=
      isOk_imageCode_iff.2 hkind
    obtain ⟨id, hid⟩ := isOk_nextId_iff.2 hroom
    refine ⟨_, bind_eq_ok.2 ⟨format, detect_eq_ok_iff.2 hformat, bind_eq_ok.2 ⟨s, ?_,
      bind_eq_ok.2 ⟨code, hcode, bind_eq_ok.2 ⟨id, hid, rfl⟩⟩⟩⟩⟩
    exact hfirst.shape? hshape

/-- The image that is made is a new one of the bytes. -/
theorem isNewImage_of_newImage {t : CharacterTable} {shape : UInt16} {bytes : List UInt8}
    {kind : TagCode} {image : Character} (h : t.newImage shape bytes kind = .ok image) :
    ∃ format width height, image.content = .image format width height bytes ∧
      t.IsNewImage bytes kind width height image := by
  have habove := (newImage_ok h).2.1
  unfold newImage at h
  obtain ⟨format, hformat, h⟩ := bind_eq_ok.1 h
  obtain ⟨s, hs, h⟩ := bind_eq_ok.1 h
  obtain ⟨code, hcode, h⟩ := bind_eq_ok.1 h
  obtain ⟨id, hid, h⟩ := bind_eq_ok.1 h
  cases h
  have hne : t.characters ≠ [] := by
    obtain ⟨-, before, after, hfirst⟩ := hasFirst_of_shape? hs
    rw [hfirst.split]
    simp
  exact ⟨format, _, _, rfl, exists_of_nextId hid hne, habove, rfl, format,
    detect_eq_ok_iff.1 hformat, rfl, rfl, imageCode_ok hcode⟩

/-- **An import of an image does all or nothing.**  It succeeds when it is accepted.  If it fails,
the table is as it was.  If it succeeds, the new image stands in front of the first character with
the shape's id, which is a shape and shows the image, and all other characters are as they were. -/
theorem importImage_atomic (t : CharacterTable) (shape : UInt16) (bytes : List UInt8)
    (kind : TagCode) (stretch : Bool) :
    ((∃ id t', t.importImage shape bytes kind stretch = (.ok id, t')) ↔
        t.AcceptsImage shape bytes kind) ∧
      (∀ e t', t.importImage shape bytes kind stretch = (.error e, t') → t' = t) ∧
      ∀ id t', t.importImage shape bytes kind stretch = (.ok id, t') →
        t.InsertsImage shape bytes kind stretch id t' := by
  obtain ⟨e, herror⟩ | ⟨before, s, after, image, hfirst, hshape, hnew, hok⟩ :=
    t.importImage_cases shape bytes kind stretch
  · refine ⟨⟨?_, ?_⟩, ?_, ?_⟩
    · rintro ⟨id, t', hid⟩
      rw [herror] at hid
      cases hid
    · intro haccepts
      obtain ⟨image, hnew⟩ := isOk_newImage_iff.2 haccepts
      obtain ⟨before, s, after, -, -, hok⟩ := importImage_of_newImage hnew stretch
      exact ⟨_, _, hok⟩
    · intro e' t' h
      rw [herror] at h
      cases h
      rfl
    · intro id t' h
      rw [herror] at h
      cases h
  · refine ⟨⟨?_, ?_⟩, ?_, ?_⟩
    · intro _
      exact isOk_newImage_iff.1 ⟨image, hnew⟩
    · intro _
      exact ⟨_, _, hok⟩
    · intro e t' h
      rw [hok] at h
      cases h
    · intro id t' h
      rw [hok] at h
      cases h
      obtain ⟨format, width, height, hcontent, hisNew⟩ := isNewImage_of_newImage hnew
      refine ⟨before, s, after, image, showImage image stretch s, width, height, hfirst, rfl, rfl,
        hisNew, ?_⟩
      have hshown : showImage image stretch s =
          (if stretch then s else s.fitted width height).filled (.bitmap image.id) := by
        rw [showImage, hcontent]
      rw [hshown]
      exact Character.showsInstead_filled_fitted image.id width height stretch hshape

/-- A GIF header of 4 times 3 pixels. -/
def smallGif : List UInt8 := [0x47, 0x49, 0x46, 0x38, 0x39, 0x61, 4, 0, 3, 0]

/-- A table with some characters in front of a shape with the id 5. -/
def twinShapes (first : List Character) : CharacterTable :=
  ⟨⟨2, .jpegImage, .image .jpeg 0 0 [0xff, 0xd8], false⟩ :: first ++
    [⟨7, 39, .other, false⟩, .ofBounds 5 .shape .zero]⟩

/-- A shape with the same id that begins less than 4 pixels before the greatest coordinate. -/
def nearLimit : Character :=
  ⟨5, .shape3, .shape ⟨2147483600, -20, 0, 0⟩ (some (.bitmap 2)), false⟩

/-- The shape and its image, whose tag code is the one of its format. -/
def nearLimitFilled : List Character :=
  [⟨8, .losslessImage, .image .gif 4 3 smallGif, true⟩,
    ⟨5, .shape3, .shape ⟨2147483600, -20, 2147483647, 40⟩ (some (.bitmap 8)), true⟩]

/-- The first of the two shapes is filled; for a tag code of shapes nothing happens. -/
theorem importImage_atomic_twinShapes :
    (twinShapes [nearLimit]).AcceptsImage 5 smallGif 0 ∧
      (twinShapes [nearLimit]).importImage 5 smallGif 0 false =
        (.ok 8, twinShapes nearLimitFilled) ∧
      (twinShapes [nearLimit]).InsertsImage 5 smallGif 0 false 8 (twinShapes nearLimitFilled) ∧
      ∃ e t', (twinShapes [nearLimit]).importImage 5 smallGif .shape4 false = (.error e, t') ∧
        t' = twinShapes [nearLimit] := by
  have hok : (twinShapes [nearLimit]).importImage 5 smallGif 0 false =
      (.ok 8, twinShapes nearLimitFilled) := by
    decide +kernel
  have hfail : (twinShapes [nearLimit]).importImage 5 smallGif .shape4 false =
      (.error (.config "unsupported image tag kind 83"), twinShapes [nearLimit]) := by
    decide +kernel
  obtain ⟨haccepts, -, hinserts⟩ := importImage_atomic (twinShapes [nearLimit]) 5 smallGif 0 false
  obtain ⟨-, hkeeps, -⟩ := importImage_atomic (twinShapes [nearLimit]) 5 smallGif .shape4 false
  exact ⟨haccepts.1 ⟨8, _, hok⟩, hok, hinserts 8 _ hok, _, _, hfail, hkeeps _ _ hfail⟩

end CharacterTable

end ActionTree
