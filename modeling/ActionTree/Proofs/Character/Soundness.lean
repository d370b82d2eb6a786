import ActionTree.Command.ImportShapes
import ActionTree.Proofs.Character.Import
import Mathlib.Data.List.Nodup
import Mathlib.Logic.Relation

/-!
# Soundness of character tables

A table is sound when no two characters share an id and every shape that shows an image stands
behind this image.  Imports, whether they succeed or fail, take sound tables to sound tables.  They
keep the characters in their order, and all that they add are images with ids above those in use.

* `CharacterTable.IsSound` - sound tables;
* `CharacterTable.Grows` - images with new ids come in one after another;
* `ImportCall.tables` - the tables after each of some calls;
* `ImportCall.tables_isSound` - these tables are sound, and each one grows from those before it.
-/

namespace ActionTree

/-! ### Lists whose entries depend on those in front -/

/-- Each entry of a list has a property together with the entries in front of it. -/
def EachBehind {α : Type} (p : List α → α → Prop) (as : List α) : Prop :=
  ∀ before a after, as = before ++ a :: after → p before a

section EachBehind

variable {α : Type} {p q : List α → α → Prop} {a : α} {as bs : List α}

@[simp] theorem eachBehind_nil : EachBehind p [] := by
  intro before a after h
  simp at h

@[simp] theorem eachBehind_cons :
    EachBehind p (a :: as) ↔ p [] a ∧ EachBehind (fun before => p (a :: before)) as := by
  constructor
  · intro h
    refine ⟨h [] a as rfl, fun before b after hb => ?_⟩
    exact h (a :: before) b after (by rw [hb, List.cons_append])
  · rintro ⟨ha, has⟩ before b after h
    cases before with
    | nil =>
      cases h
      exact ha
    | cons c before =>
      cases h
      exact has before b after rfl

theorem eachBehind_append :
    EachBehind p (as ++ bs) ↔ EachBehind p as ∧ EachBehind (fun before => p (as ++ before)) bs := by
  induction as generalizing p with
  | nil => simp
  | cons a as ih => simp [ih, and_assoc]

theorem EachBehind.imp (h : EachBehind p as) (hpq : ∀ before a, p before a → q before a) :
    EachBehind q as :=
  fun before a after has => hpq before a (h before a after has)

end EachBehind

/-! ### Outlines -/

namespace Character

/-- What imports keep of a character: its id, its tag code and whether it is an image. -/
def outline (c : Character) : UInt16 × TagCode × Bool := (c.id, c.code, c.isImage)

/-- The id of the image that a shape shows. -/
def bitmap? (c : Character) : Option UInt16 :=
  match c.content with
  | .shape _ (some (.bitmap image)) => some image
  | _ => none

theorem id_eq_of_outline {c d : Character} (h : c.outline = d.outline) : c.id = d.id :=
  congrArg Prod.fst h

theorem isImage_eq_of_outline {c d : Character} (h : c.outline = d.outline) :
    c.isImage = d.isImage :=
  congrArg (fun o => o.2.2) h

theorem bitmap?_eq_none {c : Character} (h : c.isImage = true) : c.bitmap? = none := by
  obtain ⟨id, code, content, modified⟩ := c
  cases content with
  | image format width height data => rfl
  | shape bounds fill => cases h
  | other => cases h

@[simp] theorem outline_filled (fill : Fill) (c : Character) :
    (c.filled fill).outline = c.outline := by
  obtain ⟨id, code, content, modified⟩ := c
  cases content <;> rfl

@[simp] theorem outline_fitted (width height : UInt32) (c : Character) :
    (c.fitted width height).outline = c.outline := by
  obtain ⟨id, code, content, modified⟩ := c
  cases content with
  | shape bounds fill =>
    dsimp only [fitted]
    split <;> rfl
  | image format width height data => rfl
  | other => rfl

theorem bitmap?_filled_vector (svg : String) {c : Character} (h : c.isShape = true) :
    (c.filled (.vector svg)).bitmap? = none := by
  obtain ⟨id, code, content, modified⟩ := c
  cases content with
  | shape bounds fill => rfl
  | image format width height data => cases h
  | other => cases h

theorem bitmap?_filled_bitmap (image : UInt16) {c : Character} {i : UInt16}
    (h : (c.filled (.bitmap image)).bitmap? = some i) : i = image := by
  obtain ⟨id, code, content, modified⟩ := c
  cases content with
  | shape bounds fill =>
    cases h
    rfl
  | image format width height data => cases h
  | other => cases h

end Character

namespace CharacterTable

@[simp] theorem outline_showImage (image : Character) (stretch : Bool) (s : Character) :
    (showImage image stretch s).outline = s.outline := by
  rw [showImage]
  split
  · cases stretch <;> simp
  · rfl

/-- A shape that shows an image shows this one. -/
theorem bitmap?_showImage {image s : Character} {stretch : Bool} {i : UInt16}
    (himage : image.isImage = true) (h : (showImage image stretch s).bitmap? = some i) :
    i = image.id := by
  obtain ⟨id, code, content, modified⟩ := image
  cases content with
  | image format width height data => exact Character.bitmap?_filled_bitmap _ h
  | shape bounds fill => cases himage
  | other => cases himage

/-! ### Sound tables -/

/-- The image that a character shows, if any, is among some others. -/
def ShowsOneOf (earlier : List Character) (c : Character) : Prop :=
  ∀ i, c.bitmap? = some i → ∃ d ∈ earlier, d.isImage = true ∧ d.id = i

theorem ShowsOneOf.mono {earlier earlier' : List Character} {c : Character}
    (h : ShowsOneOf earlier c)
    (hsub : earlier.map Character.outline ⊆ earlier'.map Character.outline) :
    ShowsOneOf earlier' c := by
  intro i hi
  obtain ⟨d, hd, himage, hid⟩ := h i hi
  obtain ⟨d', hd', houtline⟩ := List.mem_map.1 (hsub (List.mem_map_of_mem hd))
  exact ⟨d', hd', (Character.isImage_eq_of_outline houtline).trans himage,
    (Character.id_eq_of_outline houtline).trans hid⟩

/-- No two characters share an id, and every shape that shows an image stands behind it. -/
structure IsSound (t : CharacterTable) : Prop where
  distinct : (t.characters.map Character.id).Nodup
  shown : EachBehind ShowsOneOf t.characters

/-- The outlines of all characters. -/
def outlines (t : CharacterTable) : List (UInt16 × TagCode × Bool) :=
  t.characters.map Character.outline

/-- Nothing is added, or one image with an id above all others. -/
inductive Change (t t' : CharacterTable) : Prop
  | same (h : t'.outlines = t.outlines)
  | added (before after : List (UInt16 × TagCode × Bool)) (image : Character)
      (hold : t.outlines = before ++ after) (hnew : t'.outlines = before ++ image.outline :: after)
      (himage : image.isImage = true) (habove : ∀ c ∈ t.characters, c.id < image.id)

/-- Images come in one after another, each with an id above all that are there by then. -/
def Grows : CharacterTable → CharacterTable → Prop := Relation.ReflTransGen Change

theorem Change.outlines_sublist {t t' : CharacterTable} (h : Change t t') :
    t.outlines.Sublist t'.outlines := by
  cases h with
  | same h => rw [h]
  | added before after image hold hnew himage habove =>
    rw [hold, hnew]
    exact (List.Sublist.refl before).append (List.sublist_cons_self image.outline after)

/-- The characters stay in their order, with their ids and codes. -/
theorem Grows.outlines_sublist {t t' : CharacterTable} (h : Grows t t') :
    t.outlines.Sublist t'.outlines := by
  induction h with
  | refl => exact List.Sublist.refl _
  | tail _ hstep ih => exact ih.trans hstep.outlines_sublist

/-! ### One change -/

section Step

variable {t : CharacterTable} {before after : List Character} {s s' image : Character}

/-- A character that keeps its outline and shows nothing new may take the place of another. -/
theorem IsSound.replace (ht : t.IsSound) (hsplit : t.characters = before ++ s :: after)
    (hs : s'.outline = s.outline) (hshows : ShowsOneOf before s') :
    IsSound ⟨before ++ s' :: after⟩ ∧ Change t ⟨before ++ s' :: after⟩ := by
  have hid : s'.id = s.id := Character.id_eq_of_outline hs
  obtain ⟨hdistinct, hshown⟩ := ht
  rw [hsplit] at hdistinct hshown
  rw [eachBehind_append, eachBehind_cons] at hshown
  obtain ⟨hbefore, -, hafter⟩ := hshown
  refine ⟨⟨by simpa [hid] using hdistinct, ?_⟩, .same ?_⟩
  · rw [eachBehind_append, eachBehind_cons]
    refine ⟨hbefore, by simpa using hshows, hafter.imp fun earlier c hc => hc.mono ?_⟩
    simp [hs]
  · rw [outlines, outlines, hsplit]
    simp [hs]

/-- An image with a new id may come in anywhere, and the character behind it may show it. -/
theorem IsSound.insert (ht : t.IsSound) (hsplit : t.characters = before ++ s :: after)
    (himage : image.isImage = true) (habove : ∀ c ∈ t.characters, c.id < image.id)
    (hs : s'.outline = s.outline) (hshows : ShowsOneOf (before ++ [image]) s') :
    IsSound ⟨before ++ image :: s' :: after⟩ ∧
      Change t ⟨before ++ image :: s' :: after⟩ := by
  have hid : s'.id = s.id := Character.id_eq_of_outline hs
  have hfresh : image.id ∉ t.characters.map Character.id := by
    intro hmem
    obtain ⟨c, hc, hcid⟩ := List.mem_map.1 hmem
    exact UInt16.ne_of_lt (habove c hc) hcid
  obtain ⟨hdistinct, hshown⟩ := ht
  rw [hsplit, eachBehind_append, eachBehind_cons] at hshown
  obtain ⟨hbefore, -, hafter⟩ := hshown
  refine ⟨⟨?_, ?_⟩, .added (before.map Character.outline) ((s :: after).map Character.outline)
    image ?_ ?_ himage habove⟩
  · rw [hsplit] at hdistinct hfresh
    rw [List.map_append, List.map_cons, List.nodup_middle]
    simp only [List.map_append, List.map_cons, hid] at hdistinct hfresh ⊢
    exact List.nodup_cons.2 ⟨hfresh, hdistinct⟩
  · rw [eachBehind_append, eachBehind_cons, eachBehind_cons]
    refine ⟨hbefore, ?_, hshows, hafter.imp fun earlier c hc => hc.mono ?_⟩
    · intro i hi
      rw [Character.bitmap?_eq_none himage] at hi
      cases hi
    · intro o ho
      simp only [List.map_append, List.map_cons, hs, List.mem_append, List.mem_cons] at ho ⊢
      tauto
  · rw [outlines, hsplit, List.map_append]
  · simp [outlines, hs]

end Step

/-! ### Imports -/

/-- What is said of an import into a sound table: the table after it is sound and grown from the one
before. -/
def KeepsSound (t t' : CharacterTable) : Prop := t.IsSound → t'.IsSound ∧ Grows t t'

theorem KeepsSound.refl (t : CharacterTable) : KeepsSound t t :=
  fun ht => ⟨ht, .refl⟩

theorem KeepsSound.trans {t t' t'' : CharacterTable} (h : KeepsSound t t')
    (h' : KeepsSound t' t'') : KeepsSound t t'' := by
  intro ht
  obtain ⟨ht', hgrows⟩ := h ht
  obtain ⟨ht'', hgrows'⟩ := h' ht'
  exact ⟨ht'', hgrows.trans hgrows'⟩

theorem importImage_keepsSound (t : CharacterTable) (shape : UInt16) (bytes : List UInt8)
    (kind : TagCode) (stretch : Bool) :
    KeepsSound t (t.importImage shape bytes kind stretch).2 := by
  intro ht
  obtain ⟨e, he⟩ | ⟨before, s, after, image, hfirst, -, hnew, hok⟩ :=
    t.importImage_cases shape bytes kind stretch
  · rw [he]
    exact KeepsSound.refl t ht
  · obtain ⟨himage, habove, -⟩ := newImage_ok hnew
    have hshows : ShowsOneOf (before ++ [image]) (showImage image stretch s) := by
      intro i hi
      exact ⟨image, by simp, himage, (bitmap?_showImage himage hi).symm⟩
    obtain ⟨hsound, hchange⟩ :=
      ht.insert hfirst.split himage habove (outline_showImage image stretch s) hshows
    rw [hok]
    exact ⟨hsound, .single hchange⟩

theorem importSvg_keepsSound (t : CharacterTable) (shape : UInt16) (svg : String) :
    KeepsSound t (t.importSvg shape svg).2 := by
  intro ht
  obtain ⟨e, he⟩ | ⟨before, s, after, hfirst, hshape, hok⟩ := t.importSvg_cases shape svg
  · rw [he]
    exact KeepsSound.refl t ht
  · have hshows : ShowsOneOf before (s.filled (.vector svg)) := by
      intro i hi
      rw [Character.bitmap?_filled_vector svg hshape] at hi
      cases hi
    obtain ⟨hsound, hchange⟩ :=
      ht.replace hfirst.split (Character.outline_filled (.vector svg) s) hshows
    rw [hok]
    exact ⟨hsound, .single hchange⟩

theorem importFile_keepsSound (t : CharacterTable) (id : UInt16) (f : ImportFile)
    (stretch : Bool) : KeepsSound t (t.importFile id f stretch).2 := by
  rw [importFile]
  split
  · exact KeepsSound.refl t
  · split
    · split
      · exact importSvg_keepsSound t id _
      · exact KeepsSound.refl t
    · exact importImage_keepsSound t id _ 0 stretch

theorem importSelected_keepsSound (stretch : Bool) (raised : Nat → Bool)
    (chosen : List (UInt16 × ImportFile)) (report : ImportReport) (t : CharacterTable) :
    KeepsSound t (importSelected stretch raised chosen report t).2 := by
  induction chosen generalizing raised report t with
  | nil => exact KeepsSound.refl t
  | cons file rest ih =>
    obtain ⟨id, f⟩ := file
    have hfile := importFile_keepsSound t id f stretch
    rw [importSelected]
    split
    · exact KeepsSound.refl t
    · split
      all_goals
        rename_i after hafter
        rw [hafter] at hfile
        exact hfile.trans (ih _ _ after)

theorem importDirectoryUnder_keepsSound (files : Files) (directory : String) (t : CharacterTable)
    (stretch : Bool) (raised : Nat → Bool) :
    KeepsSound t (importDirectoryUnder files directory t stretch raised).2 := by
  rw [importDirectoryUnder]
  split
  · exact KeepsSound.refl t
  · exact importSelected_keepsSound stretch raised _ _ t

end CharacterTable

/-! ### Any number of calls -/

/-- A call that imports into a table. -/
inductive ImportCall where
  | image (shape : UInt16) (bytes : List UInt8) (kind : TagCode) (stretch : Bool)
  | svg (shape : UInt16) (svg : String)
  | directory (files : Files) (directory : String) (stretch : Bool) (raised : Nat → Bool)

namespace ImportCall

/-- The table after a call, whether it succeeds or fails. -/
def run (t : CharacterTable) : ImportCall → CharacterTable
  | image shape bytes kind stretch => (t.importImage shape bytes kind stretch).2
  | svg shape text => (t.importSvg shape text).2
  | directory files path stretch raised =>
    (CharacterTable.importDirectoryUnder files path t stretch raised).2

/-- The tables after each of some calls. -/
def tables : CharacterTable → List ImportCall → List CharacterTable
  | _, [] => []
  | t, call :: calls => call.run t :: tables (call.run t) calls

theorem run_keepsSound (t : CharacterTable) (call : ImportCall) :
    CharacterTable.KeepsSound t (call.run t) := by
  cases call with
  | image shape bytes kind stretch => exact t.importImage_keepsSound shape bytes kind stretch
  | svg shape text => exact t.importSvg_keepsSound shape text
  | directory files path stretch raised =>
    exact CharacterTable.importDirectoryUnder_keepsSound files path t stretch raised

theorem tables_keepsSound {t t' : CharacterTable} {calls : List ImportCall}
    (h : t' ∈ tables t calls) : CharacterTable.KeepsSound t t' := by
  induction calls generalizing t with
  | nil => cases h
  | cons call calls ih =>
    rcases List.mem_cons.1 h with rfl | h
    · exact run_keepsSound t call
    · exact (run_keepsSound t call).trans (ih h)

/-- Every call leaves a sound table sound.  Of any two tables along the way the later one has all
characters of the earlier one in the same order, with their ids and codes, and what else it has are
images whose ids were above all others when they came in. -/
theorem tables_isSound {t : CharacterTable} (ht : t.IsSound) (calls : List ImportCall) :
    (∀ t' ∈ tables t calls, t'.IsSound) ∧
      (t :: tables t calls).Pairwise fun earlier later =>
        earlier.outlines.Sublist later.outlines ∧ earlier.Grows later := by
  refine ⟨fun t' h => (tables_keepsSound h ht).1, ?_⟩
  induction calls generalizing t with
  | nil => exact List.pairwise_singleton _ t
  | cons call calls ih =>
    refine List.pairwise_cons.2 ⟨fun t' h => ?_, ih (run_keepsSound t call ht).1⟩
    have hgrows : t.Grows t' := (tables_keepsSound h ht).2
    exact ⟨hgrows.outlines_sublist, hgrows⟩

/-- A table with one id left. -/
def almostFull : CharacterTable :=
  ⟨[⟨2, .jpegImage, .image .jpeg 0 0 [0xff, 0xd8], false⟩,
    ⟨5, .shape, .shape .zero (some (.bitmap 2)), false⟩, .ofBounds 65534 .shape2 .zero]⟩

def gifHeader : List UInt8 := [0x47, 0x49, 0x46, 0x38, 0x39, 0x61, 2, 0, 1, 0]

def oneGif : Files :=
  { read := fun _ => .error .notFound, list := fun _ => .ok [⟨"5.gif", .ok gifHeader⟩] }

/-- A drawing, the last image that finds an id, one for a shape that does not exist, and a
directory. -/
def fourCalls : List ImportCall :=
  [.svg 5 "<svg/>", .image 65534 gifHeader 0 false, .image 8 gifHeader 0 false,
    .directory oneGif "in" true fun _ => false]

theorem tables_isSound_almostFull :
    almostFull.IsSound ∧
      ((tables almostFull fourCalls).take 3).map (fun t => t.outlines.map (·.1)) =
        [[2, 5, 65534], [2, 5, 65535, 65534], [2, 5, 65535, 65534]] ∧
      (∀ t' ∈ tables almostFull fourCalls, t'.IsSound) ∧
      (almostFull :: tables almostFull fourCalls).Pairwise fun earlier later =>
        earlier.outlines.Sublist later.outlines ∧ earlier.Grows later := by
  have hsound : almostFull.IsSound := by
    refine ⟨by decide, ?_⟩
    simp [almostFull, CharacterTable.ShowsOneOf, Character.bitmap?, Character.isImage,
      Character.ofBounds]
  exact ⟨hsound, by decide +kernel, tables_isSound hsound fourCalls⟩

end ImportCall

end ActionTree
