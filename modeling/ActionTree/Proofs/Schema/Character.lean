import ActionTree.Command.Basic
import ActionTree.Proofs.Json.Layout
import ActionTree.Proofs.Json.Recovery
import ActionTree.Proofs.Json.Written
import ActionTree.Proofs.Text.Utf8
import ActionTree.Schema.Character

/-!
# Character tables survive JSON

Contents and fills are told apart by a tag among their members, and a content is only looked into
when all of it is readable, which what was written always is.

* `Json.IsWhole` - values that are readable wherever they do not nest too deep;
* `Json.recovers_tagged` - a tagged value is recovered when its data are;
* `Content.recovers`, `Character.recovers`, `CharacterTable.recovers` - the parts of a table and
  the table are always recovered;
* `CharacterTable.ofText_document` - the document of a table is read as this table;
* `CharacterTable.load_document` - a file with the document holds this table.
-/

namespace ActionTree

open Json

variable {levels : Nat}

namespace Json

/-! ### Readable values -/

/-- All of a value is readable wherever it does not nest too deep. -/
def IsWhole (j : Json) : Prop := ∀ d, isReadable d j = true ↔ j.depth ≤ d

theorem isWhole_text (s : String) : (text s).IsWhole := fun d =>
  iff_of_true (by rw [text, isReadable]; rfl) (Nat.zero_le d)

theorem isWhole_null : Json.null.IsWhole := fun d =>
  iff_of_true (by rw [isReadable]) (Nat.zero_le d)

/-- What an integer's reader takes is a number in range. -/
theorem isWhole_of_readInt {lo hi i : Int} {j : Json} (h : readInt lo hi 0 j = some i) :
    j.IsWhole := by
  intro d
  cases j with
  | number n =>
    refine iff_of_true ?_ (Nat.zero_le d)
    rw [isReadable]
    rw [readInt] at h
    cases hn : Number.ofNumeral? n with
    | none => rw [hn] at h; cases h
    | some x => rfl
  | _ => cases h

theorem isWhole_ofInt32 (i : Int32) : (ofInt i.toInt).IsWhole :=
  isWhole_of_readInt
    (readInt_ofInt 0 i.minValue_le_toInt (show _ ≤ Int32.maxValue.toInt from i.toInt_le) (by decide)
      (by decide))

theorem isWhole_ofNat {n : Nat} (hn : n < UInt64.size) : (ofNat n).IsWhole := by
  obtain ⟨i, hi, -⟩ := Option.map_eq_some_iff.1 (readNat_ofNat 0 hn (Nat.le_refl _))
  exact isWhole_of_readInt hi

theorem areReadable_iff {items : List Json} {d : Nat} (h : ∀ j ∈ items, j.IsWhole) :
    areReadable d items = true ↔ ∀ j ∈ items, j.depth ≤ d := by
  induction items with
  | nil => simp [areReadable]
  | cons item items ih =>
    obtain ⟨hitem, hitems⟩ := List.forall_mem_cons.1 h
    rw [areReadable, Bool.and_eq_true, hitem d, ih hitems, List.forall_mem_cons]

theorem membersReadable_iff {members : List (String × Json)} {d : Nat}
    (h : ∀ m ∈ members, m.2.IsWhole) :
    membersReadable d (members.map fun m => (.ofText m.1, m.2)) = true ↔
      ∀ m ∈ members, m.2.depth ≤ d := by
  induction members with
  | nil => simp [membersReadable]
  | cons member members ih =>
    obtain ⟨hmember, hmembers⟩ := List.forall_mem_cons.1 h
    rw [List.map_cons, Key.ofText, membersReadable, Bool.and_eq_true, Bool.and_eq_true, hmember d,
      ih hmembers, List.forall_mem_cons]
    simp

theorem isWhole_ofList {α : Type} {encode : α → Json} {as : List α}
    (h : ∀ a ∈ as, (encode a).IsWhole) : (ofList encode as).IsWhole := by
  intro d
  cases d with
  | zero => simp [ofList, isReadable, depth]
  | succ d =>
    rw [depth_ofList_le, ofList, isReadable, areReadable_iff (List.forall_mem_map.2 h),
      List.forall_mem_map]

theorem isWhole_ofMembers {members : List (String × Json)} (h : ∀ m ∈ members, m.2.IsWhole) :
    (ofMembers members).IsWhole := by
  intro d
  cases d with
  | zero =>
    rw [ofMembers, isReadable]
    simp [depth]
  | succ d =>
    rw [depth_ofMembers_le, ofMembers, isReadable]
    exact membersReadable_iff h

theorem isWhole_ofOption {α : Type} {encode : α → Json} {o : Option α}
    (h : ∀ a ∈ o, (encode a).IsWhole) : (ofOption encode o).IsWhole := by
  cases o with
  | none => exact isWhole_null
  | some a => exact h a rfl

/-! ### Tagged values -/

/-- The member with a key that no other member has is taken out. -/
theorem takeMember_ofText {key : String} {j : Json} {members : List (String × Json)}
    (hkeys : ∀ m ∈ members, m.1 ≠ key) :
    takeMember key (((key, j) :: members).map fun m => (.ofText m.1, m.2)) =
      some (j, members.map fun m => (.ofText m.1, m.2)) := by
  have hothers (m : String × Json) (hm : m ∈ members) : (some m.1 == some key) = false :=
    beq_eq_false_iff_ne.2 fun heq => hkeys m hm (Option.some.inj heq)
  have htaken : (members.map fun m => (Key.ofText m.1, m.2)).filter
      (fun m => m.1.text == some key) = [] := by
    rw [List.filter_eq_nil_iff, List.forall_mem_map]
    exact fun m hm => Bool.eq_false_iff.1 (hothers m hm)
  have hrest : (members.map fun m => (Key.ofText m.1, m.2)).filter
      (fun m => !(m.1.text == some key)) = members.map fun m => (Key.ofText m.1, m.2) := by
    rw [List.filter_eq_self, List.forall_mem_map]
    exact fun m hm => by rw [Key.ofText, hothers m hm]; rfl
  rw [takeMember, List.partition_eq_filter_filter, List.map_cons]
  simp only [Key.ofText, List.filter_cons, beq_self_eq_true, if_true, Bool.not_true,
    Function.comp_def] at htaken hrest ⊢
  rw [htaken, hrest]
  rfl

/-- A tagged value is recovered when its data are. -/
theorem recovers_tagged {α : Type} {readTag : Json → Option String} {read : String → Reader α}
    {name : String} {members : List (String × Json)} {a : α} {kept : Prop}
    (htag : readTag (text name) = some name) (hkeys : ∀ m ∈ members, m.1 ≠ tagKey)
    (h : Recovers levels (read name) (ofMembers members) a kept) :
    Recovers levels (tagged readTag read) (ofMembers ((tagKey, text name) :: members)) a kept := by
  intro d hd
  have hread : tagged readTag read d (ofMembers ((tagKey, text name) :: members)) =
      read name d (ofMembers members) := by
    rw [ofMembers, tagged, takeMember_ofText hkeys]
    show (readTag (text name)).bind _ = _
    rw [htag]
    rfl
  have hdepth : (ofMembers ((tagKey, text name) :: members)).depth ≤ d ↔
      (ofMembers members).depth ≤ d := by
    cases d with
    | zero => simp [ofMembers, depth]
    | succ d => simp [depth_ofMembers_le, text, depth]
  rw [hread, hdepth, h d hd]

end Json

/-! ### Bounds and fills -/

namespace Rect

theorem recovers (r : Rect) : Recovers levels Rect.read r.toJson r True := by
  obtain ⟨xMin, yMin, xMax, yMax⟩ := r
  refine recovers_record rfl (by decide) fun d hd => ?_
  have hxMin := recovers_int32 xMin d (Nat.le_of_lt hd)
  have hyMin := recovers_int32 yMin d (Nat.le_of_lt hd)
  have hxMax := recovers_int32 xMax d (Nat.le_of_lt hd)
  have hyMax := recovers_int32 yMax d (Nat.le_of_lt hd)
  simp [Option.bind_eq_some_iff, hxMin, hyMin, hxMax, hyMax]

@[simp] theorem isWritten_toJson (r : Rect) : r.toJson.IsWritten :=
  isWritten_ofMembers (by simp; decide) (by simp)

theorem depth_toJson_le (r : Rect) : r.toJson.depth ≤ 1 :=
  depth_ofMembers_le.2 (by simp [ofInt, depth])

theorem isWhole_toJson (r : Rect) : r.toJson.IsWhole :=
  isWhole_ofMembers (by simp [isWhole_ofInt32])

end Rect

namespace Fill

theorem recovers (f : Fill) : Recovers levels Fill.read f.toJson f True := by
  cases f with
  | bitmap image =>
    refine recovers_tagged rfl (by simp [tagKey]) (recovers_record rfl (by decide) fun d hd => ?_)
    have himage := recovers_uint16 image d (Nat.le_of_lt hd)
    simp [Option.map_eq_some_iff, himage]
  | vector svg =>
    refine recovers_tagged rfl (by simp [tagKey]) (recovers_record rfl (by decide) fun d hd => ?_)
    have hsvg := recovers_text svg d (Nat.le_of_lt hd)
    simp [Option.map_eq_some_iff, hsvg]

@[simp] theorem isWritten_toJson (f : Fill) : f.toJson.IsWritten := by
  cases f <;> exact isWritten_ofMembers (by simp; decide) (by simp)

theorem depth_toJson_le (f : Fill) : f.toJson.depth ≤ 1 := by
  cases f <;> exact depth_ofMembers_le.2 (by simp [text, ofNat, depth])

theorem isWhole_toJson (f : Fill) : f.toJson.IsWhole := by
  cases f with
  | bitmap image =>
    have hsize : image.toNat < UInt64.size := Nat.lt_trans image.toNat_lt (by decide)
    exact isWhole_ofMembers (by simp [isWhole_text, isWhole_ofNat hsize])
  | vector svg => exact isWhole_ofMembers (by simp [isWhole_text])

end Fill

/-! ### Contents -/

theorem ImageFormat.recovers (f : ImageFormat) :
    Recovers levels ImageFormat.read (Json.text f.jsonName) f True :=
  recovers_bare fun _ => by cases f <;> rfl

namespace Content

theorem recovers_shape (bounds : Rect) (fill : Option Fill) :
    Recovers levels readShape
      (ofMembers [("bounds", bounds.toJson), ("fill", ofOption Fill.toJson fill)])
      (.shape bounds fill) True := by
  have hfills : Recovers levels (readOption Fill.read) (ofOption Fill.toJson fill) fill
      (∀ f ∈ fill, True) :=
    recovers_option fun f _ => ⟨by cases f <;> rintro ⟨⟩, f.recovers⟩
  refine recovers_record rfl (by decide) fun d hd => ?_
  have hbounds := bounds.recovers d (Nat.le_of_lt hd)
  have hfill := hfills d (Nat.le_of_lt hd)
  simp [Option.bind_eq_some_iff, hbounds, hfill]

theorem forall_mem_dataMembers {p : String × Json → Prop} {data : List UInt8}
    (h : p ("data", ofList (fun b => ofNat b.toNat) data)) : ∀ m ∈ dataMembers data, p m := by
  intro m hm
  rw [dataMembers] at hm
  split at hm
  · cases hm
  · rwa [List.mem_singleton.1 hm]

/-- The bytes of an image are recovered also when they are left out for being none. -/
theorem recovers_image (format : ImageFormat) (width height : UInt32) (data : List UInt8) :
    Recovers levels readImage
      (ofMembers ([("format", text format.jsonName), ("width", ofNat width.toNat),
        ("height", ofNat height.toNat)] ++ dataMembers data))
      (.image format width height data) True := by
  have hscalars (d : Nat) (hd : d < levels) :=
    And.intro (format.recovers d (Nat.le_of_lt hd))
      (And.intro (recovers_uint32 width d (Nat.le_of_lt hd))
        (recovers_uint32 height d (Nat.le_of_lt hd)))
  cases data with
  | nil =>
    refine recovers_record_of_mem (by simp [dataMembers]) (by simp [dataMembers]) fun d hd => ?_
    obtain ⟨hformat, hwidth, hheight⟩ := hscalars d hd
    have hnone : defaulted "data" [] (readList readUInt8) d [] = some [] := rfl
    simp [Option.bind_eq_some_iff, hformat, hwidth, hheight, dataMembers, hnone]
  | cons b bs =>
    have hbytes : Recovers levels (readList readUInt8) (ofList (fun b => ofNat b.toNat) (b :: bs))
        (b :: bs) (∀ c ∈ b :: bs, True) :=
      recovers_list fun c _ => recovers_uint8 c
    refine recovers_record rfl (by decide) fun d hd => ?_
    obtain ⟨hformat, hwidth, hheight⟩ := hscalars d hd
    have hdata := hbytes d (Nat.le_of_lt hd)
    simp [Option.bind_eq_some_iff, hformat, hwidth, hheight, dataMembers, hdata]

theorem isWhole_toJson (c : Content) : c.toJson.IsWhole := by
  cases c with
  | shape bounds fill =>
    have hfill : (ofOption Fill.toJson fill).IsWhole := isWhole_ofOption fun f _ => f.isWhole_toJson
    exact isWhole_ofMembers (by simp [isWhole_text, bounds.isWhole_toJson, hfill])
  | image format width height data =>
    have hword (i : UInt32) : (ofNat i.toNat).IsWhole :=
      isWhole_ofNat (Nat.lt_trans i.toNat_lt (by decide))
    have hbyte (b : UInt8) : (ofNat b.toNat).IsWhole :=
      isWhole_ofNat (Nat.lt_trans b.toNat_lt (by decide))
    have hdata : ∀ m ∈ dataMembers data, m.2.IsWhole :=
      forall_mem_dataMembers (p := fun m => m.2.IsWhole) (isWhole_ofList fun b _ => hbyte b)
    refine isWhole_ofMembers (List.forall_mem_append.2 ⟨?_, hdata⟩)
    simp [isWhole_text, hword]
  | other => exact isWhole_ofMembers (by simp [isWhole_text])

theorem recovers (c : Content) : Recovers levels Content.read c.toJson c True := by
  have htagged : Recovers levels (tagged tagName readData) c.toJson c True := by
    cases c with
    | shape bounds fill =>
      exact recovers_tagged rfl (by simp [tagKey]) (recovers_shape bounds fill)
    | image format width height data =>
      have hdata : ∀ m ∈ dataMembers data, m.1 ≠ tagKey :=
        forall_mem_dataMembers (p := fun m => m.1 ≠ tagKey) (by simp [tagKey])
      exact recovers_tagged rfl (List.forall_mem_append.2 ⟨by simp [tagKey], hdata⟩)
        (recovers_image format width height data)
    | other =>
      refine recovers_tagged rfl (by simp) (recovers_record rfl (by decide) fun d _ => ?_)
      simp
  intro d hd
  rw [read]
  have hreadable := c.isWhole_toJson d
  split_ifs with h
  · exact htagged d hd
  · rw [hreadable] at h
    simp [h]

theorem isWritten_toJson (c : Content) : c.toJson.IsWritten := by
  cases c with
  | shape bounds fill =>
    have hfill : (ofOption Fill.toJson fill).IsWritten :=
      isWritten_ofOption fun f _ => f.isWritten_toJson
    exact isWritten_ofMembers (by simp; decide) (by simp [hfill])
  | image format width height data =>
    have hkey : ∀ m ∈ dataMembers data, needsEscape (some m.1) = false :=
      forall_mem_dataMembers (p := fun m => needsEscape (some m.1) = false) (by simp; decide)
    have hvalue : ∀ m ∈ dataMembers data, m.2.IsWritten :=
      forall_mem_dataMembers (p := fun m => m.2.IsWritten)
        (isWritten_ofList fun b _ => isWritten_ofNat b.toNat)
    exact isWritten_ofMembers (List.forall_mem_append.2 ⟨by simp; decide, hkey⟩)
      (List.forall_mem_append.2 ⟨by simp, hvalue⟩)
  | other => exact isWritten_ofMembers (by simp; decide) (by simp)

theorem depth_toJson_le (c : Content) : c.toJson.depth ≤ 2 := by
  cases c with
  | shape bounds fill =>
    have hfill : (ofOption Fill.toJson fill).depth ≤ 1 := by
      cases fill with
      | none => exact Nat.zero_le 1
      | some f => exact f.depth_toJson_le
    exact depth_ofMembers_le.2 (by simp [text, depth, bounds.depth_toJson_le, hfill])
  | image format width height data =>
    have hbytes : (ofList (fun b => ofNat b.toNat) data).depth ≤ 1 :=
      depth_ofList_le.2 fun b _ => Nat.le_refl 0
    have hdata : ∀ m ∈ dataMembers data, m.2.depth ≤ 1 :=
      forall_mem_dataMembers (p := fun m => m.2.depth ≤ 1) hbytes
    exact depth_ofMembers_le.2 (List.forall_mem_append.2 ⟨by simp [text, ofNat, depth], hdata⟩)
  | other => exact depth_ofMembers_le.2 (by simp [text, depth])

end Content

/-! ### Characters and tables -/

namespace Character

theorem recovers (c : Character) : Recovers levels Character.read c.toJson c True := by
  obtain ⟨id, code, content, modified⟩ := c
  refine recovers_record rfl (by decide) fun d hd => ?_
  have hid := recovers_uint16 id d (Nat.le_of_lt hd)
  have hcode := recovers_uint16 code d (Nat.le_of_lt hd)
  have hcontent := content.recovers d (Nat.le_of_lt hd)
  have hmodified := recovers_boolean modified d (Nat.le_of_lt hd)
  simp [-Bool.exists_bool, Option.bind_eq_some_iff, hid, hcode, hcontent, hmodified]

theorem isWritten_toJson (c : Character) : c.toJson.IsWritten :=
  isWritten_ofMembers (by simp; decide) (by simp [c.content.isWritten_toJson])

theorem depth_toJson_le (c : Character) : c.toJson.depth ≤ 3 :=
  depth_ofMembers_le.2 (by simp [ofNat, depth, c.content.depth_toJson_le])

end Character

theorem Json.ofText_pretty {α : Type} {read : Reader α} {j : Json} {a : α} (h : j.IsWritten)
    (complaint : String) : ofText read j.pretty complaint = .ok a ↔ read depthLimit j = some a := by
  rw [ofText, parse?_pretty h, Option.bind_some]
  cases read depthLimit j <;> simp

/-- A file with the bytes of a text is this text. -/
theorem Files.text_of_read {files : Files} {path s : String}
    (h : files.read path = .ok (utf8Bytes s)) : files.text path = .ok s := by
  have hdecode : Utf8.decode (utf8Bytes s) = .ok s := Utf8.decode_toUTF8 s
  simp only [text, h, hdecode]

namespace CharacterTable

theorem recovers (t : CharacterTable) : Recovers levels CharacterTable.read t.toJson t True := by
  obtain ⟨characters⟩ := t
  refine recovers_record rfl (by decide) fun d hd => ?_
  have hcharacters := recovers_list (fun (c : Character) (_ : c ∈ characters) => c.recovers) d
    (Nat.le_of_lt hd)
  simp [Option.map_eq_some_iff, hcharacters]

theorem isWritten_toJson (t : CharacterTable) : t.toJson.IsWritten := by
  have hcharacters : (ofList Character.toJson t.characters).IsWritten :=
    isWritten_ofList fun c _ => c.isWritten_toJson
  exact isWritten_ofMembers (by simp; decide) (by simp [hcharacters])

/-- A table nests five levels at most: itself, its list, a character, its content and a part of
this. -/
theorem depth_toJson_le (t : CharacterTable) : t.toJson.depth ≤ 5 := by
  have hcharacters : (ofList Character.toJson t.characters).depth ≤ 4 :=
    depth_ofList_le.2 fun c _ => c.depth_toJson_le
  exact depth_ofMembers_le.2 (by simp [hcharacters])

/-- The document of a table is read as this table. -/
theorem ofText_document (t : CharacterTable) (complaint : String) :
    ofText CharacterTable.read t.document complaint = .ok t := by
  have hdepth : t.toJson.depth ≤ depthLimit := Nat.le_trans t.depth_toJson_le (by decide)
  rw [document, Json.ofText_pretty t.isWritten_toJson]
  exact (t.recovers depthLimit (Nat.le_refl _)).2 ⟨hdepth, trivial⟩

/-- **Character tables survive JSON.**  The document of any table is read as this table, and from
any file with the bytes of the document this table is loaded. -/
theorem load_document (t : CharacterTable) :
    ofText CharacterTable.read t.document = .ok t ∧
      ∀ (files : Files) (path : String), files.read path = .ok (utf8Bytes t.document) →
        load files path = .ok t := by
  refine ⟨t.ofText_document _, fun files path hread => ?_⟩
  rw [load, Files.text_of_read hread]
  exact t.ofText_document _

/-- A table with an image without bytes, a shape filled with a drawing and a character of another
kind. -/
def sample : CharacterTable :=
  ⟨[⟨7, TagCode.jpegImage, .image .png 0 0 [], false⟩,
    ⟨7, TagCode.shape, .shape ⟨-2, 0, 40, 2147483647⟩ (some (.vector "<svg>\"é\"\n</svg>")), true⟩,
    ⟨0, 9, .other, false⟩]⟩

theorem load_document_sample :
    ofText CharacterTable.read sample.document = .ok sample ∧
      load { read := fun _ => .ok (utf8Bytes sample.document), list := fun _ => .ok [] }
        "characters.json" = .ok sample := by
  obtain ⟨hdocument, hload⟩ := load_document sample
  exact ⟨hdocument, hload _ _ rfl⟩

end CharacterTable

end ActionTree
