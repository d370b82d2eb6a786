import ActionTree.Image.Format
import Mathlib.Data.List.Basic

/-!
# The size of a JPEG image

A JPEG image is a row of markers.  Some stand alone, some have a segment whose length is told, and
the size of the image stands in the first frame segment.

* `JpegItem`, `JpegFrame`, `jpegBytes` - what may stand in front of the frame, the frame up to the
  size, and an image up to there;
* `JpegItem.jpegSize?_bytes`, `JpegItem.jpegSize?_cut` - the scan passes an item, and finds no size
  in one that is cut off;
* `jpegRound`, `jpegRounds` - the scan as a loop over positions;
* `exists_jpegRounds` - the loop ends everywhere, with the size from there on;
* `ImageFormat.size?_jpeg` - the size of an image is the one in its frame, and an image that is cut
  off before the end of the size has none.
-/

namespace ActionTree

/-! ### Markers -/

/-- Markers that stand alone. -/
def IsStandaloneMarker (m : UInt8) : Prop := m = 0x01 ∨ 0xd0 ≤ m ∧ m ≤ 0xd8

/-- Markers of frames.  Three markers between them belong to other segments. -/
def IsFrameMarker (m : UInt8) : Prop :=
  0xc0 ≤ m ∧ m ≤ 0xcf ∧ m ≠ 0xc4 ∧ m ≠ 0xc8 ∧ m ≠ 0xcc

/-- Markers of other segments in front of the image data. -/
def IsSegmentMarker (m : UInt8) : Prop :=
  m ≠ 0xff ∧ m ≠ 0x01 ∧ ¬(0xd0 ≤ m ∧ m ≤ 0xda) ∧ ¬IsFrameMarker m

instance : DecidablePred IsStandaloneMarker := fun _ => inferInstanceAs (Decidable (_ ∨ _))

instance : DecidablePred IsFrameMarker := fun _ => inferInstanceAs (Decidable (_ ∧ _))

instance : DecidablePred IsSegmentMarker := fun _ => inferInstanceAs (Decidable (_ ∧ _))

theorem isStandalone_iff {m : UInt8} : isStandalone m = true ↔ IsStandaloneMarker m := by
  simp [isStandalone, IsStandaloneMarker]

theorem isFrameStart_iff {m : UInt8} : isFrameStart m = true ↔ IsFrameMarker m := by
  simp [isFrameStart, IsFrameMarker, and_assoc]

/-- A frame marker is neither a fill byte nor alone. -/
theorem IsFrameMarker.only {m : UInt8} (h : IsFrameMarker m) :
    m ≠ 0xff ∧ ¬IsStandaloneMarker m := by
  obtain ⟨hleast, hgreatest, -⟩ := h
  simp only [UInt8.le_iff_toNat_le, UInt8.reduceToNat] at hleast hgreatest
  constructor
  · rintro rfl
    simp at hgreatest
  · rintro (rfl | ⟨hfrom, -⟩)
    · simp at hleast
    · simp only [UInt8.le_iff_toNat_le, UInt8.reduceToNat] at hfrom
      omega

/-- A segment marker is none of the others, and ends no scan. -/
theorem IsSegmentMarker.only {m : UInt8} (h : IsSegmentMarker m) :
    m ≠ 0xff ∧ ¬IsStandaloneMarker m ∧ ¬IsFrameMarker m ∧ ¬(m = 0xd9 ∨ m = 0xda) := by
  obtain ⟨hfill, hone, hrange, hframe⟩ := h
  refine ⟨hfill, ?_, hframe, ?_⟩
  · rintro (rfl | ⟨hfrom, hto⟩)
    · exact hone rfl
    · refine hrange ⟨hfrom, ?_⟩
      simp only [UInt8.le_iff_toNat_le, UInt8.reduceToNat] at hto ⊢
      omega
  · rintro (rfl | rfl)
    · exact hrange (by decide)
    · exact hrange (by decide)

/-! ### Images -/

/-- A 16 bit number as bytes, the high one first. -/
def twoBytes (n : UInt16) : List UInt8 := [.ofNat (n.toNat / 256), .ofNat n.toNat]

theorem bigEndian_twoBytes (n : UInt16) : bigEndian (twoBytes n) = n.toNat := by
  have hn := n.toNat_lt
  simp only [bigEndian, twoBytes, List.foldl_cons, List.foldl_nil, UInt8.toNat_ofNat']
  omega

/-- What may stand in front of the frame.  The length of a segment counts itself. -/
inductive JpegItem where
  | fill
  | standalone (marker : UInt8) (isStandalone : IsStandaloneMarker marker)
  | segment (marker : UInt8) (payload : List UInt8) (isSegment : IsSegmentMarker marker)
      (fits : payload.length + 2 < UInt16.size)

/-- The bytes of an item. -/
def JpegItem.bytes : JpegItem → List UInt8
  | fill => [0xff]
  | standalone marker _ => [0xff, marker]
  | segment marker payload _ _ =>
    0xff :: marker :: (twoBytes (.ofNat (payload.length + 2)) ++ payload)

/-- A frame segment up to the size of the image. -/
structure JpegFrame where
  marker : UInt8
  isFrame : IsFrameMarker marker
  length : UInt16
  precision : UInt8
  height : UInt16
  width : UInt16

/-- The bytes of a frame up to the size. -/
def JpegFrame.bytes (f : JpegFrame) : List UInt8 :=
  0xff :: f.marker :: (twoBytes f.length ++ f.precision :: (twoBytes f.height ++ twoBytes f.width))

/-- The bytes of an image up to its size. -/
def jpegBytes (items : List JpegItem) (f : JpegFrame) : List UInt8 :=
  0xff :: 0xd8 :: (items.flatMap JpegItem.bytes ++ f.bytes)

/-! ### The scan, marker by marker -/

section scan

variable {m : UInt8} {rest : List UInt8}

theorem jpegSize?_fill : jpegSize? (0xff :: 0xff :: rest) = jpegSize? (0xff :: rest) := by
  rw [jpegSize?, if_pos rfl]

theorem jpegSize?_standalone (h : IsStandaloneMarker m) :
    jpegSize? (0xff :: m :: rest) = jpegSize? rest := by
  have hfill : m ≠ 0xff := by
    rintro rfl
    revert h
    decide
  rw [jpegSize?, if_neg hfill, if_pos (isStandalone_iff.2 h)]

theorem jpegSize?_frame (h : IsFrameMarker m) :
    jpegSize? (0xff :: m :: rest) = frameSize? rest := by
  obtain ⟨hfill, halone⟩ := h.only
  rw [jpegSize?, if_neg hfill, if_neg (mt isStandalone_iff.1 halone),
    if_pos (isFrameStart_iff.2 h)]

theorem jpegSize?_segment (h : IsSegmentMarker m) :
    jpegSize? (0xff :: m :: rest) =
      (field? 0 2 rest).bind fun length => jpegSize? (rest.drop (bigEndian length)) := by
  obtain ⟨hfill, halone, hframe, hends⟩ := h.only
  rw [jpegSize?, if_neg hfill, if_neg (mt isStandalone_iff.1 halone),
    if_neg (mt isFrameStart_iff.1 hframe), if_neg hends]
  cases field? 0 2 rest <;> rfl

theorem jpegSize?_nil : jpegSize? [] = none := by
  rw [jpegSize?]
  simp

theorem jpegSize?_single : jpegSize? [m] = none := by
  rw [jpegSize?]
  simp

end scan

/-! ### Whole and cut items -/

/-- Bytes that stand at a marker, or none at all. -/
def AtMarker (bytes : List UInt8) : Prop := ∀ b ∈ bytes.head?, b = 0xff

theorem frameSize?_eq_none_iff {bytes : List UInt8} :
    frameSize? bytes = none ↔ bytes.length < 7 := by
  unfold frameSize?
  split
  · simp
  · rename_i hshort
    match bytes, hshort with
    | [], _ | [_], _ | [_, _], _ | [_, _, _], _ | [_, _, _, _], _ | [_, _, _, _, _], _
    | [_, _, _, _, _, _], _ => simp
    | _ :: _ :: _ :: _ :: _ :: _ :: _ :: _, hshort => exact absurd rfl (hshort _ _ _ _ _ _ _ _)

namespace JpegItem

/-- The scan passes an item. -/
theorem jpegSize?_bytes (item : JpegItem) {rest : List UInt8} (h : AtMarker rest) :
    jpegSize? (item.bytes ++ rest) = jpegSize? rest := by
  cases item with
  | fill =>
    cases rest with
    | nil => exact jpegSize?_single.trans jpegSize?_nil.symm
    | cons b rest =>
      obtain rfl : b = 0xff := h b rfl
      exact jpegSize?_fill
  | standalone marker isStandalone => exact jpegSize?_standalone isStandalone
  | segment marker payload isSegment fits =>
    let length : UInt16 := .ofNat (payload.length + 2)
    have hlength : length.toNat = payload.length + 2 := UInt16.toNat_ofNat_of_lt' fits
    have hread : field? 0 2 (twoBytes length ++ payload ++ rest) = some (twoBytes length) := rfl
    have hskip : (twoBytes length ++ payload ++ rest).drop length.toNat = rest := by
      rw [hlength]
      exact List.drop_left' (by simp [twoBytes])
    show jpegSize? (0xff :: marker :: (twoBytes length ++ payload ++ rest)) = jpegSize? rest
    rw [jpegSize?_segment isSegment, hread, Option.bind_some, bigEndian_twoBytes, hskip]

/-- In an item that is cut off there is no size, whatever its payload looks like. -/
theorem jpegSize?_cut (item : JpegItem) {k : Nat} (h : k < item.bytes.length) :
    jpegSize? (item.bytes.take k) = none := by
  rcases k with _ | _ | k
  · exact jpegSize?_nil
  · cases item <;> exact jpegSize?_single
  · cases item with
    | fill | standalone =>
      simp only [bytes, List.length_cons, List.length_nil] at h
      omega
    | segment marker payload isSegment fits =>
      let length : UInt16 := .ofNat (payload.length + 2)
      have hlength : length.toNat = payload.length + 2 := UInt16.toNat_ofNat_of_lt' fits
      show jpegSize? (0xff :: marker :: (twoBytes length ++ payload).take k) = none
      rw [jpegSize?_segment isSegment]
      -- the length is cut off itself, or it leads behind the end
      rcases k with _ | _ | k
      · rfl
      · rfl
      · have hread : field? 0 2 ((twoBytes length ++ payload).take (k + 2)) =
            some (twoBytes length) := by
          simp [field?, twoBytes]
        have hskip : ((twoBytes length ++ payload).take (k + 2)).drop length.toNat = [] := by
          rw [hlength, List.drop_eq_nil_iff, List.length_take, List.length_append]
          exact Nat.le_trans (Nat.min_le_right _ _) (Nat.le_of_eq (Nat.add_comm 2 payload.length))
        rw [hread, Option.bind_some, bigEndian_twoBytes, hskip, jpegSize?_nil]

end JpegItem

namespace JpegFrame

/-- The scan ends at a frame, with its size. -/
theorem jpegSize?_bytes (f : JpegFrame) (rest : List UInt8) :
    jpegSize? (f.bytes ++ rest) = some (f.width.toUInt32, f.height.toUInt32) := by
  have hwiden (n : UInt16) : UInt32.ofNat (bigEndian (twoBytes n)) = n.toUInt32 := by
    rw [bigEndian_twoBytes, UInt32.ofNat_uInt16ToNat]
  rw [← hwiden f.width, ← hwiden f.height]
  exact jpegSize?_frame f.isFrame

/-- A frame that is cut off has no size. -/
theorem jpegSize?_cut (f : JpegFrame) {k : Nat} (h : k < f.bytes.length) :
    jpegSize? (f.bytes.take k) = none := by
  rcases k with _ | _ | k
  · exact jpegSize?_nil
  · exact jpegSize?_single
  · have hk : k < 7 := by
      have hlength : f.bytes.length = 9 := rfl
      omega
    rw [bytes, List.take_succ_cons, List.take_succ_cons, jpegSize?_frame f.isFrame,
      frameSize?_eq_none_iff, List.length_take]
    omega

end JpegFrame

/-! ### Whole and cut images -/

section image

variable (items : List JpegItem) (f : JpegFrame) (rest : List UInt8)

/-- Wherever an image is cut, what remains behind a whole item stands at a marker. -/
theorem atMarker_take (k : Nat) :
    AtMarker ((items.flatMap JpegItem.bytes ++ f.bytes ++ rest).take k) := by
  intro b hb
  cases k with
  | zero => cases hb
  | succ k =>
    cases items with
    | nil => exact (Option.some.inj hb).symm
    | cons item items => cases item <;> exact (Option.some.inj hb).symm

/-- The scan passes the items and ends at the frame. -/
theorem jpegSize?_items :
    jpegSize? (items.flatMap JpegItem.bytes ++ f.bytes ++ rest) =
      some (f.width.toUInt32, f.height.toUInt32) := by
  induction items with
  | nil => exact f.jpegSize?_bytes rest
  | cons item items ih =>
    have hrest : AtMarker (items.flatMap JpegItem.bytes ++ f.bytes ++ rest) := by
      have hall := atMarker_take items f rest
        (items.flatMap JpegItem.bytes ++ f.bytes ++ rest).length
      rwa [List.take_length] at hall
    rw [List.flatMap_cons, List.append_assoc, List.append_assoc, ← List.append_assoc _ f.bytes,
      item.jpegSize?_bytes hrest, ih]

/-- An image that is cut off before the end of the size has none. -/
theorem jpegSize?_take {k : Nat} (h : k < (items.flatMap JpegItem.bytes ++ f.bytes).length) :
    jpegSize? ((items.flatMap JpegItem.bytes ++ f.bytes ++ rest).take k) = none := by
  induction items generalizing k with
  | nil =>
    rw [List.take_append_of_le_length (Nat.le_of_lt h)]
    exact f.jpegSize?_cut h
  | cons item items ih =>
    rw [List.flatMap_cons, List.append_assoc, List.length_append] at h
    rw [List.flatMap_cons, List.append_assoc, List.append_assoc, ← List.append_assoc _ f.bytes]
    by_cases hitem : k < item.bytes.length
    · rw [List.take_append_of_le_length (Nat.le_of_lt hitem)]
      exact item.jpegSize?_cut hitem
    · rw [List.take_append, List.take_of_length_le (Nat.le_of_not_lt hitem),
        item.jpegSize?_bytes (atMarker_take items f rest _)]
      exact ih (by omega)

end image

/-! ### The scan as a loop -/

/-- What a round of the scan comes to: it goes on a number of bytes further, or the scan ends. -/
inductive JpegRound where
  | skip (count : Nat)
  | ended (size : Option (UInt32 × UInt32))

/-- One round of the scan, which looks at the marker that comes next. -/
def jpegRound : List UInt8 → JpegRound
  | 0xff :: marker :: rest =>
    if marker = 0xff then .skip 1
    else if isStandalone marker then .skip 2
    else if isFrameStart marker then .ended (frameSize? rest)
    else if marker = 0xd9 ∨ marker = 0xda then .ended none
    else match field? 0 2 rest with
      | some length => .skip (2 + bigEndian length)
      | none => .ended none
  | _ => .ended none

/-- The size after at most some rounds from a position on, without an answer if the scan needs
more. -/
def jpegRounds (bytes : List UInt8) : Nat → Nat → Option (Option (UInt32 × UInt32))
  | 0, _ => none
  | limit + 1, position =>
    match jpegRound (bytes.drop position) with
    | .ended size => some size
    | .skip count => jpegRounds bytes limit (position + count)

/-- A round that ends gives the size. -/
theorem jpegSize?_of_ended {bytes : List UInt8} {size : Option (UInt32 × UInt32)}
    (h : jpegRound bytes = .ended size) : jpegSize? bytes = size := by
  unfold jpegRound at h
  rw [jpegSize?.eq_def]
  split at h
  · -- the round and the scan tell the same markers apart in the same order
    grind
  · grind

/-- A round that goes on has read something, goes forward and leaves the size as it is. -/
theorem jpegSize?_of_skip {bytes : List UInt8} {count : Nat} (h : jpegRound bytes = .skip count) :
    bytes ≠ [] ∧ 0 < count ∧ jpegSize? (bytes.drop count) = jpegSize? bytes := by
  unfold jpegRound at h
  rw [jpegSize?.eq_def bytes]
  split at h
  · grind
  · cases h

/-- The loop ends from every position on, with the size from there on. -/
theorem exists_jpegRounds (bytes : List UInt8) (position : Nat) :
    ∃ rounds ≤ bytes.length - position + 1,
      jpegRounds bytes rounds position = some (jpegSize? (bytes.drop position)) := by
  -- every round that goes on brings the position nearer to the end
  induction hleft : bytes.length - position using Nat.strongRecOn generalizing position with
  | ind left ih =>
    cases hround : jpegRound (bytes.drop position) with
    | ended size =>
      refine ⟨1, by omega, ?_⟩
      rw [jpegRounds, hround]
      exact congrArg some (jpegSize?_of_ended hround).symm
    | skip count =>
      obtain ⟨hinside, hforward, hsize⟩ := jpegSize?_of_skip hround
      have hlt : position < bytes.length := by
        by_contra hbehind
        exact hinside (List.drop_eq_nil_of_le (Nat.le_of_not_lt hbehind))
      obtain ⟨rounds, hrounds, hrest⟩ :=
        ih (bytes.length - (position + count)) (by omega) (position + count) rfl
      refine ⟨rounds + 1, by omega, ?_⟩
      rw [jpegRounds, hround]
      dsimp only
      rw [hrest, ← List.drop_drop, hsize]

/-! ### Sizes -/

namespace ImageFormat

/-- **The size of a JPEG image is the one in its frame.**  In front of the frame stand any fill
bytes, markers alone and segments, whose payloads are never looked at.  An image that is cut off
before the last byte of the size has none.  And whatever the bytes are, the scan ends. -/
theorem size?_jpeg (items : List JpegItem) (f : JpegFrame) (rest bytes : List UInt8) :
    jpeg.size? (jpegBytes items f ++ rest) = some (f.width.toUInt32, f.height.toUInt32) ∧
      (∀ k < (jpegBytes items f).length,
        jpeg.size? ((jpegBytes items f ++ rest).take k) = none) ∧
      ∃ rounds ≤ bytes.length + 1, jpegRounds bytes rounds 2 = some (jpeg.size? bytes) := by
  refine ⟨jpegSize?_items items f rest, ?_, ?_⟩
  · intro k hk
    -- behind the start of the image the cut is two bytes nearer
    have hstart : ((jpegBytes items f ++ rest).take k).drop 2 =
        (items.flatMap JpegItem.bytes ++ f.bytes ++ rest).take (k - 2) := by
      rw [List.drop_take]
      rfl
    have hlength : (jpegBytes items f).length =
        (items.flatMap JpegItem.bytes ++ f.bytes).length + 2 := rfl
    have hframe : f.bytes.length = 9 := rfl
    show jpegSize? (((jpegBytes items f ++ rest).take k).drop 2) = none
    rw [hstart]
    refine jpegSize?_take items f rest ?_
    rw [List.length_append] at hlength ⊢
    omega
  · obtain ⟨rounds, hrounds, hsize⟩ := exists_jpegRounds bytes 2
    exact ⟨rounds, by omega, hsize⟩

/-- Two fill bytes, a restart marker and a comment that looks like a frame. -/
def misleading : List JpegItem :=
  [.fill, .fill, .standalone 0xd3 (by decide),
    .segment 0xfe [0xff, 0xc0, 0, 8, 8, 0, 1, 0, 1] (by decide) (by decide)]

/-- A progressive frame of 640 times 480 pixels. -/
def progressive : JpegFrame := ⟨0xc2, by decide, 17, 8, 480, 640⟩

/-- The frame in the comment counts for nothing, and without the last byte there is no size. -/
theorem size?_jpeg_misleading :
    jpeg.size? (jpegBytes misleading progressive ++ [3, 1]) = some (640, 480) ∧
      27 < (jpegBytes misleading progressive).length ∧
      jpeg.size? ((jpegBytes misleading progressive ++ [3, 1]).take 27) = none ∧
      ∃ rounds ≤ 4,
        jpegRounds [0xff, 0xd8, 0xff] rounds 2 = some (jpeg.size? [0xff, 0xd8, 0xff]) := by
  obtain ⟨hsize, hcut, hends⟩ := size?_jpeg misleading progressive [3, 1] [0xff, 0xd8, 0xff]
  have hlength : 27 < (jpegBytes misleading progressive).length := by decide
  exact ⟨hsize, hlength, hcut 27 hlength, hends⟩

end ImageFormat

end ActionTree
