import ActionTree.Json.Decode
import ActionTree.Proofs.Decimal.Numeral
import Mathlib.Data.List.Nodup
import Mathlib.Data.Option.Basic
import Mathlib.Tactic.Simproc.ExistsAndEq
import Mathlib.Tactic.Tauto

/-!
# Values recovered from JSON

A reader recovers a value when it reads the value's JSON as this value.  Every array and every
object takes one of the levels that may nest, so a value is recovered exactly when its JSON does not
nest too deep and a condition on its parts holds.

* `Json.Recovers` - a reader recovers a value from its JSON, under a condition;
* `Json.recovers_text`, `Json.recovers_int32` and siblings - strings and words are always recovered;
* `Json.recovers_option`, `Json.recovers_list`, `Json.recovers_record`, `Json.recovers_variant` -
  how a value is recovered when its parts are.
-/

namespace ActionTree.Json

variable {α : Type} {levels : Nat}

/-- With at most some levels a reader reads the JSON of a value as this value, exactly when there
are as many levels as the JSON nests and the condition holds. -/
def Recovers (levels : Nat) (read : Reader α) (j : Json) (a : α) (kept : Prop) : Prop :=
  ∀ d ≤ levels, (read d j = some a ↔ j.depth ≤ d ∧ kept)

theorem Recovers.congr {read : Reader α} {j : Json} {a : α} {kept kept' : Prop}
    (h : Recovers levels read j a kept) (hkept : kept ↔ kept') :
    Recovers levels read j a kept' := by
  intro d hd
  rw [h d hd, hkept]

/-- What is read at every depth and nests nothing is always recovered. -/
theorem recovers_of_read {read : Reader α} {j : Json} {a : α} (hdepth : j.depth = 0)
    (h : ∀ d, read d j = some a) : Recovers levels read j a True := by
  intro d _
  simp [h d, hdepth]

/-- A value made from another one in a way that tells them apart is recovered with it. -/
theorem Recovers.map {β : Type} {read : Reader α} {f : α → β} (hf : Function.Injective f) {j : Json}
    {a : α} {kept : Prop} (h : Recovers levels read j a kept) :
    Recovers levels (fun d j => (read d j).map f) j (f a) kept := by
  intro d hd
  rw [← h d hd, Option.map_eq_some_iff]
  exact ⟨fun ⟨b, hb, hba⟩ => hf hba ▸ hb, fun ha => ⟨a, ha, rfl⟩⟩

/-! ### Depth -/

theorem depthOfItems_le {items : List Json} {d : Nat} :
    depthOfItems items ≤ d ↔ ∀ j ∈ items, j.depth ≤ d := by
  induction items with
  | nil => simp [depthOfItems]
  | cons item items ih => rw [depthOfItems, Nat.max_le, ih, List.forall_mem_cons]

theorem depthOfMembers_le {members : List (Key × Json)} {d : Nat} :
    depthOfMembers members ≤ d ↔ ∀ m ∈ members, m.2.depth ≤ d := by
  induction members with
  | nil => simp [depthOfMembers]
  | cons member members ih =>
    obtain ⟨key, value⟩ := member
    rw [depthOfMembers, Nat.max_le, ih, List.forall_mem_cons]

theorem depth_ofMembers_le {members : List (String × Json)} {d : Nat} :
    (ofMembers members).depth ≤ d + 1 ↔ ∀ m ∈ members, m.2.depth ≤ d := by
  rw [ofMembers, depth, Nat.succ_le_succ_iff, depthOfMembers_le, List.forall_mem_map]

theorem depth_ofList_le {encode : α → Json} {as : List α} {d : Nat} :
    (ofList encode as).depth ≤ d + 1 ↔ ∀ a ∈ as, (encode a).depth ≤ d := by
  rw [ofList, depth, Nat.succ_le_succ_iff, depthOfItems_le, List.forall_mem_map]

/-- An object nests at least one level. -/
theorem depth_ofMembers_ne_zero (members : List (String × Json)) :
    (ofMembers members).depth ≠ 0 := by
  rw [ofMembers, depth]
  exact Nat.succ_ne_zero _

/-! ### Strings and booleans -/

theorem recovers_text (s : String) : Recovers levels readText (text s) s True :=
  recovers_of_read rfl fun _ => rfl

theorem recovers_boolean (b : Bool) : Recovers levels readBoolean (.boolean b) b True :=
  recovers_of_read rfl fun _ => rfl

/-! ### Integers -/

/-- Digits are all taken when their value fits. -/
theorem takeDigits_eq {start : Nat} {cs : List Char}
    (h : Numeral.digitsValue start cs < UInt64.size) :
    Number.takeDigits start cs = (Numeral.digitsValue start cs, []) := by
  induction cs generalizing start with
  | nil => rfl
  | cons c cs ih =>
    have hnext : Numeral.digitsValue (start * 10 + Numeral.digitValue c) cs < UInt64.size := h
    have hfits : start * 10 + Numeral.digitValue c < UInt64.size :=
      Nat.lt_of_le_of_lt (Numeral.le_digitsValue _ cs) hnext
    rw [Number.takeDigits, if_pos hfits, ih hnext]
    rfl

/-- The numeral of an integer stands for it, as far as 64 bits go. -/
theorem ofNumeral?_ofInt {i : Int} (hlo : -0x8000000000000000 ≤ i) (hhi : i < 0x10000000000000000) :
    Number.ofNumeral? ⟨decide (i < 0), Nat.toDigits 10 i.natAbs, none, none⟩ =
      some (.integer i) := by
  have hsize : i.natAbs < UInt64.size := by
    show i.natAbs < 0x10000000000000000
    omega
  have htake : Number.takeDigits 0 (Nat.toDigits 10 i.natAbs) = (i.natAbs, []) := by
    rw [takeDigits_eq (by rwa [Numeral.digitsValue_toDigits]), Numeral.digitsValue_toDigits]
  rw [Number.ofNumeral?]
  dsimp only
  rw [htake]
  show (if !decide (i < 0) then some (Number.integer i.natAbs)
    else if i.natAbs = 0 ∨ 0x8000000000000000 < i.natAbs then
      some (.float (.neg (.ofNat i.natAbs)))
    else some (.integer (-(i.natAbs : Int)))) = some (.integer i)
  by_cases hneg : i < 0
  · have hvalue : -(i.natAbs : Int) = i := by omega
    rw [decide_eq_true hneg, if_neg (by decide), if_neg (by omega), hvalue]
  · have hvalue : (i.natAbs : Int) = i := by omega
    rw [decide_eq_false hneg, if_pos (by decide), hvalue]

theorem readInt_ofInt {lo hi i : Int} (d : Nat) (hlo : lo ≤ i) (hhi : i ≤ hi)
    (hmin : -0x8000000000000000 ≤ lo) (hmax : hi < 0x10000000000000000) :
    readInt lo hi d (ofInt i) = some i := by
  rw [ofInt, readInt, ofNumeral?_ofInt (by omega) (by omega)]
  exact if_pos ⟨hlo, hhi⟩

theorem readNat_ofNat {bound n : Nat} (d : Nat) (hn : n < bound) (hbound : bound ≤ UInt64.size) :
    readNat bound d (ofNat n) = some n := by
  have hsize : bound ≤ 0x10000000000000000 := hbound
  have hread : readInt 0 (bound - 1 : Int) d (ofInt n) = some (n : Int) :=
    readInt_ofInt d (by omega) (by omega) (by omega) (by omega)
  have hnat : ofNat n = ofInt n := by simp [ofNat, ofInt]
  rw [readNat, hnat, hread]
  rfl

theorem recovers_int32 (i : Int32) : Recovers levels readInt32 (ofInt i.toInt) i True := by
  refine recovers_of_read rfl fun d => ?_
  have hread : readInt Int32.minValue.toInt Int32.maxValue.toInt d (ofInt i.toInt) =
      some i.toInt := by
    refine readInt_ofInt d i.minValue_le_toInt ?_ (by decide) (by decide)
    exact i.toInt_le
  rw [readInt32, hread, Option.map_some, Int32.ofInt_toInt]

theorem recovers_uint8 (i : UInt8) : Recovers levels readUInt8 (ofNat i.toNat) i True := by
  refine recovers_of_read rfl fun d => ?_
  rw [readUInt8, readNat_ofNat d i.toNat_lt (by decide), Option.map_some, UInt8.ofNat_toNat]

theorem recovers_uint16 (i : UInt16) : Recovers levels readUInt16 (ofNat i.toNat) i True := by
  refine recovers_of_read rfl fun d => ?_
  rw [readUInt16, readNat_ofNat d i.toNat_lt (by decide), Option.map_some, UInt16.ofNat_toNat]

theorem recovers_uint32 (i : UInt32) : Recovers levels readUInt32 (ofNat i.toNat) i True := by
  refine recovers_of_read rfl fun d => ?_
  rw [readUInt32, readNat_ofNat d i.toNat_lt (by decide), Option.map_some, UInt32.ofNat_toNat]

theorem recovers_uint64 (i : UInt64) : Recovers levels readUInt64 (ofNat i.toNat) i True := by
  refine recovers_of_read rfl fun d => ?_
  rw [readUInt64, readNat_ofNat d i.toNat_lt (Nat.le_refl _), Option.map_some, UInt64.ofNat_toNat]

/-! ### Options and lists -/

/-- An optional value is recovered when it is, unless null could stand for it. -/
theorem recovers_option {read : Reader α} {encode : α → Json} {o : Option α} {kept : α → Prop}
    (h : ∀ a ∈ o, encode a ≠ .null ∧ Recovers levels read (encode a) a (kept a)) :
    Recovers levels (readOption read) (ofOption encode o) o (∀ a ∈ o, kept a) := by
  intro d hd
  cases o with
  | none => simp [ofOption, readOption, depth]
  | some a =>
    obtain ⟨hnull, hrecovers⟩ := h a rfl
    have hread : readOption read d (encode a) = (read d (encode a)).map some := by
      rw [readOption]
      exact hnull
    rw [ofOption, hread]
    simp [hrecovers d hd]

theorem recovers_readAll {read : Reader α} {encode : α → Json} {as : List α} {kept : α → Prop}
    {d : Nat} (h : ∀ a ∈ as, (read d (encode a) = some a ↔ (encode a).depth ≤ d ∧ kept a)) :
    readAll (read d) (as.map encode) = some as ↔
      (∀ a ∈ as, (encode a).depth ≤ d) ∧ ∀ a ∈ as, kept a := by
  induction as with
  | nil => simp [readAll]
  | cons a as ih =>
    have ha := h a List.mem_cons_self
    have has := ih fun b hb => h b (List.mem_cons_of_mem a hb)
    have hcons : readAll (read d) ((a :: as).map encode) = some (a :: as) ↔
        read d (encode a) = some a ∧ readAll (read d) (as.map encode) = some as := by
      rw [List.map_cons, readAll]
      cases read d (encode a) <;> simp [and_comm]
    rw [hcons, ha, has, List.forall_mem_cons, List.forall_mem_cons]
    tauto

theorem recovers_list {read : Reader α} {encode : α → Json} {as : List α} {kept : α → Prop}
    (h : ∀ a ∈ as, Recovers levels read (encode a) a (kept a)) :
    Recovers levels (readList read) (ofList encode as) as (∀ a ∈ as, kept a) := by
  intro d hd
  cases d with
  | zero => simp [readList, ofList, depth]
  | succ d =>
    rw [depth_ofList_le]
    exact recovers_readAll fun a ha => h a ha d (by omega)

/-! ### Records -/

theorem knownMembers_eq {names : List String} {members : List (String × Json)}
    (hnames : ∀ m ∈ members, m.1 ∈ names) (hnodup : (members.map (·.1)).Nodup) :
    knownMembers names (members.map fun m => (.ofText m.1, m.2)) = some members := by
  induction members with
  | nil => rfl
  | cons member members ih =>
    obtain ⟨key, value⟩ := member
    rw [List.map_cons, List.nodup_cons] at hnodup
    have hrest := ih (fun m hm => hnames m (List.mem_cons_of_mem _ hm)) hnodup.2
    have hknown : key ∈ names := hnames (key, value) List.mem_cons_self
    have hfresh : members.any (·.1 == key) = false := by
      rw [List.any_eq_false]
      intro m hm heq
      exact hnodup.1 (List.mem_map.2 ⟨m, hm, beq_iff_eq.1 heq⟩)
    rw [List.map_cons, Key.ofText, knownMembers, hrest]
    simp [hknown, hfresh]

/-- The fields of an object with known members, each once. -/
theorem record_ofMembers {names : List String} {members : List (String × Json)}
    (hnames : ∀ m ∈ members, m.1 ∈ names) (hnodup : (members.map (·.1)).Nodup)
    (read : Nat → Fields → Option α) (d : Nat) :
    record names read (d + 1) (ofMembers members) = read d members := by
  have hfields : fields? names (ofMembers members) = some members :=
    knownMembers_eq hnames hnodup
  rw [record, hfields, Option.bind_some]

/-- A record is recovered when its fields are, some of which may be left out. -/
theorem recovers_record_of_mem {names : List String} {members : List (String × Json)}
    {read : Nat → Fields → Option α} {a : α} {kept : Prop} (hnames : ∀ m ∈ members, m.1 ∈ names)
    (hnodup : (members.map (·.1)).Nodup)
    (h : ∀ d < levels, (read d members = some a ↔ (∀ m ∈ members, m.2.depth ≤ d) ∧ kept)) :
    Recovers levels (record names read) (ofMembers members) a kept := by
  intro d hd
  cases d with
  | zero => simp [record, depth_ofMembers_ne_zero]
  | succ d => rw [record_ofMembers hnames hnodup, depth_ofMembers_le, h d hd]

/-- A record is recovered when its fields are. -/
theorem recovers_record {names : List String} {members : List (String × Json)}
    {read : Nat → Fields → Option α} {a : α} {kept : Prop} (hnames : members.map (·.1) = names)
    (hnodup : names.Nodup)
    (h : ∀ d < levels, (read d members = some a ↔ (∀ m ∈ members, m.2.depth ≤ d) ∧ kept)) :
    Recovers levels (record names read) (ofMembers members) a kept := by
  subst hnames
  exact recovers_record_of_mem (fun m hm => List.mem_map_of_mem hm) hnodup h

section Fields

variable (name : String) (read : Reader α) (d : Nat) (j : Json) (fields : Fields)

@[simp] theorem required_cons_self : required name read d ((name, j) :: fields) = read d j := by
  simp [required]

@[simp] theorem defaulted_cons_self (default : α) :
    defaulted name default read d ((name, j) :: fields) = read d j := by
  simp [defaulted]

@[simp] theorem optional_cons_self :
    optional name read d ((name, j) :: fields) = readOption read d j :=
  defaulted_cons_self name (readOption read) d j fields none

variable {name} {key : String}

@[simp] theorem required_cons_ne (h : name ≠ key) :
    required name read d ((key, j) :: fields) = required name read d fields := by
  simp [required, List.lookup_cons, beq_eq_false_iff_ne.2 h]

@[simp] theorem defaulted_cons_ne (h : name ≠ key) (default : α) :
    defaulted name default read d ((key, j) :: fields) = defaulted name default read d fields := by
  simp [defaulted, List.lookup_cons, beq_eq_false_iff_ne.2 h]

@[simp] theorem optional_cons_ne (h : name ≠ key) :
    optional name read d ((key, j) :: fields) = optional name read d fields :=
  defaulted_cons_ne (readOption read) d j fields h none

end Fields

/-! ### Variants -/

/-- A variant with data is recovered when a reader of the data recovers it. -/
theorem recovers_variant {read : Nat → String → Option Json → Option α} {readData : Reader α}
    {name : String} {j : Json} {a : α} {kept : Prop}
    (hread : ∀ d, read d name (some j) = readData d j) (h : Recovers levels readData j a kept) :
    Recovers levels (variant read) (ofMembers [(name, j)]) a kept := by
  intro d hd
  cases d with
  | zero => simp [variant, ofMembers, depth]
  | succ d =>
    have hvariant : variant read (d + 1) (ofMembers [(name, j)]) = readData d j := hread d
    rw [hvariant, depth_ofMembers_le]
    simpa using h d (by omega)

/-- A name without data is recovered when it stands for the value. -/
theorem recovers_bare {read : Nat → String → Option Json → Option α} {name : String} {a : α}
    (h : ∀ d, read d name none = some a) : Recovers levels (variant read) (text name) a True :=
  recovers_of_read rfl h

theorem recovers_name {table : List (String × α)} {name : String} {a : α}
    (h : table.lookup name = some a) : Recovers levels (readName table) (text name) a True :=
  recovers_bare fun _ => by rw [h]; rfl

end ActionTree.Json
