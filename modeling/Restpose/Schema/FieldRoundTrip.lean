import Restpose.Schema.Schema

/-!
# Configurations that are read back

Configurations are copied by writing them to JSON and reading what was written.
A configuration that was read from a JSON text is read back unless its maximum
length is above the limit: an integer of a text is signed, so that the limit is
not noticed, and is unsigned when it is written.
-/

namespace Restpose.Config

open Json Attempt FieldConfig SlotName MaxLenFieldConfig Nat Int

/-- What is read from the JSON of a part has that JSON again. -/
def Survives {Value : Type} (read : Json → Except Thrown Value)
    (write : Value → Json) (part : Value) : Prop :=
  ∃ again, read (write part) = .ok again ∧ write again = write part

/-! ## Members that were written -/

section Members

variable {value : Json} {key : String} {text : Bytes}

theorem getStringMember_of_member (default : Bytes)
    (hmember : value.member (ascii key) = .ofString text) :
    value.getStringMember key default = .ok (cString text) := by
  rw [getStringMember, hmember]
  rfl

theorem getBool_of_member {flag : Bool} (default : Bool)
    (hmember : value.member (ascii key) = .bool flag) :
    value.getBool key default = .ok flag := by
  rw [getBool, hmember]
  rfl

theorem getUInt64MemberOr_of_member {number max : ℕ} (default : ℕ)
    (hmember : value.member (ascii key) = .uint number) (hmax : number ≤ max) :
    value.getUInt64MemberOr key max default = .ok number := by
  have hgreater : (uint number).greaterThanUInt max = false :=
    decide_eq_false (not_lt.mpr hmax)
  rw [getUInt64MemberOr, hmember]
  simp [isNull, checkUInt64, isIntegral, lessThanInt, hgreater, asUInt64]

theorem getUInt64MemberOr_of_gt {number max : ℕ} (default : ℕ)
    (hmember : value.member (ascii key) = .uint number) (hmax : max < number) :
    ∃ error, value.getUInt64MemberOr key max default = .error error := by
  have hgreater : (uint number).greaterThanUInt max = true :=
    decide_eq_true hmax
  rw [getUInt64MemberOr, hmember]
  simp [isNull, checkUInt64, isIntegral, lessThanInt, hgreater]

/-- The beginning of terms that a group gives. -/
def GroupGiven (termPrefix : Bytes) : Prop :=
  ∃ group : Bytes, termPrefix = group ++ ascii "\t" ∧ group ≠ [] ∧
    group.contains 9 = false ∧ cString group = group

theorem checkedMember_of_member (hmember : value.member (ascii key) = .ofString text)
    (hempty : text ≠ []) (htab : text.contains 9 = false) (htext : cString text = text) :
    checkedMember value key = .ok text := by
  have hread := getStringMember_of_member [] hmember
  rw [htext] at hread
  simp only [checkedMember, hread, bind, Except.bind, if_neg hempty, htab]
  rfl

theorem groupPrefix_of_member {termPrefix : Bytes} (hgiven : GroupGiven termPrefix)
    (hmember : value.member (ascii "group") = groupOf termPrefix) :
    groupPrefix value = .ok termPrefix := by
  obtain ⟨group, rfl, hempty, htab, htext⟩ := hgiven
  have hgroup : (group ++ ascii "\t").dropLast = group := List.dropLast_concat
  rw [groupOf, hgroup] at hmember
  have hread := checkedMember_of_member hmember hempty htab htext
  simp only [groupPrefix, hread]
  rfl

end Members

/-! ## Members that were read -/

section Reading

open Attempt

variable {value : Json} (hparsed : value.Parsed) (key : String)

include hparsed

theorem yields_getStringMember {default : Bytes} (hdefault : cString default = default) :
    Yields (value.getStringMember key default) fun text =>
      cString text = text := by
  have hmember := hparsed.member (ascii key)
  unfold getStringMember
  cases hvalue : value.member (ascii key) with
  | null => exact yields_ok hdefault
  | string text =>
    rw [hvalue] at hmember
    exact yields_ok hmember.text
  | _ => exact yields_error _

theorem yields_checkedMember : Yields (checkedMember value key) fun text =>
      text ≠ [] ∧ text.contains 9 = false ∧ cString text = text := by
  refine yields_bind fun text hread => ?_
  have htext := yields_getStringMember hparsed key rfl text hread
  refine yields_ite_of (fun _ => yields_error _) fun hempty => ?_
  refine yields_ite_of (fun _ => yields_error _) fun htab => ?_
  exact yields_ok ⟨hempty, Bool.eq_false_of_not_eq_true htab, htext⟩

theorem yields_groupPrefix : Yields (groupPrefix value) GroupGiven := by
  refine yields_bind fun group hread => yields_ok ?_
  obtain ⟨hempty, htab, htext⟩ := yields_checkedMember hparsed _ group hread
  exact ⟨group, rfl, hempty, htab, htext⟩

end Reading

/-! ## Slots -/

namespace SlotName

/-- The member that a slot is written to. -/
def written (slot : SlotName) : Json :=
  if slot.name = [] then
    if slot.num = badValueno then .null else .uint slot.num
  else .ofString slot.name

/-- A slot that was given by its number, by its name or not at all. -/
def Given (slot : SlotName) : Prop :=
  if slot.name = [] then slot.num ≤ badValueno
  else cString slot.name = slot.name ∧ slot.num = hashSlot slot.name

variable {slot : SlotName} {value : Json} {key : String}

theorem member_toJson_of_ne (slot : SlotName) (value : Json) {other : Bytes}
    (hne : other ≠ ascii key) :
    (slot.toJson value key).member other = value.member other := by
  unfold toJson
  split_ifs
  · rfl
  all_goals exact member_setMember_of_ne _ _ hne

theorem member_toJson
    (hbefore : value.member (ascii key) = .null ∨
      value.member (ascii key) = slot.written) :
    (slot.toJson value key).member (ascii key) = slot.written := by
  unfold toJson written at *
  split_ifs at *
  · exact hbefore.elim id id
  all_goals exact member_setMember_self _ _ _

theorem isObject_toJson (slot : SlotName) (hobject : value.isObject = true)
    (key : String) :
    (slot.toJson value key).isObject = true := by
  unfold toJson
  split_ifs
  · exact hobject
  · rfl
  · rfl

theorem fromJson_int {number : ℤ} (hlow : 0 ≤ number) (hhigh : number ≤ badValueno) :
    fromJson (.int number) = .ok ⟨[], number.toNat⟩ := by
  have hneg : ¬ number < 0 := Int.not_lt.mpr hlow
  have hlarge : ¬ 4294967295 < number := not_lt.mpr hhigh
  simp [fromJson, Json.isNull, Json.isIntegral, Json.lessThanInt,
    Json.greaterThanUInt, Json.asUInt, hneg, hlarge, Except.map]

theorem fromJson_uint {number : ℕ} (hhigh : number ≤ badValueno) :
    fromJson (.uint number) = .ok ⟨[], number⟩ := by
  have hlarge : ¬ 4294967295 < number := Nat.not_lt.mpr hhigh
  simp [fromJson, Json.isNull, Json.isIntegral, Json.lessThanInt,
    Json.greaterThanUInt, Json.asUInt, hlarge, Except.map]

theorem fromJson_written (hgiven : slot.Given) : fromJson slot.written = .ok slot := by
  obtain ⟨name, num⟩ := slot
  unfold Given at hgiven
  unfold written
  by_cases hname : name = []
  · subst hname
    by_cases hnum : num = badValueno
    · subst hnum
      rfl
    · rw [if_pos rfl, if_neg hnum]
      exact fromJson_uint hgiven
  · rw [if_neg hname] at hgiven ⊢
    obtain ⟨htext, hhash⟩ := hgiven
    change Except.ok (⟨cString name, hashSlot (cString name)⟩ : SlotName) = _
    rw [htext, ← hhash]

theorem given_of_num {num : ℕ} (hnum : num ≤ badValueno) : Given ⟨[], num⟩ := hnum

theorem yields_slot (hparsed : value.Parsed) : Attempt.Yields (fromJson value) Given := by
  cases hparsed with
  | null => exact yields_ok (given_of_num (le_refl _))
  | @int number hlow hhigh =>
    by_cases hneg : number < 0
    · simp only [fromJson, isNull, isIntegral, lessThanInt, decide_eq_true hneg]
      exact yields_error _
    · by_cases hnum : number ≤ badValueno
      · rw [fromJson_int (not_lt.mp hneg) hnum]
        exact yields_ok (given_of_num (by omega))
      · have hthrows : ∃ error, (int number).asUInt = .error error := by
          have hlarge : 4294967295 < number := not_le.mp hnum
          simp [asUInt, hneg, hlarge]
        obtain ⟨error, hthrows⟩ := hthrows
        simp only [fromJson, isNull, isIntegral, lessThanInt, greaterThanUInt, hneg,
          hthrows]
        exact yields_error _
  | @uint number hlow hhigh =>
    by_cases hnum : number ≤ badValueno
    · rw [fromJson_uint hnum]
      exact yields_ok (given_of_num hnum)
    · have hgreater : (uint number).greaterThanUInt 0xffffffff = true :=
        decide_eq_true (not_le.mp hnum)
      simp only [fromJson, isNull, isIntegral, lessThanInt, hgreater]
      exact yields_error _
  | @string text htext =>
    refine yields_ok ?_
    unfold Given
    by_cases hname : text = []
    · subst hname
      exact le_refl _
    · rw [if_neg hname]
      exact ⟨htext, rfl⟩
  | _ => exact yields_error _

end SlotName

/-! ## Fields -/

theorem TooLongAction.fromText_toText (action : TooLongAction) :
    fromText (ascii action.toText) = .ok action := by
  cases action <;> rfl

/-- The longest maximum length that a configuration may give. -/
def maxLengthLimit : ℕ := 240

namespace MaxLenFieldConfig

variable {limits : MaxLenFieldConfig} {value : Json}

/-- The members that the limits of a field are written to. -/
structure WrittenTo (limits : MaxLenFieldConfig) (value : Json) : Prop where
  isObject : value.isObject = true
  maxLength : value.member (ascii "max_length") = .uint limits.maxLength
  action : value.member (ascii "too_long_action") =
    literal limits.tooLongAction.toText
  slot : value.member (ascii "slot") = limits.slot.written

theorem WrittenTo.fromJson (hwritten : limits.WrittenTo value) (hslot : limits.slot.Given)
    (hshort : limits.maxLength ≤ maxLengthLimit) :
    fromJson value = .ok limits := by
  have hlength : value.getUInt64MemberOr "max_length" 240 64 = .ok limits.maxLength :=
    getUInt64MemberOr_of_member 64 hwritten.maxLength hshort
  have haction : value.getStringMember "too_long_action" (ascii "error") =
      .ok (ascii limits.tooLongAction.toText) := by
    rw [getStringMember, hwritten.action]
    rfl
  have hmod : limits.maxLength % 2 ^ 32 = limits.maxLength := by
    unfold maxLengthLimit at hshort
    omega
  simp only [MaxLenFieldConfig.fromJson, Json.checkObject, hwritten.isObject, if_true,
    liftInvalid, hlength, haction, TooLongAction.fromText_toText, hwritten.slot,
    fromJson_written hslot, bind, Except.bind, pure, Except.pure, hmod]

theorem WrittenTo.fromJson_error (hwritten : limits.WrittenTo value)
    (hlong : maxLengthLimit < limits.maxLength) :
    ∃ error, MaxLenFieldConfig.fromJson value = .error error := by
  obtain ⟨error, hlength⟩ := getUInt64MemberOr_of_gt 64 hwritten.maxLength hlong
  refine ⟨error, ?_⟩
  change value.getUInt64MemberOr "max_length" 240 64 = .error error at hlength
  simp only [MaxLenFieldConfig.fromJson, Json.checkObject, hwritten.isObject,
    if_true, liftInvalid, hlength, bind, Except.bind]

theorem writtenTo_toJson (limits : MaxLenFieldConfig) :
    limits.WrittenTo (limits.toJson (.object [])) where
  isObject := isObject_toJson _ rfl _
  maxLength := by
    rw [toJson, member_toJson_of_ne _ _ (by decide)]
    simp +decide only [assign_cons, assign_nil, member_setMember, if_true, if_false]
  action := by
    rw [toJson, member_toJson_of_ne _ _ (by decide)]
    exact member_setMember_self _ _ _
  slot := by
    refine member_toJson (.inl ?_)
    simp +decide only [assign_cons, assign_nil, member_setMember, if_false]
    rfl

theorem WrittenTo.setMember (hwritten : limits.WrittenTo value) {key : Bytes} (new : Json)
    (hlength : ascii "max_length" ≠ key) (haction : ascii "too_long_action" ≠ key)
    (hslot : ascii "slot" ≠ key) :
    limits.WrittenTo (value.setMember key new) where
  isObject := rfl
  maxLength := by
    rw [member_setMember_of_ne _ _ hlength, hwritten.maxLength]
  action := by rw [member_setMember_of_ne _ _ haction, hwritten.action]
  slot := by rw [member_setMember_of_ne _ _ hslot, hwritten.slot]

theorem WrittenTo.slotToJson (hwritten : limits.WrittenTo value) :
    limits.WrittenTo (limits.slot.toJson value "slot") where
  isObject := isObject_toJson _ hwritten.isObject _
  maxLength := by
    rw [member_toJson_of_ne _ _ (by decide), hwritten.maxLength]
  action := by
    rw [member_toJson_of_ne _ _ (by decide), hwritten.action]
  slot := member_toJson (.inr hwritten.slot)

/-- The signed integer that is given as the maximum length, if there is one, is
not above the limit when it is kept in an `unsigned int`. -/
def LengthGiven (value : Json) : Prop :=
  ∀ length, value.member (ascii "max_length") = .int length →
    length % 2 ^ 32 ≤ maxLengthLimit

theorem yields_maxLength (hparsed : value.Parsed) :
    Attempt.Yields (value.getUInt64MemberOr "max_length" 240 64) fun length =>
      (length % 2 ^ 32 ≤ maxLengthLimit ↔ LengthGiven value) := by
  have hmember := hparsed.member (ascii "max_length")
  unfold getUInt64MemberOr LengthGiven
  generalize value.member (ascii "max_length") = given at hmember ⊢
  cases hmember with
  | null => exact yields_ok (iff_of_true (by decide) nofun)
  | @int number hlow hhigh =>
    by_cases hneg : number < 0
    · simp only [isNull, checkUInt64, isIntegral, lessThanInt, decide_eq_true hneg]
      exact yields_error _
    · have hread : (Json.int number).checkUInt64 "max_length" 240 = .ok number.toNat := by
        simp [checkUInt64, isIntegral, lessThanInt, greaterThanUInt, asUInt64, hneg,
          not_lt.mp hneg]
      simp only [isNull, Bool.false_eq_true, if_false, hread]
      refine yields_ok ?_
      simp only [int.injEq, forall_eq', maxLengthLimit]
      omega
  | @uint number hlow hhigh =>
    have hgreater : (uint number).greaterThanUInt 240 = true :=
      decide_eq_true (by omega)
    simp only [isNull, checkUInt64, isIntegral, lessThanInt, hgreater]
    exact yields_error _
  | _ => exact yields_error _

theorem yields_limits (hparsed : value.Parsed) :
    Attempt.Yields (fromJson value) fun limits => limits.slot.Given ∧
      (limits.maxLength ≤ maxLengthLimit ↔ LengthGiven value) := by
  refine yields_bind fun _ _ => ?_
  refine yields_bind fun length hlength => ?_
  refine yields_bind fun _ _ => ?_
  refine yields_bind fun _ _ => ?_
  refine Attempt.yields_bind fun slot hslot => Attempt.yields_ok ?_
  exact ⟨SlotName.yields_slot (hparsed.member _) slot hslot,
    yields_maxLength hparsed length hlength⟩

end MaxLenFieldConfig

namespace FieldConfig

/-- A configuration as a JSON text can give it. -/
def Given : FieldConfig → Prop
  | .metadata termPrefix slot => GroupGiven termPrefix ∧ slot.Given
  | .id limits storeField _ =>
      limits.slot.Given ∧ cString storeField = storeField
  | .exact limits termPrefix storeField wdfinc _ =>
      limits.slot.Given ∧ GroupGiven termPrefix ∧
        cString storeField = storeField ∧ wdfinc < 2 ^ 32
  | .text termPrefix storeField processor slot =>
      GroupGiven termPrefix ∧ cString storeField = storeField ∧
        cString processor = processor ∧ slot.Given
  | .double slot storeField => slot.Given ∧ cString storeField = storeField
  | .timestamp slot storeField => slot.Given ∧ cString storeField = storeField
  | .date slot storeField => slot.Given ∧ cString storeField = storeField
  | .category limits termPrefix taxonomyName storeField =>
      limits.slot.Given ∧ GroupGiven termPrefix ∧
        (taxonomyName ≠ [] ∧ taxonomyName.contains 9 = false ∧
          cString taxonomyName = taxonomyName) ∧
        cString storeField = storeField
  | .lonlat slot storeField => slot.Given ∧ cString storeField = storeField
  | .stored storeField => storeField ≠ [] ∧ cString storeField = storeField
  | .ignored => True

/-- A maximum length is not above the limit. -/
def Short : FieldConfig → Prop
  | .id limits _ _ => limits.maxLength ≤ maxLengthLimit
  | .exact limits _ _ _ _ => limits.maxLength ≤ maxLengthLimit
  | .category limits _ _ _ => limits.maxLength ≤ maxLengthLimit
  | _ => True

instance (config : FieldConfig) : Decidable config.Short := by
  unfold Short
  split <;> infer_instance

/-- The beginning of the id terms depends on the type of documents, and is not
written. -/
def forType (config : FieldConfig) (docType : Bytes) : FieldConfig :=
  match config with
  | .id limits storeField _ => .id limits storeField (idPrefix docType)
  | _ => config

theorem toJson_forType (config : FieldConfig) (docType : Bytes) (value : Json) :
    (config.forType docType).toJson value = config.toJson value := by
  cases config <;> rfl

theorem short_forType (config : FieldConfig) (docType : Bytes) :
    (config.forType docType).Short ↔ config.Short := by
  cases config <;> rfl

/-- It makes no difference whether the value that is written to is an empty
object or `null`. -/
theorem toJson_null (config : FieldConfig) :
    config.toJson .null = config.toJson (.object []) := by
  cases config <;> rfl

/-! ## Reading what was written -/

variable {type : String}

theorem fromJson_of_type {value : Json} (hobject : value.isObject = true)
    (htype : value.member (ascii "type") = literal type) (docType : Bytes) :
    fromJson value docType = ofType value docType (ascii type) := by
  have hread : value.getStringMember "type" [] = .ok (ascii type) := by
    rw [Json.getStringMember, htype]
    rfl
  simp only [fromJson, Json.checkObject, hobject, if_true, liftInvalid, hread, bind,
    Except.bind]

theorem slotAndStore_of_members {value : Json} {slot : SlotName} {storeField : Bytes}
    (hobject : value.isObject = true) (hslot : value.member (ascii "slot") = slot.written)
    (hstore : value.member (ascii "store_field") = .ofString storeField)
    (hgiven : slot.Given) (htext : cString storeField = storeField)
    (make : SlotName → Bytes → FieldConfig) :
    slotAndStore value make = .ok (make slot storeField) := by
  have hread := getStringMember_of_member [] hstore
  simp only [slotAndStore, Json.checkObject, hobject, if_true, liftInvalid, hslot,
    SlotName.fromJson_written hgiven, hread, htext, bind, Except.bind, pure, Except.pure]

theorem slotThenStore_written (type : String) (slot : SlotName) (storeField : Bytes) :
    let value := slotThenStore type slot storeField (.object [])
    value.isObject = true ∧ value.member (ascii "type") = literal type ∧
      value.member (ascii "slot") = slot.written ∧
      value.member (ascii "store_field") = .ofString storeField := by
  simp only [slotThenStore, assign_cons, assign_nil]
  refine ⟨rfl, ?_, ?_, member_setMember_self _ _ _⟩
  · rw [member_setMember_of_ne _ _ (by decide),
      member_toJson_of_ne _ _ (by decide), member_setMember_self]
  · rw [member_setMember_of_ne _ _ (by decide)]
    exact member_toJson (.inl rfl)

section Limits

variable {limits : MaxLenFieldConfig} {termPrefix storeField : Bytes}

theorem id_written (limits : MaxLenFieldConfig) (storeField termPrefix : Bytes) :
    let value := (id limits storeField termPrefix).toJson (.object [])
    limits.WrittenTo value ∧ value.member (ascii "type") = literal "id" ∧
      value.member (ascii "store_field") = .ofString storeField := by
  simp only [toJson, assign_cons, assign_nil]
  refine ⟨?_, ?_⟩
  · exact (limits.writtenTo_toJson.setMember _ (by decide) (by decide)
      (by decide)).setMember _ (by decide) (by decide) (by decide)
  · simp +decide only [member_setMember, if_true, if_false, and_self]

theorem exact_written (limits : MaxLenFieldConfig) (termPrefix storeField : Bytes)
    (wdfinc : ℕ) (lowercase : Bool) :
    let value := (exact limits termPrefix storeField wdfinc lowercase).toJson (.object [])
    limits.WrittenTo value ∧ value.member (ascii "type") = literal "exact" ∧
      value.member (ascii "group") = groupOf termPrefix ∧
      value.member (ascii "store_field") = .ofString storeField ∧
      value.member (ascii "wdfinc") = .uint wdfinc ∧
      value.member (ascii "lowercase") = .bool lowercase := by
  simp only [toJson, assign_cons, assign_nil]
  refine ⟨?_, ?_⟩
  · iterate 5
      refine MaxLenFieldConfig.WrittenTo.setMember ?_ _ (by decide)
        (by decide) (by decide)
    exact limits.writtenTo_toJson
  · simp +decide only [member_setMember, if_true, if_false, and_self]

theorem category_written (limits : MaxLenFieldConfig)
    (termPrefix taxonomyName storeField : Bytes) :
    let value := (category limits termPrefix taxonomyName storeField).toJson (.object [])
    limits.WrittenTo value ∧ value.member (ascii "type") = literal "cat" ∧
      value.member (ascii "group") = groupOf termPrefix ∧
      value.member (ascii "taxonomy") = .ofString taxonomyName ∧
      value.member (ascii "store_field") = .ofString storeField := by
  simp only [toJson, assign_cons, assign_nil]
  refine ⟨MaxLenFieldConfig.WrittenTo.slotToJson ?_, ?_⟩
  · iterate 4
      refine MaxLenFieldConfig.WrittenTo.setMember ?_ _ (by decide)
        (by decide) (by decide)
    exact limits.writtenTo_toJson
  · simp +decide only [member_toJson_of_ne, member_setMember, ne_eq, if_true, if_false,
      and_self]

end Limits

theorem metadata_written (termPrefix : Bytes) (slot : SlotName) :
    let value := (metadata termPrefix slot).toJson (.object [])
    value.isObject = true ∧ value.member (ascii "type") = literal "meta" ∧
      value.member (ascii "group") = groupOf termPrefix ∧
      value.member (ascii "slot") = slot.written := by
  simp only [toJson, assign_cons, assign_nil]
  refine ⟨isObject_toJson _ rfl _, ?_, ?_, ?_⟩
  · rw [member_toJson_of_ne _ _ (by decide)]
    simp +decide only [member_setMember, if_true, if_false]
  · rw [member_toJson_of_ne _ _ (by decide)]
    simp +decide only [member_setMember, if_true]
  · refine member_toJson (.inl ?_)
    simp +decide only [member_setMember, if_false]
    rfl

theorem text_written (termPrefix storeField processor : Bytes) (slot : SlotName) :
    let value := (text termPrefix storeField processor slot).toJson (.object [])
    value.isObject = true ∧ value.member (ascii "type") = literal "text" ∧
      value.member (ascii "group") = groupOf termPrefix ∧
      value.member (ascii "store_field") = .ofString storeField ∧
      value.member (ascii "processor") = .ofString processor ∧
      value.member (ascii "slot") = slot.written := by
  simp only [toJson, assign_cons, assign_nil]
  refine ⟨isObject_toJson _ rfl _, ?_, ?_, ?_, ?_, ?_⟩
  iterate 4
    rw [member_toJson_of_ne _ _ (by decide)]
    simp +decide only [member_setMember, if_true, if_false]
  refine member_toJson (.inl ?_)
  simp +decide only [member_setMember, if_false]
  rfl

theorem id_fromJson_toJson {limits : MaxLenFieldConfig} {storeField termPrefix : Bytes}
    (hgiven : (FieldConfig.id limits storeField termPrefix).Given)
    (hshort : limits.maxLength ≤ maxLengthLimit) (docType : Bytes) :
    fromJson ((FieldConfig.id limits storeField termPrefix).toJson (.object [])) docType =
      .ok (.id limits storeField (idPrefix docType)) := by
  obtain ⟨hslot, hstore⟩ := hgiven
  obtain ⟨hlimits, htype, hstored⟩ := id_written limits storeField termPrefix
  have hread := getStringMember_of_member [] hstored
  rw [fromJson_of_type hlimits.isObject htype]
  change idFromJson _ _ = _
  simp only [idFromJson, hlimits.fromJson hslot hshort, hread, hstore, bind,
    Except.bind, pure, Except.pure]

theorem exact_fromJson_toJson {limits : MaxLenFieldConfig} {termPrefix storeField : Bytes}
    {wdfinc : ℕ} {lowercase : Bool}
    (hgiven : (FieldConfig.exact limits termPrefix storeField wdfinc lowercase).Given)
    (hshort : limits.maxLength ≤ maxLengthLimit) (docType : Bytes) :
    fromJson ((FieldConfig.exact limits termPrefix storeField wdfinc
        lowercase).toJson (.object [])) docType =
      .ok (.exact limits termPrefix storeField wdfinc lowercase) := by
  obtain ⟨hslot, hgroup, hstore, hwdfinc⟩ := hgiven
  obtain ⟨hlimits, htype, hgrouped, hstored, hweight, hlower⟩ :=
    exact_written limits termPrefix storeField wdfinc lowercase
  rw [fromJson_of_type hlimits.isObject htype]
  change exactFromJson _ = _
  simp only [exactFromJson, hlimits.fromJson hslot hshort,
    groupPrefix_of_member hgroup hgrouped, getStringMember_of_member [] hstored, hstore,
    getUInt64MemberOr_of_member 0 hweight (show wdfinc ≤ 18446744073709551615 by omega),
    getBool_of_member false hlower, Nat.mod_eq_of_lt hwdfinc, bind, Except.bind, pure,
    Except.pure]

theorem category_fromJson_toJson {limits : MaxLenFieldConfig}
    {termPrefix taxonomyName storeField : Bytes}
    (hgiven : (FieldConfig.category limits termPrefix taxonomyName storeField).Given)
    (hshort : limits.maxLength ≤ maxLengthLimit) (docType : Bytes) :
    fromJson ((FieldConfig.category limits termPrefix taxonomyName
        storeField).toJson (.object [])) docType =
      .ok (.category limits termPrefix taxonomyName storeField) := by
  obtain ⟨hslot, hgroup, ⟨hempty, htab, htext⟩, hstore⟩ := hgiven
  obtain ⟨hlimits, htype, hgrouped, htaxonomy, hstored⟩ :=
    category_written limits termPrefix taxonomyName storeField
  rw [fromJson_of_type hlimits.isObject htype]
  change categoryFromJson _ = _
  simp only [categoryFromJson, hlimits.fromJson hslot hshort,
    groupPrefix_of_member hgroup hgrouped,
    checkedMember_of_member htaxonomy hempty htab htext,
    getStringMember_of_member [] hstored, hstore, hlimits.slot,
    SlotName.fromJson_written hslot, bind, Except.bind, pure, Except.pure]

theorem metadata_fromJson_toJson {termPrefix : Bytes} {slot : SlotName}
    (hgiven : (metadata termPrefix slot).Given) (docType : Bytes) :
    fromJson ((FieldConfig.metadata termPrefix slot).toJson (.object []))
      docType = .ok (.metadata termPrefix slot) := by
  obtain ⟨hgroup, hslot⟩ := hgiven
  obtain ⟨hobject, htype, hgrouped, hslotted⟩ := metadata_written termPrefix slot
  rw [fromJson_of_type hobject htype]
  change metadataFromJson _ = _
  simp only [metadataFromJson, checkObject, hobject, if_true, liftInvalid,
    groupPrefix_of_member hgroup hgrouped, hslotted,
    fromJson_written hslot, bind, Except.bind, pure, Except.pure]

theorem text_fromJson_toJson {termPrefix storeField processor : Bytes} {slot : SlotName}
    (hgiven : (FieldConfig.text termPrefix storeField processor slot).Given)
    (docType : Bytes) :
    fromJson ((FieldConfig.text termPrefix storeField processor slot).toJson (.object []))
      docType =
      .ok (.text termPrefix storeField processor slot) := by
  obtain ⟨hgroup, hstore, hprocessor, hslot⟩ := hgiven
  obtain ⟨hobject, htype, hgrouped, hstored, hprocessed, hslotted⟩ :=
    text_written termPrefix storeField processor slot
  rw [fromJson_of_type hobject htype]
  change textFromJson _ = _
  simp only [textFromJson, Json.checkObject, hobject, if_true, liftInvalid,
    groupPrefix_of_member hgroup hgrouped, getStringMember_of_member [] hstored, hstore,
    getStringMember_of_member [] hprocessed, hprocessor, hslotted,
    SlotName.fromJson_written hslot, bind, Except.bind, pure, Except.pure]

theorem stored_fromJson_toJson {storeField : Bytes} (hgiven : (stored storeField).Given)
    (docType : Bytes) :
    fromJson ((FieldConfig.stored storeField).toJson (.object [])) docType =
      .ok (.stored storeField) := by
  obtain ⟨hempty, hstore⟩ := hgiven
  have hstored : ((stored storeField).toJson (.object [])).member
      (ascii "store_field") = .ofString storeField :=
    member_setMember_self _ _ _
  have htype : ((stored storeField).toJson (.object [])).member
      (ascii "type") = literal "stored" := by
    simp +decide only [toJson, assign_cons, assign_nil, member_setMember, if_true,
      if_false]
  rw [fromJson_of_type rfl htype]
  change storedFromJson _ = _
  have hobject : ((stored storeField).toJson (.object [])).isObject = true := rfl
  simp only [storedFromJson, Json.checkObject, hobject, if_true, liftInvalid,
    getStringMember_of_member [] hstored, hstore, if_neg hempty, bind,
    Except.bind, pure, Except.pure]

theorem slotThenStore_fromJson {slot : SlotName} {storeField : Bytes}
    {make : SlotName → Bytes → FieldConfig}
    (hgiven : slot.Given ∧ cString storeField = storeField) {docType : Bytes}
    (hmake : ∀ value, ofType value docType (ascii type) = slotAndStore value make) :
    fromJson (slotThenStore type slot storeField (.object [])) docType =
      .ok (make slot storeField) := by
  obtain ⟨hobject, htype, hslotted, hstored⟩ := slotThenStore_written type slot storeField
  rw [fromJson_of_type hobject htype, hmake]
  exact slotAndStore_of_members hobject hslotted hstored hgiven.1 hgiven.2 make

variable {config : FieldConfig}

/-- A configuration that is short is read back from what was written. -/
theorem fromJson_toJson (hgiven : config.Given) (hshort : config.Short)
    (docType : Bytes) :
    fromJson (config.toJson (.object [])) docType = .ok (config.forType docType) := by
  cases config with
  | metadata termPrefix slot => exact metadata_fromJson_toJson hgiven docType
  | id limits storeField termPrefix =>
    exact id_fromJson_toJson hgiven hshort docType
  | exact limits termPrefix storeField wdfinc lowercase =>
    exact exact_fromJson_toJson hgiven hshort docType
  | text termPrefix storeField processor slot =>
    exact text_fromJson_toJson hgiven docType
  | double slot storeField | timestamp slot storeField
  | date slot storeField | lonlat slot storeField =>
    exact slotThenStore_fromJson hgiven fun _ => rfl
  | category limits termPrefix taxonomyName storeField =>
    exact category_fromJson_toJson hgiven hshort docType
  | stored storeField => exact stored_fromJson_toJson hgiven docType
  | ignored =>
    have htype : (ignored.toJson (.object [])).member
        (ascii "type") = literal "ignore" := Json.member_setMember_self _ _ _
    exact fromJson_of_type rfl htype docType

/-- A maximum length above the limit is noticed where it is written. -/
theorem fromJson_error_of_limits {value : Json} {limits : MaxLenFieldConfig}
    {docType : Bytes} {next : MaxLenFieldConfig → Except Thrown FieldConfig}
    (hlimits : limits.WrittenTo value)
    (htype : value.member (ascii "type") = literal type)
    (hmake : ofType value docType (ascii type) =
      MaxLenFieldConfig.fromJson value >>= next)
    (hlong : ¬ limits.maxLength ≤ maxLengthLimit) :
    ∃ error, fromJson value docType = .error error := by
  obtain ⟨error, herror⟩ := hlimits.fromJson_error (not_le.mp hlong)
  refine ⟨error, ?_⟩
  rw [fromJson_of_type hlimits.isObject htype, hmake, herror]
  rfl

theorem fromJson_toJson_error (hlong : ¬ config.Short) (docType : Bytes) :
    ∃ error, fromJson (config.toJson (.object [])) docType = .error error := by
  cases config with
  | id limits storeField termPrefix =>
    obtain ⟨hlimits, htype, -⟩ := id_written limits storeField termPrefix
    exact fromJson_error_of_limits hlimits htype rfl hlong
  | exact limits termPrefix storeField wdfinc lowercase =>
    obtain ⟨hlimits, htype, -⟩ :=
      exact_written limits termPrefix storeField wdfinc lowercase
    exact fromJson_error_of_limits hlimits htype rfl hlong
  | category limits termPrefix taxonomyName storeField =>
    obtain ⟨hlimits, htype, -⟩ :=
      category_written limits termPrefix taxonomyName storeField
    exact fromJson_error_of_limits hlimits htype rfl hlong
  | _ => exact absurd trivial hlong

/-! ## What is read -/

/-- The types of the fields that have a maximum length. -/
def limitedTypes : List Bytes :=
  [ascii "cat", ascii "exact", ascii "id"]

/-- A field that has a maximum length is not given one above the limit. -/
def WithinLimit (value : Json) : Prop :=
  ∀ type ∈ limitedTypes, value.member (ascii "type") = .string type →
    MaxLenFieldConfig.LengthGiven value

section Yields

open Attempt

variable {value : Json}

variable {type : Bytes}

theorem withinLimit_iff (htype : value.member (ascii "type") = .string type)
    (hlimited : type ∈ limitedTypes) :
    WithinLimit value ↔ MaxLenFieldConfig.LengthGiven value :=
  ⟨fun hwithin => hwithin type hlimited htype, fun hgiven _ _ _ => hgiven⟩

theorem withinLimit_of_notMem (htype : value.member (ascii "type") = .string type)
    (hlimited : type ∉ limitedTypes) : WithinLimit value := by
  intro other hother hmember
  rw [htype, string.injEq] at hmember
  subst hmember
  exact absurd hother hlimited

/-- A configuration that can be read back if and only if the limit is kept. -/
def ReadFrom (value : Json) (config : FieldConfig) : Prop :=
  config.Given ∧ (config.Short ↔ WithinLimit value)

variable (hparsed : value.Parsed)

include hparsed

theorem readFrom_slotAndStore {make : SlotName → Bytes → FieldConfig}
    {post : FieldConfig → Prop}
    (hmake : ∀ slot storeField, slot.Given → cString storeField = storeField →
      post (make slot storeField)) : Yields (slotAndStore value make) post := by
  refine yields_bind fun _ _ => ?_
  refine yields_bind fun slot hslot => ?_
  refine yields_bind fun storeField hstore => yields_ok ?_
  exact hmake slot storeField (yields_slot (hparsed.member _) slot hslot)
    (yields_getStringMember hparsed _ rfl storeField hstore)

theorem readFrom_categoryFromJson
    (htype : value.member (ascii "type") = .string (ascii "cat")) :
    Yields (categoryFromJson value) (ReadFrom value) := by
  refine yields_bind fun limits hlimits => ?_
  refine yields_bind fun termPrefix hgroup => ?_
  refine yields_bind fun taxonomyName htaxonomy => ?_
  refine yields_bind fun storeField hstore => ?_
  refine yields_bind fun slot hslot => yields_ok ?_
  obtain ⟨-, hlength⟩ := yields_limits hparsed limits hlimits
  refine ⟨⟨yields_slot (hparsed.member _) slot hslot,
    yields_groupPrefix hparsed termPrefix hgroup,
    yields_checkedMember hparsed _ taxonomyName htaxonomy,
    yields_getStringMember hparsed _ rfl storeField hstore⟩, ?_⟩
  rw [withinLimit_iff htype (by decide)]
  exact hlength

theorem readFrom_exactFromJson
    (htype : value.member (ascii "type") = .string (ascii "exact")) :
    Yields (exactFromJson value) (ReadFrom value) := by
  refine yields_bind fun limits hlimits => ?_
  refine yields_bind fun termPrefix hgroup => ?_
  refine yields_bind fun storeField hstore => ?_
  refine yields_bind fun wdfinc _ => ?_
  refine yields_bind fun lowercase _ => yields_ok ?_
  obtain ⟨hslot, hlength⟩ := yields_limits hparsed limits hlimits
  refine ⟨⟨hslot, yields_groupPrefix hparsed termPrefix hgroup,
    yields_getStringMember hparsed _ rfl storeField hstore,
    mod_lt _ (by decide)⟩, ?_⟩
  rw [withinLimit_iff htype (by decide)]
  exact hlength

theorem readFrom_idFromJson (htype : value.member (ascii "type") = .string (ascii "id"))
    (docType : Bytes) :
    Yields (idFromJson value docType) (ReadFrom value) := by
  refine yields_bind fun limits hlimits => ?_
  refine yields_bind fun storeField hstore => yields_ok ?_
  obtain ⟨hslot, hlength⟩ := yields_limits hparsed limits hlimits
  refine ⟨⟨hslot, yields_getStringMember hparsed _ rfl storeField hstore⟩, ?_⟩
  rw [withinLimit_iff htype (by decide)]
  exact hlength

theorem readFrom_metadataFromJson (hwithin : WithinLimit value) :
    Yields (metadataFromJson value) (ReadFrom value) := by
  refine yields_bind fun _ _ => ?_
  refine yields_bind fun termPrefix hgroup => ?_
  refine yields_bind fun slot hslot => yields_ok ?_
  exact ⟨⟨yields_groupPrefix hparsed termPrefix hgroup,
    yields_slot (hparsed.member _) slot hslot⟩,
    iff_of_true trivial hwithin⟩

theorem readFrom_textFromJson (hwithin : WithinLimit value) :
    Yields (textFromJson value) (ReadFrom value) := by
  refine yields_bind fun _ _ => ?_
  refine yields_bind fun termPrefix hgroup => ?_
  refine yields_bind fun storeField hstore => ?_
  refine yields_bind fun processor hprocessor => ?_
  refine yields_bind fun slot hslot => yields_ok ?_
  exact ⟨⟨yields_groupPrefix hparsed termPrefix hgroup,
    yields_getStringMember hparsed _ rfl storeField hstore,
    yields_getStringMember hparsed _ rfl processor hprocessor,
    yields_slot (hparsed.member _) slot hslot⟩,
    iff_of_true trivial hwithin⟩

theorem readFrom_storedFromJson (hwithin : WithinLimit value) :
    Yields (storedFromJson value) (ReadFrom value) := by
  refine yields_bind fun _ _ => ?_
  refine yields_bind fun storeField hstore => ?_
  refine yields_ite_of (fun _ => yields_error _) fun hempty => yields_ok ?_
  exact ⟨⟨hempty, yields_getStringMember hparsed _ rfl storeField hstore⟩,
    iff_of_true trivial hwithin⟩

theorem readFrom_ofType (htype : value.member (ascii "type") = .string type)
    (docType : Bytes) :
    Yields (ofType value docType type) (ReadFrom value) := by
  have hwithin : type ∉ limitedTypes → WithinLimit value := withinLimit_of_notMem htype
  have hslotted : type ∉ limitedTypes → ∀ {make},
      (∀ slot storeField, slot.Given → cString storeField = storeField →
        (make slot storeField).Given ∧ (make slot storeField).Short) →
      Yields (slotAndStore value make) (ReadFrom value) := by
    intro hlimited make hmake
    refine readFrom_slotAndStore hparsed fun slot storeField hslot hstore => ?_
    obtain ⟨hgiven, hshort⟩ := hmake slot storeField hslot hstore
    exact ⟨hgiven, iff_of_true hshort (hwithin hlimited)⟩
  have hpair : ∀ (slot : SlotName) (storeField : Bytes),
      slot.Given → cString storeField = storeField →
        (slot.Given ∧ cString storeField = storeField) ∧ True :=
    fun _ _ hslot hstore => ⟨⟨hslot, hstore⟩, trivial⟩
  refine yields_ite_of (fun heq => ?_) fun _ => ?_
  · subst heq
    exact readFrom_categoryFromJson hparsed htype
  refine yields_ite_of (fun heq => ?_) fun _ => ?_
  · subst heq
    exact hslotted (by decide) hpair
  refine yields_ite_of (fun heq => ?_) fun _ => ?_
  · subst heq
    exact hslotted (by decide) hpair
  refine yields_ite_of (fun heq => ?_) fun _ => ?_
  · subst heq
    exact readFrom_exactFromJson hparsed htype
  refine yields_ite_of (fun heq => ?_) fun _ => ?_
  · subst heq
    exact readFrom_idFromJson hparsed htype docType
  refine yields_ite_of (fun heq => ?_) fun _ => ?_
  · subst heq
    exact yields_ok ⟨trivial, iff_of_true trivial (hwithin (by decide))⟩
  refine yields_ite_of (fun heq => ?_) fun _ => ?_
  · subst heq
    exact hslotted (by decide) hpair
  refine yields_ite_of (fun heq => ?_) fun _ => ?_
  · subst heq
    exact readFrom_metadataFromJson hparsed (hwithin (by decide))
  refine yields_ite_of (fun heq => ?_) fun _ => ?_
  · subst heq
    exact readFrom_storedFromJson hparsed (hwithin (by decide))
  refine yields_ite_of (fun heq => ?_) fun _ => ?_
  · subst heq
    exact readFrom_textFromJson hparsed (hwithin (by decide))
  refine yields_ite_of (fun heq => ?_) fun _ => yields_error _
  · subst heq
    exact hslotted (by decide) hpair

theorem readFrom_fromJson (docType : Bytes) :
    Yields (fromJson value docType) (ReadFrom value) := by
  refine yields_bind fun _ _ => ?_
  refine yields_bind fun type hread => ?_
  unfold getStringMember at hread
  cases htype : value.member (ascii "type") with
  | null =>
    rw [htype] at hread
    cases hread
    exact yields_error _
  | string text =>
    rw [htype] at hread
    cases hread
    exact readFrom_ofType hparsed htype docType
  | _ =>
    rw [htype] at hread
    cases hread

omit hparsed

end Yields

/-- A configuration that was read from a JSON text. -/
def Accepted (config : FieldConfig) : Prop :=
  ∃ value docType, value.Parsed ∧ fromJson value docType = .ok config

theorem Accepted.given (haccepted : config.Accepted) : config.Given := by
  obtain ⟨value, docType, hparsed, hread⟩ := haccepted
  exact (readFrom_fromJson hparsed docType config hread).1

theorem survives_iff (hgiven : config.Given) (docType : Bytes) :
    Survives (fromJson · docType) (toJson · (.object [])) config ↔ config.Short := by
  constructor
  · rintro ⟨again, hread, -⟩
    by_contra hlong
    obtain ⟨error, herror⟩ := fromJson_toJson_error hlong docType
    cases herror.symm.trans hread
  · intro hshort
    exact ⟨config.forType docType, fromJson_toJson hgiven hshort docType,
      toJson_forType config docType _⟩

end FieldConfig

end Restpose.Config
