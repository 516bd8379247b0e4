import Restpose.Core.Results
import Restpose.JsonManip.Mapping

/-!
# Exceptions of other classes

Paths, conditionals and mappings are rejected with an `InvalidValueError`, which
the worker threads catch.  The exception of a number that does not fit into an
unsigned integer is one of the JSON library, and leaves the readers.
-/

namespace Restpose

open Json JSONPathComponent Mapping MappingActions List

/-- An exception that is not an `InvalidValueError`. -/
def Escapes (error : Thrown) : Prop :=
  ∀ invalid, error ≠ .invalidValue invalid

/-- A read returns a value or throws an `InvalidValueError`. -/
def Contained {Value : Type} (result : Except Thrown Value) : Prop :=
  ∀ error, result = .error error → ∃ invalid, error = .invalidValue invalid

theorem contained_iff {Value : Type} {result : Except Thrown Value} :
    Contained result ↔ ¬Raises Escapes result := by
  simp only [Contained, Raises, Escapes, not_exists, not_and, not_forall, not_not]

@[simp]
theorem not_escapes_invalid (message : Bytes) : ¬Escapes (.invalid message) :=
  fun hescapes => hescapes ⟨message⟩ rfl

@[simp]
theorem escapes_runtimeError (message : Bytes) : Escapes (.runtimeError message) := nofun

@[simp]
theorem raises_liftInvalid {Value : Type} {result : Except InvalidValueError Value} :
    ¬Raises Escapes (liftInvalid result) := by
  cases result with
  | ok value => simp [liftInvalid]
  | error error =>
    simp only [liftInvalid, raises_error]
    exact fun hescapes => hescapes error rfl

namespace Json

variable {description : String}

@[simp]
theorem liftInvalid_checkArray {value : Json} {checked : Unit} :
    liftInvalid (value.checkArray description) = .ok checked ↔ value.isArray := by
  unfold checkArray
  split_ifs with harray <;> simp [liftInvalid, harray]

@[simp]
theorem liftInvalid_checkObject {value : Json} {checked : Unit} :
    liftInvalid (value.checkObject description) = .ok checked ↔ value.isObject := by
  unfold checkObject
  split_ifs with hobject <;> simp [liftInvalid, hobject]

@[simp]
theorem succeeds_checkString {value : Json} :
    Succeeds (liftInvalid (value.checkString description)) ↔ value.isString := by
  cases value <;> simp [checkString, liftInvalid, isString]

/-! ## Components -/

/-- A number that fits into an unsigned integer. -/
def FitsUInt : Json → Prop
  | int number => 0 ≤ number ∧ number < 2 ^ 32
  | uint number => number < 2 ^ 32
  | real bits => Double.within bits 0 4294967295
  | bool _ => True
  | _ => False

/-- A number that does not, and that is no negative integer. -/
def ExceedsUInt : Json → Prop
  | int number => 2 ^ 32 ≤ number
  | uint number => 2 ^ 32 ≤ number
  | real bits => ¬Double.within bits 0 4294967295
  | _ => False

/-- What is taken as a component of the path of a mapping. -/
def ComponentGiven (value : Json) : Prop :=
  value.isString ∨ value.FitsUInt

/-- What is taken as a component of the path of a conditional. -/
def ItemGiven (value : Json) : Prop :=
  value.isString ∨ (value.isIntegral ∧ value.FitsUInt)

section Numbers

variable {value : Json}

theorem FitsUInt.isNumber (hfits : value.FitsUInt) :
    value.isNumeric && !value.lessThanInt 0 := by
  cases value <;> simp_all [FitsUInt, isNumeric, isIntegral, lessThanInt]

theorem ExceedsUInt.isNumber (hexceeds : value.ExceedsUInt) :
    value.isNumeric && !value.lessThanInt 0 := by
  cases value with
  | int number =>
    simp only [ExceedsUInt] at hexceeds
    simp [isNumeric, isIntegral, lessThanInt]
    omega
  | _ => simp_all [ExceedsUInt, isNumeric, isIntegral, lessThanInt]

theorem ExceedsUInt.not_fits (hexceeds : value.ExceedsUInt) : ¬value.FitsUInt := by
  cases value <;> simp_all [ExceedsUInt, FitsUInt]

theorem ExceedsUInt.isString_eq (hexceeds : value.ExceedsUInt) :
    value.isString = false := by
  cases value <;> simp_all [ExceedsUInt, isString]

variable (hnumber : value.isNumeric && !value.lessThanInt 0)

include hnumber

/-- The conversion to an unsigned integer of a number that is no negative
integer. -/
theorem asUInt_cases : (value.FitsUInt ∧ ∃ number, value.asUInt = .ok number) ∨
      (value.ExceedsUInt ∧ ∃ message, value.asUInt = .error (.runtimeError message)) := by
  cases value with
  | int number =>
    simp only [isNumeric, isIntegral, lessThanInt, Bool.true_and,
      Bool.not_eq_true', decide_eq_false_iff_not] at hnumber
    by_cases hlarge : 4294967295 < number
    · exact .inr ⟨by simp only [ExceedsUInt]; omega, _,
        (if_neg hnumber).trans (if_pos hlarge)⟩
    · exact .inl ⟨by simp only [FitsUInt]; omega, _,
        (if_neg hnumber).trans (if_neg hlarge)⟩
  | uint number =>
    by_cases hlarge : 4294967295 < number
    · exact .inr ⟨by simp only [ExceedsUInt]; omega, _, if_pos hlarge⟩
    · exact .inl ⟨by simp only [FitsUInt]; omega, _, if_neg hlarge⟩
  | real bits =>
    by_cases hwithin : Double.within bits 0 4294967295
    · exact .inl ⟨hwithin, _, if_pos hwithin⟩
    · exact .inr ⟨hwithin, _, if_neg hwithin⟩
  | bool value => exact .inl ⟨trivial, _, rfl⟩
  | _ => simp [isNumeric, isIntegral] at hnumber

theorem succeeds_asUInt : Succeeds value.asUInt ↔ value.FitsUInt := by
  rcases asUInt_cases hnumber with ⟨hfits, number, heq⟩ | ⟨hexceeds, _, heq⟩
  · simp [heq, hfits]
  · simp [heq, hexceeds.not_fits]

theorem raises_asUInt : Raises Escapes value.asUInt ↔ value.ExceedsUInt := by
  rcases asUInt_cases hnumber with ⟨hfits, number, heq⟩ | ⟨hexceeds, _, heq⟩
  · simp only [heq, not_raises_ok, false_iff]
    exact fun hexceeds => hexceeds.not_fits hfits
  · simp [heq, hexceeds]

omit hnumber

theorem succeeds_set : Succeeds (JSONPathComponent.set value) ↔ value.ComponentGiven := by
  unfold JSONPathComponent.set ComponentGiven
  split_ifs with hstring hnumber
  · simp [hstring]
  · simp [hstring, succeeds_asUInt hnumber]
  · simp only [not_succeeds_error, hstring, Bool.false_eq_true, false_or, false_iff]
    exact fun hfits => hnumber hfits.isNumber

theorem raises_set :
    Raises Escapes (JSONPathComponent.set value) ↔ value.ExceedsUInt := by
  unfold JSONPathComponent.set
  split_ifs with hstring hnumber
  · simp only [not_raises_ok, false_iff]
    intro hexceeds
    rw [hexceeds.isString_eq] at hstring
    cases hstring
  · simp [raises_asUInt hnumber]
  · simp only [raises_error, not_escapes_invalid, false_iff]
    exact fun hexceeds => hnumber hexceeds.isNumber

theorem isNumeric_of_isIntegral (hintegral : value.isIntegral) : value.isNumeric := by
  cases value <;> simp_all [isIntegral, isNumeric]

theorem succeeds_readItem : Succeeds (readItem value) ↔ value.ItemGiven := by
  unfold readItem ItemGiven
  split_ifs with hintegral hneg hstring
  · have hnumber : ¬value.FitsUInt := fun hfits => by
      have := hfits.isNumber
      simp [hneg] at this
    cases value <;> simp_all [isIntegral, isString]
  · have hnumber : value.isNumeric && !value.lessThanInt 0 := by
      simp [isNumeric_of_isIntegral hintegral, hneg]
    have hstring : value.isString = false := by
      cases value <;> simp_all [isIntegral, isString]
    simp [succeeds_asUInt hnumber, hintegral, hstring]
  · simp [hstring]
  · simp [hstring, hintegral]

theorem raises_readItem : Raises Escapes (readItem value) ↔
      value.isIntegral ∧ value.ExceedsUInt := by
  unfold readItem
  split_ifs with hintegral hneg hstring
  · simp only [raises_error, not_escapes_invalid, false_iff, not_and]
    intro _ hexceeds
    have hnumber := hexceeds.isNumber
    simp [hneg] at hnumber
  · have hnumber : value.isNumeric && !value.lessThanInt 0 := by
      simp [isNumeric_of_isIntegral hintegral, hneg]
    simp [raises_asUInt hnumber, hintegral]
  all_goals simp [hintegral]

end Numbers

/-! ## Paths and conditionals -/

/-- A path that is taken. -/
def PathGiven (value : Json) : Prop :=
  value.isArray ∧ ∀ item ∈ value.items, item.ItemGiven

/-- A path in which the first item that is not taken is an integer that is too
large. -/
def PathFault (value : Json) : Prop :=
  Reaches ItemGiven (fun item => item.isIntegral ∧ item.ExceedsUInt) value.items

theorem isArray_of_reaches {value : Json} {good bad : Json → Prop}
    (hreaches : Reaches good bad value.items) : value.isArray := by
  cases value <;> simp_all [isArray, items]

theorem succeeds_path {value : Json} :
    Succeeds (JSONPath.fromJson value) ↔ value.PathGiven := by
  rw [JSONPath.fromJson, succeeds_bind]
  simp only [liftInvalid_checkArray, succeeds_mapM, succeeds_readItem, PathGiven,
    exists_const]

theorem raises_path {value : Json} :
    Raises Escapes (JSONPath.fromJson value) ↔ value.PathFault := by
  rw [JSONPath.fromJson, raises_bind]
  simp only [raises_liftInvalid, false_or, liftInvalid_checkArray, raises_mapM,
    succeeds_readItem, raises_readItem, exists_const]
  exact ⟨And.right, fun hfault => ⟨isArray_of_reaches hfault, hfault⟩⟩

/-- A clause that is taken. -/
inductive ClauseGiven : Json → Prop where
  | path {name : Bytes} {path : Json}
      (hname : name = ascii "exists" ∨ name = ascii "get")
      (hpath : path.PathGiven) : ClauseGiven (object [(name, path)])
  | literal {name : Bytes} {value : Json} (hname : name = ascii "literal") :
      ClauseGiven (object [(name, value)])
  | equals {name : Bytes} {value : Json} (hname : name = ascii "equals")
      (harray : value.isArray) (hitems : ∀ item ∈ value.items, ClauseGiven item) :
      ClauseGiven (object [(name, value)])

/-- A clause with such a path, where all clauses before are taken. -/
inductive ClauseFault : Json → Prop where
  | path {name : Bytes} {path : Json}
      (hname : name = ascii "exists" ∨ name = ascii "get")
      (hpath : path.PathFault) : ClauseFault (object [(name, path)])
  | equals {name : Bytes} {value item : Json} {before after : List Json}
      (hname : name = ascii "equals")
      (hvalue : value.items = before ++ item :: after)
      (hbefore : ∀ other ∈ before, ClauseGiven other)
      (hitem : ClauseFault item) : ClauseFault (object [(name, value)])

end Json

namespace ConditionalClause

theorem fromJsonAll_eq (values : List Json) :
    fromJsonAll values = values.mapM fromJson := by
  induction values with
  | nil => rfl
  | cons value values ih => rw [fromJsonAll, mapM_cons, ih]

theorem fromJson_member (name : Bytes) (obj : Json) : fromJson (.object [(name, obj)]) =
      ofMember name obj (obj.items.mapM fromJson) := by
  cases obj with
  | array entries => rw [fromJson, fromJsonAll_eq]; rfl
  | _ => rfl

theorem fromJson_eq_error {value : Json}
    (hvalue : ∀ name obj, value ≠ .object [(name, obj)]) :
    ∃ message, fromJson value = .error (.invalid message) := by
  match value, hvalue with
  | .object [], _ => exact ⟨_, rfl⟩
  | .object [(name, obj)], hvalue => exact absurd rfl (hvalue name obj)
  | .object ((_, obj) :: _ :: _), _ => cases obj <;> exact ⟨_, rfl⟩
  | .null, _ => exact ⟨_, rfl⟩
  | .int _, _ => exact ⟨_, rfl⟩
  | .uint _, _ => exact ⟨_, rfl⟩
  | .real _, _ => exact ⟨_, rfl⟩
  | .string _, _ => exact ⟨_, rfl⟩
  | .bool _, _ => exact ⟨_, rfl⟩
  | .array _, _ => exact ⟨_, rfl⟩

variable {children : Except Thrown (List ConditionalClause)}

theorem succeeds_ofMember {name : Bytes} {obj : Json} :
    Succeeds (ofMember name obj children) ↔
      ((name = ascii "exists" ∨ name = ascii "get") ∧ obj.PathGiven) ∨
        name = ascii "literal" ∨
        (name = ascii "equals" ∧ obj.isArray ∧ Succeeds children) := by
  have hpath : (obj.isArray ∧ obj.PathGiven) ↔ obj.PathGiven :=
    ⟨And.right, fun hgiven => ⟨hgiven.1, hgiven⟩⟩
  unfold ofMember
  split_ifs with hexists hget hliteral hequals
  · subst hexists
    simp +decide [succeeds_bind, succeeds_path, hpath]
  · subst hget
    simp +decide [succeeds_bind, succeeds_path, hpath]
  · simp [hliteral]
  · subst hequals
    simp +decide [succeeds_bind]
  · simp [hexists, hget, hliteral, hequals]

theorem raises_ofMember {name : Bytes} {obj : Json} :
    Raises Escapes (ofMember name obj children) ↔
      ((name = ascii "exists" ∨ name = ascii "get") ∧ obj.PathFault) ∨
        (name = ascii "equals" ∧ obj.isArray ∧ Raises Escapes children) := by
  have hpath : (obj.isArray ∧ obj.PathFault) ↔ obj.PathFault :=
    ⟨And.right, fun hfault => ⟨isArray_of_reaches hfault, hfault⟩⟩
  unfold ofMember
  split_ifs with hexists hget hliteral hequals
  · subst hexists
    simp +decide [raises_bind, raises_path, hpath]
  · subst hget
    simp +decide [raises_bind, raises_path, hpath]
  · simp +decide [hliteral]
  · subst hequals
    simp +decide [raises_bind]
  · simp [hexists, hget, hequals, unsupported]

theorem sizeOf_lt_of_mem_items (name : Bytes) {obj item : Json}
    (hitem : item ∈ obj.items) :
    sizeOf item < sizeOf (object [(name, obj)]) := by
  cases obj with
  | array entries =>
    have hlt := sizeOf_lt_of_mem hitem
    simp only [items] at hlt
    simp only [object.sizeOf_spec, array.sizeOf_spec, cons.sizeOf_spec,
      Prod.mk.sizeOf_spec]
    omega
  | _ => cases hitem

theorem succeeds_fromJson (value : Json) :
    Succeeds (fromJson value) ↔ value.ClauseGiven := by
  by_cases hvalue : ∃ name obj, value = .object [(name, obj)]
  · obtain ⟨name, obj, hobject⟩ := hvalue
    have hitems : (∀ item ∈ obj.items, Succeeds (fromJson item)) ↔
        ∀ item ∈ obj.items, item.ClauseGiven :=
      forall₂_congr fun item hitem => succeeds_fromJson item
    rw [hobject, fromJson_member, succeeds_ofMember, succeeds_mapM, hitems]
    constructor
    · rintro (⟨hname, hpath⟩ | hname | ⟨hname, harray, hgiven⟩)
      · exact .path hname hpath
      · exact .literal hname
      · exact .equals hname harray hgiven
    · intro hgiven
      cases hgiven with
      | path hname hpath => exact .inl ⟨hname, hpath⟩
      | literal hname => exact .inr (.inl hname)
      | equals hname harray hgiven => exact .inr (.inr ⟨hname, harray, hgiven⟩)
  · push Not at hvalue
    obtain ⟨message, heq⟩ := fromJson_eq_error hvalue
    rw [heq]
    refine iff_of_false (not_succeeds_error _) fun hgiven => ?_
    cases hgiven <;> exact hvalue _ _ rfl
termination_by sizeOf value
decreasing_by
  rw [hobject]
  exact sizeOf_lt_of_mem_items name hitem

theorem raises_fromJson (value : Json) :
    Raises Escapes (fromJson value) ↔ value.ClauseFault := by
  by_cases hvalue : ∃ name obj, value = .object [(name, obj)]
  · obtain ⟨name, obj, hobject⟩ := hvalue
    have hsmaller : ∀ item ∈ obj.items,
        (Raises Escapes (fromJson item) ↔ item.ClauseFault) :=
      fun item hitem => raises_fromJson item
    rw [hobject, fromJson_member, raises_ofMember, raises_mapM]
    simp only [succeeds_fromJson]
    constructor
    · rintro (⟨hname, hpath⟩ | ⟨hname, -, before, item, after, heq, hbefore, hitem⟩)
      · exact .path hname hpath
      · have hfault := (hsmaller item (by simp [heq])).mp hitem
        exact .equals hname heq hbefore hfault
    · intro hfault
      cases hfault with
      | path hname hpath => exact .inl ⟨hname, hpath⟩
      | @equals _ _ item before after hname heq hbefore hitem =>
        have hraises := (hsmaller item (by simp [heq])).mpr hitem
        have hreaches : Reaches Json.ClauseGiven
            (fun other => Raises Escapes (fromJson other)) obj.items :=
          ⟨before, item, after, heq, hbefore, hraises⟩
        exact .inr ⟨hname, isArray_of_reaches hreaches, hreaches⟩
  · push Not at hvalue
    obtain ⟨message, heq⟩ := fromJson_eq_error hvalue
    rw [heq]
    refine iff_of_false (by simp) fun hfault => ?_
    cases hfault <;> exact hvalue _ _ rfl
termination_by sizeOf value
decreasing_by
  rw [hobject]
  exact sizeOf_lt_of_mem_items name hitem

end ConditionalClause

namespace Json

/-- A conditional that is taken. -/
def ConditionalGiven (value : Json) : Prop :=
  value.isNull ∨ value.ClauseGiven

/-- A conditional with a path that has an integer that is too large. -/
def ConditionalFault (value : Json) : Prop :=
  value.ClauseFault

theorem succeeds_conditional {value : Json} :
    Succeeds (Conditional.fromJson value) ↔ value.ConditionalGiven := by
  unfold Conditional.fromJson ConditionalGiven
  split_ifs with hnull
  · simp [hnull]
  · simp [hnull, ConditionalClause.succeeds_fromJson]

theorem raises_conditional {value : Json} :
    Raises Escapes (Conditional.fromJson value) ↔ value.ConditionalFault := by
  unfold Conditional.fromJson ConditionalFault
  split_ifs with hnull
  · refine iff_of_false (by simp) fun hfault => ?_
    cases hfault <;> cases hnull
  · rw [raises_map, ConditionalClause.raises_fromJson]

/-! ## Mappings -/

/-- The path of a mapping, if it is taken. -/
def FromGiven (path : Json) : Prop :=
  if path.isArray then path.items ≠ [] ∧ ∀ item ∈ path.items, item.ComponentGiven
  else path.ComponentGiven

/-- The path of a mapping in which the first component that is not taken is a
number that does not fit. -/
def FromFault (path : Json) : Prop :=
  if path.isArray then Reaches ComponentGiven ExceedsUInt path.items
  else path.ExceedsUInt

theorem succeeds_find {path : Json} : Succeeds (find path) ↔ path.FromGiven := by
  unfold find FromGiven
  cases harray : path.isArray with
  | false => simp [succeeds_set]
  | true =>
    cases hitems : path.items with
    | nil => simp [succeeds_set, ComponentGiven, isString, FitsUInt]
    | cons item items =>
      change Succeeds ((item :: items).mapM set) ↔ _
      simp only [succeeds_mapM, succeeds_set]
      simp

theorem raises_find {path : Json} : Raises Escapes (find path) ↔ path.FromFault := by
  unfold find FromFault
  cases harray : path.isArray with
  | false => simp [raises_set]
  | true =>
    cases hitems : path.items with
    | nil => simp [raises_set, ExceedsUInt]
    | cons item items =>
      change Raises Escapes ((item :: items).mapM set) ↔ _
      simp only [raises_mapM, succeeds_set, raises_set]
      rfl

/-- An entry of a map that is taken. -/
def EntryGiven (entry : Json) : Prop :=
  entry.isObject ∧ (entry.member (ascii "to")).isString ∧
    (entry.member (ascii "from")).FromGiven ∧
    ((entry.member (ascii "categoriser")).isNull ∨
      (entry.member (ascii "categoriser")).isString)

/-- An entry of a map with such a path. -/
def EntryFault (entry : Json) : Prop :=
  entry.isObject ∧ (entry.member (ascii "to")).isString ∧
    (entry.member (ascii "from")).FromFault

theorem succeeds_readCategoriser {value : Json} :
    Succeeds (readCategoriser value) ↔ value.isNull ∨ value.isString := by
  unfold readCategoriser
  split_ifs with hnull <;> simp [hnull]

theorem not_raises_readCategoriser {value : Json} :
    ¬Raises Escapes (readCategoriser value) := by
  unfold readCategoriser
  split_ifs <;> simp

theorem succeeds_readTarget {entry : Json} :
    Succeeds (readTarget entry) ↔ entry.EntryGiven := by
  unfold readTarget EntryGiven
  simp only [succeeds_bind, liftInvalid_checkObject, bind_pure_comp, succeeds_fmap,
    succeeds_readCategoriser, exists_and_right, exists_const]
  exact and_congr_right' (and_congr succeeds_checkString
    (and_congr succeeds_find Iff.rfl))

theorem raises_readTarget {entry : Json} :
    Raises Escapes (readTarget entry) ↔ entry.EntryFault := by
  unfold readTarget EntryFault
  simp only [raises_bind, raises_liftInvalid, liftInvalid_checkObject, bind_pure_comp,
    raises_fmap, not_raises_readCategoriser, and_false, exists_const, or_false,
    false_or, raises_find, exists_and_right]
  exact and_congr_right' (and_congr succeeds_checkString Iff.rfl)

/-- A map in which the first entry that is not taken has such a path. -/
def MapFault (mapval : Json) : Prop :=
  Reaches EntryGiven EntryFault mapval.items

theorem raises_readTargets {mapval : Json} :
    Raises Escapes (readTargets mapval) ↔ mapval.MapFault := by
  unfold readTargets MapFault
  split_ifs with hnull
  · cases mapval <;> simp_all [isNull, items]
  · rw [raises_bind]
    simp only [raises_liftInvalid, false_or, liftInvalid_checkArray,
      raises_mapM, succeeds_readTarget, raises_readTarget, exists_const]
    exact ⟨And.right, fun hfault => ⟨isArray_of_reaches hfault, hfault⟩⟩

/-- A mapping whose condition or whose map has a path with a number that does
not fit, where all that is read before is taken. -/
def MappingFault (value : Json) : Prop :=
  value.isObject ∧
    ((value.member (ascii "when")).ConditionalFault ∨
      ((value.member (ascii "when")).ConditionalGiven ∧
        (value.member (ascii "map")).MapFault))

theorem raises_mapping {value : Json} :
    Raises Escapes (fromJson value) ↔ value.MappingFault := by
  have hdefault : ∀ defval, ¬Raises Escapes (readDefault defval) := by
    intro defval
    unfold readDefault
    split_ifs <;> simp
  unfold fromJson MappingFault
  simp only [raises_bind, raises_liftInvalid, liftInvalid_checkObject,
    raises_conditional, raises_readTargets, bind_pure_comp, raises_fmap,
    hdefault, and_false, exists_const, or_false, false_or, exists_and_right]
  rw [← succeeds_conditional]
  rfl

end Json

/-! ## What is reported -/

/-- A value is read as a path, a conditional and a mapping without another
exception than `InvalidValueError` if and only if the first part of it that is
not taken is no number that does not fit. -/
theorem fromJson_contained_iff (value : Json) :
    (Contained (JSONPath.fromJson value) ∧
        Contained (Conditional.fromJson value) ∧
        Contained (Mapping.fromJson value)) ↔
      ¬value.PathFault ∧ ¬value.ConditionalFault ∧ ¬value.MappingFault := by
  rw [contained_iff, contained_iff, contained_iff, Json.raises_path,
    Json.raises_conditional, Json.raises_mapping]

/-- The index 2 ^ 32 in a path, a conditional and a mapping, and the index -0.5
in a mapping. -/
theorem fromJson_index_escapes :
    let index := Json.uint (2 ^ 32)
    let half := Json.real 0xBFE0000000000000#64
    let target (path : Json) := Json.object [(ascii "map", .array
      [.object [(ascii "from", path), (ascii "to", .string (ascii "a"))]])]
    ¬Contained (JSONPath.fromJson (.array [index])) ∧
      ¬Contained (Conditional.fromJson
        (.object [(ascii "exists", .array [index])])) ∧
      ¬Contained (Mapping.fromJson (target (.array [index]))) ∧
      ¬Contained (Mapping.fromJson (target half)) := by
  have hindex : (Json.uint (2 ^ 32)).ExceedsUInt := le_refl _
  have hpath : (Json.array [.uint (2 ^ 32)]).PathFault :=
    ⟨[], _, [], rfl, nofun, rfl, hindex⟩
  have hmapping : ∀ path : Json, path.FromFault →
      (Json.object [(ascii "map", .array [.object [(ascii "from", path),
        (ascii "to", .string (ascii "a"))]])]).MappingFault := by
    intro path hfault
    refine ⟨rfl, .inr ⟨.inl rfl, ?_⟩⟩
    exact ⟨[], _, [], rfl, nofun, rfl, rfl, hfault⟩
  have hhalf : (Json.real 0xBFE0000000000000#64).FromFault := by
    change Double.within _ _ _ ≠ true
    decide +kernel
  refine ⟨?_, ?_, ?_, ?_⟩
  · rw [contained_iff, not_not, Json.raises_path]
    exact hpath
  · rw [contained_iff, not_not, Json.raises_conditional]
    exact .path (.inl rfl) hpath
  · rw [contained_iff, not_not, Json.raises_mapping]
    exact hmapping _ ⟨[], _, [], rfl, nofun, hindex⟩
  · rw [contained_iff, not_not, Json.raises_mapping]
    exact hmapping _ hhalf

end Restpose
