import Restpose.Schema.Merge
import Restpose.Config.Clone
import Restpose.Json.Integers

/-!
# Configurations that are rejected

Reading a configuration goes section by section into the object itself, which
was cleared before.  Only the tests at the beginning come before that.
-/

namespace Restpose.Config

open Json List Std.ExtTreeMap CollectionConfig

/-! ## The head of a configuration -/

/-- The format of a configuration is one that can be read. -/
def FormatGiven (value : Json) : Prop :=
  (∃ number : ℕ, value.member (ascii "format") = .int number ∧
      number % 2 ^ 32 = 3) ∨
    value.member (ascii "format") = .uint 3

namespace CollectionConfig

theorem checkFormatNumber_eq_ok_iff {format : ℕ} :
    checkFormatNumber format = .ok () ↔ format = 3 := by
  unfold checkFormatNumber configFormat
  split_ifs with hold hnew
  · exact iff_of_false nofun (by omega)
  · exact iff_of_false nofun (by omega)
  · exact iff_of_true rfl (by omega)

theorem isObject_of_member {value : Json} {key : Bytes}
    (hmember : (value.member key).isNull = false) : value.isObject = true := by
  cases value with
  | object entries => rfl
  | _ => cases hmember

theorem checkUInt64_format_iff {member : Json} :
    (∃ format, member.checkUInt64 "format" 2147483647 = .ok format ∧
      format % 2 ^ 32 = 3) ↔
      (∃ number : ℕ, member = .int number ∧ number % 2 ^ 32 = 3) ∨ member = .uint 3 := by
  have herror : ∀ {result : Except Thrown ℕ},
    (∃ error, result = .error (.invalidValue error)) →
      ¬∃ format, result = .ok format ∧ format % 2 ^ 32 = 3 := by
    rintro _ ⟨error, rfl⟩ ⟨format, hformat, -⟩
    cases hformat
  cases member with
  | int number =>
    by_cases hneg : number < 0
    · refine iff_of_false (herror (checkUInt64_int_of_neg hneg)) ?_
      rintro (⟨given, hgiven, -⟩ | hgiven)
      · cases hgiven
        omega
      · cases hgiven
    · obtain ⟨given, rfl⟩ := Int.eq_ofNat_of_zero_le (Int.not_lt.mp hneg)
      rw [checkUInt64_int (by omega)]
      simp
  | uint number =>
    by_cases hle : number ≤ 2147483647
    · rw [checkUInt64_uint hle]
      simp only [Except.ok.injEq, exists_eq_left', reduceCtorEq, false_and,
        exists_false, uint.injEq, false_or]
      omega
    · refine iff_of_false (herror (checkUInt64_uint_of_lt (Nat.not_le.mp hle))) ?_
      simp only [reduceCtorEq, false_and, exists_false, uint.injEq, false_or]
      omega
  | _ => exact iff_of_false (herror ⟨_, rfl⟩) (by simp)

/-- The tests before anything is changed are on the format only. -/
theorem checkHead_eq_ok_iff {value : Json} :
    checkHead value = .ok () ↔ FormatGiven value := by
  rw [FormatGiven, ← checkUInt64_format_iff]
  cases hnull : (value.member (ascii "format")).isNull with
  | true =>
    cases hmember : value.member (ascii "format") with
    | null =>
      refine iff_of_false ?_ (by rintro ⟨format, ⟨⟩, -⟩)
      unfold checkHead getUInt64Member
      rw [hmember]
      cases liftInvalid (value.checkObject "collection configuration") with
      | error error | ok _ => rintro ⟨⟩
    | _ =>
      rw [hmember] at hnull
      cases hnull
  | false =>
    have hobject : liftInvalid (value.checkObject "collection configuration") =
        .ok () := by
      rw [checkObject, if_pos (isObject_of_member hnull)]
      rfl
    unfold checkHead getUInt64Member
    simp only [hobject, hnull, Bool.false_eq_true, if_false]
    cases (value.member (ascii "format")).checkUInt64 "format" 2147483647 with
    | error error =>
      exact iff_of_false (by rintro ⟨⟩) (by rintro ⟨_, ⟨⟩, -⟩)
    | ok format =>
      simp only [Except.ok.injEq, exists_eq_left']
      exact checkFormatNumber_eq_ok_iff

end CollectionConfig

/-! ## Names that a map does not have -/

section Names

variable {Value : Type}

/-- Names that are longer than all others are not written. -/
theorem exists_fresh_name (map : StdMap Value) : ∃ name : Bytes, cString name = name ∧
      ∀ entry ∈ map.toList, cString entry.1 ≠ name := by
  let size := (map.toList.map fun entry => entry.1.length).sum
  refine ⟨replicate (size + 1) 97, ?_, ?_⟩
  · rw [cString_eq_self_iff]
    intro hzero
    have hbyte := eq_of_mem_replicate hzero
    revert hbyte
    decide
  · intro entry hentry heq
    have hlength : (cString entry.1).length = size + 1 := by simp [heq]
    have hle : (cString entry.1).length ≤ entry.1.length :=
      ( takeWhile_prefix _).length_le
    have hsum : entry.1.length ≤ size := le_sum_of_mem (mem_map_of_mem hentry)
    omega

end Names

/-! ## Collections -/

section Collections

variable [Libraries] {Pipe Categoriser : Type} [Part Pipe] [Part Categoriser]

/-- The configuration of a collection, and the one that was written last. -/
structure StoredConfig (Pipe Categoriser : Type) where
  config : CollectionConfig Pipe Categoriser
  written : Json

/-- `Collection::write_config`, which later operations on the collection end
with. -/
def StoredConfig.writeConfig (stored : StoredConfig Pipe Categoriser) :
    StoredConfig Pipe Categoriser :=
  { stored with written := stored.config.toJson }

/-- `Collection::from_json`. -/
def StoredConfig.fromJson (stored : StoredConfig Pipe Categoriser)
    (value : Json) : Attempt Thrown (StoredConfig Pipe Categoriser) :=
  let read := stored.config.fromJson value
  match read.thrown with
  | some error => .fail { stored with config := read.state } error
  | none => .done { stored with config := read.state }.writeConfig

variable {value : Json}

/-- A configuration is cleared once its format is known, so another one that
differs in the types only ends in the same way. -/
theorem fromJson_withTypes (hformat : FormatGiven value)
    (config : CollectionConfig Pipe Categoriser) (types : StdMap Schema) :
    { config with types }.fromJson value = config.fromJson value := by
  have hhead := checkHead_eq_ok_iff.mpr hformat
  rw [fromJson, fromJson, hhead]
  rfl

theorem fromJson_of_not_formatGiven (hformat : ¬FormatGiven value)
    (config : CollectionConfig Pipe Categoriser) :
    (config.fromJson value).state = config := by
  rw [fromJson]
  cases hhead : checkHead value with
  | error error => rfl
  | ok _ => exact absurd (checkHead_eq_ok_iff.mp hhead) hformat

/-- Every configuration loses a type that is not read again. -/
theorem exists_changed (hformat : FormatGiven value)
    (config : CollectionConfig Pipe Categoriser) :
    ∃ types, ({ config with types }.fromJson value).state.toJson ≠
      ({ config with types } : CollectionConfig Pipe Categoriser).toJson := by
  obtain ⟨name, hname, hfresh⟩ := exists_fresh_name (config.fromJson value).state.types
  refine ⟨(∅ : StdMap Schema).insert name (Schema.new name), ?_⟩
  rw [fromJson_withTypes hformat]
  intro hsame
  have hmember := congrArg (fun written => (written.member (ascii "types")).member name)
    hsame
  simp only [member_types_toJson, member_mapToJson_of_ne hfresh] at hmember
  rw [mapToJson, StdMap.toList_singleton, foldl_cons, foldl_nil, hname,
    member_setMember_self] at hmember
  cases hmember

/-- A configuration that is rejected leaves every collection as it was, which
goes on to write what it wrote before, if and only if it is rejected for its
format. -/
theorem rejected_unchanged_iff
    (hrejected : ∃ config : CollectionConfig Pipe Categoriser,
      (config.fromJson value).thrown ≠ none) :
    (∀ stored : StoredConfig Pipe Categoriser,
      (stored.fromJson value).thrown ≠ none →
        (stored.fromJson value).state.config.toJson = stored.config.toJson ∧
        (stored.fromJson value).state.writeConfig.written =
          stored.config.toJson) ↔
      ¬FormatGiven value := by
  have hread : ∀ stored : StoredConfig Pipe Categoriser,
      (stored.fromJson value).thrown = (stored.config.fromJson value).thrown ∧
        (stored.fromJson value).state.config =
          (stored.config.fromJson value).state := by
    intro stored
    unfold StoredConfig.fromJson
    cases hthrown : (stored.config.fromJson value).thrown with
    | none | some error => simp only [hthrown]; exact ⟨rfl, rfl⟩
  constructor
  · intro hkeeps hformat
    obtain ⟨config, hthrown⟩ := hrejected
    obtain ⟨types, hchanged⟩ := exists_changed hformat config
    obtain ⟨hthrows, hstate⟩ := hread ⟨{ config with types }, .null⟩
    rw [fromJson_withTypes hformat] at hthrows
    refine hchanged ?_
    rw [← hstate]
    exact (hkeeps ⟨{ config with types }, .null⟩
      (by rwa [hthrows])).1
  · intro hformat stored _
    rw [StoredConfig.writeConfig, (hread stored).2,
      fromJson_of_not_formatGiven hformat]
    exact ⟨rfl, rfl⟩

end Collections

def shelfConfig : CollectionConfig Empty Empty :=
  { CollectionConfig.blank (ascii "books") with
    types := (∅ : StdMap Schema).insert (ascii "book")
      (Schema.new (ascii "book")) }

/-- A configuration whose types are a number is rejected, and the types that
were there are gone. -/
theorem fromJson_rejected_loses_types : ∃ _ : Libraries,
    let value := Json.object [(ascii "format", .int 3), (ascii "types", .int 5)]
    let after := shelfConfig.fromJson value
    after.thrown ≠ none ∧
      ((shelfConfig.toJson.member (ascii "types")).member
        (ascii "book")).isNull = false ∧
      ((after.state.toJson.member (ascii "types")).member
        (ascii "book")).isNull = true := by
  refine ⟨Libraries.plain, ?_⟩
  let _ := Libraries.plain
  decide +kernel

/-- A later format changes nothing, and types that are a number do. -/
theorem rejected_unchanged_iff_formats : ∃ _ : Libraries,
    let later := Json.object [(ascii "format", .int 4)]
    let numbered := Json.object [(ascii "format", .int 3), (ascii "types", .int 5)]
    ((lengthCollection 100 400).fromJson later).thrown ≠ none ∧
      ((lengthCollection 100 400).fromJson numbered).thrown ≠ none ∧
      (∀ stored : StoredConfig Pipe Ngramcat.Categoriser,
        (stored.fromJson later).thrown ≠ none →
          (stored.fromJson later).state.config.toJson = stored.config.toJson ∧
          (stored.fromJson later).state.writeConfig.written =
            stored.config.toJson) ∧
      ¬∀ stored : StoredConfig Pipe Ngramcat.Categoriser,
        (stored.fromJson numbered).thrown ≠ none →
          (stored.fromJson numbered).state.config.toJson =
            stored.config.toJson ∧
          (stored.fromJson numbered).state.writeConfig.written =
            stored.config.toJson := by
  refine ⟨Libraries.plain, ?_⟩
  let _ := Libraries.plain
  intro later numbered
  have hlater : ((lengthCollection 100 400).fromJson later).thrown ≠ none := by
    decide +kernel
  have hnumbered : ((lengthCollection 100 400).fromJson numbered).thrown ≠ none := by
    decide +kernel
  have hformat : ¬FormatGiven later := by
    rw [← checkHead_eq_ok_iff]
    decide
  exact ⟨hlater, hnumbered, (rejected_unchanged_iff ⟨_, hlater⟩).mpr hformat,
    fun hkeeps => (rejected_unchanged_iff ⟨_, hnumbered⟩).mp hkeeps
      (.inl ⟨3, rfl, rfl⟩)⟩

/-! ## Schemas that are rejected -/

section Schemas

variable [Libraries] {Pipe Categoriser : Type}

omit [Libraries] in
theorem insert_eq_self_iff {Value : Type} {map : StdMap Value} {name : Bytes}
    {value : Value} : map.insert name value = map ↔ map[name]? = some value := by
  constructor
  · intro hsame
    rw [← hsame]
    simp
  · intro hvalue
    refine ext_getElem? fun other => ?_
    rw [StdMap.find_insert]
    split_ifs with heq
    · rw [heq, hvalue]
    · rfl

/-- A schema that is rejected for a field with another configuration leaves the
types as they were if and only if the type has all the fields of the schema
that come before. -/
theorem setSchema_conflict_iff (config : CollectionConfig Pipe Categoriser)
    (type : Bytes) (schema : Schema) (name : Bytes)
    (hconflict : Schema.ConflictAt
      (config.types.getD type (Schema.new type)) schema name) :
    (config.setSchema type schema).thrown =
        some (Schema.conflictError name) ∧
      ((config.setSchema type schema).state.types = config.types ↔
        ∀ (earlier : Bytes) (given : FieldConfig),
          schema.fields[earlier]? = some given →
          compare earlier name = .lt →
          ∃ known, (config.types.getD type
            (Schema.new type)).fields[earlier]? = some known) := by
  obtain ⟨hthrown, hstate⟩ := Schema.mergeFrom_of_conflictAt hconflict
  have hexists : config.types[type]? =
      some (config.types.getD type (Schema.new type)) := by
    rw [Std.ExtTreeMap.getD_eq_getD_getElem?]
    cases hfound : config.types[type]? with
    | some found => rfl
    | none =>
        -- A new schema has no fields, and so no conflict.
        obtain ⟨_, _, _, known, -, -, hknown, -⟩ := hconflict
        rw [Std.ExtTreeMap.getD_eq_getD_getElem?, hfound] at hknown
        simp [Schema.new] at hknown
  simp only [CollectionConfig.setSchema, hthrown]
  refine ⟨rfl, ?_⟩
  change config.types.insert type _ = config.types ↔ _
  rw [insert_eq_self_iff, hexists, Option.some.injEq, eq_comm, hstate]

end Schemas

/-- A schema of books with some fields. -/
def bookSchema (fields : List (Bytes × FieldConfig)) : Schema :=
  { Schema.new (ascii "book") with
    fields := Std.ExtTreeMap.ofList fields }

/-- A collection whose books have a title that is ignored. -/
def titleConfig : CollectionConfig Empty Empty :=
  { CollectionConfig.blank (ascii "books") with
    types := (∅ : StdMap Schema).insert (ascii "book")
      (bookSchema [(ascii "title", .ignored)]) }

/-- A collection whose books have an author as well. -/
def authorConfig : CollectionConfig Pipe Ngramcat.Categoriser :=
  { lengthCollection 100 400 with
    types := (∅ : StdMap Schema).insert (ascii "book")
      (bookSchema [(ascii "author", .ignored), (ascii "title", .ignored)]) }

/-- A schema with these fields, and one that comes after the conflict. -/
def datedSchema : Schema :=
  bookSchema [(ascii "author", .ignored),
    (ascii "title", .stored (ascii "title")), (ascii "year", .ignored)]

/-- The books have the author that comes before the title. -/
theorem setSchema_conflict_title : ∃ _ : Libraries,
    let after := authorConfig.setSchema (ascii "book") datedSchema
    after.thrown = some (Schema.conflictError (ascii "title")) ∧
      after.state.types = authorConfig.types := by
  refine ⟨Libraries.plain, ?_⟩
  let _ := Libraries.plain
  have hfields : datedSchema.fields.toList = [(ascii "author", .ignored)] ++
      (ascii "title", .stored (ascii "title")) :: [(ascii "year", .ignored)] :=
    rfl
  have hconflict := setSchema_conflict_iff authorConfig (ascii "book")
    datedSchema (ascii "title")
    ⟨_, _, _, .ignored, hfields, by decide +kernel, rfl, by decide +kernel⟩
  refine ⟨hconflict.1, hconflict.2.mpr fun earlier given hgiven hlt => ?_⟩
  rw [← Std.ExtTreeMap.mem_toList_iff_getElem?_eq_some, hfields] at hgiven
  simp only [List.singleton_append, List.mem_cons, Prod.mk.injEq,
    List.not_mem_nil, or_false] at hgiven
  rcases hgiven with ⟨rfl, -⟩ | ⟨rfl, -⟩ | ⟨rfl, -⟩
  · exact ⟨.ignored, rfl⟩
  · simp at hlt
  · exact absurd hlt (by decide)

/-- An author comes before the title, and is there after the schema was
rejected. -/
theorem setSchema_conflict_keeps_author : ∃ _ : Libraries,
    let after := titleConfig.setSchema (ascii "book")
      (bookSchema [(ascii "author", .ignored),
        (ascii "title", .stored (ascii "title"))])
    after.thrown = some (Schema.conflictError (ascii "title")) ∧
      after.state.types ≠ titleConfig.types := by
  refine ⟨Libraries.plain, ?_⟩
  let _ := Libraries.plain
  refine ⟨by decide +kernel, fun hsame => ?_⟩
  have hauthor := congrArg (fun types : StdMap Schema =>
    ((types.getD (ascii "book") (Schema.new [])).fields[ascii "author"]?)) hsame
  revert hauthor
  decide +kernel

end Restpose.Config
