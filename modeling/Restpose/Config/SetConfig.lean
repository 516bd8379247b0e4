import Restpose.Config.Reading

/-!
# Setting a configuration

A configuration that a client sets is loaded twice: a processing task loads it
into a new object, which goes into the cache, and an indexing task loads it
into the configuration that the collection has.
-/

namespace Restpose.Config

open Json CollectionConfig

namespace CollectionConfig

variable {Pipe Categoriser : Type}

/-! ## What a configuration shows -/

section Shown

variable [Part Pipe] [Part Categoriser]

theorem member_sectionToJson {Value : Type} {key : String} {other : Bytes}
    (hne : other ≠ ascii key) (write : Value → Json) (map : StdMap Value) (value : Json) :
    (sectionToJson key write map value).member other = value.member other := by
  unfold sectionToJson
  split
  · rfl
  · exact member_setMember_of_ne _ _ hne

variable (config : CollectionConfig Pipe Categoriser)

theorem member_toJson {key : Bytes} (hpipes : key ≠ ascii "pipes")
    (hcategorisers : key ≠ ascii "categorisers") (htaxonomies : key ≠ ascii "taxonomies")
    (hformat : key ≠ ascii "format") :
    config.toJson.member key = (config.schemasConfigToJson (.object [])).member key := by
  calc config.toJson.member key = (config.schemasConfigToJson (.object [])
          |> sectionToJson "pipes" Part.toJson config.pipes
          |> sectionToJson "categorisers" Part.toJson config.categorisers
          |> sectionToJson "taxonomies" taxonomyToJson config.taxonomies).member key :=
        member_setMember_of_ne _ _ hformat
    _ = (config.schemasConfigToJson (.object [])).member key := by
        rw [member_sectionToJson htaxonomies,
          member_sectionToJson hcategorisers, member_sectionToJson hpipes]

theorem member_default_type_toJson : config.toJson.member (ascii "default_type") =
      config.defaultTypeConfig := by
  rw [member_toJson config (by decide) (by decide) (by decide) (by decide)]
  simp only [schemasConfigToJson, assign_cons, assign_nil]
  rw [member_setMember_of_ne _ _ (by decide), member_setMember_self]

theorem member_special_fields_toJson : config.toJson.member (ascii "special_fields") =
      assign .null [("id_field", .ofString config.idField),
        ("type_field", .ofString config.typeField),
        ("meta_field", .ofString config.metaField)] := by
  rw [member_toJson config (by decide) (by decide) (by decide) (by decide)]
  exact member_setMember_self _ _ _

theorem special_fields_inj {id type metadata id' type' metadata' : Json}
    (heq : assign .null [("id_field", id), ("type_field", type),
      ("meta_field", metadata)] =
      assign .null [("id_field", id'), ("type_field", type'),
        ("meta_field", metadata')]) :
    id = id' ∧ type = type' ∧ metadata = metadata' := by
  simp only [assign_cons, assign_nil] at heq
  have hid := congrArg (Json.member · (ascii "id_field")) heq
  have htype := congrArg (Json.member · (ascii "type_field")) heq
  have hmeta := congrArg (Json.member · (ascii "meta_field")) heq
  exact ⟨hid, htype, hmeta⟩

/-- What the JSON of a configuration shows besides its contents. -/
theorem toJson_eq_iff {left right : CollectionConfig Pipe Categoriser}
    (hcontents : SameContents left right) :
    left.toJson = right.toJson ↔
      left.defaultTypeConfig = right.defaultTypeConfig ∧
      ofString left.idField = ofString right.idField ∧
      ofString left.typeField = ofString right.typeField ∧
      ofString left.metaField = ofString right.metaField := by
  constructor
  · intro heq
    refine ⟨?_, special_fields_inj ?_⟩
    · rw [← member_default_type_toJson, heq, member_default_type_toJson]
    · rw [← member_special_fields_toJson, heq, member_special_fields_toJson]
  · rintro ⟨hdefault, hid, htype, hmeta⟩
    simp only [toJson, schemasConfigToJson, hdefault, hid, htype, hmeta, hcontents.types,
      hcontents.pipes, hcontents.categorisers, hcontents.taxonomies]

end Shown

end CollectionConfig

theorem ofString_textOr_eq_iff (value : Json) (key : String) (previous : Bytes) :
    ofString (Settings.textOr value key []) =
      ofString (Settings.textOr value key previous) ↔
      (value.member (ascii key)).isString = true ∨ cString previous = [] := by
  have hempty : ofString [] = ofString previous ↔ cString previous = [] := by
    rw [ofString, ofString, string.injEq, eq_comm]
    rfl
  unfold Settings.textOr
  cases value.member (ascii key) with
  | string text => simp [isString]
  | _ => simpa [isString] using hempty

theorem defaultType_eq_iff (value previous : Json) :
    ((if value.isNull then .null else value) =
        if value.isNull then previous else value) ↔
      value.isNull = false ∨ previous = .null := by
  cases value.isNull with
  | true => simpa using eq_comm
  | false => simp

/-! ## The two tasks -/

/-- `what()` of an `InvalidValueError`. -/
def whatOf (error : InvalidValueError) : Bytes :=
  ascii "RestPose::InvalidValueError: " ++ error.message

section Tasks

variable {Pipe Categoriser : Type}

/-- What the tasks for the configuration of a collection work on: the entry of
the collection in the cache, the configurations in the set-config tasks of its
indexing queue, and the errors that were reported for it. -/
structure SetConfigState (Pipe Categoriser : Type) where
  cached : Option (CollectionConfig Pipe Categoriser)
  queued : List Json
  errors : List Bytes

variable [Libraries] [Part Pipe] [Part Categoriser]

/-- `ProcessingCollSetConfigTask::perform`. -/
def processingCollSetConfig (collName : Bytes) (config : Json)
    (state : SetConfigState Pipe Categoriser) :
    Attempt Thrown (SetConfigState Pipe Categoriser) :=
  .withValue state (CollectionConfig.create collName) fun collconfig =>
  let read := CollectionConfig.fromJson collconfig config
  match read.thrown with
  | none =>
      .done { state with
        cached := some read.state, queued := state.queued ++ [config] }
  | some (.invalidValue error) =>
      .done { state with
        errors := state.errors ++
          [ascii "Setting collection config failed with " ++ whatOf error] }
  | some error => .fail state error

/-- `CollSetConfigTask::perform_task`. -/
def collSetConfig (config : Json)
    (collection : CollectionConfig Pipe Categoriser) :
    Attempt Thrown (CollectionConfig Pipe Categoriser) :=
  collection.fromJson config

/-- A value is accepted if a new object can be loaded with it. -/
theorem processingCollSetConfig_accepted {collName : Bytes}
    {value : Json} {state : SetConfigState Pipe Categoriser}
    (haccepted : (processingCollSetConfig collName value state).state.queued =
      state.queued ++ [value]) :
    ((blank collName : CollectionConfig Pipe Categoriser).fromJson value).thrown = none ∧
      (processingCollSetConfig collName value state).state.cached =
        some ((blank collName).fromJson value).state := by
  have hrest : state.queued ≠ state.queued ++ [value] := by simp
  cases hname : validateCollname collName with
  | some error =>
    simp only [processingCollSetConfig, create, hname, Attempt.withValue] at haccepted
    exact absurd haccepted hrest
  | none =>
    simp only [processingCollSetConfig, create, hname, Attempt.withValue] at haccepted ⊢
    cases hthrown : ((blank collName :
        CollectionConfig Pipe Categoriser).fromJson value).thrown with
    | none => exact ⟨rfl, rfl⟩
    | some error =>
      simp only [hthrown] at haccepted
      cases error with
      | _ => exact absurd haccepted hrest

/-- A value settles everything that the previous configuration could be seen
by: the default type and every special field are given, or have the value that
they have in a new object. -/
structure Settles (value : Json)
    (previous : CollectionConfig Pipe Categoriser) : Prop where
  defaultType : (value.member (ascii "default_type")).isNull = false ∨
    previous.defaultTypeConfig = .null
  idField : ((value.member (ascii "special_fields")).member
      (ascii "id_field")).isString = true ∨ cString previous.idField = []
  typeField : ((value.member (ascii "special_fields")).member
      (ascii "type_field")).isString = true ∨ cString previous.typeField = []
  metaField : ((value.member (ascii "special_fields")).member
      (ascii "meta_field")).isString = true ∨ cString previous.metaField = []

/-- The two objects that a value was loaded into show the same. -/
theorem toJson_loaded_eq_iff {collName : Bytes} {value : Json}
    {previous : CollectionConfig Pipe Categoriser}
    (hthrown : ((blank collName :
      CollectionConfig Pipe Categoriser).fromJson value).thrown = none) :
    ((blank collName : CollectionConfig Pipe Categoriser).fromJson value).state.toJson =
        (previous.fromJson value).state.toJson ↔
      Settles value previous := by
  have hagree := agree_fromJson (blank collName) previous value
  have hcached := ends_fromJson (blank collName) value hthrown
  have hstored := ends_fromJson previous value (hagree.1 ▸ hthrown)
  simp only [settings, Settings.specialFields,
    Settings.defaultType, Settings.mk.injEq] at hcached hstored
  obtain ⟨_, hdefault, hid, htype, hmeta⟩ := hcached
  obtain ⟨_, hdefault', hid', htype', hmeta'⟩ := hstored
  rw [toJson_eq_iff (hagree.2 hthrown), hdefault, hid,
    htype, hmeta, hdefault', hid', htype', hmeta']
  simp only [blank, ofString_textOr_eq_iff, defaultType_eq_iff]
  constructor
  all_goals
    rintro ⟨hdefault, hid, htype, hmeta⟩
    exact ⟨hdefault, hid, htype, hmeta⟩

/-- A value that is accepted is accepted by the collection as well, and the
cache and the collection then show the same configuration if and only if the
value settles everything. -/
theorem setConfig_agrees_iff (collName : Bytes) (value : Json)
    (state : SetConfigState Pipe Categoriser)
    (previous : CollectionConfig Pipe Categoriser)
    (haccepted : (processingCollSetConfig collName value state).state.queued =
      state.queued ++ [value]) :
    ∃ cached : CollectionConfig Pipe Categoriser,
      (processingCollSetConfig collName value state).state.cached =
        some cached ∧
      (collSetConfig value previous).thrown = none ∧
      (cached.toJson = (collSetConfig value previous).state.toJson ↔
        Settles value previous) := by
  obtain ⟨hthrown, hcached⟩ := processingCollSetConfig_accepted haccepted
  refine ⟨_, hcached, ?_, toJson_loaded_eq_iff hthrown⟩
  rw [← hthrown]
  exact (CollectionConfig.agree_fromJson previous _ value).1

end Tasks

/-! ## A value that settles nothing -/

/-- No pipe and no categoriser. -/
instance : Part Empty where
  fromJson := fun _ => .error (.invalid [])
  toJson := nofun

/-- The least value that is accepted. -/
def leastConfig : Json :=
  .object [(ascii "format", .int 3)]

/-- A collection that has the default configuration. -/
def defaultConfig : CollectionConfig Empty Empty :=
  (CollectionConfig.blank (ascii "books")).setDefault

def blankConfig : CollectionConfig Empty Empty :=
  .blank (ascii "books")

def untouched : SetConfigState Empty Empty :=
  ⟨none, [], []⟩

theorem leastConfig_accepted [Libraries] :
    (processingCollSetConfig (ascii "books") leastConfig
      untouched).state.queued = untouched.queued ++ [leastConfig] :=
  rfl

theorem not_settles_default : ¬ Settles leastConfig defaultConfig := by
  intro hsettles
  rcases hsettles.idField with hgiven | hempty
  · cases hgiven
  · have hfield : cString (ascii "id") = [] := hempty
    revert hfield
    decide

/-- A value with a type, a default type, special fields and a taxonomy. -/
def settledConfig : Json :=
  .object [(ascii "default_type", .object []), (ascii "format", .int 3),
    (ascii "special_fields", .object [
      (ascii "id_field", .string (ascii "key")),
      (ascii "meta_field", .string (ascii "seen")),
      (ascii "type_field", .string (ascii "kind"))]),
    (ascii "taxonomies", .object [(ascii "subject",
      .object [(ascii "poetry", .array [.string (ascii "art")])])]),
    (ascii "types", .object [(ascii "book", .object [(ascii "fields",
      .object [(ascii "title", .object [
        (ascii "store_field", .string (ascii "title")),
        (ascii "type", .string (ascii "stored"))])])])])]

/-- The default configuration in the cache, and a value that waits. -/
def configured : SetConfigState Empty Empty :=
  ⟨some defaultConfig, [leastConfig], []⟩

/-- A value that settles everything replaces the default configuration. -/
theorem setConfig_agrees_iff_settled : ∃ _ : Libraries,
    (processingCollSetConfig (ascii "books") settledConfig
        configured).state.queued = [leastConfig, settledConfig] ∧
      ∃ cached : CollectionConfig Empty Empty,
        (processingCollSetConfig (ascii "books") settledConfig
          configured).state.cached = some cached ∧
        (collSetConfig settledConfig defaultConfig).thrown = none ∧
        cached.toJson =
          (collSetConfig settledConfig defaultConfig).state.toJson ∧
        cached.idField = ascii "key" ∧ defaultConfig.idField = ascii "id" := by
  refine ⟨Libraries.plain, ?_⟩
  let _ := Libraries.plain
  have hthrown : ((blank (ascii "books") : CollectionConfig Empty Empty).fromJson
      settledConfig).thrown = none := by
    decide +kernel
  have haccepted : (processingCollSetConfig (ascii "books") settledConfig
      configured).state.queued = configured.queued ++ [settledConfig] := by
    have hname : validateCollname (ascii "books") = none := by decide
    simp only [processingCollSetConfig, create, hname, Attempt.withValue, hthrown]
    rfl
  obtain ⟨cached, hcached, hcollection, hagrees⟩ :=
    setConfig_agrees_iff (ascii "books") settledConfig configured defaultConfig haccepted
  have hsame := hagrees.mpr ⟨.inl rfl, .inl rfl, .inl rfl, .inl rfl⟩
  refine ⟨haccepted, cached, hcached, hcollection, hsame, ?_, rfl⟩
  obtain rfl := Option.some.inj
    (hcached.symm.trans (processingCollSetConfig_accepted haccepted).2)
  decide +kernel

/-- A value without special fields leaves the default ones in the collection,
while the cache has none. -/
theorem setConfig_differs_default : ∃ _ : Libraries,
    (processingCollSetConfig (ascii "books") leastConfig
        untouched).state.queued = untouched.queued ++ [leastConfig] ∧
      ∃ cached : CollectionConfig Empty Empty,
        (processingCollSetConfig (ascii "books") leastConfig
          untouched).state.cached = some cached ∧
        cached.toJson ≠ (collSetConfig leastConfig
          defaultConfig).state.toJson := by
  refine ⟨Libraries.plain, ?_⟩
  let _ := Libraries.plain
  obtain ⟨hthrown, hcached⟩ :=
    processingCollSetConfig_accepted leastConfig_accepted
  refine ⟨leastConfig_accepted, _, hcached, fun heq => ?_⟩
  exact not_settles_default ((toJson_loaded_eq_iff hthrown).mp heq)

end Restpose.Config
