import Restpose.Config.CollectionConfig

/-!
# What reading a configuration changes

The types, pipes, categorisers and taxonomies that a configuration has after
it was read depend on the JSON value alone.  The default type and the special
fields stay as they were unless the value gives them.
-/

namespace Restpose.Config

open Attempt Bool

/-- What `CollectionConfig::clear` leaves alone. -/
structure Settings where
  collName : Bytes
  defaultTypeConfig : Json
  idField : Bytes
  typeField : Bytes
  metaField : Bytes

namespace Settings

/-- A text that a value gives, or else the one that there was. -/
def textOr (value : Json) (key : String) (default : Bytes) :
    Bytes :=
  match value.member (ascii key) with
  | .string text => text
  | _ => default

/-- The special fields that a value gives. -/
def specialFields (value : Json) (settings : Settings) : Settings :=
  let special := value.member (ascii "special_fields")
  { settings with
    idField := textOr special "id_field" settings.idField
    typeField := textOr special "type_field" settings.typeField
    metaField := textOr special "meta_field" settings.metaField }

/-- The default type that a value gives. -/
def defaultType (value : Json) (settings : Settings) : Settings :=
  let deftype := value.member (ascii "default_type")
  { settings with
    defaultTypeConfig :=
      if deftype.isNull then settings.defaultTypeConfig else deftype }

end Settings

namespace CollectionConfig

variable {Pipe Categoriser : Type}

def settings (config : CollectionConfig Pipe Categoriser) : Settings :=
  ⟨config.collName, config.defaultTypeConfig, config.idField,
    config.typeField, config.metaField⟩

/-- Two configurations have the same types, pipes, categorisers and
taxonomies. -/
structure SameContents (left right : CollectionConfig Pipe Categoriser) :
    Prop where
  types : left.types = right.types
  pipes : left.pipes = right.pipes
  categorisers : left.categorisers = right.categorisers
  taxonomies : left.taxonomies = right.taxonomies

theorem sameContents_clear (left right : CollectionConfig Pipe Categoriser) :
    SameContents left.clear right.clear :=
  ⟨rfl, rfl, rfl, rfl⟩

/-- An update that uses and changes the contents only. -/
structure OnContents
    (update : CollectionConfig Pipe Categoriser →
      Attempt Thrown (CollectionConfig Pipe Categoriser)) : Prop where
  ends : ∀ config,
    (update config).Ends fun after => after.settings = config.settings
  mirrors : ∀ left right, SameContents left right →
    Mirrors SameContents (update left) (update right)

theorem OnContents.ends_andThen {update : CollectionConfig Pipe Categoriser →
      Attempt Thrown (CollectionConfig Pipe Categoriser)}
    (hupdate : OnContents update) {settings : Settings}
    {attempt : Attempt Thrown (CollectionConfig Pipe Categoriser)}
    (hattempt : attempt.Ends fun after => after.settings = settings) :
    (attempt.andThen update).Ends fun after => after.settings = settings :=
  hattempt.andThen fun after hafter hthrown =>
    (hupdate.ends after hthrown).trans hafter

theorem onContents_done
    {change : CollectionConfig Pipe Categoriser → CollectionConfig Pipe Categoriser}
    (hsettings : ∀ config, (change config).settings = config.settings)
    (hsame : ∀ left right, SameContents left right →
      SameContents (change left) (change right)) :
    OnContents fun config => done (change config) where
  ends := fun config => ends_done (hsettings config)
  mirrors := fun left right hcontents =>
    mirrors_done (hsame left right hcontents)

theorem onContents_withValue {Value : Type} (result : Except Thrown Value)
    {next : Value → CollectionConfig Pipe Categoriser →
      Attempt Thrown (CollectionConfig Pipe Categoriser)}
    (hnext : ∀ value, OnContents (next value)) :
    OnContents fun config =>
      withValue config result fun value => next value config where
  ends := fun config =>
    ends_withValue fun value _ => (hnext value).ends config
  mirrors := fun left right hcontents =>
    mirrors_withValue hcontents result fun value =>
      (hnext value).mirrors left right hcontents

theorem onContents_forEach {Item : Type}
    {body : Item → CollectionConfig Pipe Categoriser →
      Attempt Thrown (CollectionConfig Pipe Categoriser)}
    (hbody : ∀ item, OnContents (body item)) (items : List Item) :
    OnContents (forEach body items) where
  ends := by
    intro config
    refine ends_forEach (fun item state hstate => ?_) items rfl
    intro hthrown
    exact ((hbody item).ends state hthrown).trans hstate
  mirrors := fun left right hcontents =>
    mirrors_forEach (fun item => (hbody item).mirrors) items hcontents

theorem onContents_forSection {body : Bytes × Json → CollectionConfig Pipe Categoriser →
      Attempt Thrown (CollectionConfig Pipe Categoriser)}
    (hbody : ∀ entry, OnContents (body entry)) (value : Json)
    (key description : String) :
    OnContents (forSection value key description body) := by
  unfold forSection
  cases hnull : (value.member (ascii key)).isNull with
  | true =>
    simp only [hnull, if_true]
    exact onContents_done (fun _ => rfl) fun _ _ hcontents => hcontents
  | false =>
    simp only [hnull, false_eq_true, if_false]
    exact onContents_withValue _ fun _ => onContents_forEach hbody _

variable (value : Json)

theorem onContents_readSection {Value : Type} (key description : String)
    {read : Json → Except Thrown Value}
    {put : CollectionConfig Pipe Categoriser → Bytes → Value →
      CollectionConfig Pipe Categoriser}
    (hsettings : ∀ config name part, (put config name part).settings = config.settings)
    (hsame : ∀ left right name part, SameContents left right →
      SameContents (put left name part) (put right name part)) :
    OnContents (readSection value key description read put) :=
  onContents_forSection (fun entry => onContents_withValue (read entry.2)
    fun part => onContents_done (fun config => hsettings config entry.1 part)
      fun left right => hsame left right entry.1 part) value key description

theorem onContents_pipes [Part Pipe] : OnContents (pipesConfigFromJson value :
      CollectionConfig Pipe Categoriser → _) :=
  onContents_readSection value _ _
    (fun _ _ _ => rfl) fun left right name part hcontents =>
      ⟨hcontents.types, by simp [setPipe, hcontents.pipes],
        hcontents.categorisers, hcontents.taxonomies⟩

theorem onContents_categorisers [Part Categoriser] :
    OnContents (categorisersConfigFromJson value :
      CollectionConfig Pipe Categoriser → _) :=
  onContents_readSection value _ _
    (fun _ _ _ => rfl) fun left right name part hcontents =>
      ⟨hcontents.types, hcontents.pipes, by simp [setCategoriser, hcontents.categorisers],
        hcontents.taxonomies⟩

theorem onContents_categories : OnContents (categoriesConfigFromJson value :
      CollectionConfig Pipe Categoriser → _) :=
  onContents_readSection value _ _
    (fun _ _ _ => rfl) fun left right name part hcontents =>
      ⟨hcontents.types, hcontents.pipes, hcontents.categorisers,
        by simp [setTaxonomy, hcontents.taxonomies]⟩

theorem onContents_setSchema [Libraries] (type : Bytes) (schema : Schema) :
    OnContents fun config : CollectionConfig Pipe Categoriser =>
      config.setSchema type schema where
  ends := by
    intro config
    simp only [setSchema]
    split
    next => exact ends_done rfl
    next error _ => exact ends_fail _ error
  mirrors := by
    intro left right hcontents
    simp only [setSchema, hcontents.types]
    split
    all_goals
      exact ⟨rfl, rfl, hcontents.pipes, hcontents.categorisers, hcontents.taxonomies⟩

theorem onContents_readSchema [Libraries] (entry : Bytes × Json) :
    OnContents (readSchema entry : CollectionConfig Pipe Categoriser → _) := by
  unfold readSchema
  cases ((Schema.new entry.1).fromJson entry.2).thrown with
  | some error =>
    exact ⟨fun config => ends_fail config error, fun left right hcontents =>
      ⟨rfl, hcontents⟩⟩
  | none => exact onContents_setSchema _ _

theorem onContents_readTypes [Libraries] :
    OnContents (readTypes value : CollectionConfig Pipe Categoriser → _) :=
  onContents_forSection onContents_readSchema value _ _

/-! ## Settings -/

section Settings

variable {left right : CollectionConfig Pipe Categoriser}

variable (value : Json) (config : CollectionConfig Pipe Categoriser)

theorem ends_readDefaultType : (readDefaultType value config).Ends fun after =>
      after.settings = config.settings.defaultType value := by
  cases hnull : (value.member (ascii "default_type")).isNull with
  | true =>
    simp only [readDefaultType, hnull, if_true]
    refine ends_done ?_
    simp [Settings.defaultType, settings, hnull]
  | false =>
    simp only [readDefaultType, hnull, false_eq_true, if_false]
    split
    next error _ => exact ends_fail config error
    next =>
    refine ends_done ?_
    simp [Settings.defaultType, settings, hnull]

theorem mirrors_readDefaultType (hcontents : SameContents left right) :
    Mirrors SameContents (readDefaultType value left) (readDefaultType value right) := by
  simp only [readDefaultType]
  split
  · exact mirrors_done hcontents
  · split
    all_goals exact ⟨rfl, { hcontents with }⟩

theorem getStringMember_eq (key : String) (default : Bytes) :
    value.getStringMember key default = (value.getStringMember key []).map fun _ =>
        Settings.textOr value key default := by
  unfold Json.getStringMember Settings.textOr
  cases value.member (ascii key) <;> rfl

/-- Special fields that are missing are read as an empty object would be. -/
theorem textOr_of_isNull {value : Json} (hnull : value.isNull = true) (key : String)
    (default : Bytes) :
    Settings.textOr value key default = default := by
  cases value with
  | null => rfl
  | _ => cases hnull

theorem ends_readSpecialFields : (readSpecialFields value config).Ends fun after =>
      after.settings = config.settings.specialFields value := by
  cases hnull : (value.member (ascii "special_fields")).isNull with
  | true =>
    simp only [readSpecialFields, hnull, if_true]
    refine ends_done ?_
    simp [Settings.specialFields, settings, textOr_of_isNull hnull]
  | false =>
    simp only [readSpecialFields, hnull, false_eq_true, if_false,
      getStringMember_eq _ _ config.idField, getStringMember_eq _ _ config.typeField,
      getStringMember_eq _ _ config.metaField, withValue_map]
    refine ends_withValue fun _ _ => ?_
    refine ends_withValue fun _ _ => ?_
    refine ends_withValue fun _ _ => ?_
    refine ends_withValue fun _ _ => ?_
    exact ends_done rfl

theorem mirrors_readSpecialFields (hcontents : SameContents left right) :
    Mirrors SameContents (readSpecialFields value left)
      (readSpecialFields value right) := by
  cases hnull : (value.member (ascii "special_fields")).isNull with
  | true =>
    simp only [readSpecialFields, hnull, if_true]
    exact mirrors_done hcontents
  | false =>
    simp only [readSpecialFields, hnull, false_eq_true, if_false,
      getStringMember_eq _ _ left.idField, getStringMember_eq _ _ left.typeField,
      getStringMember_eq _ _ left.metaField, getStringMember_eq _ _ right.idField,
      getStringMember_eq _ _ right.typeField, getStringMember_eq _ _ right.metaField,
      withValue_map]
    iterate 4 refine mirrors_withValue { hcontents with } _ fun _ => ?_
    exact mirrors_done { hcontents with }

end Settings

/-! ## The whole configuration -/

section Whole

variable [Libraries] [Part Pipe] [Part Categoriser]

theorem ends_readSections (value : Json) (config : CollectionConfig Pipe Categoriser) :
    (readSections value config).Ends fun after => after.settings =
      (config.settings.defaultType value).specialFields value := by
  have hdefault : ((readTypes value config).andThen (readDefaultType value)).Ends
    fun after =>
        after.settings = config.settings.defaultType value :=
    ((onContents_readTypes value).ends config).andThen fun after hafter => by
      rw [← hafter]
      exact ends_readDefaultType value after
  have hschemas : (schemasConfigFromJson value config).Ends fun after =>
      after.settings = (config.settings.defaultType value).specialFields value :=
    hdefault.andThen fun after hafter => by
      rw [← hafter]
      exact ends_readSpecialFields value after
  exact (onContents_categories value).ends_andThen
    ((onContents_categorisers value).ends_andThen
      ((onContents_pipes value).ends_andThen hschemas))

theorem ends_fromJson (config : CollectionConfig Pipe Categoriser) (value : Json) :
    (config.fromJson value).Ends fun after => after.settings =
      (config.settings.defaultType value).specialFields value :=
  ends_withValue fun _ _ => ends_readSections value config.clear

/-- What the sections of a value leave behind does not depend on the object
they are read into. -/
theorem agree_fromJson (left right : CollectionConfig Pipe Categoriser) (value : Json) :
    (left.fromJson value).thrown = (right.fromJson value).thrown ∧
      ((left.fromJson value).thrown = none →
        SameContents (left.fromJson value).state (right.fromJson value).state) := by
  unfold fromJson
  cases checkHead value with
  | error error => exact ⟨rfl, nofun⟩
  | ok _ =>
    have htypes := (onContents_readTypes value).mirrors left.clear right.clear
      (sameContents_clear left right)
    have hschemas := (htypes.andThen fun _ _ =>
      mirrors_readDefaultType value).andThen fun _ _ => mirrors_readSpecialFields value
    have hsections := ((hschemas.andThen (onContents_pipes value).mirrors).andThen
      (onContents_categorisers value).mirrors).andThen
        (onContents_categories value).mirrors
    exact ⟨hsections.thrown, fun _ => hsections.state⟩

end Whole

end CollectionConfig

end Restpose.Config
