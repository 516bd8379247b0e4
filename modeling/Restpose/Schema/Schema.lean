import Restpose.Schema.FieldConfig

/-!
# Schemas

A schema has the field configurations of one type of documents, the patterns
that make configurations for new fields, and the indexers that have been made
so far.
-/

namespace Restpose.Config

/-- `ExactStringIndexer`, for exact fields and for id fields. -/
structure ExactStringIndexer where
  termPrefix : Bytes
  storeField : Bytes
  wdfinc : ℕ
  maxLength : ℕ
  tooLongAction : TooLongAction
  isid : Bool
  slot : ℕ
  lowercase : Bool
  deriving DecidableEq

structure CategoryIndexer where
  termPrefix : Bytes
  taxonomyName : Bytes
  storeField : Bytes
  maxLength : ℕ
  tooLongAction : TooLongAction
  slot : ℕ
  deriving DecidableEq

/-- The classes derived from `FieldIndexer`. -/
inductive FieldIndexer where
  | metadata (termPrefix : Bytes) (slot : ℕ)
  | exactString (indexer : ExactStringIndexer)
  | stored (storeField : Bytes)
  | double (slot : ℕ) (storeField : Bytes)
  | timeStamp (slot : ℕ) (storeField : Bytes)
  | date (slot : ℕ) (storeField : Bytes)
  | category (indexer : CategoryIndexer)
  | lonLat (slot : ℕ) (storeField : Bytes)
  | termGenerator (termPrefix storeField stemLang : Bytes) (slot : ℕ)
  | cjk (termPrefix storeField : Bytes) (slot : ℕ)
  deriving DecidableEq

/-- `FieldConfig::indexer`.  Ignored fields have none. -/
def FieldConfig.indexer (config : FieldConfig) : Option FieldIndexer :=
  match config with
  | .metadata termPrefix slot => some (.metadata termPrefix slot.num)
  | .id limits storeField termPrefix =>
      some (.exactString ⟨termPrefix, storeField, 0, limits.maxLength,
        limits.tooLongAction, true, limits.slot.num, false⟩)
  | .exact limits termPrefix storeField wdfinc lowercase =>
      some (.exactString ⟨termPrefix, storeField, wdfinc, limits.maxLength,
        limits.tooLongAction, false, limits.slot.num, lowercase⟩)
  | .text termPrefix storeField processor slot =>
      if processor = ascii "cjk" then
        some (.cjk termPrefix storeField slot.num)
      else if (ascii "stem_").isPrefixOf processor then
        some (.termGenerator termPrefix storeField (processor.drop 5) slot.num)
      else some (.termGenerator termPrefix storeField [] slot.num)
  | .double slot storeField => some (.double slot.num storeField)
  | .timestamp slot storeField => some (.timeStamp slot.num storeField)
  | .date slot storeField => some (.date slot.num storeField)
  | .category limits termPrefix taxonomyName storeField =>
      some (.category ⟨termPrefix, taxonomyName, storeField,
        limits.maxLength, limits.tooLongAction, limits.slot.num⟩)
  | .lonlat slot storeField => some (.lonLat slot.num storeField)
  | .stored storeField => some (.stored storeField)
  | .ignored => none

/-- `Schema`.  The map of indexers has an entry for every field that one was
asked for, also if there was none. -/
structure Schema where
  docType : Bytes
  fields : StdMap FieldConfig
  indexers : StdMap (Option FieldIndexer)
  patterns : FieldConfigPatterns

namespace Schema

/-- `Schema(doc_type)`. -/
def new (docType : Bytes) : Schema :=
  ⟨docType, ∅, ∅, ⟨[]⟩⟩

/-- `clear`, which keeps the patterns. -/
def clear (schema : Schema) : Schema :=
  { schema with fields := ∅, indexers := ∅ }

/-- `set`, which removes a configuration if it is given none.  The indexers
stay as they are. -/
def set (schema : Schema) (fieldname : Bytes)
    (config : Option FieldConfig) : Schema :=
  match config with
  | none => { schema with fields := schema.fields.erase fieldname }
  | some config =>
      { schema with fields := schema.fields.insert fieldname config }

variable (schema : Schema) (fieldname : Bytes)

theorem find_set (other : Bytes) (config : Option FieldConfig) :
    (schema.set fieldname config).fields[other]? =
      if other = fieldname then config else schema.fields[other]? := by
  cases config with
  | none => exact StdMap.find_erase _ _ _
  | some config => exact StdMap.find_insert _ _ _ _

variable (config : Option FieldConfig)

@[simp]
theorem docType_set : (schema.set fieldname config).docType = schema.docType := by
  cases config <;> rfl

@[simp]
theorem patterns_set : (schema.set fieldname config).patterns = schema.patterns := by
  cases config <;> rfl

@[simp]
theorem indexers_set : (schema.set fieldname config).indexers = schema.indexers := by
  cases config <;> rfl

/-- `get_indexer`: the indexer, and the schema with it in the cache. -/
def getIndexer (schema : Schema) (fieldname : Bytes) :
    Option FieldIndexer × Schema :=
  match schema.indexers[fieldname]? with
  | some cached => (cached, schema)
  | none =>
      match schema.fields[fieldname]? with
      | none => (none, schema)
      | some config =>
          (config.indexer, { schema with
            indexers := schema.indexers.insert fieldname config.indexer })

def toJson (schema : Schema) : Json :=
  let value : Json :=
    if schema.fields.isEmpty then .object []
    else (Json.object []).setMember (ascii "fields")
      (mapToJson (fun config => config.toJson (.object [])) schema.fields)
  value.setMember (ascii "patterns") schema.patterns.toJson

/-- The loop over the fields of `Schema::from_json`. -/
def readFields (entries : List (Bytes × Json)) (schema : Schema) :
    Attempt Thrown Schema :=
  .forEach (fun entry schema =>
      .withValue schema (FieldConfig.fromJson entry.2 schema.docType)
        fun config => .done (schema.set entry.1 (some config)))
    entries schema

/-- The last part of `Schema::from_json`. -/
def readPatterns (value : Json) (schema : Schema) : Attempt Thrown Schema :=
  let read := FieldConfigPatterns.fromJson (value.member (ascii "patterns"))
  ⟨{ schema with patterns := read.state }, read.thrown⟩

def fromJson (schema : Schema) (value : Json) : Attempt Thrown Schema :=
  .withValue schema.clear (liftInvalid (value.checkObject "schema")) fun _ =>
  let fieldsValue := value.member (ascii "fields")
  (if fieldsValue.isNull then Attempt.done schema.clear
    else
      .withValue schema.clear
        (liftInvalid (fieldsValue.checkObject "fields in schema")) fun _ =>
      readFields fieldsValue.members schema.clear).andThen
    (readPatterns value)

/-- Take over the configuration of one field of another schema. -/
def mergeField [Libraries] (entry : Bytes × FieldConfig)
    (schema : Schema) : Attempt Thrown Schema :=
  let tmp := entry.2.toJson .null
  match schema.fields[entry.1]? with
  | none =>
      .withValue schema (FieldConfig.fromJson tmp schema.docType)
        fun config => .done (schema.set entry.1 (some config))
  | some config =>
      if tmp.serialise = (config.toJson .null).serialise then .done schema
      else .fail schema (.invalid (ascii
        "Cannot change configuration in schema for field \"" ++ entry.1 ++
          ascii "\"."))

def mergeFrom [Libraries] (schema other : Schema) : Attempt Thrown Schema :=
  (Attempt.forEach mergeField other.fields.toList schema).andThen fun merged =>
  .done { merged with patterns := merged.patterns.mergeFrom other.patterns }

end Schema

end Restpose.Config
