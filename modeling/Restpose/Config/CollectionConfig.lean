import Restpose.Schema.Schema
import Restpose.Taxonomy.Model

/-!
# Collection configurations

The configuration of a collection, with the schemas of its types and with its
pipes, categorisers and taxonomies.  It is read from JSON section by section,
into an object that already has a configuration.

Pipes and categorisers only come in as values that are read and written as a
whole.
-/

namespace Restpose.Config

/-- What is read from JSON into an object of its own, which is then copied into
the configuration. -/
class Part (Value : Type) where
  fromJson : Json → Except Thrown Value
  toJson : Value → Json

/-- `Taxonomy::to_json`. -/
def taxonomyToJson (taxonomy : Taxonomy) : Json :=
  mapToJson
    (fun category => .array ((category.parents.sort (· ≤ ·)).map .ofString))
    taxonomy.categories

/-- `Taxonomy::from_json` on a new object. -/
def taxonomyFromJson (value : Json) : Except Thrown Taxonomy :=
  match (Taxonomy.fromJson value).thrown with
  | none => .ok (Taxonomy.fromJson value).state
  | some error => .error (.invalidValue error)

structure CollectionConfig (Pipe Categoriser : Type) where
  collName : Bytes
  types : StdMap Schema
  defaultTypeConfig : Json
  idField : Bytes
  typeField : Bytes
  metaField : Bytes
  pipes : StdMap Pipe
  categorisers : StdMap Categoriser
  taxonomies : StdMap Taxonomy
  changed : Bool

namespace CollectionConfig

variable {Pipe Categoriser : Type}

/-- An object that nothing has been read into. -/
def blank (collName : Bytes) : CollectionConfig Pipe Categoriser :=
  ⟨collName, ∅, .null, [], [], [], ∅, ∅, ∅, false⟩

/-- `CollectionConfig(coll_name)`. -/
def create (collName : Bytes) :
    Except Thrown (CollectionConfig Pipe Categoriser) :=
  match validateCollname collName with
  | some error => .error (.invalid error)
  | none => .ok (blank collName)

/-- `clear`, which keeps the default type and the special fields. -/
def clear (config : CollectionConfig Pipe Categoriser) :
    CollectionConfig Pipe Categoriser :=
  { config with types := ∅, pipes := ∅, categorisers := ∅, taxonomies := ∅ }

/-! ## The default -/

/-- The configuration that the default schema has for fields with a name and
for fields that end in it. -/
def namedPattern (name : String) (members : String → List (String × Json)) :
    List Json :=
  [.array [literal ("*_" ++ name), assign .null (members "*")],
    .array [literal name, assign .null (members "")]]

private def textMembers (star : String) : List (String × Json) :=
  [("type", literal "text"), ("group", literal ("t" ++ star)),
    ("store_field", literal (if star = "" then "text" else "*_text")),
    ("processor", literal "stem_en")]

private def slotMembers (type letter name : String) (star : String) :
    List (String × Json) :=
  [("type", literal type), ("slot", literal (letter ++ star)),
    ("store_field", literal (if star = "" then name else "*_" ++ name))]

private def hashedMembers (type letter name : String) (maxLength : ℤ)
    (star : String) : List (String × Json) :=
  [("type", literal type), ("group", literal (letter ++ star)),
    ("slot", literal (letter ++ star)),
    ("store_field", literal (if star = "" then name else "*_" ++ name)),
    ("max_length", .int maxLength), ("too_long_action", literal "hash")]

private def categoryMembers (star : String) : List (String × Json) :=
  hashedMembers "cat" "c" "cat" 32 star ++
    [("taxonomy", literal (if star = "" then "cat" else "*_cat"))]

/-- The schema that `set_default_schema` reads. -/
def defaultSchema : Json :=
  assign .null [("patterns", .array (
    namedPattern "text" textMembers ++
    namedPattern "num" (slotMembers "double" "n" "num") ++
    namedPattern "time" (slotMembers "timestamp" "d" "time") ++
    namedPattern "tag" (hashedMembers "exact" "g" "tag" 100) ++
    namedPattern "url" (hashedMembers "exact" "u" "url" 100) ++
    namedPattern "cat" categoryMembers ++
    namedPattern "lonlat" (slotMembers "lonlat" "l" "lonlat") ++
    [.array [literal "id", assign .null [("type", literal "id"),
        ("store_field", literal "id")]],
      .array [literal "type", assign .null [("type", literal "exact"),
        ("group", literal "!"), ("slot", .int 1),
        ("store_field", literal "type")]],
      .array [literal "_meta", assign .null [("type", literal "meta"),
        ("group", literal "#"), ("slot", .int 0)]],
      .array [literal "*", assign .null [("type", literal "text"),
        ("group", literal "t"), ("store_field", literal "*")]]])),
    ("fields", .object [])]

def setDefaultSchema (config : CollectionConfig Pipe Categoriser) :
    CollectionConfig Pipe Categoriser :=
  { config with
    types := ∅
    idField := ascii "id"
    typeField := ascii "type"
    metaField := ascii "_meta"
    defaultTypeConfig := ((Schema.new []).fromJson defaultSchema).state.toJson }

def setDefault (config : CollectionConfig Pipe Categoriser) :
    CollectionConfig Pipe Categoriser :=
  config.clear.setDefaultSchema

/-! ## Writing -/

def schemasConfigToJson (config : CollectionConfig Pipe Categoriser)
    (value : Json) : Json :=
  assign value [("types", mapToJson Schema.toJson config.types),
    ("default_type", config.defaultTypeConfig),
    ("special_fields", assign .null [("id_field", .ofString config.idField),
      ("type_field", .ofString config.typeField),
      ("meta_field", .ofString config.metaField)])]

/-- The sections for pipes, categorisers and taxonomies, which are left out if
there are none. -/
def sectionToJson {Value : Type} (key : String) (write : Value → Json)
    (map : StdMap Value) (value : Json) : Json :=
  if map.isEmpty then value else assign value [(key, mapToJson write map)]

/-- `CONFIG_FORMAT`, which is also `CONFIG_FORMAT_OLDEST`. -/
def configFormat : ℕ := 3

def toJson [Part Pipe] [Part Categoriser]
    (config : CollectionConfig Pipe Categoriser) : Json :=
  assign
    (config.schemasConfigToJson (.object [])
      |> sectionToJson "pipes" Part.toJson config.pipes
      |> sectionToJson "categorisers" Part.toJson config.categorisers
      |> sectionToJson "taxonomies" taxonomyToJson config.taxonomies)
    [("format", .uint configFormat)]

/-! ## Reading -/

def setSchema [Libraries] (config : CollectionConfig Pipe Categoriser)
    (type : Bytes) (schema : Schema) :
    Attempt Thrown (CollectionConfig Pipe Categoriser) :=
  let merged := (config.types.getD type (Schema.new type)).mergeFrom schema
  let stored := { config with
    types := config.types.insert type merged.state }
  match merged.thrown with
  | none => .done { stored with changed := true }
  | some error => .fail stored error

def setPipe (config : CollectionConfig Pipe Categoriser)
    (name : Bytes) (pipe : Pipe) : CollectionConfig Pipe Categoriser :=
  { config with pipes := config.pipes.insert name pipe, changed := true }

def setCategoriser (config : CollectionConfig Pipe Categoriser)
    (name : Bytes) (categoriser : Categoriser) :
    CollectionConfig Pipe Categoriser :=
  { config with
    categorisers := config.categorisers.insert name categoriser
    changed := true }

def setTaxonomy (config : CollectionConfig Pipe Categoriser)
    (name : Bytes) (taxonomy : Taxonomy) :
    CollectionConfig Pipe Categoriser :=
  { config with
    taxonomies := config.taxonomies.insert name taxonomy, changed := true }

section Sections

variable (value : Json)

/-- The loop over the members of a section that may be missing. -/
def forSection (key description : String)
    (body : Bytes × Json → CollectionConfig Pipe Categoriser →
      Attempt Thrown (CollectionConfig Pipe Categoriser))
    (config : CollectionConfig Pipe Categoriser) :
    Attempt Thrown (CollectionConfig Pipe Categoriser) :=
  let entries := value.member (ascii key)
  if entries.isNull then .done config
  else
    .withValue config (liftInvalid (entries.checkObject description)) fun _ =>
    .forEach body entries.members config

/-- The body of the loop over the types: a schema is read and then set. -/
def readSchema [Libraries] (entry : Bytes × Json)
    (config : CollectionConfig Pipe Categoriser) :
    Attempt Thrown (CollectionConfig Pipe Categoriser) :=
  match ((Schema.new entry.1).fromJson entry.2).thrown with
  | some error => .fail config error
  | none =>
      config.setSchema entry.1 ((Schema.new entry.1).fromJson entry.2).state

def readTypes [Libraries] :
    CollectionConfig Pipe Categoriser →
      Attempt Thrown (CollectionConfig Pipe Categoriser) :=
  forSection value "types" "types definition" readSchema

/-- The default type is checked by reading it into a schema. -/
def readDefaultType (config : CollectionConfig Pipe Categoriser) :
    Attempt Thrown (CollectionConfig Pipe Categoriser) :=
  let deftype := value.member (ascii "default_type")
  if deftype.isNull then .done config
  else
    match ((Schema.new []).fromJson deftype).thrown with
    | some error => .fail config error
    | none => .done { config with defaultTypeConfig := deftype }

def readSpecialFields (config : CollectionConfig Pipe Categoriser) :
    Attempt Thrown (CollectionConfig Pipe Categoriser) :=
  let special := value.member (ascii "special_fields")
  if special.isNull then .done config
  else
    .withValue config
      (liftInvalid (special.checkObject "special_fields definition")) fun _ =>
    .withValue config (special.getStringMember "id_field" config.idField)
      fun idField =>
    .withValue { config with idField }
      (special.getStringMember "type_field" config.typeField) fun typeField =>
    .withValue { config with idField, typeField }
      (special.getStringMember "meta_field" config.metaField) fun metaField =>
    .done { config with idField, typeField, metaField }

def schemasConfigFromJson [Libraries]
    (config : CollectionConfig Pipe Categoriser) :
    Attempt Thrown (CollectionConfig Pipe Categoriser) :=
  ((readTypes value config).andThen (readDefaultType value)).andThen
    (readSpecialFields value)

/-- A section of parts that are read one by one and then set. -/
def readSection {Value : Type} (key description : String)
    (read : Json → Except Thrown Value)
    (put : CollectionConfig Pipe Categoriser → Bytes → Value →
      CollectionConfig Pipe Categoriser) :
    CollectionConfig Pipe Categoriser →
      Attempt Thrown (CollectionConfig Pipe Categoriser) :=
  forSection value key description fun entry config =>
    .withValue config (read entry.2) fun part =>
      .done (put config entry.1 part)

def pipesConfigFromJson [Part Pipe] :
    CollectionConfig Pipe Categoriser →
      Attempt Thrown (CollectionConfig Pipe Categoriser) :=
  readSection value "pipes" "pipes definition" Part.fromJson setPipe

def categorisersConfigFromJson [Part Categoriser] :
    CollectionConfig Pipe Categoriser →
      Attempt Thrown (CollectionConfig Pipe Categoriser) :=
  readSection value "categorisers" "categorisers definition" Part.fromJson
    setCategoriser

def categoriesConfigFromJson :
    CollectionConfig Pipe Categoriser →
      Attempt Thrown (CollectionConfig Pipe Categoriser) :=
  readSection value "taxonomies" "taxonomies definition" taxonomyFromJson
    setTaxonomy

end Sections

def checkFormatNumber (format : ℕ) : Except Thrown Unit :=
  if format < configFormat then
    .error (.invalid (ascii
      "Configuration supplied is in too old a format: in format " ++
        decimal format ++ ascii " but the oldest supported is " ++
        decimal configFormat))
  else if configFormat < format then
    .error (.invalid (ascii
      "Configuration supplied is in too new a format: in format " ++
        decimal format ++ ascii " but the newest supported is " ++
        decimal configFormat))
  else .ok ()

/-- The tests that `from_json` makes before it changes anything. -/
def checkHead (value : Json) : Except Thrown Unit := do
  liftInvalid (value.checkObject "collection configuration")
  let format ← value.getUInt64Member "format" 2147483647
  checkFormatNumber (format % 2 ^ 32)

variable [Libraries] [Part Pipe] [Part Categoriser]

/-- The part of `from_json` that reads the sections. -/
def readSections (value : Json) (config : CollectionConfig Pipe Categoriser) :
    Attempt Thrown (CollectionConfig Pipe Categoriser) :=
  (((schemasConfigFromJson value config).andThen
    (pipesConfigFromJson value)).andThen
      (categorisersConfigFromJson value)).andThen
        (categoriesConfigFromJson value)

def fromJson (config : CollectionConfig Pipe Categoriser) (value : Json) :
    Attempt Thrown (CollectionConfig Pipe Categoriser) :=
  .withValue config (checkHead value) fun _ => readSections value config.clear

/-- `clone`, which goes through JSON. -/
def clone (config : CollectionConfig Pipe Categoriser) :
    Except Thrown (CollectionConfig Pipe Categoriser) := do
  let result ← create config.collName
  (result.fromJson config.toJson).toExcept

end CollectionConfig

end Restpose.Config
