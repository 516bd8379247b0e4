import Restpose.Indexing.Visits
import Restpose.Config.Clone

/-!
# How a schema grows

Processing a document gives a configuration from the patterns to every field
that has no indexer.  The other field configurations of the schema stay, unless
the document has a field that the schema ignores and its patterns do not.
-/

namespace Restpose.Config

open Std.ExtTreeMap Attempt Option StdMap

/-! ## Patterns -/

theorem FieldConfigPattern.Accepted.parsed_config {pattern : FieldConfigPattern}
    (haccepted : pattern.Accepted) :
    pattern.config.Parsed := by
  obtain ⟨value, hparsed, hread⟩ := haccepted
  have hends : (blank.fromJson value).Ends fun read =>
      read.config = value.item 1 := by
    apply ends_withValue
    intro _ _
    split
    · exact ends_fail _ _
    apply ends_withValue
    intro text _
    apply ends_withValue
    intro _ _
    dsimp only
    generalize (if text.head? == some 42 then text.tail else text) = ending
    split
    · exact ends_fail _ _
    · exact ends_done rfl
  rw [hread] at hends
  have hconfig : pattern.config = value.item 1 := hends rfl
  rw [hconfig]
  exact hparsed.item 1

theorem FieldConfigPatterns.given_get {patterns : FieldConfigPatterns}
    (haccepted : ∀ pattern ∈ patterns.patterns, pattern.Accepted)
    {fieldname docType : Bytes} {config : FieldConfig}
    (hget : patterns.get fieldname docType = .ok (some config)) : config.Given := by
  have hyields : Attempt.Yields (patterns.get fieldname docType) fun found =>
      ∀ config ∈ found, config.Given := yields_get
    (fun pattern hpattern value hvalue found hfound =>
      FieldConfig.Accepted.given ⟨value, docType,
        hvalue (haccepted pattern hpattern).parsed_config, hfound⟩) fieldname
  exact hyields _ hget config rfl

/-! ## Entries -/

namespace FieldEntry

variable {pattern : Except Thrown (Option FieldConfig)} {entry : FieldEntry}

theorem config_of_visit {config : FieldConfig}
    (hconfig : (entry.visit pattern).entry.config = some config) :
    entry.config = some config ∨ pattern = .ok (some config) := by
  have hvisited := entry.visited pattern
  generalize entry.visit pattern = visit at hvisited hconfig
  cases hvisited with
  | known hget => exact .inl hconfig
  | thrown hget hpattern => exact .inl (entry.config_getIndexer ▸ hconfig)
  | made hpattern hindexer | none hget hpattern hafter =>
    exact .inr (hconfig ▸ hpattern)

theorem config_visit_of_steady {config : FieldConfig} (hcached : entry.cached = none)
    (hconfig : entry.config = some config)
    (hsteady : config.indexer = none → pattern = .ok (some config)) :
    (entry.visit pattern).entry.config = some config := by
  have hvisited := entry.visited pattern
  generalize entry.visit pattern = visit at hvisited
  cases hvisited with
  | known hget => exact hconfig
  | thrown hget hpattern => rw [config_getIndexer, hconfig]
  | made hpattern hindexer => cases hconfig
  | none hget hpattern hafter =>
    simp only [getIndexer, hcached, hconfig] at hget
    exact Except.ok.inj (hpattern.symm.trans (hsteady hget))

theorem config_visit_of_not_isNew (hnew : (entry.visit pattern).isNew = false) :
    (entry.visit pattern).entry.config = entry.config := by
  have hvisited := entry.visited pattern
  generalize entry.visit pattern = visit at hvisited hnew
  cases hvisited with
  | known hget => rfl
  | thrown hget hpattern => exact entry.config_getIndexer
  | _ => cases hnew

end FieldEntry

namespace Schema

/-! ## Schemas -/

/-- The patterns have the same to say about a field that has no indexer. -/
def Steady (schema : Schema) (name : Bytes) : Prop :=
  ∀ config : FieldConfig, schema.fields[name]? = some config →
    config.indexer = none →
    schema.patterns.get name schema.docType = .ok (some config)

/-- What a schema may be while the fields with some names are processed.  It is
only known to keep its fields if it is steady for these names. -/
structure Grown (start : Schema) (names : List Bytes)
    (schema : Schema) : Prop where
  docType : schema.docType = start.docType
  patterns : schema.patterns = start.patterns
  source : ∀ (name : Bytes) (config : FieldConfig),
    schema.fields[name]? = some config →
    start.fields[name]? = some config ∨
      name ∈ names ∧
        start.patterns.get name start.docType = .ok (some config)
  kept : (∀ name ∈ names, start.Steady name) →
    ∀ (name : Bytes) (config : FieldConfig),
      start.fields[name]? = some config →
      schema.fields[name]? = some config

variable {start schema : Schema} {names : List Bytes} {name : Bytes}

theorem Grown.given (hgrown : Grown start names schema) (hgiven : start.Given)
    (haccepted : ∀ pattern ∈ start.patterns.patterns, pattern.Accepted)
    (hnames : ∀ name ∈ names, cString name = name) : schema.Given where
  names := fun entry hentry => by
    rw [mem_toList_iff_getElem?_eq_some] at hentry
    rcases hgrown.source _ _ hentry with hstart | ⟨hname, -⟩
    · exact hgiven.names entry (mem_toList_iff_getElem?_eq_some.mpr hstart)
    · exact hnames _ hname
  fields := fun entry hentry => by
    rw [mem_toList_iff_getElem?_eq_some] at hentry
    rcases hgrown.source _ _ hentry with hstart | ⟨-, hget⟩
    · exact hgiven.fields entry (mem_toList_iff_getElem?_eq_some.mpr hstart)
    · exact FieldConfigPatterns.given_get haccepted hget
  patterns := by
    rw [hgrown.patterns]
    exact hgiven.patterns

theorem toJson_congr {other : Schema} (hfields : other.fields = schema.fields)
    (hpatterns : other.patterns = schema.patterns) :
    other.toJson = schema.toJson := by
  simp only [toJson, hfields, hpatterns]

end Schema

/-! ## Configurations -/

namespace CollectionConfig

variable {Pipe Categoriser : Type}

/-- The configuration of a field in the schema of a type. -/
def findField (config : CollectionConfig Pipe Categoriser)
    (type name : Bytes) : Option FieldConfig :=
  (config.types[type]?).bind fun schema => schema.fields[name]?

variable [Part Pipe] [Part Categoriser]

/-- The JSON of a field in the JSON of a configuration. -/
def fieldJson (config : CollectionConfig Pipe Categoriser)
    (type name : Bytes) : Json :=
  (((config.toJson.member (ascii "types")).member type).member
    (ascii "fields")).member name

/-- A configuration that can be copied and can make new types. -/
structure Served (config : CollectionConfig Pipe Categoriser) : Prop where
  given : config.Given
  patterns : ∀ (type : Bytes) (schema : Schema),
    config.types[type]? = some schema →
    ∀ pattern ∈ schema.patterns.patterns, pattern.Accepted
  defaultType : config.defaultTypeConfig.Parsed

/-- A copy that no document has been processed with. -/
structure Fresh (config : CollectionConfig Pipe Categoriser) : Prop where
  indexers : ∀ (type : Bytes) (schema : Schema),
    config.types[type]? = some schema → schema.indexers = ∅
  idField : cString config.idField = config.idField
  typeField : cString config.typeField = config.typeField
  metaField : cString config.metaField = config.metaField

variable {config : CollectionConfig Pipe Categoriser} {type : Bytes}
  {schema : Schema}

theorem Given.find (hgiven : config.Given) (hfind : config.types[type]? = some schema) :
    cString type = type ∧ schema.Given :=
  hgiven.types (type, schema) (mem_toList_iff_getElem?_eq_some.mpr hfind)

theorem fieldJson_eq (hgiven : config.Given) (type name : Bytes) :
    config.fieldJson type name =
      (config.findField type name).elim .null (·.toJson (.object [])) := by
  have htypes : ∀ entry ∈ config.types.toList, cString entry.1 = entry.1 :=
    fun entry hentry => (hgiven.types entry hentry).1
  rw [fieldJson, findField, member_types_toJson, member_mapToJson htypes]
  cases hfind : config.types[type]? with
  | none => rfl
  | some schema =>
    have hschema := (hgiven.find hfind).2
    have hwritten : schema.toJson.member (ascii "fields") =
        if schema.fields.isEmpty then .null
        else mapToJson (·.toJson (.object [])) schema.fields := by
      rw [Schema.toJson, Json.member_setMember_of_ne _ _ (by decide)]
      split
      · rfl
      · exact Json.member_setMember_self _ _ _
    change (schema.toJson.member (ascii "fields")).member name =
      (schema.fields[name]?).elim .null (·.toJson (.object []))
    rw [hwritten]
    split
    next hempty =>
      rw [isEmpty_iff.mp hempty]
      rfl
    next => exact member_mapToJson hschema.names

/-- A copy shows the same as a configuration of the server and is one as
well. -/
theorem Served.clone [Libraries] (hserved : config.Served)
    {copy : CollectionConfig Pipe Categoriser} (hclone : config.clone = .ok copy) :
    copy.Served ∧ copy.Fresh ∧ copy.toJson = config.toJson ∧
      copy.defaultTypeConfig = config.defaultTypeConfig := by
  obtain ⟨-, hname, pipeAgain, categoriserAgain, hcopy⟩ :=
    copyOf_clone hserved.given hclone
  have hfind : ∀ (type : Bytes) (schema : Schema),
      copy.types[type]? = some schema → ∃ original, config.types[type]? = some original ∧
          schema = original.retyped type := by
    intro type schema hfind
    rw [hcopy.types, getElem?_map, map_eq_some_iff] at hfind
    obtain ⟨original, horiginal, rfl⟩ := hfind
    exact ⟨original, horiginal, rfl⟩
  refine ⟨⟨hcopy.given hserved.given hname, ?_, ?_⟩, ⟨?_, ?_, ?_, ?_⟩,
    hcopy.toJson_eq, hcopy.defaultType⟩
  · intro type schema hschema
    obtain ⟨original, horiginal, rfl⟩ := hfind type schema hschema
    exact hserved.patterns type original horiginal
  · rw [hcopy.defaultType]
    exact hserved.defaultType
  · intro type schema hschema
    obtain ⟨original, -, rfl⟩ := hfind type schema hschema
    rfl
  · rw [hcopy.idField, cString_cString]
  · rw [hcopy.typeField, cString_cString]
  · rw [hcopy.metaField, cString_cString]

theorem Served.insert (hserved : config.Served) (htype : cString type = type)
    (hgiven : schema.Given)
    (haccepted : ∀ pattern ∈ schema.patterns.patterns, pattern.Accepted)
    (changed : Bool) :
    Served { config with
      types := config.types.insert type schema, changed } where
  given := { hserved.given with
      types := fun entry hentry => by
        rw [mem_toList_iff_getElem?_eq_some, find_insert] at hentry
        split at hentry
        next heq =>
          cases hentry
          rw [heq]
          exact ⟨htype, hgiven⟩
        next => exact hserved.given.find hentry }
  patterns := fun other found hfound => by
    rw [find_insert] at hfound
    split at hfound
    next =>
      cases hfound
      exact haccepted
    next => exact hserved.patterns other found hfound
  defaultType := hserved.defaultType

/-- The JSON does not show whether a configuration has changed, nor a schema
replaced by one with the same JSON. -/
theorem toJson_insert {other : Schema} (hfind : config.types[type]? = some schema)
    (hsame : other.toJson = schema.toJson) (changed : Bool) :
    ({ config with
      types := config.types.insert type other, changed }).toJson = config.toJson := by
  have hmap : (config.types.insert type other).map (fun _ schema => schema.toJson) =
      config.types.map fun _ schema => schema.toJson := by
    ext1 name
    rw [getElem?_map, getElem?_map, find_insert]
    split
    next heq =>
      rw [heq, hfind]
      exact congrArg some hsame
    next => rfl
  have hwrite : ∀ map : StdMap Schema, mapToJson Schema.toJson map =
      mapToJson id (map.map fun _ schema => schema.toJson) := by
    intro map
    rw [mapToJson, mapToJson, Std.ExtTreeMap.toList_map, List.foldl_map]
    rfl
  simp only [toJson, schemasConfigToJson, hwrite, hmap]

/-- What processing a document makes of a configuration. -/
structure Extends (base after : CollectionConfig Pipe Categoriser) :
    Prop where
  served : after.Served
  defaultType : after.defaultTypeConfig = base.defaultTypeConfig
  kept : ∀ (type name : Bytes) (field : FieldConfig),
    base.findField type name = some field →
      after.findField type name = some field

theorem Served.extends_self (hserved : config.Served) : config.Extends config :=
  ⟨hserved, rfl, fun _ _ _ hfield => hfield⟩

theorem Served.extends_insert (hserved : config.Served)
    (htype : cString type = type) (hgiven : schema.Given)
    (haccepted : ∀ pattern ∈ schema.patterns.patterns, pattern.Accepted)
    (hkept : ∀ start, config.types[type]? = some start →
      ∀ (name : Bytes) (field : FieldConfig),
        start.fields[name]? = some field → schema.fields[name]? = some field)
    (changed : Bool) :
    config.Extends { config with
      types := config.types.insert type schema, changed } where
  served := hserved.insert htype hgiven haccepted changed
  defaultType := rfl
  kept := fun other name field hfield => by
    obtain ⟨start, hstart, hfield⟩ := bind_eq_some_iff.mp hfield
    apply bind_eq_some_iff.mpr
    by_cases heq : other = type
    · subst heq
      exact ⟨schema, by rw [find_insert, if_pos rfl],
        hkept start hstart name field hfield⟩
    · exact ⟨start, by rw [find_insert, if_neg heq, hstart], hfield⟩

end CollectionConfig

end Restpose.Config

namespace Restpose.Indexing

open Config List Std.ExtTreeMap Attempt Schema FieldEntry

/-! ## Fields -/

namespace FieldRun

/-- A schema grows, and stays as it was if no fields are new. -/
structure Grows (start : Schema) (names : List Bytes)
    (run : FieldRun) : Prop where
  grown : start.Grown names run.schema
  fields : run.newFields = false → run.schema.fields = start.fields

end FieldRun

variable [Libraries] {Pipe Categoriser : Type}

/-- Processing a document makes its schema grow by fields of the document. -/
theorem grows_processSchema (collconfig : CollectionConfig Pipe Categoriser)
    {schema : Schema} (hcache : schema.indexers = ∅) {value : Json} {names : List Bytes}
    (hnames : ∀ entry ∈ value.members, entry.1 ∈ names)
    (hmeta : collconfig.metaField ∈ names) (errors : IndexingErrors) (newFields : Bool) :
    (processSchema collconfig schema value errors newFields).state.Grows
      schema names := by
  obtain ⟨hafter, hnew⟩ := after_processSchema collconfig schema value errors newFields
  have hvisited : ∀ name ∈ (schemaWalk collconfig schema value errors).state.visited,
      name ∈ names := by
    intro name hname
    rcases (mem_processedNames collconfig).mp
      (mem_of_visited_fields collconfig _ hname) with ⟨hname, -⟩ | hname
    · obtain ⟨entry, hentry, rfl⟩ := mem_map.mp hname
      exact hnames entry hentry
    · split at hname
      · cases hname
      · obtain rfl := mem_singleton.mp hname
        exact hmeta
  have hasked := fun name hname =>
    congrArg config (hafter.asked name hname)
  have hothers := fun name hname =>
    congrArg config (hafter.others name hname)
  refine ⟨⟨hafter.docType, hafter.patterns, ?_, ?_⟩, ?_⟩
  · intro name config hconfig
    by_cases hname : name ∈ (schemaWalk collconfig schema value errors).state.visited
    · refine (config_of_visit ((hasked name hname).symm.trans hconfig)).imp_right
        fun hpattern => ?_
      exact ⟨hvisited name hname, hpattern⟩
    · exact .inl ((hothers name hname).symm.trans hconfig)
  · intro hsteady name config hconfig
    by_cases hname : name ∈ (schemaWalk collconfig schema value errors).state.visited
    · refine (hasked name hname).trans (config_visit_of_steady ?_ hconfig ?_)
      · simp [entry, hcache]
      · exact hsteady name (hvisited name hname) config hconfig
    · exact (hothers name hname).trans hconfig
  · intro hnone
    rw [hnew, Bool.or_eq_false_iff, any_eq_false] at hnone
    refine ext_getElem? fun name => ?_
    by_cases hname : name ∈ (schemaWalk collconfig schema value errors).state.visited
    · exact (hasked name hname).trans (config_visit_of_not_isNew
        (Bool.eq_false_of_not_eq_true (hnone.2 name hname)))
    · exact hothers name hname

/-! ## Documents -/

omit [Libraries] in
theorem members_insertText {docObj : Json} {field text : Bytes} {entry : Bytes × Json}
    (hentry : entry ∈ (insertText docObj field text).members) :
    entry ∈ docObj.members ∨ entry.1 = field := by
  rcases Json.mem_insertMember hentry with rfl | hentry
  · exact .inr rfl
  · exact .inl hentry

theorem yields_resolveType (docObj : Json) (typeField docType : Bytes) :
    Attempt.Yields (resolveType docObj typeField docType) fun resolved =>
      ∀ entry ∈ resolved.2.members, entry ∈ docObj.members ∨ entry.1 = typeField := by
  refine yields_ite ?_ ?_
  · refine yields_ite (yields_error _) ?_
    refine yields_bind fun stored _ => ?_
    exact yields_ok fun entry hentry => Or.inl hentry
  · refine yields_ite ?_ ?_
    · exact yields_ok fun entry hentry => members_insertText hentry
    · refine yields_bind fun stored _ => ?_
      refine yields_ite (yields_error _) ?_
      exact yields_ok fun entry hentry => Or.inl hentry

theorem yields_resolveId (docObj : Json) (idField docId : Bytes) :
    Attempt.Yields (resolveId docObj idField docId) fun resolved =>
      ∀ entry ∈ resolved.members, entry ∈ docObj.members ∨ entry.1 = idField := by
  refine yields_ite ?_ ?_
  · refine yields_ite (yields_error _) ?_
    refine yields_bind fun stored _ => ?_
    refine yields_bind fun _ _ => ?_
    exact yields_ok fun entry hentry => Or.inl hentry
  · have hchecked : ∀ resolved : Json, (∀ entry ∈ resolved.members,
        entry ∈ docObj.members ∨ entry.1 = idField) →
        Attempt.Yields (checkValid (validateDocId docId) >>= fun _ =>
          pure resolved) fun resolved => ∀ entry ∈ resolved.members,
            entry ∈ docObj.members ∨ entry.1 = idField :=
      fun resolved hresolved => yields_bind fun _ _ =>
        yields_ok hresolved
    refine yields_ite ?_ ?_
    · refine hchecked _ fun entry hentry => members_insertText hentry
    · refine yields_bind fun stored _ => ?_
      refine yields_ite (yields_error _) ?_
      exact hchecked docObj fun entry hentry => Or.inl hentry

variable [Config.Part Pipe] [Config.Part Categoriser]

/-- A type that there is none of is made from the default type. -/
theorem ends_ensureSchema {config : CollectionConfig Pipe Categoriser}
    (hserved : config.Served) (docType : Bytes) :
    (ensureSchema config docType).Ends fun ensured =>
      (∃ schema, config.types[docType]? = some schema ∧ ensured = config) ∨
      ∃ schema : Schema, config.types[docType]? = none ∧ schema.Given ∧
        (∀ pattern ∈ schema.patterns.patterns, pattern.Accepted) ∧
        schema.indexers = ∅ ∧
        ensured = { config with
          types := config.types.insert docType schema, changed := true } := by
  unfold ensureSchema
  cases hfind : config.types[docType]? with
  | some schema => exact ends_done (.inl ⟨schema, rfl, rfl⟩)
  | none =>
    apply ends_withValue
    intro newschema hread
    have haccepted : newschema.Accepted := by
      have hends := ends_fromJson (new docType) hserved.defaultType
      rw [toExcept] at hread
      split at hread
      next hthrown =>
        cases hread
        exact hends hthrown
      next => cases hread
    intro hthrown
    have hshort : newschema.Short := by
      by_contra hlong
      have hmerge := thrown_mergeFrom_new hlong docType
      have hnew : config.types.getD docType (new docType) = new docType := by
        rw [getD_eq_getD_getElem?, hfind]
        rfl
      simp only [CollectionConfig.setSchema, hnew] at hthrown
      split at hthrown
      next hnone => exact hmerge hnone
      next => cases hthrown
    have hset := CollectionConfig.setSchema_fresh haccepted.given hshort hfind
    rw [hset]
    exact .inr ⟨newschema.retyped docType, rfl,
      haccepted.given.retyped docType, haccepted.patterns, rfl, rfl⟩

/-- What processing a document makes of the configuration: it is extended, and
the same is shown if it is not said to have changed. -/
structure DocRun.Extended (base : CollectionConfig Pipe Categoriser)
    (after : DocRun Pipe Categoriser) : Prop where
  extended : base.Extends after.config
  same : after.config.changed = false → after.newFields = false →
    after.config.toJson = base.toJson

section Typed

variable {run : DocRun Pipe Categoriser} {docType : Bytes}
  {names : List Bytes} {schema : Schema} {processed : FieldRun}

variable {after : DocRun Pipe Categoriser}

omit [Libraries] in
theorem extended_known (hserved : run.config.Served)
    (hfind : run.config.types[docType]? = some schema)
    (hgrows : processed.Grows schema names)
    (hnames : ∀ name ∈ names, cString name = name)
    (hsteady : ∀ name ∈ names, schema.Steady name)
    (hconfig : after.config = { run.config with
      types := run.config.types.insert docType processed.schema })
    (hnew : after.newFields = processed.newFields) :
    after.Extended run.config := by
  obtain ⟨htype, hgiven⟩ := hserved.given.find hfind
  have haccepted := hserved.patterns docType schema hfind
  constructor
  · rw [hconfig]
    apply hserved.extends_insert htype (hgrows.grown.given hgiven haccepted hnames)
    · rw [hgrows.grown.patterns]
      exact haccepted
    · intro start hstart name field hfield
      cases hfind.symm.trans hstart
      exact hgrows.grown.kept hsteady name field hfield
  · intro _ hnone
    rw [hnew] at hnone
    have hsame := toJson_congr (hgrows.fields hnone) hgrows.grown.patterns
    rw [hconfig]
    exact CollectionConfig.toJson_insert hfind hsame run.config.changed

omit [Libraries] in
theorem extended_new (hserved : run.config.Served) (htype : cString docType = docType)
    (hfind : run.config.types[docType]? = none) (hgiven : schema.Given)
    (haccepted : ∀ pattern ∈ schema.patterns.patterns, pattern.Accepted)
    (hgrows : processed.Grows schema names)
    (hnames : ∀ name ∈ names, cString name = name)
    (hconfig : after.config = { run.config with
      types := (run.config.types.insert docType schema).insert docType processed.schema
      changed := true }) : after.Extended run.config := by
  constructor
  · rw [hconfig, StdMap.insert_insert]
    apply hserved.extends_insert htype (hgrows.grown.given hgiven haccepted hnames)
    · rw [hgrows.grown.patterns]
      exact haccepted
    · intro start hstart
      cases hfind.symm.trans hstart
  · intro hunchanged
    rw [hconfig] at hunchanged
    cases hunchanged

theorem ends_processTyped (hserved : run.config.Served)
    (hfresh : run.config.Fresh) (htype : cString docType = docType)
    (hmembers : ∀ entry ∈ run.docObj.members, entry.1 ∈ names)
    (hmeta : run.config.metaField ∈ names)
    (hnames : ∀ name ∈ names, cString name = name)
    (hsteady : ∀ schema, run.config.types[docType]? = some schema →
      ∀ name ∈ names, schema.Steady name) :
    (processTyped run docType).Ends (DocRun.Extended run.config) := by
  intro hthrown
  cases hmade : (ensureSchema run.config docType).thrown with
  | some error =>
    simp only [processTyped, hmade, fail] at hthrown
    cases hthrown
  | none =>
    have hensured := ends_ensureSchema hserved docType hmade
    cases hprocessed : (processSchema (ensureSchema run.config docType).state
        ((ensureSchema run.config docType).state.types.getD docType
          (new docType)) run.docObj run.errors
        run.newFields).thrown with
    | some error =>
      simp only [processTyped, hmade, hprocessed, fail] at hthrown
      cases hthrown
    | none =>
      simp only [processTyped, hmade, hprocessed, done]
      generalize (ensureSchema run.config docType).state = ensured at *
      rcases hensured with ⟨schema, hfind, rfl⟩ | ⟨schema, hfind, hgiven, haccepted,
        hcache, rfl⟩
      · have hschema : run.config.types.getD docType (new docType) = schema := by
          rw [getD_eq_getD_getElem?, hfind]
          rfl
        rw [hschema] at hprocessed ⊢
        have hgrows := grows_processSchema run.config
          (hfresh.indexers docType schema hfind) hmembers hmeta
          run.errors run.newFields
        exact extended_known hserved hfind hgrows hnames (hsteady schema hfind) rfl rfl
      · have hschema : (run.config.types.insert docType schema).getD
            docType (new docType) = schema := by
          rw [getD_eq_getD_getElem?, StdMap.find_insert, if_pos rfl]
          rfl
        rw [hschema] at hprocessed ⊢
        have hgrows := grows_processSchema { run.config with
            types := run.config.types.insert docType schema
            changed := true } hcache hmembers hmeta run.errors
          run.newFields
        exact extended_new hserved htype hfind hgiven haccepted hgrows hnames rfl

end Typed

/-- The names that a document may be processed with. -/
def docNames (config : CollectionConfig Pipe Categoriser) (docObj : Json) :
    List Bytes :=
  docObj.members.map Prod.fst ++
    [config.idField, config.typeField, config.metaField]

/-- The schema of the type that a document has ignores none of the fields of
the document, unless its patterns do so as well. -/
def IgnoresNone (config : CollectionConfig Pipe Categoriser) (docObj : Json)
    (docType : Bytes) : Prop :=
  ∀ type object, resolveType docObj config.typeField docType =
      .ok (type, object) →
    ∀ schema, config.types[type]? = some schema →
      ∀ name ∈ docNames config docObj, schema.Steady name

/-- A document that is processed with a new copy extends it. -/
theorem ends_processDoc {run : DocRun Pipe Categoriser} (hserved : run.config.Served)
    (hfresh : run.config.Fresh) (hparsed : run.docObj.Parsed) {docType : Bytes}
    (hignores : IgnoresNone run.config run.docObj docType) (docId : Bytes) :
    (processDoc run docType docId).Ends (DocRun.Extended run.config) := by
  have hfailed : ∀ (failed : DocRun Pipe Categoriser) (field error : Bytes),
      failed.config = run.config →
      (failDocument failed field error).Ends (DocRun.Extended run.config) := by
    intro failed field error hconfig
    apply ends_done
    constructor
    · rw [hconfig]
      exact hserved.extends_self
    · intro _ _
      rw [hconfig]
  have hnames : ∀ name ∈ docNames run.config run.docObj, cString name = name := by
    intro name hname
    rcases mem_append.mp hname with hmember | hspecial
    · obtain ⟨entry, hentry, rfl⟩ := mem_map.mp hmember
      exact hparsed.name_of_mem hentry
    · simp only [mem_cons, not_mem_nil, or_false] at hspecial
      rcases hspecial with rfl | rfl | rfl
      · exact hfresh.idField
      · exact hfresh.typeField
      · exact hfresh.metaField
  apply ends_withValue
  intro _ _
  cases htype : resolveType run.docObj run.config.typeField docType with
  | error error => exact hfailed _ _ _ rfl
  | ok resolved =>
    obtain ⟨type, typed⟩ := resolved
    have htyped := yields_resolveType _ _ _ _ htype
    simp only
    cases hid : resolveId typed run.config.idField docId with
    | error error => exact hfailed _ _ _ rfl
    | ok object =>
      have hobject := yields_resolveId _ _ _ _ hid
      simp only
      cases hvalid : validateDocType type with
      | some error => exact hfailed _ _ _ rfl
      | none =>
        have hmembers : ∀ entry ∈ object.members,
            entry.1 ∈ docNames run.config run.docObj := by
          intro entry hentry
          rcases hobject entry hentry with hentry | heq
          · rcases htyped entry hentry with hentry | heq
            · exact mem_append_left _ (mem_map_of_mem hentry)
            · simp [docNames, heq]
          · simp [docNames, heq]
        refine ends_processTyped ?_ hfresh (cString_of_validateName hvalid)
          hmembers ?_ hnames
          (hignores type typed htype)
        · exact hserved
        · simp [docNames]

end Restpose.Indexing
