import Restpose.Indexing.Visits

/-!
# Coherent schemas

In every configuration that the operations of the source build, the schema
under a type is one for this type, its id fields make terms for this type, and
an indexer in the cache is the one that the configuration of the field makes.
-/

namespace Restpose.Config

open Attempt Except CollectionConfig

/-! ## Id fields -/

namespace FieldConfig

/-- An id field makes terms for a type. -/
def HasIdPrefix (docType : Bytes) : FieldConfig → Prop
  | .id _ _ termPrefix => termPrefix = idPrefix docType
  | _ => True

variable (value : Json)

theorem yields_slotAndStore {docType : Bytes} {make : SlotName → Bytes → FieldConfig}
    (hmake : ∀ slot storeField, HasIdPrefix docType (make slot storeField)) :
    Yields (slotAndStore value make) (HasIdPrefix docType) :=
  yields_bind fun _ _ => yields_bind fun slot _ =>
    yields_bind fun storeField _ => yields_ok (hmake slot storeField)

theorem yields_idFromJson (docType : Bytes) :
    Yields (idFromJson value docType) (HasIdPrefix docType) :=
  yields_bind fun _ _ => yields_bind fun _ _ => yields_ok rfl

theorem yields_exactFromJson (docType : Bytes) :
    Yields (exactFromJson value) (HasIdPrefix docType) :=
  yields_bind fun _ _ => yields_bind fun _ _ => yields_bind fun _ _ =>
    yields_bind fun _ _ => yields_bind fun _ _ => yields_ok trivial

theorem yields_textFromJson (docType : Bytes) :
    Yields (textFromJson value) (HasIdPrefix docType) :=
  yields_bind fun _ _ => yields_bind fun _ _ => yields_bind fun _ _ =>
    yields_bind fun _ _ => yields_bind fun _ _ => yields_ok trivial

theorem yields_categoryFromJson (docType : Bytes) :
    Yields (categoryFromJson value) (HasIdPrefix docType) :=
  yields_bind fun _ _ => yields_bind fun _ _ => yields_bind fun _ _ =>
    yields_bind fun _ _ => yields_bind fun _ _ => yields_ok trivial

theorem yields_metadataFromJson (docType : Bytes) :
    Yields (metadataFromJson value) (HasIdPrefix docType) :=
  yields_bind fun _ _ => yields_bind fun _ _ => yields_bind fun _ _ =>
    yields_ok trivial

theorem yields_storedFromJson (docType : Bytes) :
    Yields (storedFromJson value) (HasIdPrefix docType) := by
  refine yields_bind fun _ _ => yields_bind fun storeField _ => ?_
  exact yields_ite (yields_error _) (yields_ok trivial)

/-- A configuration that was read for a type makes id terms for it. -/
theorem yields_fromJson (docType : Bytes) :
    Yields (fromJson value docType) (HasIdPrefix docType) := by
  refine yields_bind fun _ _ => yields_bind fun type _ => ?_
  have hslots : ∀ make : SlotName → Bytes → FieldConfig,
      (∀ slot storeField, HasIdPrefix docType (make slot storeField)) →
      Yields (slotAndStore value make) (HasIdPrefix docType) :=
    fun _ hmake => yields_slotAndStore value hmake
  refine yields_ite (yields_categoryFromJson value docType) ?_
  refine yields_ite (hslots .date fun _ _ => trivial) ?_
  refine yields_ite (hslots .double fun _ _ => trivial) ?_
  refine yields_ite (yields_exactFromJson value docType) ?_
  refine yields_ite (yields_idFromJson value docType) ?_
  refine yields_ite (yields_ok trivial) ?_
  refine yields_ite (hslots .lonlat fun _ _ => trivial) ?_
  refine yields_ite (yields_metadataFromJson value docType) ?_
  refine yields_ite (yields_storedFromJson value docType) ?_
  refine yields_ite (yields_textFromJson value docType) ?_
  exact yields_ite (hslots .timestamp fun _ _ => trivial) (yields_error _)

end FieldConfig

theorem yields_get (patterns : FieldConfigPatterns) (fieldname docType : Bytes) :
    Yields (patterns.get fieldname docType) fun found =>
      ∀ config ∈ found, config.HasIdPrefix docType :=
  FieldConfigPatterns.yields_get
    (fun _ _ value _ => FieldConfig.yields_fromJson value docType) fieldname

/-! ## Schemas -/

namespace Schema

variable {schema : Schema} {name : Bytes}

structure Coherent (schema : Schema) : Prop where
  hasIdPrefix : ∀ (name : Bytes) (config : FieldConfig),
    schema.fields[name]? = some config → config.HasIdPrefix schema.docType
  cached : ∀ (name : Bytes) (indexer : FieldIndexer),
    schema.indexers[name]? = some (some indexer) →
    ∃ config : FieldConfig, schema.fields[name]? = some config ∧
      config.indexer = some indexer

/-- A coherent schema for a type. -/
def ForType (docType : Bytes) (schema : Schema) : Prop :=
  schema.Coherent ∧ schema.docType = docType

/-- The cache has no indexer for a field. -/
def Uncached (schema : Schema) (name : Bytes) : Prop :=
  ∀ indexer, schema.indexers[name]? ≠ some (some indexer)

theorem coherent_new (docType : Bytes) : (new docType).Coherent where
  hasIdPrefix := by simp [new]
  cached := by simp [new]

/-- A field that has no indexer may get any configuration for the type. -/
theorem Coherent.set (hcoherent : schema.Coherent) (huncached : schema.Uncached name)
    {config : Option FieldConfig}
    (hconfig : ∀ given ∈ config, given.HasIdPrefix schema.docType) :
    (schema.set name config).Coherent where
  hasIdPrefix := by
    intro other found hfound
    rw [find_set] at hfound
    rw [docType_set]
    split at hfound
    · exact hconfig found hfound
    · exact hcoherent.hasIdPrefix other found hfound
  cached := by
    intro other indexer hcached
    rw [indexers_set] at hcached
    have hne : other ≠ name := by
      rintro rfl
      exact huncached indexer hcached
    rw [find_set, if_neg hne]
    exact hcoherent.cached other indexer hcached

end Schema

/-! ## One field at a time -/

namespace FieldEntry

/-- What a coherent schema has for a field. -/
structure Sound (docType : Bytes) (entry : FieldEntry) : Prop where
  hasIdPrefix : ∀ config, entry.config = some config →
    config.HasIdPrefix docType
  cached : ∀ indexer, entry.cached = some (some indexer) →
    ∃ config, entry.config = some config ∧ config.indexer = some indexer

variable {docType : Bytes} {entry : FieldEntry}

theorem Sound.indexer_eq (hsound : entry.Sound docType) {indexer : FieldIndexer}
    (hget : entry.getIndexer.1 = some indexer) :
    ∃ config, entry.config = some config ∧ config.indexer = some indexer := by
  obtain ⟨cached, config⟩ := entry
  rcases cached with _ | cached
  · cases config with
    | none => cases hget
    | some config => exact ⟨config, rfl, hget⟩
  · exact hsound.cached indexer (congrArg some hget)

theorem Sound.visit (hsound : entry.Sound docType)
    {pattern : Except Thrown (Option FieldConfig)}
    (hpattern : ∀ config, pattern = .ok (some config) → config.HasIdPrefix docType) :
    (entry.visit pattern).entry.Sound docType := by
  have hvisited := entry.visited pattern
  generalize entry.visit pattern = visit at hvisited
  cases hvisited with
  | known hget =>
    refine ⟨hsound.hasIdPrefix, ?_⟩
    rintro _ ⟨⟩
    exact hsound.indexer_eq hget
  | thrown hget _ =>
    refine ⟨?_, fun indexer hcached => ?_⟩
    · rw [config_getIndexer]
      exact hsound.hasIdPrefix
    · rcases getIndexer_of_none entry hget with rfl | hnone
      · cases hcached
      · rw [hnone] at hcached
        cases hcached
  | made hmade hindexer =>
    refine ⟨?_, ?_⟩
    · rintro _ ⟨⟩
      exact hpattern _ hmade
    · rintro _ ⟨⟩
      exact ⟨_, rfl, hindexer⟩
  | none hget hmade hafter =>
    refine ⟨?_, ?_⟩
    · rintro config rfl
      exact hpattern config hmade
    · rintro indexer rfl
      cases hafter

end FieldEntry

namespace Schema

variable {schema : Schema} {name : Bytes}

theorem coherent_iff :
    schema.Coherent ↔ ∀ name, (schema.entry name).Sound schema.docType :=
  ⟨fun hcoherent name => ⟨hcoherent.hasIdPrefix name, hcoherent.cached name⟩,
    fun hsound => ⟨fun name => (hsound name).hasIdPrefix, fun name =>
      (hsound name).cached⟩⟩

/-- Visits keep a schema coherent. -/
theorem ForType.after {docType : Bytes} {visited : List Bytes} {after : Schema}
    (hschema : ForType docType schema) (hafter : Indexing.After schema visited after) :
    ForType docType after := by
  obtain ⟨hcoherent, rfl⟩ := hschema
  refine ⟨coherent_iff.mpr fun name => ?_, hafter.docType⟩
  have hsound := coherent_iff.mp hcoherent name
  rw [hafter.docType]
  by_cases hname : name ∈ visited
  · rw [hafter.asked name hname]
    exact hsound.visit fun config hconfig =>
      yields_get _ _ _ _ hconfig config rfl
  · rw [hafter.others name hname]
    exact hsound

/-- The indexer that a field of a document is indexed with. -/
def indexerFor (schema : Schema) (name : Bytes) : Option FieldIndexer :=
  match schema.indexers[name]? with
  | some cached => cached
  | none =>
      match schema.fields[name]? with
      | some config => config.indexer
      | none =>
          match schema.patterns.get name schema.docType with
          | .ok (some config) => config.indexer
          | _ => none

theorem indexerFor_of_visit {indexer : Option FieldIndexer}
    (hresult : (schema.visit name).result = .ok indexer) :
    schema.indexerFor name = indexer := by
  unfold visit entry pattern at hresult
  unfold indexerFor
  generalize schema.indexers[name]? = cached, schema.fields[name]? = config,
    schema.patterns.get name schema.docType = pattern at hresult ⊢
  rcases cached with _ | _ | cached
  · rcases config with _ | config
    · rcases pattern with error | _ | config
      · cases hresult
      all_goals exact ok.inj hresult
    · cases hindexer : config.indexer with
      | some known =>
        simp only [FieldEntry.visit, FieldEntry.getIndexer, hindexer] at hresult
        exact hindexer.trans (ok.inj hresult)
      | none =>
        simp only [FieldEntry.visit, FieldEntry.getIndexer, hindexer] at hresult
        cases pattern with
        | error error => cases hresult
        | ok made => exact hindexer.trans (ok.inj hresult)
  · cases pattern with
    | error error => cases hresult
    | ok made => exact ok.inj hresult
  · exact ok.inj hresult

end Schema

end Restpose.Config

namespace Restpose.Config

open Attempt

/-! ## Collections -/

namespace Schema

variable {docType : Bytes} {schema : Schema}

theorem forType_new (docType : Bytes) : ForType docType (new docType) :=
  ⟨coherent_new docType, rfl⟩

theorem ForType.set (hschema : ForType docType schema) {name : Bytes}
    (huncached : schema.Uncached name) {value : Json} {config : FieldConfig}
    (hconfig : FieldConfig.fromJson value schema.docType = .ok config) :
    ForType docType (schema.set name (some config)) := by
  refine ⟨hschema.1.set huncached ?_, hschema.2⟩
  rintro _ ⟨⟩
  exact FieldConfig.yields_fromJson value schema.docType config hconfig

theorem forType_mergeFrom [Libraries] (hschema : ForType docType schema)
    (other : Schema) :
    ForType docType (schema.mergeFrom other).state := by
  refine state_andThen (ForType docType) ?_ fun current hcurrent =>
    ⟨⟨hcurrent.1.hasIdPrefix, hcurrent.1.cached⟩, hcurrent.2⟩
  refine state_forEach _ ?_ other.fields.toList hschema
  intro entry current hcurrent
  unfold mergeField
  cases hfield : current.fields[entry.1]? with
  | none =>
    refine state_withValue _ hcurrent fun config hconfig => ?_
    refine hcurrent.set (fun indexer hcached => ?_) hconfig
    obtain ⟨known, hknown, -⟩ := hcurrent.1.cached _ _ hcached
    rw [hfield] at hknown
    cases hknown
  | some known =>
    simp only
    split <;> exact hcurrent

end Schema

namespace CollectionConfig

variable {Pipe Categoriser : Type}
  {config : CollectionConfig Pipe Categoriser}

/-- The schema under a type is a coherent one for this type. -/
def Coherent (config : CollectionConfig Pipe Categoriser) : Prop :=
  ∀ (docType : Bytes) (schema : Schema),
    config.types[docType]? = some schema → Schema.ForType docType schema

theorem coherent_of_types_empty (hempty : config.types = ∅) : config.Coherent := by
  intro docType schema hschema
  simp [hempty] at hschema

theorem Coherent.insert (hcoherent : config.Coherent) {docType : Bytes} {schema : Schema}
    (hschema : Schema.ForType docType schema) :
    Coherent { config with
      types := config.types.insert docType schema } := by
  intro other found hfound
  simp only [StdMap.find_insert] at hfound
  split at hfound
  next heq =>
    cases hfound
    rw [heq]
    exact hschema
  next => exact hcoherent other found hfound

theorem Coherent.forType_getD (hcoherent : config.Coherent) (docType : Bytes) :
    Schema.ForType docType (config.types.getD docType (Schema.new docType)) := by
  rw [Std.ExtTreeMap.getD_eq_getD_getElem?]
  cases hfound : config.types[docType]? with
  | none => exact Schema.forType_new docType
  | some found => exact hcoherent docType found hfound

variable [Libraries]

theorem Coherent.setSchema (hcoherent : config.Coherent) (type : Bytes)
    (schema : Schema) :
    (config.setSchema type schema).state.Coherent := by
  have hmerged := hcoherent.insert
    (Schema.forType_mergeFrom (hcoherent.forType_getD type) schema)
  simp only [CollectionConfig.setSchema]
  split <;> exact hmerged

omit [Libraries] in
theorem Coherent.forSection (hcoherent : config.Coherent) (value : Json)
    (key description : String)
    {body : Bytes × Json → CollectionConfig Pipe Categoriser →
      Attempt Thrown (CollectionConfig Pipe Categoriser)}
    (hbody : ∀ entry config, config.Coherent → (body entry config).state.Coherent) :
    (config.forSection value key description body).state.Coherent := by
  unfold CollectionConfig.forSection
  simp only
  split
  · exact hcoherent
  · refine state_withValue Coherent hcoherent fun _ _ => ?_
    exact state_forEach Coherent hbody _ hcoherent

omit [Libraries] in
theorem Coherent.readSection (hcoherent : config.Coherent) (value : Json)
    (key description : String) {Value : Type}
    {read : Json → Except Thrown Value}
    {put : CollectionConfig Pipe Categoriser → Bytes → Value →
      CollectionConfig Pipe Categoriser}
    (hput : ∀ config name part, (put config name part).types = config.types) :
    (readSection value key description read put config).state.Coherent := by
  refine hcoherent.forSection value key description fun entry current hcurrent => ?_
  refine state_withValue Coherent hcurrent fun part _ => ?_
  intro docType schema hschema
  refine hcurrent docType schema ?_
  rw [← hput current entry.1 part]
  exact hschema

theorem Coherent.schemasConfigFromJson (hcoherent : config.Coherent) (value : Json) :
    (schemasConfigFromJson value config).state.Coherent := by
  refine state_andThen Coherent
    (state_andThen Coherent (hcoherent.forSection value _ _ ?_) ?_) ?_
  · intro entry current hcurrent
    unfold readSchema
    split
    · exact hcurrent
    · exact hcurrent.setSchema _ _
  · intro current hcurrent
    simp only [readDefaultType]
    split
    · exact hcurrent
    · split
      all_goals exact hcurrent
  · intro current hcurrent
    simp only [readSpecialFields]
    split
    · exact hcurrent
    · refine state_withValue Coherent hcurrent fun _ _ => ?_
      refine state_withValue Coherent hcurrent fun _ _ => ?_
      refine state_withValue Coherent hcurrent fun _ _ => ?_
      exact state_withValue Coherent hcurrent fun _ _ => hcurrent

theorem coherent_fromJson [Part Pipe] [Part Categoriser] (hcoherent : config.Coherent)
    (value : Json) :
    (config.fromJson value).state.Coherent := by
  refine state_withValue Coherent hcoherent fun _ _ => ?_
  have hclear : config.clear.Coherent := coherent_of_types_empty rfl
  refine state_andThen Coherent (state_andThen Coherent
    (state_andThen Coherent (hclear.schemasConfigFromJson value) ?_) ?_) ?_
  all_goals exact fun _ hcurrent => hcurrent.readSection value _ _ fun _ _ _ => rfl

end CollectionConfig

end Restpose.Config

namespace Restpose.Indexing

open Config

variable [Libraries] {Pipe Categoriser : Type}

theorem coherent_ensureSchema {config : CollectionConfig Pipe Categoriser}
    (hcoherent : config.Coherent) (docType : Bytes) :
    (ensureSchema config docType).state.Coherent := by
  unfold ensureSchema
  split
  · exact hcoherent
  · exact Attempt.state_withValue CollectionConfig.Coherent hcoherent
      fun newschema _ => hcoherent.setSchema docType newschema

theorem coherent_processTyped {run : DocRun Pipe Categoriser}
    (hcoherent : run.config.Coherent) (docType : Bytes) :
    (processTyped run docType).state.config.Coherent := by
  have hensured := coherent_ensureSchema hcoherent docType
  have hprocessed := (hensured.forType_getD docType).after
    (after_processSchema (ensureSchema run.config docType).state _ run.docObj
      run.errors run.newFields).1
  have hinserted := hensured.insert hprocessed
  simp only [processTyped]
  split
  · exact hensured
  · split
    all_goals exact hinserted

theorem coherent_processDoc {run : DocRun Pipe Categoriser}
    (hcoherent : run.config.Coherent) (docType docId : Bytes) :
    (processDoc run docType docId).state.config.Coherent := by
  refine Attempt.state_withValue
    (fun run : DocRun Pipe Categoriser => run.config.Coherent) hcoherent
    fun _ _ => ?_
  split
  · exact hcoherent
  · simp only
    split
    · exact hcoherent
    · split
      · exact hcoherent
      · refine coherent_processTyped ?_ _
        exact hcoherent

/-- The configurations that the operations of the source build.  Of the
operations on pipes, categorisers and taxonomies it only matters that they
leave the types alone. -/
inductive Reachable [Config.Part Pipe] [Config.Part Categoriser] :
    CollectionConfig Pipe Categoriser → Prop where
  | created (collName : Bytes) : Reachable (.blank collName)
  | setDefault {config} (hreachable : Reachable config) :
      Reachable config.setDefault
  | fromJson {config} (hreachable : Reachable config) (value : Json) :
      Reachable (config.fromJson value).state
  | setSchema {config} (hreachable : Reachable config) (type : Bytes)
      (schema : Schema) : Reachable (config.setSchema type schema).state
  | edited {config} (hreachable : Reachable config) (pipes : StdMap Pipe)
      (categorisers : StdMap Categoriser) (taxonomies : StdMap Taxonomy)
      (changed : Bool) :
      Reachable { config with pipes, categorisers, taxonomies, changed }
  | processDoc {run : DocRun Pipe Categoriser}
      (hreachable : Reachable run.config) (docType docId : Bytes) :
      Reachable (Indexing.processDoc run docType docId).state.config

theorem Reachable.coherent [Config.Part Pipe] [Config.Part Categoriser]
    {config : CollectionConfig Pipe Categoriser} (hreachable : Reachable config) :
    config.Coherent := by
  induction hreachable with
  | created | setDefault => exact CollectionConfig.coherent_of_types_empty rfl
  | fromJson _ value ih => exact CollectionConfig.coherent_fromJson ih value
  | setSchema _ type schema ih => exact ih.setSchema type schema
  | edited _ _ _ _ _ ih => exact ih
  | processDoc _ docType docId ih => exact coherent_processDoc ih docType docId

end Restpose.Indexing
