import Restpose.Indexing.Process

/-!
# Fields that documents add

Processing a document asks for the indexer of every field that the document
has.  A schema has an entry for each field, and asking changes the entry of
this field only.  Asking a second time changes nothing more, so the entries in
the end only depend on which fields were asked for.
-/

namespace Restpose.Config

open FieldConfig Schema

/-! ## One field -/

/-- What a schema has for one field: what is in the cache of indexers, and the
configuration. -/
structure FieldEntry where
  cached : Option (Option FieldIndexer)
  config : Option FieldConfig

namespace FieldEntry

/-- `get_indexer`, as far as this field is concerned. -/
def getIndexer (entry : FieldEntry) : Option FieldIndexer × FieldEntry :=
  match entry.cached with
  | some cached => (cached, entry)
  | none =>
      match entry.config with
      | none => (none, entry)
      | some config =>
          (config.indexer, { entry with cached := some config.indexer })

/-- What is left behind when the indexer is asked for. -/
structure Visit where
  entry : FieldEntry
  isNew : Bool
  result : Except Thrown (Option FieldIndexer)

/-- Ask for the indexer of a field.  Without one, the field gets the
configuration that the patterns make for it. -/
def visit (pattern : Except Thrown (Option FieldConfig))
    (entry : FieldEntry) : Visit :=
  match entry.getIndexer.1 with
  | some indexer => ⟨entry.getIndexer.2, false, .ok (some indexer)⟩
  | none =>
      match pattern with
      | .error error => ⟨entry.getIndexer.2, false, .error error⟩
      | .ok config =>
          let made := getIndexer { entry.getIndexer.2 with config }
          ⟨made.2, true, .ok made.1⟩

/-- What a visit can do: there is an indexer, the patterns throw, they make an
indexer for a new field, or there is no indexer in the end either. -/
inductive Visited (pattern : Except Thrown (Option FieldConfig)) :
    FieldEntry → Visit → Prop where
  | known {entry : FieldEntry} {indexer : FieldIndexer}
      (hget : entry.getIndexer.1 = some indexer) :
      Visited pattern entry
        ⟨⟨some (some indexer), entry.config⟩, false, .ok (some indexer)⟩
  | thrown {entry : FieldEntry} {error : Thrown}
      (hget : entry.getIndexer.1 = none) (hpattern : pattern = .error error) :
      Visited pattern entry ⟨entry.getIndexer.2, false, .error error⟩
  | made {config : FieldConfig} {indexer : FieldIndexer}
      (hpattern : pattern = .ok (some config))
      (hindexer : config.indexer = some indexer) :
      Visited pattern ⟨none, none⟩
        ⟨⟨some (some indexer), some config⟩, true, .ok (some indexer)⟩
  | none {entry : FieldEntry} {cached : Option (Option FieldIndexer)}
      {config : Option FieldConfig} (hget : entry.getIndexer.1 = none)
      (hpattern : pattern = .ok config)
      (hafter : (mk cached config).getIndexer = (none, ⟨cached, config⟩)) :
      Visited pattern entry ⟨⟨cached, config⟩, true, .ok none⟩

variable (pattern : Except Thrown (Option FieldConfig)) (entry : FieldEntry)

theorem config_getIndexer : entry.getIndexer.2.config = entry.config := by
  unfold getIndexer
  split
  · rfl
  · split
    all_goals rfl

theorem getIndexer_getIndexer : entry.getIndexer.2.getIndexer = entry.getIndexer := by
  obtain ⟨cached, config⟩ := entry
  rcases cached with _ | cached
  · cases config <;> rfl
  · rfl

theorem getIndexer_of_some {indexer : FieldIndexer}
    (hget : entry.getIndexer.1 = some indexer) :
    entry.getIndexer.2 = ⟨some (some indexer), entry.config⟩ := by
  obtain ⟨cached, config⟩ := entry
  rcases cached with _ | cached
  · cases config with
    | none => cases hget
    | some config =>
      change config.indexer = some indexer at hget
      simp only [getIndexer, hget]
  · change cached = some indexer at hget
    simp only [getIndexer, hget]

theorem getIndexer_of_none (hget : entry.getIndexer.1 = none) :
    entry = ⟨none, none⟩ ∨ entry.getIndexer.2.cached = some none := by
  obtain ⟨cached, config⟩ := entry
  rcases cached with _ | cached
  · cases config with
    | none => exact .inl rfl
    | some config =>
      change config.indexer = none at hget
      exact .inr (congrArg some hget)
  · exact .inr (congrArg some hget)

theorem visited : Visited pattern entry (entry.visit pattern) := by
  unfold visit
  cases hget : entry.getIndexer.1 with
  | some indexer =>
    simp only [getIndexer_of_some entry hget]
    exact .known hget
  | none =>
    cases hpattern : pattern with
    | error error => exact .thrown hget rfl
    | ok config =>
      rcases getIndexer_of_none entry hget with rfl | hcached
      · cases config with
        | none => exact .none rfl rfl rfl
        | some config =>
          cases hindexer : config.indexer with
          | some indexer =>
            simp only [getIndexer, hindexer]
            exact .made rfl hindexer
          | none =>
            simp only [getIndexer, hindexer]
            exact .none rfl rfl rfl
      · have hmade : getIndexer ⟨entry.getIndexer.2.cached, config⟩ =
            (none, ⟨some none, config⟩) := by
          rw [hcached]
          rfl
        simp only [hmade]
        exact .none hget rfl rfl

/-- The second of two visits changes nothing, and finds the same.  It counts as
new if there is no indexer. -/
theorem visit_visit : ((entry.visit pattern).entry.visit pattern).entry =
        (entry.visit pattern).entry ∧
      ((entry.visit pattern).entry.visit pattern).result = (entry.visit pattern).result ∧
      (((entry.visit pattern).entry.visit pattern).isNew = true ↔
        (entry.visit pattern).result = .ok none) := by
  have hvisited := entry.visited pattern
  generalize entry.visit pattern = visit at hvisited
  cases hvisited with
  | known hget | made hpattern hindexer =>
    exact ⟨rfl, rfl, iff_of_false nofun nofun⟩
  | thrown hget hpattern =>
    simp only [FieldEntry.visit, getIndexer_getIndexer, hget, hpattern]
    exact ⟨trivial, trivial, iff_of_false nofun nofun⟩
  | none hget hpattern hafter =>
    simp [FieldEntry.visit, hafter, hpattern]

theorem isNew_of_result (hresult : (entry.visit pattern).result = .ok none) :
    (entry.visit pattern).isNew = true := by
  have hvisited := entry.visited pattern
  generalize entry.visit pattern = visit at hvisited hresult
  cases hvisited with
  | none hget hpattern hafter => rfl
  | _ => cases hresult

/-- A field is ready for documents: it has an indexer, or it is new and the
patterns make a configuration with an indexer for it.  If the patterns throw,
the document is not processed any further. -/
def Ready : Prop :=
  match entry with
  | ⟨some (some _), _⟩ => True
  | ⟨some none, _⟩ => ∃ error, pattern = .error error
  | ⟨none, some config⟩ => config ≠ .ignored ∨ ∃ error, pattern = .error error
  | ⟨none, none⟩ => pattern ≠ .ok none ∧ pattern ≠ .ok (some .ignored)

/-- Only ignored fields have no indexer. -/
theorem indexer_eq_none_iff {config : FieldConfig} :
    config.indexer = none ↔ config = .ignored := by
  cases config with
  | text termPrefix storeField processor slot =>
    simp only [indexer]
    split_ifs <;> simp
  | _ => simp [indexer]

theorem ready_iff : entry.Ready pattern ↔ (entry.visit pattern).result ≠ .ok none := by
  obtain ⟨cached, config⟩ := entry
  rcases cached with _ | _ | indexer
  · cases config with
    | none =>
      rcases pattern with error | _ | config
      · simp [Ready, visit, getIndexer]
      · simp [Ready, visit, getIndexer]
      · simp [Ready, visit, getIndexer, indexer_eq_none_iff]
    | some config =>
      cases hindexer : config.indexer with
      | none =>
        obtain rfl := indexer_eq_none_iff.mp hindexer
        cases pattern <;>
          simp [Ready, visit, getIndexer, indexer]
      | some indexer =>
        have hkept : config ≠ .ignored := by
          rintro rfl
          cases hindexer
        simp [Ready, visit, getIndexer, hindexer, hkept]
  · cases pattern <;> simp [Ready, visit, getIndexer]
  · simp [Ready, visit, getIndexer]

theorem config_visit {config : FieldConfig}
    (hresult : (entry.visit pattern).result ≠ .ok none)
    (hconfig : entry.config = some config) :
    (entry.visit pattern).entry.config = some config := by
  have hvisited := entry.visited pattern
  generalize entry.visit pattern = visit at hvisited hresult
  cases hvisited with
  | known hget => exact hconfig
  | thrown hget hpattern => rw [config_getIndexer, hconfig]
  | made hpattern hindexer => cases hconfig
  | none hget hpattern hafter => exact absurd rfl hresult

end FieldEntry

/-! ## Schemas -/

namespace Schema

/-- What a schema has for a field. -/
def entry (schema : Schema) (name : Bytes) : FieldEntry :=
  ⟨schema.indexers[name]?, schema.fields[name]?⟩

/-- What the patterns of a schema make for a field. -/
def pattern (schema : Schema) (name : Bytes) :
    Except Thrown (Option FieldConfig) :=
  schema.patterns.get name schema.docType

/-- What asking for the indexer of a field does. -/
def visit (schema : Schema) (name : Bytes) : FieldEntry.Visit :=
  (schema.entry name).visit (schema.pattern name)

theorem entry_getIndexer (schema : Schema) (name : Bytes) :
    (schema.getIndexer name).1 = (schema.entry name).getIndexer.1 ∧
      (schema.getIndexer name).2.entry name = (schema.entry name).getIndexer.2 := by
  unfold getIndexer entry FieldEntry.getIndexer
  cases hcached : schema.indexers[name]? with
  | some cached => simp [hcached]
  | none =>
    cases hconfig : schema.fields[name]? with
    | none => simp [hcached, hconfig]
    | some config => simp [hconfig]

theorem entry_set (schema : Schema) (name : Bytes) (config : Option FieldConfig) :
    (schema.set name config).entry name = ⟨(schema.entry name).cached, config⟩ := by
  cases config <;> simp [set, entry]

/-- Two schemas differ in one field at most. -/
structure SameElsewhere (name : Bytes) (before after : Schema) :
    Prop where
  docType : after.docType = before.docType
  patterns : after.patterns = before.patterns
  fields : ∀ other ≠ name, after.fields[other]? = before.fields[other]?
  indexers : ∀ other ≠ name, after.indexers[other]? = before.indexers[other]?

section SameElsewhere

variable {name : Bytes} {before middle after : Schema}

theorem SameElsewhere.trans (hfirst : SameElsewhere name before middle)
    (hsecond : SameElsewhere name middle after) :
    SameElsewhere name before after where
  docType := hsecond.docType.trans hfirst.docType
  patterns := hsecond.patterns.trans hfirst.patterns
  fields := fun other hne =>
    (hsecond.fields other hne).trans (hfirst.fields other hne)
  indexers := fun other hne =>
    (hsecond.indexers other hne).trans (hfirst.indexers other hne)

theorem SameElsewhere.entry_eq (hsame : SameElsewhere name before after) {other : Bytes}
    (hne : other ≠ name) :
    after.entry other = before.entry other := by
  rw [entry, entry, hsame.fields other hne, hsame.indexers other hne]

theorem SameElsewhere.pattern_eq (hsame : SameElsewhere name before after) :
    after.pattern = before.pattern := by
  funext other
  rw [pattern, pattern, hsame.patterns, hsame.docType]

end SameElsewhere

theorem sameElsewhere_getIndexer (schema : Schema) (name : Bytes) :
    SameElsewhere name schema (schema.getIndexer name).2 := by
  unfold getIndexer
  split
  next => exact ⟨rfl, rfl, fun _ _ => rfl, fun _ _ => rfl⟩
  next =>
    split
    next => exact ⟨rfl, rfl, fun _ _ => rfl, fun _ _ => rfl⟩
    next =>
      refine ⟨rfl, rfl, fun _ _ => rfl, fun other hne => ?_⟩
      rw [StdMap.find_insert, if_neg hne]

theorem sameElsewhere_set (schema : Schema) (name : Bytes) (config : Option FieldConfig) :
    SameElsewhere name schema (schema.set name config) where
  docType := docType_set ..
  patterns := patterns_set ..
  fields := fun other hne => by rw [find_set, if_neg hne]
  indexers := fun other _ => by rw [indexers_set]

end Schema

end Restpose.Config

namespace Restpose.Indexing

open Config List Attempt Schema

namespace FieldRun

/-- The run after the indexer of a field was asked for. -/
structure Asked (run : FieldRun) (name : Bytes) (asked : FieldRun) :
    Prop where
  state : asked.state = run.state
  newFields : asked.newFields =
    (run.newFields || (run.schema.visit name).isNew)
  same : Schema.SameElsewhere name run.schema asked.schema
  entry : asked.schema.entry name = (run.schema.visit name).entry

/-- Asking for an indexer is a visit of the field. -/
theorem withIndexer_eq (run : FieldRun) (name : Bytes) : ∃ asked, run.Asked name asked ∧
      ∀ next, run.withIndexer name next =
        .withValue asked (run.schema.visit name).result fun indexer =>
          next indexer asked := by
  have hget := sameElsewhere_getIndexer run.schema name
  obtain ⟨hfirst, hentry⟩ := entry_getIndexer run.schema name
  have hpattern : (run.schema.getIndexer name).2.patterns.get name
      (run.schema.getIndexer name).2.docType = run.schema.pattern name :=
    congrFun hget.pattern_eq name
  cases hfound : (run.schema.getIndexer name).1 with
  | some indexer =>
    have hvisit : run.schema.visit name = ⟨(run.schema.entry name).getIndexer.2, false,
          .ok (some indexer)⟩ := by
      rw [hfound] at hfirst
      simp only [visit, FieldEntry.visit, ← hfirst]
    refine ⟨{ run with schema := (run.schema.getIndexer name).2 },
      ⟨rfl, ?_, hget, ?_⟩, fun next => ?_⟩
    · simp [hvisit]
    · rw [hvisit]
      exact hentry
    · rw [hvisit]
      simp only [withIndexer, hfound, withValue]
  | none =>
    rw [hfound] at hfirst
    cases hconfig : run.schema.pattern name with
    | error error =>
      have hvisit : run.schema.visit name =
          ⟨(run.schema.entry name).getIndexer.2, false, .error error⟩ := by
        simp only [visit, FieldEntry.visit, ← hfirst, hconfig]
      refine ⟨{ run with schema := (run.schema.getIndexer name).2 },
        ⟨rfl, ?_, hget, ?_⟩, fun next => ?_⟩
      · simp [hvisit]
      · rw [hvisit]
        exact hentry
      · rw [hvisit]
        simp only [withIndexer, hfound, hpattern, hconfig, withValue]
    | ok config =>
      have hset := entry_set (run.schema.getIndexer name).2 name config
      rw [hentry] at hset
      obtain ⟨hmade, hmadeEntry⟩ := entry_getIndexer
        ((run.schema.getIndexer name).2.set name config) name
      rw [hset] at hmade hmadeEntry
      have hvisit : run.schema.visit name = ⟨(FieldEntry.getIndexer
              ⟨(run.schema.entry name).getIndexer.2.cached, config⟩).2,
            true, .ok (FieldEntry.getIndexer ⟨(run.schema.entry name).getIndexer.2.cached,
                config⟩).1⟩ := by
        simp only [visit, FieldEntry.visit, ← hfirst, hconfig]
      refine ⟨{ run with
          schema := (((run.schema.getIndexer name).2.set name config).getIndexer name).2
          newFields := true }, ⟨rfl, ?_, ?_, ?_⟩, fun next => ?_⟩
      · simp [hvisit]
      · exact (hget.trans (sameElsewhere_set _ name config)).trans
          (sameElsewhere_getIndexer _ name)
      · rw [hvisit]
        exact hmadeEntry
      · rw [hvisit]
        simp only [withIndexer, hfound, hpattern, hconfig, withValue, hmade]

end FieldRun

/-! ## Documents -/

/-- The names of the fields that were asked for, and the state of indexing. -/
structure Walk where
  visited : List Bytes
  state : IndexingState

section Walks

variable [Libraries] {Pipe Categoriser : Type}
  (collconfig : CollectionConfig Pipe Categoriser)
  (indexers : Bytes → Except Thrown (Option FieldIndexer))

/-- What is done with a field once its indexer is known, as far as the state is
concerned. -/
def indexState (fieldname : Bytes) (value : Json)
    (indexer : Option FieldIndexer) (state : IndexingState) :
    Attempt Thrown IndexingState :=
  match indexer with
  | none => .done state
  | some indexer =>
      if value.isNull then .done (state.fieldEmpty fieldname)
      else index collconfig indexer fieldname (FieldRun.toArray value) state

namespace Walk

/-- Ask for the indexer of a field, where it is known what comes of it. -/
def withIndexer (walk : Walk) (fieldname : Bytes)
    (next : Option FieldIndexer → IndexingState →
      Attempt Thrown IndexingState) : Attempt Thrown Walk :=
  let visited := fieldname :: walk.visited
  .withValue { walk with visited } (indexers fieldname) fun indexer =>
    ⟨⟨visited, (next indexer walk.state).state⟩,
      (next indexer walk.state).thrown⟩

def processField (entry : Bytes × Json) (walk : Walk) :
    Attempt Thrown Walk :=
  if entry.1 = collconfig.metaField then
    .done { walk with
      state := walk.state.appendError entry.1 (ascii
        "Value provided in metadata field - should be empty") }
  else
    walk.withIndexer indexers entry.1
      (indexState collconfig entry.1 entry.2)

def processMetadata (walk : Walk) : Attempt Thrown Walk :=
  if collconfig.metaField = [] then .done walk
  else
    walk.withIndexer indexers collconfig.metaField fun indexer state =>
      match indexer with
      | none => .done state
      | some indexer =>
          index collconfig indexer collconfig.metaField .null state

end Walk

/-- The fields that processing a document asks for, and what it ends with, given
the indexers of all fields. -/
def walkDocument (value : Json) (errors : IndexingErrors) :
    Attempt Thrown Walk :=
  .withValue ⟨[], .new errors⟩
    (liftInvalid (value.checkObject "input document")) fun _ =>
  (Attempt.forEach (Walk.processField collconfig indexers) value.members
    ⟨[], .new errors⟩).andThen (Walk.processMetadata collconfig indexers)

def process (schema : Schema) (value : Json) (errors : IndexingErrors)
    (newFields : Bool) : Attempt Thrown FieldRun :=
  .withValue ⟨schema, .new errors, newFields⟩
    (liftInvalid (value.checkObject "input document")) fun _ =>
  processSchema collconfig schema value errors newFields

end Walks

/-- A schema after some fields of it were visited. -/
structure After (start : Schema) (visited : List Bytes)
    (schema : Schema) : Prop where
  docType : schema.docType = start.docType
  patterns : schema.patterns = start.patterns
  asked : ∀ name ∈ visited, schema.entry name = (start.visit name).entry
  others : ∀ name ∉ visited, schema.entry name = start.entry name

/-- A run that started with a schema keeps to a walk. -/
structure KeepsTo (start : Schema) (newFields : Bool) (run : FieldRun)
    (walk : Walk) : Prop where
  state : run.state = walk.state
  schema : After start walk.visited run.schema
  newFields : run.newFields =
    (newFields || walk.visited.any fun name => (start.visit name).isNew)

section After

variable {start schema : Schema} {visited : List Bytes}

theorem After.refl (start : Schema) :
    After start [] start := ⟨rfl, rfl, nofun, fun _ _ => rfl⟩

theorem After.pattern_eq (hafter : After start visited schema) :
    schema.pattern = start.pattern := by
  funext name
  rw [pattern, pattern, hafter.patterns, hafter.docType]

variable {name : Bytes}

variable (hafter : After start visited schema)

include hafter

theorem After.visit_of_notMem (hname : name ∉ visited) :
    schema.visit name = start.visit name := by
  rw [visit, hafter.others name hname, hafter.pattern_eq]
  rfl

theorem After.visit_of_mem (hname : name ∈ visited) :
    (schema.visit name).entry = (start.visit name).entry ∧
      (schema.visit name).result = (start.visit name).result ∧
      ((schema.visit name).isNew = true ↔ (start.visit name).result = .ok none) := by
  rw [visit, hafter.asked name hname, hafter.pattern_eq]
  exact FieldEntry.visit_visit (start.pattern name) (start.entry name)

/-- Whether or not a field was visited before, a visit ends in the same way. -/
theorem After.visit_eq (name : Bytes) :
    (schema.visit name).entry = (start.visit name).entry ∧
      (schema.visit name).result = (start.visit name).result := by
  by_cases hname : name ∈ visited
  · obtain ⟨hentry, hresult, -⟩ := hafter.visit_of_mem hname
    exact ⟨hentry, hresult⟩
  · rw [hafter.visit_of_notMem hname]
    exact ⟨rfl, rfl⟩

theorem After.result_eq : (fun name => (schema.visit name).result) =
      fun name => (start.visit name).result :=
  funext fun name => (hafter.visit_eq name).2

theorem After.cons {after : Schema} (hsame : Schema.SameElsewhere name schema after)
    (hentry : after.entry name = (schema.visit name).entry) :
    After start (name :: visited) after where
  docType := hsame.docType.trans hafter.docType
  patterns := hsame.patterns.trans hafter.patterns
  asked := by
    intro other hother
    by_cases heq : other = name
    · rw [heq, hentry, (hafter.visit_eq name).1]
    · rw [hsame.entry_eq heq]
      exact hafter.asked other ((mem_cons.mp hother).resolve_left heq)
  others := by
    intro other hother
    obtain ⟨hne, hother⟩ := not_or.mp (mt mem_cons.mpr hother)
    rw [hsame.entry_eq hne]
    exact hafter.others other hother

theorem After.append {more : List Bytes} {after : Schema}
    (hmore : After schema more after) : After start (visited ++ more) after where
  docType := hmore.docType.trans hafter.docType
  patterns := hmore.patterns.trans hafter.patterns
  asked := by
    intro name hname
    by_cases hlast : name ∈ more
    · rw [hmore.asked name hlast, (hafter.visit_eq name).1]
    · rw [hmore.others name hlast]
      exact hafter.asked name ((mem_append.mp hname).resolve_right hlast)
  others := by
    intro name hname
    obtain ⟨hfirst, hlast⟩ := not_or.mp (mt mem_append.mpr hname)
    rw [hmore.others name hlast, hafter.others name hfirst]

omit hafter

end After

/-! ## Documents keep to their walks -/

section KeepsTo

variable {start : Schema} {newFields : Bool} {run : FieldRun} {walk : Walk}

theorem After.isNew_of_visit {schema : Schema} {visited : List Bytes}
    (hafter : After start visited schema) {name : Bytes}
    (hnew : (schema.visit name).isNew = true) :
    (start.visit name).isNew = true := by
  by_cases hname : name ∈ visited
  · obtain ⟨-, -, hagain⟩ := hafter.visit_of_mem hname
    exact FieldEntry.isNew_of_result _ _ (hagain.mp hnew)
  · rwa [hafter.visit_of_notMem hname] at hnew

theorem KeepsTo.asked (hkeeps : KeepsTo start newFields run walk) {name : Bytes}
    {asked : FieldRun} (hasked : run.Asked name asked) :
    KeepsTo start newFields asked ⟨name :: walk.visited, walk.state⟩ where
  state := hasked.state.trans hkeeps.state
  schema := hkeeps.schema.cons hasked.same hasked.entry
  newFields := by
    have hany : ((walk.visited.any fun name => (start.visit name).isNew) ||
        (run.schema.visit name).isNew) =
        ((start.visit name).isNew || walk.visited.any fun name =>
          (start.visit name).isNew) := by
      by_cases hname : name ∈ walk.visited
      · cases hnew : (start.visit name).isNew with
        | true =>
          have hseen : (walk.visited.any fun name =>
              (start.visit name).isNew) = true :=
            any_eq_true.mpr ⟨name, hname, hnew⟩
          rw [hseen]
          rfl
        | false =>
          have hold : (run.schema.visit name).isNew = false :=
            Bool.eq_false_of_not_eq_true fun hagain => by
              rw [hkeeps.schema.isNew_of_visit hagain] at hnew
              cases hnew
          rw [hold, Bool.or_false, Bool.false_or]
      · rw [hkeeps.schema.visit_of_notMem hname, Bool.or_comm]
    rw [hasked.newFields, hkeeps.newFields, any_cons, Bool.or_assoc, hany]

theorem KeepsTo.withState (hkeeps : KeepsTo start newFields run walk)
    (state : IndexingState) :
    KeepsTo start newFields { run with state } { walk with state } :=
  ⟨rfl, hkeeps.schema, hkeeps.newFields⟩

theorem KeepsTo.withIndexer (hkeeps : KeepsTo start newFields run walk) (name : Bytes)
    {next : Option FieldIndexer → FieldRun → Attempt Thrown FieldRun}
    {nextState : Option FieldIndexer → IndexingState → Attempt Thrown IndexingState}
    (hnext : ∀ indexer run, next indexer run =
      ⟨{ run with state := (nextState indexer run.state).state },
        (nextState indexer run.state).thrown⟩) :
    Attempt.Mirrors (KeepsTo start newFields) (run.withIndexer name next)
      (walk.withIndexer (fun name => (start.visit name).result) name
        nextState) := by
  obtain ⟨asked, hasked, hwith⟩ := run.withIndexer_eq name
  have hasks := hkeeps.asked hasked
  rw [hwith, (hkeeps.schema.visit_eq name).2]
  refine mirrors_withValue hasks _ fun indexer => ?_
  rw [hnext, hasked.state, hkeeps.state]
  exact ⟨rfl, hasks.withState _⟩

variable [Libraries] {Pipe Categoriser : Type}
  (collconfig : CollectionConfig Pipe Categoriser)

theorem indexValue_eq (fieldname : Bytes) (value : Json) (indexer : Option FieldIndexer)
    (run : FieldRun) :
    FieldRun.indexValue collconfig fieldname value indexer run = ⟨{ run with
          state := (indexState collconfig fieldname value indexer run.state).state },
        (indexState collconfig fieldname value indexer run.state).thrown⟩ := by
  cases indexer with
  | none => rfl
  | some indexer =>
    simp only [FieldRun.indexValue, indexState]
    split <;> rfl

theorem KeepsTo.processField (hkeeps : KeepsTo start newFields run walk)
    (entry : Bytes × Json) :
    Attempt.Mirrors (KeepsTo start newFields) (run.processField collconfig entry)
      (walk.processField collconfig (fun name => (start.visit name).result) entry) := by
  unfold FieldRun.processField Walk.processField
  split
  · rw [hkeeps.state]
    exact mirrors_done (hkeeps.withState _)
  · exact hkeeps.withIndexer entry.1 (indexValue_eq collconfig entry.1 entry.2)

theorem KeepsTo.processMetadata (hkeeps : KeepsTo start newFields run walk) :
    Attempt.Mirrors (KeepsTo start newFields) (run.processMetadata collconfig)
      (walk.processMetadata collconfig fun name =>
        (start.visit name).result) := by
  unfold FieldRun.processMetadata Walk.processMetadata
  split
  · exact mirrors_done hkeeps
  · refine hkeeps.withIndexer collconfig.metaField fun indexer run => ?_
    cases indexer with
    | none | some indexer => rfl

/-- The walk for a document that is processed with a schema. -/
def documentWalk (schema : Schema) (value : Json) (errors : IndexingErrors) :
    Attempt Thrown Walk :=
  walkDocument collconfig (fun name => (schema.visit name).result) value errors

/-- The walk for a document that was found to be an object. -/
def schemaWalk (schema : Schema) (value : Json) (errors : IndexingErrors) :
    Attempt Thrown Walk :=
  (Attempt.forEach (Walk.processField collconfig
      fun name => (schema.visit name).result) value.members
    ⟨[], .new errors⟩).andThen (Walk.processMetadata collconfig
      fun name => (schema.visit name).result)

/-- `Schema::process` goes through only if the walk of the document does, and
ends with a run that keeps to the walk.  Only the end of processing may be left
out. -/
theorem processSchema_spec (schema : Schema) (value : Json) (errors : IndexingErrors)
    (newFields : Bool) :
    ((processSchema collconfig schema value errors newFields).thrown = none →
        (schemaWalk collconfig schema value errors).thrown = none) ∧
      ∃ run, KeepsTo schema newFields run
        (schemaWalk collconfig schema value errors).state ∧
        ((processSchema collconfig schema value errors newFields).state = run ∨ ∃ data,
          (processSchema collconfig schema value errors newFields).state =
            run.store data) := by
  have hmirrors : Attempt.Mirrors (KeepsTo schema newFields)
      ((forEach (FieldRun.processField collconfig) value.members
        ⟨schema, .new errors, newFields⟩).andThen (FieldRun.processMetadata collconfig))
      (schemaWalk collconfig schema value errors) :=
    (mirrors_forEach (fun entry _ _ hkeeps => hkeeps.processField collconfig entry)
      value.members ⟨rfl, After.refl schema, (Bool.or_false _).symm⟩).andThen
        fun _ _ hkeeps => hkeeps.processMetadata collconfig
  rw [← hmirrors.thrown]
  unfold processSchema
  generalize (forEach (FieldRun.processField collconfig) value.members
    ⟨schema, .new errors, newFields⟩).andThen
      (FieldRun.processMetadata collconfig) = attempt at hmirrors
  rw [andThen]
  cases hthrown : attempt.thrown with
  | none =>
    refine ⟨fun _ => rfl, attempt.state, hmirrors.state, ?_⟩
    unfold FieldRun.finish
    cases attempt.state.state.docdata.serialise with
    | error error => exact .inl rfl
    | ok data => exact .inr ⟨data, rfl⟩
  | some error =>
    exact ⟨fun hnone => hthrown.symm.trans hnone, attempt.state, hmirrors.state, .inl rfl⟩

/-- `Schema::process` leaves behind the schema after the fields of the walk were
visited. -/
theorem after_processSchema (schema : Schema) (value : Json) (errors : IndexingErrors)
    (newFields : Bool) :
    After schema (schemaWalk collconfig schema value errors).state.visited
        (processSchema collconfig schema value errors newFields).state.schema ∧
      (processSchema collconfig schema value errors newFields).state.newFields =
        (newFields || (schemaWalk collconfig schema value
          errors).state.visited.any fun name => (schema.visit name).isNew) := by
  obtain ⟨-, run, hkeeps, hstate | ⟨data, hstate⟩⟩ := processSchema_spec collconfig
    schema value errors newFields
  all_goals
    rw [hstate]
    exact ⟨hkeeps.schema, hkeeps.newFields⟩

/-- Processing a document goes through only if its walk does, and leaves behind
the schema after the fields of the walk were visited. -/
theorem process_spec (schema : Schema) (value : Json) (errors : IndexingErrors)
    (newFields : Bool) :
    ((process collconfig schema value errors newFields).thrown = none →
        (documentWalk collconfig schema value errors).thrown = none) ∧
      After schema (documentWalk collconfig schema value errors).state.visited
        (process collconfig schema value errors newFields).state.schema ∧
      (process collconfig schema value errors newFields).state.newFields =
        (newFields || (documentWalk collconfig schema value errors).state.visited.any
          fun name =>
            (schema.visit name).isNew) := by
  unfold process documentWalk walkDocument
  cases liftInvalid (value.checkObject "input document") with
  | error error => exact ⟨id, After.refl schema, (Bool.or_false _).symm⟩
  | ok _ =>
    exact ⟨(processSchema_spec collconfig schema value errors newFields).1,
      after_processSchema collconfig schema value errors newFields⟩

/-- A schema after some fields were visited has the walks that it had. -/
theorem After.documentWalk_eq {schema : Schema} {visited : List Bytes}
    (hafter : After start visited schema) (value : Json) (errors : IndexingErrors) :
    documentWalk collconfig schema value errors =
      documentWalk collconfig start value errors := by
  rw [documentWalk, documentWalk, hafter.result_eq]

end KeepsTo

/-! ## The fields of a walk -/

section Visited

variable [Libraries] {Pipe Categoriser : Type}
  (collconfig : CollectionConfig Pipe Categoriser)
  (indexers : Bytes → Except Thrown (Option FieldIndexer))

/-- The fields of a document whose indexer is asked for unless there is an
exception. -/
def processedNames (value : Json) : List Bytes :=
  (value.members.map Prod.fst).filter (· ≠ collconfig.metaField) ++
    if collconfig.metaField = [] then [] else [collconfig.metaField]

omit [Libraries] in
theorem visited_withIndexer (walk : Walk) (name : Bytes)
    (next : Option FieldIndexer → IndexingState → Attempt Thrown IndexingState) :
    (walk.withIndexer indexers name next).state.visited = name :: walk.visited := by
  unfold Walk.withIndexer
  cases indexers name <;> rfl

theorem mem_visited_processField (entry : Bytes × Json) (walk : Walk) (name : Bytes) :
    name ∈ (walk.processField collconfig indexers entry).state.visited ↔
      name ∈ walk.visited ∨
        name = entry.1 ∧ name ≠ collconfig.metaField := by
  unfold Walk.processField
  split
  next heq =>
    refine (or_iff_left_of_imp ?_).symm
    rintro ⟨rfl, hne⟩
    exact absurd heq hne
  next hne =>
    rw [visited_withIndexer, mem_cons, or_comm]
    refine or_congr_right (iff_self_and.mpr ?_)
    rintro rfl
    exact hne

theorem mem_visited_processMetadata (walk : Walk) (name : Bytes) :
    name ∈ (walk.processMetadata collconfig indexers).state.visited ↔
      name ∈ walk.visited ∨
        name ∈ if collconfig.metaField = [] then []
          else [collconfig.metaField] := by
  unfold Walk.processMetadata
  split
  · simp [done]
  · rw [visited_withIndexer, mem_cons, mem_singleton, or_comm]

variable {members : List (Bytes × Json)} {name : Bytes}

/-- The loop visits no other fields than those of the document. -/
theorem mem_of_visited_forEach {walk : Walk}
    (hname : name ∈ (forEach (Walk.processField collconfig indexers) members
      walk).state.visited) :
    name ∈ walk.visited ∨ name ∈ members.map Prod.fst ∧ name ≠ collconfig.metaField := by
  induction members generalizing walk with
  | nil => exact .inl hname
  | cons entry members ih =>
    have hentry : name ∈ (walk.processField collconfig indexers
        entry).state.visited → name ∈ walk.visited ∨
          name ∈ (entry :: members).map Prod.fst ∧
            name ≠ collconfig.metaField := by
      rw [mem_visited_processField]
      exact Or.imp_right fun ⟨heq, hne⟩ =>
        ⟨heq ▸ mem_cons_self, hne⟩
    rw [forEach_cons, andThen] at hname
    split at hname
    · rcases ih hname with hfirst | ⟨hrest, hne⟩
      · exact hentry hfirst
      · exact .inr ⟨mem_cons_of_mem _ hrest, hne⟩
    · exact hentry hname

variable {value : Json}

omit [Libraries] in
theorem mem_processedNames : name ∈ processedNames collconfig value ↔
      (name ∈ value.members.map Prod.fst ∧ name ≠ collconfig.metaField) ∨
        name ∈ if collconfig.metaField = [] then []
          else [collconfig.metaField] := by
  rw [processedNames, mem_append, mem_filter, decide_eq_true_iff]

theorem mem_of_visited_fields {errors : IndexingErrors}
    (hname : name ∈ ((forEach (Walk.processField collconfig indexers)
      value.members ⟨[], .new errors⟩).andThen
        (Walk.processMetadata collconfig indexers)).state.visited) :
    name ∈ processedNames collconfig value := by
  have hloop : name ∈ (forEach (Walk.processField collconfig indexers)
      value.members ⟨[], .new errors⟩).state.visited →
      name ∈ value.members.map Prod.fst ∧ name ≠ collconfig.metaField := by
    intro hname
    rcases mem_of_visited_forEach collconfig indexers hname with hname | hname
    · cases hname
    · exact hname
  rw [mem_processedNames]
  simp only [andThen] at hname
  split at hname
  · rw [mem_visited_processMetadata] at hname
    exact hname.imp_left hloop
  · exact .inl (hloop hname)

end Visited

end Restpose.Indexing
