import Restpose.Indexing.SchemaGrowth
import Restpose.Config.Rejected

/-!
# Schema updates

Every execution of `ProcessorProcessDocumentTask` works on its own copy of the
configuration of the collection.  If the document brought new fields, the whole
copy is sent to the indexing queue and then replaces the cached configuration.
No lock is held in between, so the copy of another execution may be written
over.
-/

namespace Restpose.SchemaUpdates

open Config Indexing CollectionConfig

variable {Id Pipe Categoriser : Type}

/-! ## Executions -/

/-- `ProcessorProcessDocumentTask`. -/
structure DocumentTask where
  doc : Json
  docType : Bytes
  docId : Bytes
  parsed : doc.Parsed

/-- The tasks that an execution sends to the indexing queue. -/
inductive IndexerTask where
  | updateDocument (idterm : Bytes) (doc : Xapian.Document)
  | configChanged (newConfig : Json)

/-- How far an execution has come.  The copy that it got is kept as `base`, to
say what it added. -/
inductive Execution (Pipe Categoriser : Type) where
  | queued (task : DocumentTask)
  | copied (task : DocumentTask) (base : CollectionConfig Pipe Categoriser)
  | processed (base : CollectionConfig Pipe Categoriser)
      (run : DocRun Pipe Categoriser)
  | updated (base config : CollectionConfig Pipe Categoriser)
      (newFields : Bool)
  | sent (base config : CollectionConfig Pipe Categoriser)
  | finished (base config : CollectionConfig Pipe Categoriser)
  | failed

namespace Execution

/-- An execution has a copy and has not ended. -/
def Active : Execution Pipe Categoriser → Prop
  | .queued _ | .finished _ _ | .failed => False
  | _ => True

def Ended : Execution Pipe Categoriser → Prop
  | .finished _ _ | .failed => True
  | _ => False

instance : DecidablePred (Active : Execution Pipe Categoriser → Prop)
  | .queued _ | .finished _ _ | .failed => inferInstanceAs (Decidable False)
  | .copied _ _ | .processed _ _ | .updated _ _ _ | .sent _ _ =>
      inferInstanceAs (Decidable True)

instance : DecidablePred (Ended : Execution Pipe Categoriser → Prop)
  | .finished _ _ | .failed => inferInstanceAs (Decidable True)
  | .queued _ | .copied _ _ | .processed _ _ | .updated _ _ _ | .sent _ _ =>
      inferInstanceAs (Decidable False)

end Execution

/-- One collection: the entry of `CollectionConfigs`, whether the pool has the
collection, the configuration of the collection, its indexing queue, and the
executions. -/
structure State (Id Pipe Categoriser : Type) where
  cached : Option (CollectionConfig Pipe Categoriser)
  created : Bool
  stored : StoredConfig Pipe Categoriser
  queue : List IndexerTask
  executions : Id → Execution Pipe Categoriser

/-- A step of an execution, or of the indexing thread. -/
inductive Action (Id : Type) where
  | advance (id : Id)
  | perform

namespace State

section Get

variable [Libraries] [Config.Part Pipe] [Config.Part Categoriser]

/-- The configuration that is put into the cache if there is none. -/
def load (collName : Bytes) (state : State Id Pipe Categoriser) :
    Except Thrown (CollectionConfig Pipe Categoriser) :=
  if state.created then state.stored.config.clone
  else (CollectionConfig.create collName).map CollectionConfig.setDefault

def get (collName : Bytes) (state : State Id Pipe Categoriser) :
    State Id Pipe Categoriser ×
      Except Thrown (CollectionConfig Pipe Categoriser) :=
  match state.cached with
  | some config => (state, config.clone)
  | none =>
      match state.load collName with
      | .error error => (state, .error error)
      | .ok config => ({ state with cached := some config }, config.clone)

end Get

/-- `queue_indexing_from_processing`. -/
def push (state : State Id Pipe Categoriser) (task : IndexerTask) :
    State Id Pipe Categoriser :=
  { state with queue := state.queue ++ [task] }

variable [DecidableEq Id]

def setExecution (state : State Id Pipe Categoriser) (id : Id)
    (execution : Execution Pipe Categoriser) : State Id Pipe Categoriser :=
  { state with executions := Function.update state.executions id execution }

variable (state : State Id Pipe Categoriser)

theorem executions_setExecution_self (id : Id) (execution : Execution Pipe Categoriser) :
    (state.setExecution id execution).executions id = execution :=
  Function.update_self _ _ _

theorem executions_setExecution_of_ne {id other : Id} (hne : other ≠ id)
    (execution : Execution Pipe Categoriser) :
    (state.setExecution id execution).executions other = state.executions other :=
  Function.update_of_ne hne _ _

variable [Libraries] [Config.Part Pipe] [Config.Part Categoriser]

/-- The next step of `ProcessorProcessDocumentTask::perform`. -/
def advance (collName : Bytes) (state : State Id Pipe Categoriser)
    (id : Id) : State Id Pipe Categoriser :=
  match state.executions id with
  | .queued task =>
      let got := state.get collName
      match got.2 with
      | .error _ => got.1.setExecution id .failed
      | .ok config =>
          got.1.setExecution id (.copied task { config with changed := false })
  | .copied task base =>
      let outcome := processDoc
        ⟨base, task.doc, ⟨∅, ∅, []⟩, [], .none, false⟩ task.docType task.docId
      if outcome.thrown.isSome || outcome.state.errors.totalFailure then
        state.setExecution id .failed
      else state.setExecution id (.processed base outcome.state)
  | .processed base run =>
      (state.push (.updateDocument run.idterm run.doc)).setExecution id
        (.updated base run.config run.newFields)
  | .updated base config newFields =>
      if config.changed || newFields then
        (state.push (.configChanged config.toJson)).setExecution id
          (.sent base { config with changed := false })
      else state.setExecution id (.finished base config)
  | .sent base config =>
      { state with cached := some config }.setExecution id
        (.finished base config)
  | .finished _ _ | .failed => state

omit [DecidableEq Id] in
/-- The indexing thread performs the next task.  It creates the collection if
there is none. -/
def perform (state : State Id Pipe Categoriser) : State Id Pipe Categoriser :=
  match state.queue with
  | [] => state
  | .updateDocument _ _ :: rest =>
      { state with queue := rest, created := true }
  | .configChanged newConfig :: rest =>
      { state with
        queue := rest
        created := true
        stored := (state.stored.fromJson newConfig).state }

def step (collName : Bytes) (state : State Id Pipe Categoriser) :
    Action Id → State Id Pipe Categoriser
  | .advance id => state.advance collName id
  | .perform => state.perform

def run (collName : Bytes) (state : State Id Pipe Categoriser)
    (actions : List (Action Id)) : State Id Pipe Categoriser :=
  actions.foldl (step collName) state

end State

/-! ## Lost updates -/

section Statement

variable [Config.Part Pipe] [Config.Part Categoriser]

/-- All executions have ended, and all tasks have been performed. -/
structure Quiet (state : State Id Pipe Categoriser) : Prop where
  ended : ∀ id, (state.executions id).Ended
  performed : state.queue = []

/-- An execution added the configuration of a field, or changed it. -/
def Added (base config : CollectionConfig Pipe Categoriser)
    (type name : Bytes) : Prop :=
  (config.fieldJson type name).isNull = false ∧
    config.fieldJson type name ≠ base.fieldJson type name

/-- Everything that was added is in the cached configuration and in that of the
collection, and these are equal. -/
structure NoLostUpdate (state : State Id Pipe Categoriser) : Prop where
  present : ∀ id base config,
    state.executions id = .finished base config →
    ∀ type name, Added base config type name →
      (∃ cached, state.cached = some cached ∧
        cached.fieldJson type name = config.fieldJson type name) ∧
      state.stored.config.fieldJson type name = config.fieldJson type name
  equal : ∀ cached, state.cached = some cached →
    cached.toJson = state.stored.config.toJson

/-- No execution has begun, and the cache has what the collection has. -/
structure Start (collName : Bytes) (state : State Id Pipe Categoriser) :
    Prop where
  executions : ∀ id, ∃ task, state.executions id = .queued task
  queue : state.queue = []
  stored : state.stored.config.Served
  created : state.created = false →
    state.stored.config = (CollectionConfig.blank collName).setDefault
  cached : ∀ config, state.cached = some config →
    config.Served ∧ config.toJson = state.stored.config.toJson

/-- When a step is one that loses nothing: an execution only gets its copy while
no other has one, the schema of its document ignores none of the fields, and
the configuration that it sends can be read. -/
def Careful [Libraries] (state : State Id Pipe Categoriser) :
    Action Id → Prop
  | .perform => True
  | .advance id =>
      match state.executions id with
      | .queued _ => ∀ other, ¬(state.executions other).Active
      | .copied task base => IgnoresNone base task.doc task.docType
      | .updated _ config newFields =>
          (config.changed || newFields) = true → config.Short
      | _ => True

end Statement

/-! ## Configurations that are sent -/

section Sent

variable [Config.Part Pipe] [Config.Part Categoriser]
  {base config other : CollectionConfig Pipe Categoriser}

theorem fieldJson_congr (hsame : config.toJson = other.toJson) (type name : Bytes) :
    config.fieldJson type name = other.fieldJson type name := by
  rw [fieldJson, fieldJson, hsame]

/-- The fields of one configuration are in another. -/
def Retains (config other : CollectionConfig Pipe Categoriser) : Prop :=
  ∀ type name, (config.fieldJson type name).isNull = false →
    other.fieldJson type name = config.fieldJson type name

theorem retains_of_toJson_eq (hsame : config.toJson = other.toJson) :
    Retains config other :=
  fun type name _ => (fieldJson_congr hsame type name).symm

theorem Retains.trans {last : CollectionConfig Pipe Categoriser}
    (hfirst : Retains config other) (hsecond : Retains other last) :
    Retains config last := by
  intro type name hpresent
  have hother := hfirst type name hpresent
  rw [← hother] at hpresent ⊢
  exact hsecond type name hpresent

theorem retains_of_extends (hbase : base.Served) (hextends : base.Extends config) :
    Retains base config := by
  intro type name hpresent
  rw [fieldJson_eq hbase.given] at hpresent ⊢
  rw [fieldJson_eq hextends.served.given]
  cases hfield : base.findField type name with
  | none =>
    rw [hfield] at hpresent
    cases hpresent
  | some field => rw [hextends.kept type name field hfield]

theorem served_withChanged (hserved : config.Served) (changed : Bool) :
    CollectionConfig.Served { config with changed } :=
  ⟨{ hserved.given with }, hserved.patterns, hserved.defaultType⟩

theorem extends_withChanged (hextends : base.Extends config) (changed : Bool) :
    base.Extends { config with changed } :=
  ⟨served_withChanged hextends.served changed, hextends.defaultType, hextends.kept⟩

variable (Pipe Categoriser) in
/-- A configuration in the indexing queue can be read, and has the default type
that all configurations of the collection have. -/
def Sendable (defaultType json : Json) : Prop :=
  ∃ config : CollectionConfig Pipe Categoriser, config.Given ∧
    config.Short ∧ config.defaultTypeConfig = defaultType ∧
    json = config.toJson

theorem settles_toJson (hdefault : config.defaultTypeConfig = other.defaultTypeConfig) :
    Settles config.toJson other := by
  have hstring : ∀ text : Bytes, (Json.ofString text).isString = true := fun _ => rfl
  constructor
  · rw [member_default_type_toJson, hdefault]
    cases other.defaultTypeConfig with
    | null => exact .inr rfl
    | _ => exact .inl rfl
  all_goals
    left
    rw [member_special_fields_toJson]
    simp +decide only [assign_cons, assign_nil, Json.member_setMember, if_true, if_false,
      hstring]

theorem fromJson_sendable [Libraries] {stored : StoredConfig Pipe Categoriser}
    {json : Json} (hjson : Sendable Pipe Categoriser
      stored.config.defaultTypeConfig json) :
    (stored.fromJson json).state.config.toJson = json ∧
      (stored.fromJson json).state.config.defaultTypeConfig =
        stored.config.defaultTypeConfig := by
  obtain ⟨config, hgiven, hshort, hdefault, rfl⟩ := hjson
  obtain ⟨copy, _, _, hsections, -, hcopy⟩ := readSections_written hgiven hshort
  have hblank : (blank config.collName : CollectionConfig Pipe Categoriser).fromJson
    config.toJson =
        .done copy := by
    rw [fromJson, checkHead_toJson]
    exact hsections
  have hthrown : ((blank config.collName :
      CollectionConfig Pipe Categoriser).fromJson config.toJson).thrown =
        none := by rw [hblank]; rfl
  have hsettles : Settles config.toJson stored.config := settles_toJson hdefault
  have hloaded := (toJson_loaded_eq_iff hthrown).mpr hsettles
  have hread : (stored.config.fromJson config.toJson).thrown = none := by
    rw [← (agree_fromJson (blank config.collName) stored.config config.toJson).1]
    exact hthrown
  have hstate : (stored.fromJson config.toJson).state.config =
      (stored.config.fromJson config.toJson).state := by
    simp only [StoredConfig.fromJson, hread]
    rfl
  have hsame : (stored.fromJson config.toJson).state.config.toJson = config.toJson := by
    rw [hstate, ← hloaded, hblank]
    exact hcopy.toJson_eq
  refine ⟨hsame, ?_⟩
  rw [← member_default_type_toJson, hsame, member_default_type_toJson, hdefault]

end Sent

end Restpose.SchemaUpdates
