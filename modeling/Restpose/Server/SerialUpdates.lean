import Restpose.Server.SchemaUpdates

/-!
# Schema updates one after the other

If an execution only gets its copy while no other has one, the cached
configuration and the last one in the indexing queue are the same whenever no
execution has a copy, and no field is ever dropped.
-/

namespace Restpose.SchemaUpdates

open Config Indexing List CollectionConfig State Std.ExtTreeMap

variable {Id Pipe Categoriser : Type}

/-! ## One execution after the other -/

section Invariant

variable [Config.Part Pipe] [Config.Part Categoriser]

/-- The configuration that the collection has once all tasks are performed. -/
def State.latest (state : State Id Pipe Categoriser) : Json :=
  state.queue.foldl (fun json task =>
    match task with
    | .configChanged newConfig => newConfig
    | .updateDocument _ _ => json) state.stored.config.toJson

/-- What an execution has to do with the cached configuration. -/
def Agrees (cached : CollectionConfig Pipe Categoriser) (latest : Json) :
    Execution Pipe Categoriser → Prop
  | .queued _ | .failed => True
  | .copied _ base => base.Served ∧ base.Fresh ∧ base.toJson = cached.toJson ∧
      latest = cached.toJson
  | .processed base run => base.Served ∧ base.toJson = cached.toJson ∧
      latest = cached.toJson ∧ run.Extended base
  | .updated base config newFields =>
      base.Served ∧ base.toJson = cached.toJson ∧ latest = cached.toJson ∧
        base.Extends config ∧
        (config.changed = false → newFields = false →
          config.toJson = base.toJson)
  | .sent base config => base.Served ∧ base.toJson = cached.toJson ∧
      base.Extends config ∧ latest = config.toJson
  | .finished _ config => Retains config cached

/-- While there is no cached configuration, nothing has happened. -/
structure Unloaded (collName : Bytes)
    (state : State Id Pipe Categoriser) : Prop where
  queue : state.queue = []
  stored : state.stored.config.Served
  created : state.created = false →
    state.stored.config = (CollectionConfig.blank collName).setDefault
  executions : ∀ id, (∃ task, state.executions id = .queued task) ∨
    state.executions id = .failed

/-- What holds of the cached configuration. -/
structure Loaded (state : State Id Pipe Categoriser)
    (cached : CollectionConfig Pipe Categoriser) : Prop where
  served : cached.Served
  defaultType : cached.defaultTypeConfig =
    state.stored.config.defaultTypeConfig
  executions : ∀ id, Agrees cached state.latest (state.executions id)
  latest : (∀ id, ¬(state.executions id).Active) →
    state.latest = cached.toJson
  tasks : ∀ json, .configChanged json ∈ state.queue →
    Sendable Pipe Categoriser state.stored.config.defaultTypeConfig json

/-- The invariant of the runs in which every step is careful. -/
structure Serial (collName : Bytes)
    (state : State Id Pipe Categoriser) : Prop where
  alone : ∀ first second, (state.executions first).Active →
    (state.executions second).Active → first = second
  cache : state.cached = none ∧ Unloaded collName state ∨
    ∃ cached, state.cached = some cached ∧ Loaded state cached

variable {collName : Bytes} {state : State Id Pipe Categoriser}

theorem Start.serial (hstart : Start collName state) : Serial collName state where
  alone := fun first second hfirst => by
    obtain ⟨task, htask⟩ := hstart.executions first
    rw [htask] at hfirst
    exact hfirst.elim
  cache := by
    cases hcached : state.cached with
    | none =>
      exact .inl ⟨rfl, hstart.queue, hstart.stored, hstart.created,
        fun id => .inl (hstart.executions id)⟩
    | some cached =>
      obtain ⟨hserved, hsame⟩ := hstart.cached cached hcached
      refine .inr ⟨cached, rfl, hserved, ?_, ?_, ?_, ?_⟩
      · rw [← member_default_type_toJson, hsame, member_default_type_toJson]
      · intro id
        obtain ⟨task, htask⟩ := hstart.executions id
        rw [htask]
        trivial
      · intro _
        rw [latest, hstart.queue, hsame]
        rfl
      · rw [hstart.queue]
        exact nofun

/-- At the end nothing is lost. -/
theorem Serial.noLostUpdate (hserial : Serial collName state) (hquiet : Quiet state) :
    NoLostUpdate state := by
  have hinactive : ∀ id, ¬(state.executions id).Active := by
    intro id
    have hended := hquiet.ended id
    cases hexecution : state.executions id with
    | finished | failed => exact fun hactive => hactive
    | _ =>
      rw [hexecution] at hended
      exact hended.elim
  rcases hserial.cache with ⟨hnone, hunloaded⟩ | ⟨cached, hcached, hloaded⟩
  · constructor
    · intro id base config hfinished
      rcases hunloaded.executions id with ⟨task, htask⟩ | hfailed
      · cases htask.symm.trans hfinished
      · cases hfailed.symm.trans hfinished
    · intro cached hcached
      cases hnone.symm.trans hcached
  · have hequal : cached.toJson = state.stored.config.toJson := by
      rw [← hloaded.latest hinactive, latest, hquiet.performed]
      rfl
    constructor
    · intro id base config hfinished type name hadded
      have hagrees := hloaded.executions id
      rw [hfinished] at hagrees
      have hpresent := hagrees type name hadded.1
      refine ⟨⟨cached, hcached, hpresent⟩, ?_⟩
      rw [← fieldJson_congr hequal, hpresent]
    · intro other hother
      cases hcached.symm.trans hother
      exact hequal

/-! ## Steps -/

theorem Agrees.of_inactive {cached : CollectionConfig Pipe Categoriser} {latest : Json}
    {execution : Execution Pipe Categoriser} (hagrees : Agrees cached latest execution)
    (hinactive : ¬execution.Active) {config : CollectionConfig Pipe Categoriser}
    (hretains : Retains cached config) (json : Json) :
    Agrees config json execution := by
  cases execution with
  | queued | failed => trivial
  | finished base added => exact Retains.trans hagrees hretains
  | _ => exact absurd trivial hinactive

theorem retains_refl (config : CollectionConfig Pipe Categoriser) :
    Retains config config :=
  fun _ _ _ => rfl

theorem latest_push (state : State Id Pipe Categoriser) (task : IndexerTask) :
    (state.push task).latest =
      match task with
      | .configChanged newConfig => newConfig
      | .updateDocument _ _ => state.latest := by
  simp only [latest, push, foldl_append, foldl_cons, foldl_nil]

theorem Loaded.push_update {cached : CollectionConfig Pipe Categoriser}
    (hloaded : Loaded state cached) (idterm : Bytes) (doc : Xapian.Document) :
    Loaded (state.push (.updateDocument idterm doc)) cached where
  served := hloaded.served
  defaultType := hloaded.defaultType
  executions := fun id => by
    rw [latest_push]
    exact hloaded.executions id
  latest := fun hinactive => by
    rw [latest_push]
    exact hloaded.latest hinactive
  tasks := fun json hjson => by
    rcases mem_append.mp hjson with hjson | hjson
    · exact hloaded.tasks json hjson
    · cases mem_singleton.mp hjson

section Executions

variable [DecidableEq Id] {id : Id} {execution : Execution Pipe Categoriser}
  {cached : CollectionConfig Pipe Categoriser}

theorem Loaded.setExecution (hloaded : Loaded state cached)
    (hagrees : Agrees cached state.latest execution)
    (hlatest : ¬execution.Active → state.latest = cached.toJson) :
    Loaded (state.setExecution id execution) cached where
  served := hloaded.served
  defaultType := hloaded.defaultType
  executions := fun other => by
    by_cases heq : other = id
    · rw [heq, executions_setExecution_self]
      exact hagrees
    · rw [executions_setExecution_of_ne _ heq]
      exact hloaded.executions other
  latest := fun hinactive => by
    have hid := hinactive id
    rw [executions_setExecution_self] at hid
    exact hlatest hid
  tasks := hloaded.tasks

variable {base config : CollectionConfig Pipe Categoriser}

theorem Loaded.push_config (hloaded : Loaded state cached)
    (hothers : ∀ other ≠ id, ¬(state.executions other).Active) (hbase : base.Served)
    (hcopy : base.toJson = cached.toJson) (hextends : base.Extends config)
    (hsendable : Sendable Pipe Categoriser state.stored.config.defaultTypeConfig
      config.toJson) :
    Loaded ((state.push (.configChanged config.toJson)).setExecution id
      (.sent base { config with changed := false })) cached where
  served := hloaded.served
  defaultType := hloaded.defaultType
  executions := fun other => by
    by_cases heq : other = id
    · rw [heq, executions_setExecution_self]
      exact ⟨hbase, hcopy, extends_withChanged hextends false,
        latest_push state (.configChanged config.toJson)⟩
    · rw [executions_setExecution_of_ne _ heq]
      exact (hloaded.executions other).of_inactive (hothers other heq)
        (retains_refl cached) _
  latest := fun hinactive => by
    have hid := hinactive id
    rw [executions_setExecution_self] at hid
    exact absurd trivial hid
  tasks := fun json hjson => by
    rcases mem_append.mp hjson with hjson | hjson
    · exact hloaded.tasks json hjson
    · cases mem_singleton.mp hjson
      exact hsendable

theorem defaultType_eq {other : CollectionConfig Pipe Categoriser}
    (hsame : config.toJson = other.toJson) :
    config.defaultTypeConfig = other.defaultTypeConfig := by
  rw [← member_default_type_toJson, hsame, member_default_type_toJson]

theorem Loaded.setCached (hloaded : Loaded state cached)
    (hothers : ∀ other ≠ id, ¬(state.executions other).Active)
    (hsent : Agrees cached state.latest (.sent base config)) :
    Loaded ({ state with cached := some config }.setExecution id
      (.finished base config)) config := by
  obtain ⟨hbase, hcopy, hextends, hlatest⟩ := hsent
  have hretains : Retains cached config := (retains_of_toJson_eq hcopy.symm).trans
      (retains_of_extends hbase hextends)
  refine ⟨hextends.served, ?_, ?_, fun _ => hlatest, hloaded.tasks⟩
  · rw [hextends.defaultType, defaultType_eq hcopy]
    exact hloaded.defaultType
  · intro other
    by_cases heq : other = id
    · rw [heq, executions_setExecution_self]
      exact retains_refl config
    · rw [executions_setExecution_of_ne _ heq]
      exact (hloaded.executions other).of_inactive (hothers other heq) hretains _

omit [Config.Part Pipe] [Config.Part Categoriser] in
theorem alone_setExecution (hothers : ∀ other ≠ id, ¬(state.executions other).Active) :
    ∀ first second, ((state.setExecution id execution).executions first).Active →
      ((state.setExecution id execution).executions second).Active → first = second := by
  have honly : ∀ other, ((state.setExecution id execution).executions other).Active →
        other = id := by
    intro other hactive
    by_contra hne
    rw [executions_setExecution_of_ne _ hne] at hactive
    exact hothers other hne hactive
  intro first second hfirst hsecond
  rw [honly first hfirst, honly second hsecond]

/-- A loaded state stays serial if one execution changes while the others have
no copy. -/
theorem Loaded.serial {next : State Id Pipe Categoriser}
    (hloaded : Loaded (next.setExecution id execution) cached)
    (hcached : next.cached = some cached)
    (hothers : ∀ other ≠ id, ¬(next.executions other).Active) :
    Serial collName (next.setExecution id execution) :=
  ⟨alone_setExecution hothers, .inr ⟨cached, hcached, hloaded⟩⟩

variable [Libraries]

omit [DecidableEq Id] in
theorem Unloaded.load (hunloaded : Unloaded collName state)
    {config : CollectionConfig Pipe Categoriser}
    (hload : state.load collName = .ok config) :
    config.Served ∧ config.toJson = state.stored.config.toJson := by
  unfold State.load at hload
  cases hcreated : state.created with
  | true =>
    rw [hcreated, if_pos rfl] at hload
    obtain ⟨hserved, -, hsame, -⟩ := hunloaded.stored.clone hload
    exact ⟨hserved, hsame⟩
  | false =>
    have hdefault := hunloaded.created hcreated
    have hserved := hunloaded.stored
    rw [hdefault] at hserved ⊢
    rw [hcreated, if_neg Bool.false_ne_true, create] at hload
    split at hload
    next => cases hload
    next =>
      cases hload
      exact ⟨hserved, rfl⟩

omit [DecidableEq Id] in
/-- An execution gets a copy of the cached configuration, which is loaded if
there is none. -/
theorem Serial.get (hserial : Serial collName state) :
    (state.get collName).1.executions = state.executions ∧
    Serial collName (state.get collName).1 ∧
    ∀ config, (state.get collName).2 = .ok config →
      ∃ cached, (state.get collName).1.cached = some cached ∧
        Loaded (state.get collName).1 cached ∧ config.Served ∧
        config.Fresh ∧ config.toJson = cached.toJson := by
  rcases hserial.cache with ⟨hnone, hunloaded⟩ | ⟨cached, hcached, hloaded⟩
  · cases hload : state.load collName with
    | error error =>
      simp only [State.get, hnone, hload]
      exact ⟨trivial, hserial, nofun⟩
    | ok loaded =>
      obtain ⟨hserved, hsame⟩ := hunloaded.load hload
      have hloaded : Loaded { state with cached := some loaded } loaded := by
        refine ⟨hserved, defaultType_eq hsame, ?_, fun _ => ?_, ?_⟩
        · intro other
          rcases hunloaded.executions other with ⟨task, htask⟩ | hfailed
          · rw [htask]
            trivial
          · rw [hfailed]
            trivial
        · rw [latest, hunloaded.queue, hsame]
          rfl
        · rw [hunloaded.queue]
          exact nofun
      simp only [State.get, hnone, hload]
      refine ⟨trivial, ⟨hserial.alone, .inr ⟨loaded, rfl, hloaded⟩⟩, ?_⟩
      intro config hclone
      obtain ⟨hcopy, hfresh, htoJson, -⟩ := hserved.clone hclone
      exact ⟨loaded, rfl, hloaded, hcopy, hfresh, htoJson⟩
  · simp only [State.get, hcached]
    refine ⟨trivial, hserial, ?_⟩
    intro config hclone
    obtain ⟨hcopy, hfresh, htoJson, -⟩ := hloaded.served.clone hclone
    exact ⟨cached, rfl, hloaded, hcopy, hfresh, htoJson⟩

variable (hserial : Serial collName state)

include hserial

/-- An execution gets its copy. -/
theorem Serial.advance_queued (hinactive : ∀ other, ¬(state.executions other).Active)
    {task : DocumentTask} (hid : state.executions id = .queued task) :
    Serial collName (state.advance collName id) := by
  obtain ⟨hexecutions, hnext, hcopies⟩ := hserial.get
  have hothers : ∀ other ≠ id, ¬((state.get collName).1.executions other).Active := by
    intro other _
    rw [hexecutions]
    exact hinactive other
  cases hgot : (state.get collName).2 with
  | ok config =>
    obtain ⟨cached, hcached, hloaded, hserved, hfresh, hsame⟩ := hcopies config hgot
    have hlatest : (state.get collName).1.latest = cached.toJson := by
      apply hloaded.latest
      rw [hexecutions]
      exact hinactive
    simp only [advance, hid, hgot]
    refine Loaded.serial (hloaded.setExecution ?_ ?_) hcached hothers
    · exact ⟨served_withChanged hserved false, { hfresh with }, hsame, hlatest⟩
    · exact fun hnot => absurd trivial hnot
  | error error =>
    simp only [advance, hid, hgot]
    refine ⟨alone_setExecution hothers, ?_⟩
    rcases hnext.cache with ⟨hnone, hunloaded⟩ | ⟨cached, hcached, hloaded⟩
    · refine .inl ⟨hnone, hunloaded.queue, hunloaded.stored,
        hunloaded.created, fun other => ?_⟩
      by_cases heq : other = id
      · rw [heq, executions_setExecution_self]
        exact .inr rfl
      · rw [executions_setExecution_of_ne _ heq]
        exact hunloaded.executions other
    · refine .inr ⟨cached, hcached, hloaded.setExecution trivial fun _ => ?_⟩
      apply hloaded.latest
      rw [hexecutions]
      exact hinactive

omit [DecidableEq Id] [Libraries] in
/-- Once an execution has its copy, there is a cached configuration, and no
other execution has a copy. -/
theorem Serial.of_active (hactive : (state.executions id).Active) :
    (∀ other ≠ id, ¬(state.executions other).Active) ∧
      ∃ cached, state.cached = some cached ∧ Loaded state cached := by
  constructor
  · intro other hne hother
    exact hne (hserial.alone other id hother hactive)
  · rcases hserial.cache with ⟨-, hunloaded⟩ | hloaded
    · rcases hunloaded.executions id with ⟨task, htask⟩ | hfailed
      · rw [htask] at hactive
        exact hactive.elim
      · rw [hfailed] at hactive
        exact hactive.elim
    · exact hloaded

theorem Serial.advance_copied {task : DocumentTask}
    (hid : state.executions id = .copied task base)
    (hignores : IgnoresNone base task.doc task.docType) :
    Serial collName (state.advance collName id) := by
  obtain ⟨hothers, cached, hcached, hloaded⟩ := hserial.of_active (by rw [hid]; trivial)
  have hagrees := hloaded.executions id
  rw [hid] at hagrees
  obtain ⟨hserved, hfresh, hsame, hlatest⟩ := hagrees
  have hends : (processDoc ⟨base, task.doc, ⟨∅, ∅, []⟩, [], .none, false⟩
      task.docType task.docId).Ends (DocRun.Extended base) :=
    ends_processDoc hserved hfresh task.parsed hignores task.docId
  simp only [State.advance, hid]
  split
  · exact Loaded.serial (hloaded.setExecution trivial fun _ => hlatest) hcached hothers
  next hdone =>
    refine Loaded.serial (hloaded.setExecution ?_ ?_) hcached hothers
    · refine ⟨hserved, hsame, hlatest, hends ?_⟩
      simp only [Bool.or_eq_true, not_or, Bool.not_eq_true,
        Option.isSome_eq_false_iff, Option.isNone_iff_eq_none] at hdone
      exact hdone.1
    · exact fun hnot => absurd trivial hnot

theorem Serial.advance_processed {run : DocRun Pipe Categoriser}
    (hid : state.executions id = .processed base run) :
    Serial collName (state.advance collName id) := by
  obtain ⟨hothers, cached, hcached, hloaded⟩ := hserial.of_active (by rw [hid]; trivial)
  have hagrees := hloaded.executions id
  rw [hid] at hagrees
  obtain ⟨hserved, hsame, hlatest, hextended⟩ := hagrees
  simp only [advance, hid]
  refine Loaded.serial ((hloaded.push_update run.idterm run.doc).setExecution ?_ ?_)
    hcached hothers
  · rw [latest_push]
    exact ⟨hserved, hsame, hlatest, hextended.extended, hextended.same⟩
  · exact fun hnot => absurd trivial hnot

theorem Serial.advance_updated {newFields : Bool}
    (hid : state.executions id = .updated base config newFields)
    (hshort : (config.changed || newFields) = true → config.Short) :
    Serial collName (state.advance collName id) := by
  obtain ⟨hothers, cached, hcached, hloaded⟩ := hserial.of_active (by rw [hid]; trivial)
  have hagrees := hloaded.executions id
  rw [hid] at hagrees
  obtain ⟨hserved, hsame, hlatest, hextends, hunchanged⟩ := hagrees
  simp only [advance, hid]
  split
  next hchanged =>
    have hdefault : config.defaultTypeConfig = state.stored.config.defaultTypeConfig := by
      rw [hextends.defaultType, defaultType_eq hsame, hloaded.defaultType]
    have hsendable : Sendable Pipe Categoriser
        state.stored.config.defaultTypeConfig config.toJson :=
      ⟨config, hextends.served.given, hshort hchanged, hdefault, rfl⟩
    exact Loaded.serial (hloaded.push_config hothers hserved hsame hextends
      hsendable) hcached hothers
  next hnot =>
    simp only [Bool.or_eq_true, not_or, Bool.not_eq_true] at hnot
    have hshown := hunchanged hnot.1 hnot.2
    exact Loaded.serial (hloaded.setExecution
      (retains_of_toJson_eq (hshown.trans hsame)) fun _ => hlatest) hcached
      hothers

theorem Serial.advance_sent (hid : state.executions id = .sent base config) :
    Serial collName (state.advance collName id) := by
  obtain ⟨hothers, cached, hcached, hloaded⟩ := hserial.of_active (by rw [hid]; trivial)
  have hagrees := hloaded.executions id
  rw [hid] at hagrees
  simp only [advance, hid]
  exact Loaded.serial (hloaded.setCached hothers hagrees) rfl hothers

omit hserial

omit [DecidableEq Id] in
theorem Serial.perform (hserial : Serial collName state) :
    Serial collName state.perform := by
  rcases hserial.cache with ⟨hnone, hunloaded⟩ | ⟨cached, hcached, hloaded⟩
  · have hsame : state.perform = state := by
      simp only [State.perform, hunloaded.queue]
    rw [hsame]
    exact hserial
  · cases hqueue : state.queue with
    | nil =>
      have hsame : state.perform = state := by
        simp only [State.perform, hqueue]
      rw [hsame]
      exact hserial
    | cons task rest =>
      have htasks : ∀ json, .configChanged json ∈ rest →
          Sendable Pipe Categoriser state.stored.config.defaultTypeConfig json := by
        intro json hjson
        apply hloaded.tasks
        rw [hqueue]
        exact mem_cons_of_mem _ hjson
      have hkeeps : state.perform.latest = state.latest ∧
          state.perform.stored.config.defaultTypeConfig =
            state.stored.config.defaultTypeConfig := by
        cases task with
        | updateDocument idterm doc =>
          simp only [State.perform, State.latest, hqueue]
          exact ⟨rfl, trivial⟩
        | configChanged newConfig =>
          have hread := fromJson_sendable (hloaded.tasks newConfig (by
            rw [hqueue]
            exact List.mem_cons_self))
          simp only [State.perform, State.latest, hqueue, hread.1]
          exact ⟨rfl, hread.2⟩
      have hframe : state.perform.queue = rest ∧
        state.perform.executions = state.executions ∧
          state.perform.cached = state.cached := by
        cases task <;> simp only [State.perform, hqueue, and_self]
      obtain ⟨hlatest, hdefault⟩ := hkeeps
      obtain ⟨hrest, hexecutions, hsame⟩ := hframe
      refine ⟨?_, .inr ⟨cached, hsame.trans hcached, hloaded.served, ?_, ?_, ?_, ?_⟩⟩
      · rw [hexecutions]
        exact hserial.alone
      · rw [hdefault]
        exact hloaded.defaultType
      · rw [hlatest, hexecutions]
        exact hloaded.executions
      · rw [hlatest, hexecutions]
        exact hloaded.latest
      · rw [hrest, hdefault]
        exact htasks

theorem Serial.step (hserial : Serial collName state) {action : Action Id}
    (hcareful : Careful state action) :
    Serial collName (state.step collName action) := by
  cases action with
  | perform => exact hserial.perform
  | advance id =>
    change Serial collName (state.advance collName id)
    simp only [Careful] at hcareful
    cases hid : state.executions id with
    | queued task =>
      rw [hid] at hcareful
      exact hserial.advance_queued hcareful hid
    | copied task base =>
      rw [hid] at hcareful
      exact hserial.advance_copied hid hcareful
    | processed base run => exact hserial.advance_processed hid
    | updated base config newFields =>
      rw [hid] at hcareful
      exact hserial.advance_updated hid hcareful
    | sent base config => exact hserial.advance_sent hid
    | finished base config | failed =>
      simp only [advance, hid]
      exact hserial

/-- Every step of a run is careful. -/
def CarefulRun (collName : Bytes) (state : State Id Pipe Categoriser) :
    List (Action Id) → Prop
  | [] => True
  | action :: rest => Careful state action ∧
      CarefulRun collName (state.step collName action) rest

theorem Serial.run (hserial : Serial collName state) {actions : List (Action Id)}
    (hcareful : CarefulRun collName state actions) :
    Serial collName (state.run collName actions) := by
  induction actions generalizing state with
  | nil => exact hserial
  | cons action rest ih => exact ih (hserial.step hcareful.1) hcareful.2

end Executions

end Invariant

/-- Nothing is lost in a run in which every step is careful. -/
theorem run_noLostUpdate [DecidableEq Id] [Libraries] [Config.Part Pipe]
    [Config.Part Categoriser] {collName : Bytes}
    {state : State Id Pipe Categoriser} (hstart : Start collName state)
    {actions : List (Action Id)}
    (hcareful : CarefulRun collName state actions)
    (hquiet : Quiet (state.run collName actions)) :
    NoLostUpdate (state.run collName actions) :=
  (hstart.serial.run hcareful).noLostUpdate hquiet

/-! ## Two documents -/

/-- A test on all field configurations of a collection. -/
def allFields (config : CollectionConfig Pipe Categoriser)
    (test : FieldConfig → Bool) : Bool :=
  config.types.toList.all fun entry =>
    entry.2.fields.toList.all fun field => test field.2

/-- A test whether a step is careful, for schemas that ignore no field. -/
def checkCareful [Fintype Id] (state : State Id Pipe Categoriser) :
    Action Id → Bool
  | .perform => true
  | .advance id =>
      match state.executions id with
      | .queued _ => decide (∀ other, ¬(state.executions other).Active)
      | .copied _ base => allFields base (·.indexer.isSome)
      | .updated _ config _ => allFields config (decide ·.Short)
      | _ => true

theorem find_of_allFields {config : CollectionConfig Pipe Categoriser}
    {test : FieldConfig → Bool} (hall : allFields config test = true) {type : Bytes}
    {schema : Schema} (hschema : (type, schema) ∈ config.types.toList) {name : Bytes}
    {field : FieldConfig} (hfield : (name, field) ∈ schema.fields.toList) :
    test field = true :=
  all_eq_true.mp (all_eq_true.mp hall _ hschema) _ hfield

theorem careful_of_check [Libraries] [Config.Part Pipe] [Config.Part Categoriser]
    [Fintype Id] {state : State Id Pipe Categoriser} {action : Action Id}
    (hcheck : checkCareful state action = true) : Careful state action := by
  cases action with
  | perform => trivial
  | advance id =>
    simp only [checkCareful, Careful] at hcheck ⊢
    cases hid : state.executions id with
    | queued task =>
      rw [hid] at hcheck
      exact of_decide_eq_true hcheck
    | copied task base =>
      rw [hid] at hcheck
      intro type object _ schema hschema name _ field hfield hnone
      have hindexer := find_of_allFields hcheck
        (mem_toList_iff_getElem?_eq_some.mpr hschema)
        (mem_toList_iff_getElem?_eq_some.mpr hfield)
      rw [hnone] at hindexer
      cases hindexer
    | updated base config newFields =>
      rw [hid] at hcheck
      intro _ entry hentry field hfield
      exact of_decide_eq_true (find_of_allFields hcheck hentry hfield)
    | _ => trivial

section Checked

variable [DecidableEq Id] [Fintype Id] [Libraries] [Config.Part Pipe]
  [Config.Part Categoriser]

def checkCarefulRun (collName : Bytes)
    (state : State Id Pipe Categoriser) : List (Action Id) → Bool
  | [] => true
  | action :: rest => checkCareful state action &&
      checkCarefulRun collName (state.step collName action) rest

theorem carefulRun_of_check {collName : Bytes} {state : State Id Pipe Categoriser}
    {actions : List (Action Id)}
    (hcheck : checkCarefulRun collName state actions = true) :
    CarefulRun collName state actions := by
  induction actions generalizing state with
  | nil => trivial
  | cons action rest ih =>
    obtain ⟨hfirst, hrest⟩ := Bool.and_eq_true_iff.mp hcheck
    exact ⟨careful_of_check hfirst, ih hrest⟩

end Checked

/-- A default type that stores every field. -/
def storingType : Json :=
  .object [(ascii "patterns", .array [.array [literal "*",
    .object [(ascii "store_field", literal "*"),
      (ascii "type", literal "stored")]]])]

theorem parsed_storingType : storingType.Parsed := by
  have hconfig : (Json.object [(ascii "store_field", literal "*"),
      (ascii "type", literal "stored")]).Parsed := by
    apply Json.Parsed.object
    · exact pairwise_pair.mpr
        (by decide : compare (ascii "store_field") (ascii "type") = .lt)
    · decide
    · intro entry hentry
      rcases mem_pair.mp hentry with rfl | rfl <;> exact .string (by decide)
  apply Json.Parsed.object
  · exact pairwise_singleton _ _
  · intro entry hentry
    cases mem_singleton.mp hentry
    exact (by decide : cString (ascii "patterns") = ascii "patterns")
  · intro entry hentry
    cases mem_singleton.mp hentry
    apply Json.Parsed.array
    intro pattern hpattern
    cases mem_singleton.mp hpattern
    apply Json.Parsed.array
    intro item hitem
    rcases mem_pair.mp hitem with rfl | rfl
    · exact .string (by decide)
    · exact hconfig

def storingConfig : CollectionConfig Empty Empty :=
  { CollectionConfig.blank (ascii "books") with
    defaultTypeConfig := storingType
    idField := ascii "id"
    typeField := ascii "type" }

theorem served_storingConfig : storingConfig.Served where
  given :=
    { collName := by decide
      types := fun entry hentry => by
        have hempty : (∅ : StdMap Schema).toList = [] := rfl
        change entry ∈ (∅ : StdMap Schema).toList at hentry
        rw [hempty] at hentry
        cases hentry
      defaultType := .inr (Option.isNone_iff_eq_none.mp (by decide +kernel))
      pipes := fun entry _ => entry.2.elim
      categorisers := fun entry _ => entry.2.elim
      taxonomies := fun entry hentry => by
        have hempty : (∅ : StdMap Taxonomy).toList = [] := rfl
        change entry ∈ (∅ : StdMap Taxonomy).toList at hentry
        rw [hempty] at hentry
        cases hentry }
  patterns := fun type schema hschema => by
    simp [storingConfig, blank] at hschema
  defaultType := parsed_storingType

/-- A book that only has one field, apart from its type and its id. -/
def bookTask (field id : String) : DocumentTask where
  doc := (Json.object []).setMember (cString (ascii field)) (literal "x")
  docType := ascii "book"
  docId := ascii id
  parsed := (Json.Parsed.object .nil nofun nofun).setMember
    (cString_cString _) (.string (by decide))

/-- One document has a title, the other one has an author. -/
def twoBooks : State Bool Empty Empty where
  cached := none
  created := true
  stored := ⟨storingConfig, storingConfig.toJson⟩
  queue := []
  executions := fun second =>
    .queued (if second then bookTask "author" "2" else bookTask "title" "1")

theorem start_twoBooks : Start (ascii "books") twoBooks where
  executions := fun _ => ⟨_, rfl⟩
  queue := rfl
  stored := served_storingConfig
  created := nofun
  cached := nofun

theorem quiet_of_check [Fintype Id] {state : State Id Pipe Categoriser}
    (hcheck : (decide (∀ id, (state.executions id).Ended) && state.queue.isEmpty) =
      true) :
    Quiet state := by
  obtain ⟨hended, hempty⟩ := Bool.and_eq_true_iff.mp hcheck
  exact ⟨of_decide_eq_true hended, isEmpty_iff.mp hempty⟩

/-- The configuration of a field of books is there. -/
def hasField (config : CollectionConfig Empty Empty) (name : String) : Bool :=
  !(config.fieldJson (ascii "book") (ascii name)).isNull

/-- An execution has added a field of books. -/
def addsField (execution : Execution Empty Empty) (name : String) : Bool :=
  match execution with
  | .finished base config => hasField config name && !hasField base name
  | _ => false

theorem lost_of_addsField {state : State Bool Empty Empty} (id : Bool) (name : String)
    (hadds : addsField (state.executions id) name = true)
    (hlost : hasField state.stored.config name = false) :
    ¬NoLostUpdate state := by
  intro hnone
  cases hid : state.executions id with
  | finished base config =>
    rw [hid] at hadds
    simp only [addsField, Bool.and_eq_true, Bool.not_eq_true'] at hadds
    obtain ⟨hconfig, hbase⟩ := hadds
    have hadded : Added base config (ascii "book") (ascii name) := by
      constructor
      · simpa [hasField] using hconfig
      · intro hsame
        rw [hasField, hsame, ← hasField, hbase] at hconfig
        cases hconfig
    have hstored := (hnone.present id base config hid _ _ hadded).2
    rw [hasField, hstored, ← hasField, hconfig] at hlost
    cases hlost
  | _ =>
    rw [hid] at hadds
    cases hadds

/-- One document is processed after the other. -/
def serial : List (Action Bool) :=
  [.advance false, .advance false, .advance false, .advance false,
    .advance false, .perform, .perform, .advance true, .advance true,
    .advance true, .advance true, .advance true, .perform, .perform]

/-- Both fields are kept if the documents are processed one after the other. -/
theorem run_noLostUpdate_serial : ∃ _ : Libraries,
    Start (ascii "books") twoBooks ∧
      CarefulRun (ascii "books") twoBooks serial ∧
      Quiet (twoBooks.run (ascii "books") serial) ∧
      NoLostUpdate (twoBooks.run (ascii "books") serial) ∧
      (twoBooks.run (ascii "books") serial).cached.any fun cached =>
        hasField cached "title" && hasField cached "author" := by
  let _ : Libraries := Libraries.plain
  have hcareful : CarefulRun (ascii "books") twoBooks serial :=
    carefulRun_of_check (by decide +kernel)
  have hquiet : Quiet (twoBooks.run (ascii "books") serial) :=
    quiet_of_check (by decide +kernel)
  exact ⟨Libraries.plain, start_twoBooks, hcareful, hquiet,
    run_noLostUpdate start_twoBooks hcareful hquiet, by decide +kernel⟩

/-- Both documents get their copies before one of them is written back. -/
def overlapping : List (Action Bool) :=
  [.advance false, .advance true, .advance false, .advance true,
    .advance false, .advance false, .advance false, .advance true,
    .advance true, .advance true, .perform, .perform, .perform, .perform]

/-- The title is then neither in the cached configuration nor in that of the
collection. -/
theorem run_overlapping_loses_title : ∃ _ : Libraries,
    Start (ascii "books") twoBooks ∧
      Quiet (twoBooks.run (ascii "books") overlapping) ∧
      ¬NoLostUpdate (twoBooks.run (ascii "books") overlapping) := by
  refine ⟨Libraries.plain, start_twoBooks,
    quiet_of_check (by decide +kernel), ?_⟩
  exact lost_of_addsField false "title" (by decide +kernel)
    (by decide +kernel)

end Restpose.SchemaUpdates
