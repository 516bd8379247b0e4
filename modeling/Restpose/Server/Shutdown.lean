import Restpose.Server.Checkpoint

/-!
# Shutting down

`join()` closes the indexing group once the processing group is closed and its
queues are empty.  It does not wait for the tasks in progress, so a task that
is being performed at that moment may still want to push an indexing task,
which is then dropped.  When no processing thread has a task at that moment,
none gets one afterwards.
-/

namespace Restpose

open Call

variable {Task : Type}

/-- The group is closed and all its queues are empty. -/
def TaskQueueGroup.Drained (group : TaskQueueGroup Task) : Prop :=
  group.closed = true ∧ ∀ key, (group.info key).queue = []

variable [TaskObject Task]

omit [TaskObject Task] in
theorem TaskQueueGroup.drained_of_closedAndEmpty {group : TaskQueueGroup Task}
    (hempty : group.closedAndEmpty = true) : group.Drained := by
  simp only [closedAndEmpty, Bool.and_eq_true, List.all_eq_true,
    List.isEmpty_iff] at hempty
  refine ⟨hempty.1, ?_⟩
  intro key
  by_cases hkey : key ∈ group.queues
  · exact hempty.2 key (Std.ExtTreeMap.mem_keys.mpr hkey)
  · have hfresh : group.info key = QueueInfo.fresh := by
      rw [info, Std.ExtTreeMap.getElem?_eq_none hkey, Option.getD_none]
    rw [hfresh]
    rfl

namespace Operation

variable {group : TaskQueueGroup Task} {operation : Operation Task}

theorem accepted_eq_nil (hclosed : group.closed = true) (key : Bytes) :
    accepted key (operation, (operation.run group).2) = [] := by
  have heffect := operation.effect_run group
  generalize (operation.run group).2 = reply at heffect ⊢
  generalize (operation.run group).1 = after at heffect
  cases heffect with
  | accepted _ _ _ _ _ hopen =>
    rw [hclosed] at hopen
    contradiction
  | refused _ _ _ state hstate =>
    rcases hstate with rfl | rfl <;> simp [accepted, QueueState.accepts]
  | _ => simp [accepted]

theorem drained_run (hdrained : group.Drained) (operation : Operation Task) :
    (operation.run group).1.Drained ∧ (operation.run group).2.task = none := by
  have hboth : ∀ key, returned key (operation, (operation.run group).2) = [] ∧
        ((operation.run group).1.info key).queue = [] := by
    intro key
    have hconserved := operation.conservation group key
    rw [hdrained.2 key, accepted_eq_nil hdrained.1, List.append_nil] at hconserved
    exact List.append_eq_nil_iff.mp hconserved.symm
  refine ⟨⟨?_, fun key => (hboth key).2⟩, ?_⟩
  · exact (operation.effect_run group).closed_of_closed hdrained.1
  · cases htask : (operation.run group).2.task with
    | none => rfl
    | some entry =>
      have hnone := (hboth entry.1).1
      rw [returned_eq, htask] at hnone
      simp at hnone

end Operation

namespace Pool

variable {Worker Handler : Type} [DecidableEq Worker] [DecidableEq Handler]
  {pool next : Pool Task Worker Handler}
  {event : PoolEvent Task Worker Handler}

theorem Step.closed_eq (hstep : Step pool event next) (hclose : event ≠ .close) :
    next.group.closed = pool.group.closed := by
  have hcall : ∀ operation : Operation Task, operation ≠ .close →
      (pool.call operation).group.closed = pool.group.closed :=
    fun operation => (pool.effect_call operation).closed_eq
  cases hstep with
  | close => exact absurd rfl hclose
  | _ => first | rfl | exact hcall _ (by simp)

theorem Step.drained (hstep : Step pool event next) (hdrained : pool.group.Drained) :
    next.group.Drained := by
  rcases hstep.toRecorded_eq with hsame | ⟨operation, hcall⟩
  · rwa [congrArg Recorded.group hsame]
  · rw [congrArg Recorded.group hcall]
    exact (Operation.drained_run hdrained operation).1

/-- A worker that has no task gets none from a drained group. -/
theorem Step.busy_worker (hstep : Step pool event next) (hdrained : pool.group.Drained)
    {worker : Worker} (hidle : (pool.worker worker).busy = none) :
    (next.worker worker).busy = none := by
  have hmove : ∀ other (state : Pool Task Worker Handler) pc, state.worker = pool.worker →
        (other = worker → WorkerPc.busy pc = none) →
          ((state.setWorker other pc).worker worker).busy = none := by
    intro other state pc hsame hpc
    change (Function.update state.worker other pc worker).busy = none
    by_cases hother : worker = other
    · subst other
      rw [Function.update_self]
      exact hpc rfl
    · rwa [Function.update_of_ne hother, hsame]
  have hpop : ∀ completed, (WorkerPc.afterPop (pool.reply (.popAny completed))).busy =
      none := by
    intro completed
    have hnone := (Operation.drained_run hdrained (.popAny completed)).2
    change (pool.reply (.popAny completed)).task = none at hnone
    cases hreply : pool.reply (.popAny completed) with
    | popped key task nudge => simp [hreply, Reply.task] at hnone
    | _ => rfl
  cases hstep with
  | @workerStopped other | @workerKill other =>
    exact hmove other pool _ rfl fun _ => rfl
  | @workerPop other | @workerRetry other =>
    exact hmove other _ _ rfl fun _ => hpop _
  | @workerNudge other _ _ _ hpc =>
    refine hmove other pool _ rfl ?_
    rintro rfl
    simp [hpc, WorkerPc.busy] at hidle
  | @workerFinish other => exact hmove other _ _ rfl fun _ => rfl
  | _ => exact hidle

end Pool

namespace TaskManager

variable {Proc Index Query Worker Handler Searcher : Type}
  [TaskObject Proc] [TaskObject Index] [TaskObject Query]
  [DecidableEq Worker] [DecidableEq Handler] [DecidableEq Searcher]
  {contents : TaskContents Proc Index}
  {manager next : TaskManager Proc Index Query Worker Handler Searcher}
  {event : ManagerEvent Proc Index Query Worker Handler Searcher}

omit [TaskObject Proc] [TaskObject Query] [DecidableEq Handler] [DecidableEq Searcher] in
@[simp]
theorem stage_pushClone (worker : Worker) (payload : Payload)
    (attempt : Forward Proc Index) :
    (manager.pushClone worker payload attempt).stage = manager.stage := by
  simp only [pushClone]
  split <;> rfl

variable (hstep : Step contents manager event next)

include hstep

/-- `join()` closes the indexing group after it has found the processing group
drained. -/
theorem Step.drained_of_stage (hstage : next.stage = .closingIndexing) :
    manager.stage = .closingIndexing ∨ manager.processing.group.Drained := by
  cases hstep with
  | forwardPush => exact Or.inl (by simpa using hstage)
  | drainProcessing _ _ hempty =>
    exact Or.inr (TaskQueueGroup.drained_of_closedAndEmpty hempty)
  | _ => first | exact Or.inl hstage | contradiction

/-- Only `join()` closes the indexing group. -/
theorem Step.closed_indexing (hclosed : next.indexing.group.closed = true) :
    manager.indexing.group.closed = true ∨
      (event = .main .closingIndexing ∧ manager.stage = .closingIndexing) := by
  cases hstep with
  | @indexing own after hstep hown =>
    refine Or.inl ?_
    rw [← hstep.closed_eq (by rintro rfl; simp [PoolEvent.own] at hown)]
    exact hclosed
  | forwardPush attempt =>
    refine Or.inl ?_
    have heffect := manager.indexing.effect_call (.push attempt.queue attempt.clone false)
    rw [indexing_pushClone] at hclosed
    rwa [← heffect.closed_eq (by simp)]
  | closeIndexing hstage => exact Or.inr ⟨rfl, hstage⟩
  | _ => exact Or.inl hclosed

/-- A task is dropped only when the indexing group is closed, while a thread
performs a processing task. -/
theorem Step.dropped_eq :
    next.dropped = manager.dropped ∨ (manager.indexing.group.closed = true ∧
        ∃ worker, (manager.processing.worker worker).busy ≠ none) := by
  cases hstep with
  | @forwardPush worker payload attempt hworker =>
    obtain ⟨state, hreply⟩ :=
      exists_reply_push manager.indexing attempt.queue attempt.clone false
    obtain ⟨_, hdropped⟩ := history_pushClone worker payload attempt hreply
    by_cases hstate : state = .closed
    · refine Or.inr ⟨?_, worker, by simp [hworker, WorkerPc.busy]⟩
      have heffect := manager.indexing.effect_call
        (.push attempt.queue attempt.clone false)
      rw [hreply, hstate] at heffect
      cases heffect with
      | accepted _ _ _ _ haccepts => simp at haccepts
      | refused _ _ _ _ _ hiff => exact hiff.mp rfl
    · exact Or.inl (by simp [hdropped, hstate])
  | _ => exact Or.inl rfl

omit hstep

/-- A step that closes the indexing group is taken while no processing thread
has a task. -/
def QuietStep (contents : TaskContents Proc Index)
    (manager : TaskManager Proc Index Query Worker Handler Searcher)
    (event : ManagerEvent Proc Index Query Worker Handler Searcher)
    (next : TaskManager Proc Index Query Worker Handler Searcher) : Prop :=
  Step contents manager event next ∧
    (event = .main .closingIndexing →
      ∀ worker, (manager.processing.worker worker).busy = none)

/-- The managers that quiet steps lead to. -/
def QuietlyReachable (contents : TaskContents Proc Index) :
    TaskManager Proc Index Query Worker Handler Searcher → Prop :=
  Transition.Reachable (fun manager => ∃ fd, manager = start fd)
    (QuietStep contents)

theorem QuietlyReachable.reachable (hreachable : QuietlyReachable contents manager) :
    Reachable contents manager := by
  apply Transition.Reachable.invariant _ _ hreachable
  · exact fun state hstart => .initial hstart
  · exact fun state event after _ hbefore hstep => .step hbefore hstep.1

/-- What holds in a run of quiet steps. -/
structure Guarded
    (manager : TaskManager Proc Index Query Worker Handler Searcher) :
    Prop where
  drained : manager.stage = .closingIndexing →
    manager.processing.group.Drained
  closed : manager.indexing.group.closed = true →
    manager.processing.group.Drained ∧
      ∀ worker, (manager.processing.worker worker).busy = none
  dropped : manager.dropped = []

theorem Guarded.step (hguarded : Guarded manager)
    (hquiet : QuietStep contents manager event next) : Guarded next := by
  obtain ⟨hstep, hidle⟩ := hquiet
  have hdrained : manager.processing.group.Drained →
      next.processing.group.Drained := by
    intro hbefore
    rcases hstep.processing_eq with hsame | ⟨own, hown⟩
    · rwa [hsame]
    · exact hown.drained hbefore
  have hbusy : manager.processing.group.Drained →
      (∀ worker, (manager.processing.worker worker).busy = none) →
        ∀ worker, (next.processing.worker worker).busy = none := by
    intro hbefore hnone worker
    rcases hstep.processing_eq with hsame | ⟨own, hown⟩
    · rw [hsame]
      exact hnone worker
    · exact hown.busy_worker hbefore (hnone worker)
  constructor
  · intro hstage
    rcases hstep.drained_of_stage hstage with hbefore | hbefore
    · exact hdrained (hguarded.drained hbefore)
    · exact hdrained hbefore
  · intro hclosed
    rcases hstep.closed_indexing hclosed with hbefore | ⟨hevent, hstage⟩
    · obtain ⟨hempty, hnone⟩ := hguarded.closed hbefore
      exact ⟨hdrained hempty, hbusy hempty hnone⟩
    · have hempty := hguarded.drained hstage
      exact ⟨hdrained hempty, hbusy hempty (hidle hevent)⟩
  · rcases hstep.dropped_eq with hsame | ⟨hclosed, worker, hworker⟩
    · rw [hsame, hguarded.dropped]
    · exact absurd ((hguarded.closed hclosed).2 worker) hworker

/-- In a run in which no processing thread has a task when `join()` closes the
indexing group, no indexing task is dropped: every call of
`queue_indexing_from_processing` that pushed its task pushed it onto an open
queue. -/
theorem no_task_dropped (hreachable : QuietlyReachable contents manager) :
    manager.dropped = [] ∧
      ∀ forward ∈ manager.forwards,
        forward.clone ∈ manager.indexing.toRecorded.accepted forward.queue := by
  refine ⟨?_, hreachable.reachable.pipelined.accepted⟩
  have hguarded : Guarded manager := by
    apply Transition.Reachable.invariant _ _ hreachable
    · rintro _ ⟨fd, rfl⟩
      constructor <;>
        simp [start, Pool.start, TaskQueueGroup.create, TaskQueueGroup.setNudge]
    · exact fun state event after _ hbefore hstep => hbefore.step hstep
  exact hguarded.dropped

section Witness

/-- No task is a checkpoint. -/
def plainContents : TaskContents BareTask IndexingTask where
  wrapped _ := none
  payload _ := .other 0
  serial_wrapped := by simp
  serial_indexing := IndexingTask.serial

/-- The main thread moves on only while no processing thread has a task. -/
def quietly
    (manager : Small 1 1) :
    SmallMove 1 1 → Bool
  | .main _ => decide
      (∀ worker, ((manager.processing.worker worker).busy = none))
  | _ => true

/-- A task is pushed and performed before the manager stops. -/
def quietMoves : List (SmallMove 1 1) :=
  [.processing (.push (ascii "a") ⟨1, true⟩ true),
    .processing (.runWorker 0),
    .call 0 (ascii "a") (.other 0),
    .lock 0,
    .push 0 ⟨1⟩,
    .processing (.finishWorker 0)] ++ closingMoves

theorem isSome_quietMoves :
    (runMoves plainContents quietly quietMoves).isSome = true := by
  decide

/-- The manager after the indexing group has been closed. -/
def quietState : Small 1 1 :=
  (runMoves plainContents quietly quietMoves).get isSome_quietMoves

theorem no_task_dropped_quietState :
    quietState.indexing.group.closed = true ∧ quietState.dropped = [] ∧
      (⟨1⟩ : IndexingTask) ∈
        quietState.indexing.toRecorded.accepted (ascii "a") := by
  have hreachable : QuietlyReachable plainContents quietState := by
    apply reachable_runMoves _ (Option.some_get isSome_quietMoves).symm
    intro state move next hallowed hstep
    refine ⟨hstep, ?_⟩
    intro hevent
    rw [eq_main hevent] at hallowed
    exact of_decide_eq_true hallowed
  have hforwards : quietState.forwards =
      [⟨ascii "a", ⟨1, true⟩, ascii "a", ⟨1⟩⟩] := by rfl
  obtain ⟨hdropped, haccepted⟩ := no_task_dropped hreachable
  refine ⟨by decide, hdropped, ?_⟩
  exact haccepted ⟨ascii "a", ⟨1, true⟩, ascii "a", ⟨1⟩⟩ (by simp [hforwards])

/-- A task is popped, the manager stops and finds the processing group closed
and empty, and only then the task asks for its indexing task to be pushed. -/
def droppingMoves : List (SmallMove 1 1) :=
  [.processing (.push (ascii "a") ⟨1, true⟩ true),
    .processing (.runWorker 0)] ++ closingMoves ++
  [.call 0 (ascii "a") (.other 0),
    .lock 0,
    .push 0 ⟨1⟩]

theorem isSome_droppingMoves :
    (runMoves plainContents anyMove droppingMoves).isSome = true := by
  decide

/-- The manager after the push onto the closed indexing group. -/
def droppingState : Small 1 1 :=
  (runMoves plainContents anyMove droppingMoves).get
    isSome_droppingMoves

/-- The indexing task of an accepted processing task can be dropped. -/
theorem task_dropped_droppingState :
    Reachable plainContents droppingState ∧
      (⟨1, true⟩ : BareTask) ∈
        droppingState.processing.toRecorded.accepted (ascii "a") ∧
      droppingState.dropped = [⟨ascii "a", ⟨1, true⟩, ascii "a", ⟨1⟩⟩] ∧
      droppingState.indexing.toRecorded.accepted (ascii "a") = [] := by
  refine ⟨?_, by decide, rfl, by decide⟩
  exact .of_runMoves (Option.some_get isSome_droppingMoves).symm

end Witness

end TaskManager

end Restpose
