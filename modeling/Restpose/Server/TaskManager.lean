import Restpose.Server.Progress

/-!
# The task manager

`TaskManager` owns three groups of queues with their threads.  A task of the
processing group may put tasks on the indexing group with
`queue_indexing_from_processing`; the other threads of the process push tasks
and ask for the end with `stop()` and `join()`.  A step of the system below is
a stretch of one thread under a lock, or between two locks, so that all
interleavings of the source are runs of this relation.
-/

namespace Restpose

open Transition.Reachable

/-- What an indexing task does.  `clone()` keeps it. -/
inductive Payload where
  /-- An `IndexingCheckpointTask`. -/
  | checkpoint (checkid : Bytes) (doCommit : Bool)
  | other (code : ℕ)
  deriving DecidableEq

/-- What the constructors have stored in the task objects of a run. -/
structure TaskContents (Proc Index : Type) [TaskObject Proc]
    [TaskObject Index] where
  /-- The task inside a `DelayedIndexingTask`. -/
  wrapped : Proc → Option Payload
  payload : Index → Payload
  serial_wrapped : ∀ task inner, wrapped task = some inner →
    allowParallel task = false
  serial_indexing : ∀ task : Index, allowParallel task = false

/-- Where a processing thread is in `queue_indexing_from_processing`. -/
inductive ForwardPc where
  | outside
  /-- Before the lock of the processing group is taken. -/
  | entering (queue : Bytes) (payload : Payload)
  /-- Under the lock, before the push of a clone. -/
  | pushing (queue : Bytes) (payload : Payload)
  /-- Under the lock, before `set_inactive_internal`; a payload is to be pushed
  again after the wait. -/
  | pausing (queue : Bytes) (retry : Option Payload)
  /-- Inside `cond.wait()`. -/
  | waiting (queue : Bytes) (payload : Payload)
  deriving DecidableEq

/-- Where the main loop is in `serve()`. -/
inductive ServePc where
  | idle
  /-- The nudges have been read. -/
  | received
  /-- The busy indexing queues have been listed. -/
  | listed (busy : List Bytes)
  /-- These queues are still to be set active. -/
  | activating (remaining : List Bytes)
  deriving DecidableEq

/-- Where the main thread is on its way through `stop()` and `join()`. -/
inductive Stage where
  | running
  | closingProcessing
  | closingSearch
  | drainingProcessing
  | closingIndexing
  | stoppingProcessing
  | drainingSearch
  | stoppingSearch
  | drainingIndexing
  | stoppingIndexing
  | joining
  | ended
  deriving DecidableEq

/-- A call of `queue_indexing_from_processing` made by a task, with the clone
that it pushed. -/
structure Forward (Proc Index : Type) where
  key : Bytes
  task : Proc
  queue : Bytes
  clone : Index

/-- The state of the manager.  The last three fields are history: the clones
that were accepted, those that were dropped because the indexing group was
closed, and the calls of `set_reached`. -/
structure TaskManager (Proc Index Query Worker Handler Searcher : Type) where
  processing : Pool Proc Worker Empty
  indexing : Pool Index Empty Handler
  search : Pool Query Searcher Empty
  /-- The thread that holds the lock of the processing group between steps. -/
  lock : Option Worker
  forwarding : Worker → ForwardPc
  /-- The `perform` of a thread has called `queue_indexing_from_processing`. -/
  called : Worker → Bool
  /-- The bytes in the nudge socket. -/
  pipe : List Byte
  serving : ServePc
  stage : Stage
  forwards : List (Forward Proc Index)
  dropped : List (Forward Proc Index)
  reached : List (Bytes × Bytes)

/-- The steps of the manager. -/
inductive ManagerEvent
    (Proc Index Query Worker Handler Searcher : Type) where
  | processing (event : PoolEvent Proc Worker Empty)
  | indexing (event : PoolEvent Index Empty Handler)
  | search (event : PoolEvent Query Searcher Empty)
  | forward (worker : Worker)
  | setReached (handler : Handler) (key checkid : Bytes)
  | serve
  /-- The main thread moves on in a stage of `stop()` or `join()`. -/
  | main (stage : Stage)

/-- The events that do not come from the manager. -/
def PoolEvent.own {Task Worker Handler : Type} :
    PoolEvent Task Worker Handler → Bool
  | .setActive _ _ => false
  | .setInactiveInternal _ => false
  | .close => false
  | .stopWorker _ => false
  | .stopHandler _ => false
  | _ => true

namespace Pool

variable {Task Worker Handler : Type}

/-- The byte that a thread sends with its next step. -/
def sent (pool : Pool Task Worker Handler) :
    PoolEvent Task Worker Handler → List Byte
  | .runWorker worker =>
      match pool.worker worker with
      | .nudging _ _ byte => [byte]
      | _ => []
  | .runHandler handler =>
      match pool.handler handler with
      | .nudging _ _ byte _ => [byte]
      | _ => []
  | _ => []

/-- The next step of a worker is a stretch of `pop_any` under the lock. -/
def popsNext (pool : Pool Task Worker Handler) (worker : Worker) : Bool :=
  match pool.worker worker with
  | .top _ => !pool.workerStop worker
  | .waiting => true
  | _ => false

/-- `thread->stop()` on a worker. -/
def stopWorker [DecidableEq Worker] (pool : Pool Task Worker Handler)
    (worker : Worker) : Pool Task Worker Handler :=
  { pool with workerStop := Function.update pool.workerStop worker true }

/-- `thread->stop()` on a handler. -/
def stopHandler [DecidableEq Handler] (pool : Pool Task Worker Handler)
    (handler : Handler) : Pool Task Worker Handler :=
  { pool with handlerStop := Function.update pool.handlerStop handler true }

end Pool

/-- A thread has left `run()`. -/
def WorkerPc.ended {Task : Type} : WorkerPc Task → Bool
  | .returned => true
  | .dead => true
  | _ => false

/-- A thread has left `run()` and `cleanup()`. -/
def HandlerPc.ended {Task : Type} : HandlerPc Task → Bool
  | .returned _ => true
  | .dead _ _ => true
  | _ => false

namespace TaskQueueGroup

variable {Task : Type}

def getBusyQueues (group : TaskQueueGroup Task) : List Bytes :=
  group.queues.keys.filter fun key =>
    decide (group.throttleSize ≤ (group.info key).queue.length)

def getInactiveQueues (group : TaskQueueGroup Task) : List Bytes :=
  group.queues.keys.filter fun key => !(group.info key).active

end TaskQueueGroup

namespace TaskManager

variable {Proc Index Query Worker Handler Searcher : Type}

/-- `TaskManager()`, with the threads of `start()`.  The groups have the sizes
of the constructor and nudge with the bytes `P`, `I` and `S`. -/
def start (fd : ℤ) :
    TaskManager Proc Index Query Worker Handler Searcher :=
  { processing := Pool.start
      ((TaskQueueGroup.create 100000 101000).setNudge fd 80)
    indexing := Pool.start
      ((TaskQueueGroup.create 100000 101000).setNudge fd 73)
    search := Pool.start ((TaskQueueGroup.create 1000 2000).setNudge fd 83)
    lock := none
    forwarding := fun _ => .outside
    called := fun _ => false
    pipe := []
    serving := .idle
    stage := .running
    forwards := []
    dropped := []
    reached := [] }

def setForwarding [DecidableEq Worker]
    (manager : TaskManager Proc Index Query Worker Handler Searcher)
    (worker : Worker) (pc : ForwardPc) :
    TaskManager Proc Index Query Worker Handler Searcher :=
  { manager with forwarding := Function.update manager.forwarding worker pc }

/-- A thread leaves `queue_indexing_from_processing` and the lock is
released. -/
def leave [DecidableEq Worker]
    (manager : TaskManager Proc Index Query Worker Handler Searcher)
    (worker : Worker) : TaskManager Proc Index Query Worker Handler Searcher :=
  { manager.setForwarding worker .outside with lock := none }

variable [TaskObject Proc] [TaskObject Index] [TaskObject Query]

/-- One turn of the loop of `queue_indexing_from_processing`: a clone is pushed
onto the indexing group, and the result says how to go on. -/
def pushClone [DecidableEq Worker]
    (manager : TaskManager Proc Index Query Worker Handler Searcher)
    (worker : Worker) (payload : Payload) (attempt : Forward Proc Index) :
    TaskManager Proc Index Query Worker Handler Searcher :=
  let operation := .push attempt.queue attempt.clone false
  let tried := { manager with indexing := manager.indexing.call operation }
  let accepted := { tried with forwards := manager.forwards ++ [attempt] }
  match manager.indexing.reply operation with
  | .queued .hasSpace => accepted.leave worker
  | .queued .lowSpace =>
      accepted.setForwarding worker (.pausing attempt.queue none)
  | .queued .full =>
      tried.setForwarding worker (.pausing attempt.queue (some payload))
  | _ => { tried with dropped := manager.dropped ++ [attempt] }.leave worker

/-- Where a thread goes on after `set_inactive_internal`. -/
def afterPause (queue : Bytes) : Option Payload → ForwardPc
  | none => .outside
  | some payload => .waiting queue payload

variable [DecidableEq Worker] [DecidableEq Handler] [DecidableEq Searcher]

/-- The steps of the clients and threads of the three groups, of `serve()` and
of `stop()` and `join()`. -/
inductive Step (contents : TaskContents Proc Index) :
    TaskManager Proc Index Query Worker Handler Searcher →
      ManagerEvent Proc Index Query Worker Handler Searcher →
        TaskManager Proc Index Query Worker Handler Searcher → Prop where
  | processingPush {manager} {key : Bytes} {task : Proc}
      {allowThrottle : Bool} {next : Pool Proc Worker Empty}
      (hstep : Pool.Step manager.processing (.push key task allowThrottle) next)
      (hlock : manager.lock = none) :
      Step contents manager (.processing (.push key task allowThrottle))
        { manager with processing := next }
  | processingRun {manager} {worker : Worker} {next : Pool Proc Worker Empty}
      (hstep : Pool.Step manager.processing (.runWorker worker) next)
      (hlock : manager.processing.popsNext worker = true →
        manager.lock = none) :
      Step contents manager (.processing (.runWorker worker))
        { manager with
          processing := next
          pipe := manager.pipe ++ manager.processing.sent (.runWorker worker) }
  | processingFinish {manager} {worker : Worker} {key : Bytes}
      {task : Proc} {next : Pool Proc Worker Empty}
      (hstep : Pool.Step manager.processing (.finishWorker worker) next)
      (hworker : manager.processing.worker worker = .performing key task)
      (houtside : manager.forwarding worker = .outside)
      (hcalled : (contents.wrapped task).isSome →
        manager.called worker = true) :
      Step contents manager (.processing (.finishWorker worker))
        { manager with
          processing := next
          called := Function.update manager.called worker false }
  | processingKill {manager} {worker : Worker} {next : Pool Proc Worker Empty}
      (hstep : Pool.Step manager.processing (.killWorker worker) next)
      (houtside : manager.forwarding worker = .outside) :
      Step contents manager (.processing (.killWorker worker))
        { manager with processing := next }
  | indexing {manager} {event : PoolEvent Index Empty Handler}
      {next : Pool Index Empty Handler}
      (hstep : Pool.Step manager.indexing event next)
      (hown : event.own = true) :
      Step contents manager (.indexing event)
        { manager with
          indexing := next
          pipe := manager.pipe ++ manager.indexing.sent event }
  | search {manager} {event : PoolEvent Query Searcher Empty}
      {next : Pool Query Searcher Empty}
      (hstep : Pool.Step manager.search event next) (hown : event.own = true) :
      Step contents manager (.search event)
        { manager with
          search := next
          pipe := manager.pipe ++ manager.search.sent event }
  -- A `DelayedIndexingTask` makes the call once, for its own collection and
  -- with the task inside it; other tasks make any calls.
  | forwardCall {manager} {worker : Worker} {key : Bytes} {task : Proc}
      (queue : Bytes) (payload : Payload)
      (hworker : manager.processing.worker worker = .performing key task)
      (houtside : manager.forwarding worker = .outside)
      (hwrapped : ∀ inner, contents.wrapped task = some inner →
        manager.called worker = false ∧ queue = key ∧ payload = inner) :
      Step contents manager (.forward worker)
        { manager.setForwarding worker (.entering queue payload) with
          called := Function.update manager.called worker true }
  | forwardLock {manager} {worker : Worker} {queue : Bytes}
      {payload : Payload}
      (hpc : manager.forwarding worker = .entering queue payload ∨
        manager.forwarding worker = .waiting queue payload)
      (hlock : manager.lock = none) :
      Step contents manager (.forward worker)
        { manager.setForwarding worker (.pushing queue payload) with
          lock := some worker }
  | forwardPush {manager} {worker : Worker} {payload : Payload}
      (attempt : Forward Proc Index)
      (hworker : manager.processing.worker worker =
        .performing attempt.key attempt.task)
      (hpc : manager.forwarding worker = .pushing attempt.queue payload)
      (hfresh : attempt.clone ∉ manager.indexing.pushed)
      (hclone : contents.payload attempt.clone = payload) :
      Step contents manager (.forward worker)
        (manager.pushClone worker payload attempt)
  | forwardPause {manager} {worker : Worker} {queue : Bytes}
      {retry : Option Payload}
      (hpc : manager.forwarding worker = .pausing queue retry) :
      Step contents manager (.forward worker)
        { manager.setForwarding worker (afterPause queue retry) with
          processing := manager.processing.call (.setInactiveInternal queue)
          lock := none }
  -- An exception leaves the function, which releases the lock.
  | forwardThrow {manager} {worker : Worker} {queue : Bytes}
      {payload : Payload} {retry : Option Payload}
      (hpc : manager.forwarding worker = .pushing queue payload ∨
        manager.forwarding worker = .pausing queue retry) :
      Step contents manager (.forward worker) (manager.leave worker)
  -- `post_perform` of an `IndexingCheckpointTask`.
  | setReached {manager} {handler : Handler} {key checkid : Bytes}
      {clone : Index} {collection doCommit : Bool}
      (hhandler : manager.indexing.handler handler =
        .performing key clone collection)
      (hpayload : contents.payload clone = .checkpoint checkid doCommit) :
      Step contents manager (.setReached handler key checkid)
        { manager with reached := manager.reached ++ [(key, checkid)] }
  | serveRead {manager} {count : ℕ} (hstage : manager.stage = .running)
      (hserving : manager.serving = .idle) (hpos : 0 < count)
      (hcount : count ≤ manager.pipe.length) :
      Step contents manager .serve
        { manager with
          pipe := manager.pipe.drop count
          serving := .received }
  | serveBusy {manager} (hstage : manager.stage = .running)
      (hserving : manager.serving = .received) :
      Step contents manager .serve
        { manager with
          serving := .listed manager.indexing.group.getBusyQueues }
  | serveInactive {manager} {busy : List Bytes}
      (hstage : manager.stage = .running)
      (hserving : manager.serving = .listed busy)
      (hlock : manager.lock = none) :
      Step contents manager .serve
        { manager with
          serving := .activating (manager.processing.group.getInactiveQueues.filter
            fun key => !busy.contains key) }
  | serveActivate {manager} {key : Bytes} {remaining : List Bytes}
      (hstage : manager.stage = .running)
      (hserving : manager.serving = .activating (key :: remaining))
      (hlock : manager.lock = none) :
      Step contents manager .serve
        { manager with
          processing := manager.processing.call (.setActive key true)
          serving := .activating remaining }
  | serveDone {manager} (hstage : manager.stage = .running)
      (hserving : manager.serving = .activating []) :
      Step contents manager .serve { manager with serving := .idle }
  -- The main loop ends between two calls of `serve()` or with an exception
  -- inside one.
  | stop {manager} (hstage : manager.stage = .running) :
      Step contents manager (.main .running)
        { manager with
          serving := .idle
          stage := .closingProcessing }
  | closeProcessing {manager} (hstage : manager.stage = .closingProcessing)
      (hlock : manager.lock = none) :
      Step contents manager (.main .closingProcessing)
        { manager with
          processing := manager.processing.call .close
          stage := .closingSearch }
  | closeSearch {manager} (hstage : manager.stage = .closingSearch) :
      Step contents manager (.main .closingSearch)
        { manager with
          search := manager.search.call .close
          stage := .drainingProcessing }
  | drainProcessing {manager} (hstage : manager.stage = .drainingProcessing)
      (hlock : manager.lock = none)
      (hempty : manager.processing.group.closedAndEmpty = true) :
      Step contents manager (.main .drainingProcessing)
        { manager with stage := .closingIndexing }
  | closeIndexing {manager} (hstage : manager.stage = .closingIndexing) :
      Step contents manager (.main .closingIndexing)
        { manager with
          indexing := manager.indexing.call .close
          stage := .stoppingProcessing }
  | stopProcessing {manager} (worker : Worker)
      (hstage : manager.stage = .stoppingProcessing) :
      Step contents manager (.main .stoppingProcessing)
        { manager with processing := manager.processing.stopWorker worker }
  | stoppedProcessing {manager} (hstage : manager.stage = .stoppingProcessing)
      (hall : ∀ worker, manager.processing.workerStop worker = true ∨
        (manager.processing.worker worker).ended = true) :
      Step contents manager (.main .stoppingProcessing)
        { manager with stage := .drainingSearch }
  | drainSearch {manager} (hstage : manager.stage = .drainingSearch)
      (hempty : manager.search.group.closedAndEmpty = true) :
      Step contents manager (.main .drainingSearch)
        { manager with stage := .stoppingSearch }
  | stopSearch {manager} (searcher : Searcher)
      (hstage : manager.stage = .stoppingSearch) :
      Step contents manager (.main .stoppingSearch)
        { manager with search := manager.search.stopWorker searcher }
  | stoppedSearch {manager} (hstage : manager.stage = .stoppingSearch)
      (hall : ∀ searcher, manager.search.workerStop searcher = true ∨
        (manager.search.worker searcher).ended = true) :
      Step contents manager (.main .stoppingSearch)
        { manager with stage := .drainingIndexing }
  | drainIndexing {manager} (hstage : manager.stage = .drainingIndexing)
      (hempty : manager.indexing.group.closedAndEmpty = true) :
      Step contents manager (.main .drainingIndexing)
        { manager with stage := .stoppingIndexing }
  | stopIndexing {manager} (handler : Handler)
      (hstage : manager.stage = .stoppingIndexing) :
      Step contents manager (.main .stoppingIndexing)
        { manager with indexing := manager.indexing.stopHandler handler }
  | stoppedIndexing {manager} (hstage : manager.stage = .stoppingIndexing)
      (hall : ∀ handler, manager.indexing.handlerStop handler = true ∨
        (manager.indexing.handler handler).ended = true) :
      Step contents manager (.main .stoppingIndexing)
        { manager with stage := .joining }
  | join {manager} (hstage : manager.stage = .joining)
      (hprocessing : ∀ worker,
        (manager.processing.worker worker).ended = true)
      (hindexing : ∀ handler, (manager.indexing.handler handler).ended = true)
      (hsearch : ∀ searcher, (manager.search.worker searcher).ended = true) :
      Step contents manager (.main .joining)
        { manager with stage := .ended }

/-- The managers that can come about. -/
def Reachable (contents : TaskContents Proc Index) :
    TaskManager Proc Index Query Worker Handler Searcher → Prop :=
  Transition.Reachable (fun manager => ∃ fd, manager = start fd)
    (Step contents)

/-! ## The three groups -/

variable {contents : TaskContents Proc Index}
  {manager next : TaskManager Proc Index Query Worker Handler Searcher}
  {event : ManagerEvent Proc Index Query Worker Handler Searcher}

variable (worker : Worker) (payload : Payload) (attempt : Forward Proc Index)

omit [TaskObject Proc] [TaskObject Query] [DecidableEq Handler] [DecidableEq Searcher] in
@[simp]
theorem processing_pushClone : (manager.pushClone worker payload attempt).processing =
      manager.processing := by
  simp only [pushClone]
  split <;> rfl

omit [TaskObject Proc] [TaskObject Query] [DecidableEq Handler] [DecidableEq Searcher] in
@[simp]
theorem indexing_pushClone : (manager.pushClone worker payload attempt).indexing =
      manager.indexing.call (.push attempt.queue attempt.clone false) := by
  simp only [pushClone]
  split <;> rfl

variable (hstep : Step contents manager event next)

include hstep

/-- A step of the manager is at most one step of the processing group. -/
theorem Step.processing_eq :
    next.processing = manager.processing ∨
      ∃ own, Pool.Step manager.processing own next.processing := by
  cases hstep with
  | processingPush hstep | processingRun hstep | processingFinish hstep
  | processingKill hstep =>
    exact Or.inr ⟨_, hstep⟩
  | forwardPush => exact Or.inl (processing_pushClone _ _ _)
  | forwardPause => exact Or.inr ⟨_, .setInactiveInternal _⟩
  | serveActivate => exact Or.inr ⟨_, .setActive _ _⟩
  | closeProcessing => exact Or.inr ⟨_, .close⟩
  | stopProcessing worker => exact Or.inr ⟨_, .stopWorker worker⟩
  | _ => exact Or.inl rfl

theorem Step.indexing_eq :
    next.indexing = manager.indexing ∨ ∃ own,
      Pool.Step manager.indexing own next.indexing := by
  cases hstep with
  | indexing hstep => exact Or.inr ⟨_, hstep⟩
  | forwardPush attempt _ _ hfresh =>
    rw [indexing_pushClone]
    exact Or.inr ⟨_, .push _ _ _ hfresh⟩
  | closeIndexing => exact Or.inr ⟨_, .close⟩
  | stopIndexing handler => exact Or.inr ⟨_, .stopHandler handler⟩
  | _ => exact Or.inl rfl

omit hstep

theorem Reachable.processing (hreachable : Reachable contents manager) :
    Pool.Reachable 100000 101000 manager.processing := by
  apply invariant _ _ hreachable
  · rintro _ ⟨fd, rfl⟩
    exact .initial ⟨fd, 80, rfl⟩
  · intro state event after _ hbefore hstep
    rcases hstep.processing_eq with hsame | ⟨own, hown⟩
    · rwa [hsame]
    · exact .step hbefore hown

theorem Reachable.indexing (hreachable : Reachable contents manager) :
    Pool.Reachable 100000 101000 manager.indexing := by
  apply invariant _ _ hreachable
  · rintro _ ⟨fd, rfl⟩
    exact .initial ⟨fd, 73, rfl⟩
  · intro state event after _ hbefore hstep
    rcases hstep.indexing_eq with hsame | ⟨own, hown⟩
    · rwa [hsame]
    · exact .step hbefore hown

theorem Reachable.orderly_processing (hreachable : Reachable contents manager) :
    manager.processing.Orderly :=
  hreachable.processing.orderly fun handler => handler.elim

theorem Reachable.orderly_indexing (hreachable : Reachable contents manager) :
    manager.indexing.Orderly :=
  hreachable.indexing.orderly fun _ => contents.serial_indexing

omit [DecidableEq Handler] in
theorem exists_reply_push (pool : Pool Index Empty Handler) (key : Bytes) (task : Index)
    (allowThrottle : Bool) :
    ∃ state, pool.reply (.push key task allowThrottle) = .queued state := by
  have heffect := pool.effect_call (.push key task allowThrottle)
  generalize pool.reply (.push key task allowThrottle) = reply at heffect ⊢
  cases heffect with
  | accepted _ _ _ state | refused _ _ _ state => exact ⟨state, rfl⟩

omit [DecidableEq Handler] in
theorem accepted_call_push {pool : Pool Index Empty Handler} {key : Bytes} {task : Index}
    {allowThrottle : Bool} {state : QueueState}
    (hreply : pool.reply (.push key task allowThrottle) = .queued state) :
    (pool.call (.push key task allowThrottle)).toRecorded.accepted key =
      pool.toRecorded.accepted key ++ if state.accepts then [task] else [] := by
  have hrun : (Operation.run pool.group (.push key task allowThrottle)).2 =
    .queued state := hreply
  change (pool.toRecorded.call _).accepted key = _
  rw [Recorded.accepted_call, hrun]
  simp [Call.accepted]

omit [TaskObject Proc] [TaskObject Query] [DecidableEq Handler] [DecidableEq Searcher] in
/-- A clone is recorded as forwarded when its push is accepted, and as dropped
when the group is closed. -/
theorem history_pushClone {state : QueueState}
    (hreply : manager.indexing.reply (.push attempt.queue attempt.clone false) =
      .queued state) :
    (manager.pushClone worker payload attempt).forwards =
        manager.forwards ++ (if state.accepts then [attempt] else []) ∧
      (manager.pushClone worker payload attempt).dropped =
        manager.dropped ++ (if state = .closed then [attempt] else []) := by
  simp only [pushClone, hreply]
  cases state <;> simp [leave, setForwarding, QueueState.accepts]

/-- The history of the forwarded clones grows with the indexing group. -/
theorem Step.forwards_eq (hstep : Step contents manager event next) :
    next.forwards = manager.forwards ∨ ∃ worker attempt payload,
      manager.processing.worker worker =
            .performing attempt.key attempt.task ∧
          manager.forwarding worker = .pushing attempt.queue payload ∧
          next.processing = manager.processing ∧
          next.forwards = manager.forwards ++ [attempt] ∧
          next.indexing.toRecorded.accepted attempt.queue =
            manager.indexing.toRecorded.accepted attempt.queue ++ [attempt.clone] := by
  cases hstep with
  | @forwardPush worker payload attempt hworker hpc hfresh hclone =>
    obtain ⟨state, hreply⟩ :=
      exists_reply_push manager.indexing attempt.queue attempt.clone false
    obtain ⟨hforwards, _⟩ := history_pushClone worker payload attempt hreply
    have haccepted := accepted_call_push hreply
    cases hstate : state.accepts with
    | false => exact Or.inl (by simp [hforwards, hstate])
    | true =>
      refine Or.inr ⟨worker, attempt, payload, hworker, hpc, ?_, ?_, ?_⟩
      · exact processing_pushClone _ _ _
      · simp [hforwards, hstate]
      · rw [indexing_pushClone, haccepted]
        simp [hstate]
  | _ => exact Or.inl rfl

end TaskManager

end Restpose
