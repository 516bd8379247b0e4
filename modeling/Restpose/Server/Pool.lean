import Restpose.Core.Transition
import Restpose.Server.Delivery

/-!
# Threads serving a group of queues

`ProcessingThread` and `SearchThread` loop on `pop_any`; they are called workers
here.  `IndexingThread` takes a whole queue with `assign_handler`, pops from it
with `pop_from` until a wait times out or a task fails, and gives it back with
`unassign_handler`; it is called a handler.  A pool is a group with any number
of workers and handlers and with the calls that other threads may make at any
time.  Between two steps of one thread all others may take steps.
-/

namespace Restpose

/-- Where a worker is in its loop. -/
inductive WorkerPc (Task : Type) where
  /-- At the head of the loop, with the task it performed last. -/
  | top (previous : Option (Bytes × Task))
  /-- Waiting inside `pop_any`. -/
  | waiting
  /-- Returning from `pop_any`, about to send the nudge byte. -/
  | nudging (key : Bytes) (task : Task) (byte : Byte)
  /-- Inside `perform`. -/
  | performing (key : Bytes) (task : Task)
  /-- Returned from `run()`. -/
  | returned
  /-- Ended by an exception that `run()` does not catch. -/
  | dead
  deriving DecidableEq

/-- Where a handler is in its loop.  The flag says whether the thread holds a
collection. -/
inductive HandlerPc (Task : Type) where
  /-- At the head of the outer loop. -/
  | top
  /-- Waiting inside `assign_handler`. -/
  | assigning
  /-- At the head of the inner loop, with the task it performed last. -/
  | popping (key : Bytes) (previous : Option Task) (collection : Bool)
  /-- Waiting inside `pop_from`. -/
  | waiting (key : Bytes) (collection : Bool)
  /-- Returning from `pop_from`, about to send the nudge byte. -/
  | nudging (key : Bytes) (task : Task) (byte : Byte) (collection : Bool)
  /-- Inside `perform`. -/
  | performing (key : Bytes) (task : Task) (collection : Bool)
  /-- Out of the inner loop, before the call of `completed`. -/
  | leaving (key : Bytes) (task : Option Task) (collection : Bool)
  /-- Before the call of `unassign_handler` at the end of the outer loop. -/
  | unassigning (key : Bytes)
  /-- Returned from `run()` because the queue is closed and empty, before
  `cleanup()`. -/
  | finishing (key : Bytes) (collection : Bool)
  /-- Returned from `run()` and from `cleanup()`, which leaves the queue
  assigned when there is no collection. -/
  | returned (held : Option Bytes)
  /-- Ended by an exception that `run()` does not catch, before `cleanup()`. -/
  | dying (key : Bytes) (task : Option Task) (collection : Bool)
  /-- Ended by an exception, after `cleanup()`. -/
  | dead (held : Option Bytes) (task : Option Task)
  deriving DecidableEq

namespace WorkerPc

variable {Task : Type}

/-- Where a worker is after a stretch of `pop_any`. -/
def afterPop : Reply Task → WorkerPc Task
  | .popped key task none => .performing key task
  | .popped key task (some byte) => .nudging key task byte
  | .finished => .returned
  | .wait => .waiting
  | _ => .dead

/-- The task that a worker has popped and not yet finished. -/
def busy : WorkerPc Task → Option (Bytes × Task)
  | .nudging key task _ => some (key, task)
  | .performing key task => some (key, task)
  | _ => none

end WorkerPc

namespace HandlerPc

variable {Task : Type}

/-- Where a handler is after a stretch of `assign_handler`. -/
def afterAssign : Reply Task → HandlerPc Task
  | .assigned key => .popping key none false
  | .finished => .returned none
  | .wait => .assigning
  | _ => .dead none none

/-- Where a handler is after a stretch of `pop_from`. -/
def afterPop (key : Bytes) (collection : Bool) : Reply Task → HandlerPc Task
  | .popped _ task none => .performing key task collection
  | .popped _ task (some byte) => .nudging key task byte collection
  | .finished => .finishing key collection
  | .wait => .waiting key collection
  | _ => .dead (some key) none

/-- The queue between whose assignment and its end the handler is. -/
def held : HandlerPc Task → Option Bytes
  | .top => none
  | .assigning => none
  | .popping key _ _ => some key
  | .waiting key _ => some key
  | .nudging key _ _ _ => some key
  | .performing key _ _ => some key
  | .leaving key _ _ => some key
  | .unassigning key => some key
  | .finishing key _ => some key
  | .returned held => held
  | .dying key _ _ => some key
  | .dead held _ => held

/-- The task that the handler has popped and not yet reported as completed. -/
def task : HandlerPc Task → Option Task
  | .popping _ previous _ => previous
  | .nudging _ task _ _ => some task
  | .performing _ task _ => some task
  | .leaving _ task _ => task
  | .dying _ task _ => task
  | .dead _ task => task
  | _ => none

/-- The task that a handler has popped and not yet finished. -/
def busy : HandlerPc Task → Option (Bytes × Task)
  | .nudging key task _ _ => some (key, task)
  | .performing key task _ => some (key, task)
  | _ => none

end HandlerPc

/-- A group with its threads.  The list of finished tasks is history: it names
the tasks whose `perform` has returned or thrown. -/
structure Pool (Task Worker Handler : Type) extends Recorded Task where
  worker : Worker → WorkerPc Task
  handler : Handler → HandlerPc Task
  workerStop : Worker → Bool
  handlerStop : Handler → Bool
  finished : List Task

/-- The steps of a pool. -/
inductive PoolEvent (Task Worker Handler : Type) where
  /-- A client pushes a task. -/
  | push (key : Bytes) (task : Task) (allowThrottle : Bool)
  | setActive (key : Bytes) (on : Bool)
  | setInactiveInternal (key : Bytes)
  | close
  /-- `stop()` is called on a thread. -/
  | stopWorker (worker : Worker)
  | stopHandler (handler : Handler)
  /-- A thread continues with its own code, up to the end of the next stretch
  under the lock. -/
  | runWorker (worker : Worker)
  | runHandler (handler : Handler)
  /-- `perform` returns, or throws an exception that `run()` catches. -/
  | finishWorker (worker : Worker)
  | finishHandler (handler : Handler) (collection : Bool)
  /-- `perform` of a handler throws an exception that `run()` catches. -/
  | failHandler (handler : Handler) (collection : Bool)
  /-- An exception is thrown that `run()` does not catch. -/
  | killWorker (worker : Worker)
  | killHandler (handler : Handler) (collection : Bool)
  /-- The wait of a handler inside `pop_from` times out. -/
  | timeout (handler : Handler)
  /-- `cleanup()` of a handler throws an exception. -/
  | failCleanup (handler : Handler)

namespace Pool

variable {Task Worker Handler : Type}

/-- All threads at the heads of their loops. -/
def start (group : TaskQueueGroup Task) : Pool Task Worker Handler :=
  { group := group
    log := []
    worker := fun _ => .top none
    handler := fun _ => .top
    workerStop := fun _ => false
    handlerStop := fun _ => false
    finished := [] }

/-- Note that `perform` of a task has ended. -/
def finish (pool : Pool Task Worker Handler) (task : Task) :
    Pool Task Worker Handler :=
  { pool with finished := pool.finished ++ [task] }

def setWorker [DecidableEq Worker] (pool : Pool Task Worker Handler)
    (worker : Worker) (pc : WorkerPc Task) : Pool Task Worker Handler :=
  { pool with worker := Function.update pool.worker worker pc }

def setHandler [DecidableEq Handler] (pool : Pool Task Worker Handler)
    (handler : Handler) (pc : HandlerPc Task) : Pool Task Worker Handler :=
  { pool with handler := Function.update pool.handler handler pc }

variable (pool : Pool Task Worker Handler)

@[simp]
theorem toRecorded_setWorker [DecidableEq Worker] (worker : Worker) (pc : WorkerPc Task) :
    (pool.setWorker worker pc).toRecorded = pool.toRecorded := rfl

@[simp]
theorem toRecorded_setHandler [DecidableEq Handler] (handler : Handler)
    (pc : HandlerPc Task) :
    (pool.setHandler handler pc).toRecorded = pool.toRecorded := rfl

variable [TaskObject Task]

def call (pool : Pool Task Worker Handler) (operation : Operation Task) :
    Pool Task Worker Handler :=
  { pool with toRecorded := pool.toRecorded.call operation }

/-- What a call would return. -/
def reply (pool : Pool Task Worker Handler) (operation : Operation Task) :
    Reply Task :=
  (operation.run pool.group).2

theorem effect_call (operation : Operation Task) :
    operation.Effect pool.group (pool.call operation).group (pool.reply operation) :=
  operation.effect_run pool.group

variable [DecidableEq Worker] [DecidableEq Handler]

/-- A worker makes a call of `pop_any`, or continues one. -/
def workerCall (pool : Pool Task Worker Handler) (worker : Worker)
    (operation : Operation Task) : Pool Task Worker Handler :=
  (pool.call operation).setWorker worker (.afterPop (pool.reply operation))

/-- The calls that `stop()`, `serve()` and the clients make, the steps of the
workers and the steps of the handlers. -/
inductive Step : Pool Task Worker Handler → PoolEvent Task Worker Handler →
    Pool Task Worker Handler → Prop where
  | push {pool : Pool Task Worker Handler} (key : Bytes) (task : Task)
      (allowThrottle : Bool) (hfresh : task ∉ pool.pushed) :
      Step pool (.push key task allowThrottle)
        (pool.call (.push key task allowThrottle))
  | setActive {pool : Pool Task Worker Handler} (key : Bytes) (on : Bool) :
      Step pool (.setActive key on) (pool.call (.setActive key on))
  | setInactiveInternal {pool : Pool Task Worker Handler} (key : Bytes) :
      Step pool (.setInactiveInternal key)
        (pool.call (.setInactiveInternal key))
  | close {pool : Pool Task Worker Handler} :
      Step pool .close (pool.call .close)
  | stopWorker {pool : Pool Task Worker Handler} (worker : Worker) :
      Step pool (.stopWorker worker)
        { pool with workerStop := Function.update pool.workerStop worker true }
  | stopHandler {pool : Pool Task Worker Handler} (handler : Handler) :
      Step pool (.stopHandler handler)
        { pool with
          handlerStop := Function.update pool.handlerStop handler true }
  | workerStopped {pool : Pool Task Worker Handler} {worker : Worker}
      {previous : Option (Bytes × Task)}
      (hpc : pool.worker worker = .top previous)
      (hstop : pool.workerStop worker = true) :
      Step pool (.runWorker worker) (pool.setWorker worker .returned)
  | workerPop {pool : Pool Task Worker Handler} {worker : Worker}
      {previous : Option (Bytes × Task)}
      (hpc : pool.worker worker = .top previous)
      (hstop : pool.workerStop worker = false) :
      Step pool (.runWorker worker) (pool.workerCall worker (.popAny previous))
  | workerRetry {pool : Pool Task Worker Handler} {worker : Worker}
      (hpc : pool.worker worker = .waiting) :
      Step pool (.runWorker worker) (pool.workerCall worker (.popAny none))
  | workerNudge {pool : Pool Task Worker Handler} {worker : Worker}
      {key : Bytes} {task : Task} {byte : Byte}
      (hpc : pool.worker worker = .nudging key task byte) :
      Step pool (.runWorker worker)
        (pool.setWorker worker (.performing key task))
  | workerFinish {pool : Pool Task Worker Handler} {worker : Worker}
      {key : Bytes} {task : Task}
      (hpc : pool.worker worker = .performing key task) :
      Step pool (.finishWorker worker)
        ((pool.finish task).setWorker worker (.top (some (key, task))))
  | workerKill {pool : Pool Task Worker Handler} {worker : Worker}
      {key : Bytes} {task : Task}
      (hpc : pool.worker worker = .performing key task) :
      Step pool (.killWorker worker) (pool.setWorker worker .dead)
  | handlerStopped {pool : Pool Task Worker Handler} {handler : Handler}
      (hpc : pool.handler handler = .top)
      (hstop : pool.handlerStop handler = true) :
      Step pool (.runHandler handler) (pool.setHandler handler (.returned none))
  | handlerAssign {pool : Pool Task Worker Handler} {handler : Handler}
      (hpc : (pool.handler handler = .top ∧ pool.handlerStop handler = false) ∨
        pool.handler handler = .assigning) :
      Step pool (.runHandler handler)
        ((pool.call .assignHandler).setHandler handler
          (.afterAssign (pool.reply .assignHandler)))
  | handlerPop {pool : Pool Task Worker Handler} {handler : Handler}
      {key : Bytes} {previous : Option Task} {collection : Bool}
      (hpc : pool.handler handler = .popping key previous collection ∨
        (pool.handler handler = .waiting key collection ∧ previous = none)) :
      Step pool (.runHandler handler)
        ((pool.call (.popFrom key (previous.map (Prod.mk key)))).setHandler
          handler (.afterPop key collection
            (pool.reply (.popFrom key (previous.map (Prod.mk key))))))
  | handlerNudge {pool : Pool Task Worker Handler} {handler : Handler}
      {key : Bytes} {task : Task} {byte : Byte} {collection : Bool}
      (hpc : pool.handler handler = .nudging key task byte collection) :
      Step pool (.runHandler handler)
        (pool.setHandler handler (.performing key task collection))
  | handlerFinish {pool : Pool Task Worker Handler} {handler : Handler}
      {key : Bytes} {task : Task} {before : Bool} (collection : Bool)
      (hpc : pool.handler handler = .performing key task before) :
      Step pool (.finishHandler handler collection)
        ((pool.finish task).setHandler handler
          (.popping key (some task) collection))
  | handlerFail {pool : Pool Task Worker Handler} {handler : Handler}
      {key : Bytes} {task : Task} {before : Bool} (collection : Bool)
      (hpc : pool.handler handler = .performing key task before) :
      Step pool (.failHandler handler collection)
        ((pool.finish task).setHandler handler
          (.leaving key (some task) collection))
  | handlerTimeout {pool : Pool Task Worker Handler} {handler : Handler}
      {key : Bytes} {collection : Bool}
      (hpc : pool.handler handler = .waiting key collection) :
      Step pool (.timeout handler)
        (pool.setHandler handler (.leaving key none collection))
  | handlerCompleted {pool : Pool Task Worker Handler} {handler : Handler}
      {key : Bytes} {task : Task} {collection : Bool}
      (hpc : pool.handler handler = .leaving key (some task) collection) :
      Step pool (.runHandler handler)
        ((pool.call (.completed key task)).setHandler handler
          (.unassigning key))
  | handlerNothingCompleted {pool : Pool Task Worker Handler}
      {handler : Handler} {key : Bytes} {collection : Bool}
      (hpc : pool.handler handler = .leaving key none collection) :
      Step pool (.runHandler handler)
        (pool.setHandler handler (.unassigning key))
  | handlerUnassign {pool : Pool Task Worker Handler} {handler : Handler}
      {key : Bytes} (hpc : pool.handler handler = .unassigning key) :
      Step pool (.runHandler handler)
        ((pool.call (.unassignHandler key)).setHandler handler .top)
  | handlerKill {pool : Pool Task Worker Handler} {handler : Handler}
      {key : Bytes} {task : Option Task} {before : Bool}
      (collection : Bool)
      (hpc : (∃ current, task = some current ∧
          pool.handler handler = .performing key current before) ∨
        pool.handler handler = .leaving key task before) :
      Step pool (.killHandler handler collection)
        (pool.setHandler handler (.dying key task collection))
  | handlerCleanup {pool : Pool Task Worker Handler} {handler : Handler}
      {key : Bytes} (hpc : pool.handler handler = .finishing key true) :
      Step pool (.runHandler handler)
        ((pool.call (.unassignHandler key)).setHandler handler (.returned none))
  | handlerKeep {pool : Pool Task Worker Handler} {handler : Handler}
      {key : Bytes} (hpc : pool.handler handler = .finishing key false) :
      Step pool (.runHandler handler)
        (pool.setHandler handler (.returned (some key)))
  | handlerCleanupFails {pool : Pool Task Worker Handler} {handler : Handler}
      {key : Bytes} (hpc : pool.handler handler = .finishing key true) :
      Step pool (.failCleanup handler)
        (pool.setHandler handler (.dead (some key) none))
  | dyingCleanup {pool : Pool Task Worker Handler} {handler : Handler}
      {key : Bytes} {task : Option Task}
      (hpc : pool.handler handler = .dying key task true) :
      Step pool (.runHandler handler)
        ((pool.call (.unassignHandler key)).setHandler handler
          (.dead none task))
  | dyingKeep {pool : Pool Task Worker Handler} {handler : Handler}
      {key : Bytes} {task : Option Task}
      (hpc : pool.handler handler = .dying key task false) :
      Step pool (.runHandler handler)
        (pool.setHandler handler (.dead (some key) task))
  | dyingCleanupFails {pool : Pool Task Worker Handler} {handler : Handler}
      {key : Bytes} {task : Option Task}
      (hpc : pool.handler handler = .dying key task true) :
      Step pool (.failCleanup handler)
        (pool.setHandler handler (.dead (some key) task))

/-- The pools that can come about from a new group. -/
def Reachable (throttleSize maxSize : ℕ) :
    Pool Task Worker Handler → Prop :=
  Transition.Reachable
    (fun pool => ∃ fd byte, pool = start
      ((TaskQueueGroup.create throttleSize maxSize).setNudge fd byte)) Step

end Pool

end Restpose
