import Restpose.Core.Bytes

/-!
# Groups of task queues

`TaskQueueGroup` keeps one queue of tasks for each key, with the tasks that
are in progress, a flag for queues that are paused and a flag for queues that
have a dedicated handler.  Every operation runs with the lock of the group
held, from its start, or from the end of a wait on the condition variable, to
its return or to the next wait.  The operations below are those stretches: a
reply of `wait` stands for a call of `cond.wait` or `cond.timedwait`.
-/

namespace Restpose

/-- A type of task objects.  An object is known by its address, and addresses
are ordered; whether other tasks of the same queue may run in parallel is fixed
when the object is created. -/
class TaskObject (Task : Type) extends LinearOrder Task where
  allowParallel : Task → Bool

export TaskObject (allowParallel)

/-- A bare `Task` object: its address and its flag. -/
structure BareTask where
  address : ℕ
  parallel : Bool

theorem BareTask.code_injective : Function.Injective fun task : BareTask =>
    2 * task.address + task.parallel.toNat := by
  rintro ⟨address, parallel⟩ ⟨address', parallel'⟩ heq
  cases parallel <;> cases parallel' <;> simp_all <;> omega

instance : TaskObject BareTask :=
  { LinearOrder.lift' (fun task : BareTask =>
      2 * task.address + task.parallel.toNat) BareTask.code_injective with
    allowParallel := BareTask.parallel }

/-- An `IndexingTask`: its constructor does not allow parallel execution. -/
structure IndexingTask where
  address : ℕ

theorem IndexingTask.address_injective : Function.Injective IndexingTask.address := by
  rintro ⟨address⟩ ⟨address'⟩ rfl
  rfl

instance : TaskObject IndexingTask :=
  { LinearOrder.lift' IndexingTask.address IndexingTask.address_injective with
    allowParallel := fun _ => false }

theorem IndexingTask.serial (task : IndexingTask) : allowParallel task = false :=
  rfl

inductive QueueState where
  | hasSpace
  | lowSpace
  | full
  | closed
  deriving DecidableEq

structure QueueInfo (Task : Type) where
  queue : List Task
  inProgress : Finset Task
  active : Bool
  assigned : Bool

/-- `TaskQueueGroup`.  A nudge descriptor of `-1` disables nudges. -/
structure TaskQueueGroup (Task : Type) where
  queues : StdMap (QueueInfo Task)
  lastPopFrom : Bytes
  closed : Bool
  throttleSize : ℕ
  maxSize : ℕ
  nudgeFd : ℤ
  nudgeByte : Byte

/-- What an operation returns. -/
inductive Reply (Task : Type) where
  /-- `push` returned this state. -/
  | queued (state : QueueState)
  /-- A pop returned a task; the byte is sent after the lock is released. -/
  | popped (key : Bytes) (task : Task) (nudge : Option Byte)
  /-- `assign_handler` made an assignment. -/
  | assigned (key : Bytes)
  /-- The group is closed and there is nothing left to return. -/
  | finished
  /-- The caller waits on the condition variable. -/
  | wait
  /-- An operation without a result returned. -/
  | done
  /-- An assertion of the source failed. -/
  | assertionFailed
  deriving DecidableEq

namespace QueueInfo

variable {Task : Type}

/-- `QueueInfo()`: an empty, active queue without a handler. -/
def fresh : QueueInfo Task :=
  ⟨[], ∅, true, false⟩

/-- `TaskQueueGroup::check_parallel_allowed`.  Only the task in progress with
the lowest address is looked at. -/
def checkParallelAllowed [TaskObject Task] (info : QueueInfo Task) : Bool :=
  match info.inProgress.min with
  | none => true
  | some first =>
      if !allowParallel first then false
      else
        match info.queue with
        | [] => true
        | next :: _ => allowParallel next

/-- The test of `pick_queue` on a queue. -/
def pickable [TaskObject Task] (info : QueueInfo Task) : Bool :=
  info.active && !info.assigned && !info.queue.isEmpty &&
    info.checkParallelAllowed

/-- The test of `check_for_cleanup`: the queue is equivalent to not
existing. -/
def boring [TaskObject Task] (info : QueueInfo Task) : Bool :=
  info.queue.isEmpty && decide (info.inProgress = ∅) && info.active &&
    !info.assigned

end QueueInfo

namespace TaskQueueGroup

variable {Task : Type}

/-- `TaskQueueGroup(throttle_size, max_size)`. -/
def create (throttleSize maxSize : ℕ) : TaskQueueGroup Task :=
  { queues := ∅
    lastPopFrom := []
    closed := false
    throttleSize := throttleSize
    maxSize := maxSize
    nudgeFd := -1
    nudgeByte := 81 }

def setNudge (group : TaskQueueGroup Task) (fd : ℤ) (byte : Byte) :
    TaskQueueGroup Task :=
  { group with nudgeFd := fd, nudgeByte := byte }

/-- The entry of a key, or a fresh one if it has none. -/
def info (group : TaskQueueGroup Task) (key : Bytes) : QueueInfo Task :=
  group.queues[key]?.getD QueueInfo.fresh

/-- Change `queues[key]`, which creates the entry if there is none. -/
def update (group : TaskQueueGroup Task) (key : Bytes)
    (change : QueueInfo Task → QueueInfo Task) : TaskQueueGroup Task :=
  { group with queues := group.queues.insert key (change (group.info key)) }

variable [TaskObject Task]

def checkForCleanup (group : TaskQueueGroup Task) (key : Bytes) :
    TaskQueueGroup Task :=
  if (group.info key).boring then
    { group with queues := group.queues.erase key }
  else group

/-- The keys in the order in which `pick_queue` tries them: from the first key
after the one last popped from to the end, and then from the beginning. -/
def rotation (group : TaskQueueGroup Task) : List Bytes :=
  let reached := fun key => (compare (group.lastPopFrom ++ [0]) key).isLE
  group.queues.keys.filter reached ++
    group.queues.keys.filter fun key => !reached key

/-- One pass of the loop of `pick_queue`. -/
def pickQueue (group : TaskQueueGroup Task) :
    Option (Bytes × TaskQueueGroup Task) :=
  (group.rotation.find? fun key => (group.info key).pickable).map fun key =>
    (key, { group with lastPopFrom := key })

/-- `push` with `end_time` zero.  The entry is made before the group is known
to be open. -/
def push (group : TaskQueueGroup Task) (key : Bytes) (task : Task)
    (allowThrottle : Bool) : TaskQueueGroup Task × Reply Task :=
  let found := group.update key id
  let size := (found.info key).queue.length
  if found.closed then (found, .queued .closed)
  else if (allowThrottle && decide (found.throttleSize ≤ size)) ||
      (!allowThrottle && decide (found.maxSize ≤ size)) then
    (found, .queued .full)
  else
    (found.update key fun info => { info with queue := info.queue ++ [task] },
      .queued (if size + 1 < found.throttleSize then .hasSpace else .lowSpace))

/-- The start of `pop_any` and `pop_from`: a task that the caller has completed
is no longer in progress. -/
def complete (group : TaskQueueGroup Task) :
    Option (Bytes × Task) → Option (TaskQueueGroup Task)
  | none => some group
  | some (key, task) =>
      if key ∈ group.queues then
        some ((group.update key fun info =>
          { info with inProgress := info.inProgress.erase task }).checkForCleanup
            key)
      else none

/-- The end of `pop_any` and `pop_from`: the first task of the queue becomes a
task in progress. -/
def takeFront (group : TaskQueueGroup Task) (key : Bytes) :
    TaskQueueGroup Task × Reply Task :=
  match (group.info key).queue with
  | [] => (group, .assertionFailed)
  | task :: rest =>
      ((group.update key fun info =>
          { info with
            queue := rest
            inProgress := insert task info.inProgress }).checkForCleanup key,
        .popped key task
          (if rest.length + 1 = group.throttleSize ∧ group.nudgeFd ≠ -1 then
            some group.nudgeByte
          else none))

/-- `pop_any`, up to its return or its first wait; after a wait it continues as
a call without a completed task. -/
def popAny (group : TaskQueueGroup Task)
    (completed : Option (Bytes × Task)) :
    TaskQueueGroup Task × Reply Task :=
  match group.complete completed with
  | none => (group, .assertionFailed)
  | some current =>
      match current.pickQueue with
      | some (key, picked) => picked.takeFront key
      | none => (current, if current.closed then .finished else .wait)

/-- `pop_from`, up to its return or its first wait.  Once the group is closed
the queue is popped whether or not parallel execution is allowed. -/
def popFrom (group : TaskQueueGroup Task) (key : Bytes)
    (completed : Option (Bytes × Task)) :
    TaskQueueGroup Task × Reply Task :=
  match group.complete completed with
  | none => (group, .assertionFailed)
  | some current =>
      let info := current.info key
      if current.closed ||
          (info.active && !info.queue.isEmpty && info.checkParallelAllowed) then
        if info.queue.isEmpty then (current, .finished)
        else current.takeFront key
      else (current, .wait)

/-- `assign_handler`, up to its return or its first wait. -/
def assignHandler (group : TaskQueueGroup Task) :
    TaskQueueGroup Task × Reply Task :=
  match group.pickQueue with
  | some (key, picked) =>
      (picked.update key fun info => { info with assigned := true },
        .assigned key)
  | none => (group, if group.closed then .finished else .wait)

def unassignHandler (group : TaskQueueGroup Task) (key : Bytes) :
    TaskQueueGroup Task :=
  (group.update key fun info => { info with assigned := false }).checkForCleanup
    key

/-- `completed`, for a task that is not `NULL`.  It does no cleanup. -/
def completed (group : TaskQueueGroup Task) (key : Bytes) (task : Task) :
    TaskQueueGroup Task :=
  if key ∈ group.queues then
    group.update key fun info =>
      { info with inProgress := info.inProgress.erase task }
  else group

def setActive (group : TaskQueueGroup Task) (key : Bytes) (on : Bool) :
    TaskQueueGroup Task :=
  if group.closed then group
  else
    let switched := group.update key fun info => { info with active := on }
    if on then switched.checkForCleanup key else switched

def setInactiveInternal (group : TaskQueueGroup Task) (key : Bytes) :
    TaskQueueGroup Task :=
  if group.closed then group
  else group.update key fun info => { info with active := false }

def close (group : TaskQueueGroup Task) : TaskQueueGroup Task :=
  { group with
    closed := true
    queues := group.queues.map fun _ info => { info with active := true } }

/-- The condition that `wait_for_empty` waits for. -/
def closedAndEmpty (group : TaskQueueGroup Task) : Bool :=
  group.closed && group.queues.keys.all fun key =>
    (group.info key).queue.isEmpty

end TaskQueueGroup

/-- The operations of a group. -/
inductive Operation (Task : Type) where
  | push (key : Bytes) (task : Task) (allowThrottle : Bool)
  | popAny (completed : Option (Bytes × Task))
  | popFrom (key : Bytes) (completed : Option (Bytes × Task))
  | assignHandler
  | unassignHandler (key : Bytes)
  | completed (key : Bytes) (task : Task)
  | setActive (key : Bytes) (on : Bool)
  | setInactiveInternal (key : Bytes)
  | close

/-- The task that an operation tries to push. -/
def Operation.pushed {Task : Type} : Operation Task → List Task
  | .push _ task _ => [task]
  | _ => []

/-- The effect of an operation on a group, and its reply. -/
def Operation.run {Task : Type} [TaskObject Task]
    (group : TaskQueueGroup Task) :
    Operation Task → TaskQueueGroup Task × Reply Task
  | .push key task allowThrottle => group.push key task allowThrottle
  | .popAny previous => group.popAny previous
  | .popFrom key previous => group.popFrom key previous
  | .assignHandler => group.assignHandler
  | .unassignHandler key => (group.unassignHandler key, .done)
  | .completed key task => (group.completed key task, .done)
  | .setActive key on => (group.setActive key on, .done)
  | .setInactiveInternal key => (group.setInactiveInternal key, .done)
  | .close => (group.close, .done)

end Restpose
