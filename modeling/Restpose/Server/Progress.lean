import Restpose.Core.Precedence
import Restpose.Server.Exclusive

/-!
# Tasks from pop to completion

Every task that has been returned is in progress until its `perform` has ended,
because the thread that pops it reports it only at its next call.  Together
with exclusive execution this makes a task that does not allow parallel
execution a barrier in its queue: when it has been returned, every task
accepted before it has finished.
-/

namespace Restpose

open Recorded Operation Call

variable {Task Worker Handler : Type}

/-- The task that a call returned, with its key. -/
def Reply.task : Reply Task → Option (Bytes × Task)
  | .popped key task _ => some (key, task)
  | _ => none

/-- The task that an operation reports as completed. -/
def Operation.reported : Operation Task → Option (Bytes × Task)
  | .popAny previous => previous
  | .popFrom _ previous => previous
  | .completed key task => some (key, task)
  | _ => none

/-- The task that a worker will report with its next call. -/
def WorkerPc.previous : WorkerPc Task → Option (Bytes × Task)
  | .top previous => previous
  | _ => none

/-- The task that a handler will report with its next call. -/
def HandlerPc.previous : HandlerPc Task → Option (Bytes × Task)
  | .popping key previous _ => previous.map (Prod.mk key)
  | .leaving key task _ => task.map (Prod.mk key)
  | _ => none

namespace Pool

/-- The task that a thread has popped and not yet finished. -/
def busy (pool : Pool Task Worker Handler) :
    Worker ⊕ Handler → Option (Bytes × Task)
  | .inl worker => (pool.worker worker).busy
  | .inr handler => (pool.handler handler).busy

/-- The task that a thread will report with its next call. -/
def previous (pool : Pool Task Worker Handler) :
    Worker ⊕ Handler → Option (Bytes × Task)
  | .inl worker => (pool.worker worker).previous
  | .inr handler => (pool.handler handler).previous

end Pool

variable [TaskObject Task]

theorem TaskQueueGroup.mem_inProgress_settled {group : TaskQueueGroup Task} {key : Bytes}
    {task : Task} (hmem : task ∈ (group.info key).inProgress)
    (completed : Option (Bytes × Task)) :
    task ∈ (group.settled completed key).inProgress ∨ completed = some (key, task) := by
  cases completed with
  | none => exact Or.inl hmem
  | some entry =>
    obtain ⟨other, current⟩ := entry
    by_cases hkey : key = other
    · by_cases htask : task = current
      · exact Or.inr (by rw [hkey, htask])
      · refine Or.inl ?_
        simp only [settled, hkey, if_true, Finset.mem_erase]
        exact ⟨htask, hkey ▸ hmem⟩
    · refine Or.inl ?_
      simpa only [settled, hkey, if_false] using hmem

namespace Operation

variable {group after : TaskQueueGroup Task} {operation : Operation Task}
  {reply : Reply Task}

variable {key : Bytes} {task : Task}

theorem mem_inProgress_afterPop {completed : Option (Bytes × Task)}
    {other : Bytes} {taken : Task} {rest : List Task}
    (hinfo : after.info = Function.update (group.settled completed) other
      ((group.settled completed other).afterPop taken rest))
    (hmem : task ∈ (group.info key).inProgress) :
    task ∈ (after.info key).inProgress ∨ completed = some (key, task) := by
  refine (TaskQueueGroup.mem_inProgress_settled hmem completed).imp_left ?_
  intro hsettled
  rw [hinfo]
  by_cases hkey : key = other
  · subst key
    simp [QueueInfo.afterPop, hsettled]
  · simpa [hkey] using hsettled

/-- A task stays in progress until it is reported. -/
theorem Effect.mem_inProgress (heffect : operation.Effect group after reply)
    (hmem : task ∈ (group.info key).inProgress) :
    task ∈ (after.info key).inProgress ∨ operation.reported = some (key, task) := by
  cases heffect with
  | accepted other pushedTask allowThrottle state _ _ _ hinfo
  | assigned other _ _ hinfo | unassigned other _ hinfo =>
    rw [hinfo]
    by_cases hkey : key = other <;> simp_all
  | refused _ _ _ _ _ _ _ hinfo => exact Or.inl (by rwa [hinfo])
  | popAny completed other taken rest _ _ _ _ hinfo
  | popFrom other completed taken rest _ _ _ _ hinfo =>
    exact mem_inProgress_afterPop hinfo hmem
  | popAnyNone completed _ _ hinfo
  | popFromFinished other completed _ _ _ hinfo
  | popFromWait other completed _ _ hinfo =>
    rw [hinfo]
    exact TaskQueueGroup.mem_inProgress_settled hmem completed
  | popAnyFailed _ _ _ hsame | popFromFailed _ _ _ _ hsame
  | assignNone _ hsame =>
    exact Or.inl (by rwa [hsame])
  | completed other current _ hinfo =>
    rw [hinfo]
    exact TaskQueueGroup.mem_inProgress_settled hmem _
  | setActive other _ _ hinfo | setInactiveInternal other _ hinfo =>
    rw [hinfo]
    cases group.closed <;> by_cases hkey : key = other <;> simp_all
  | close _ hinfo => exact Or.inl (by simpa [hinfo] using hmem)

/-- A task that is returned is in progress. -/
theorem Effect.mem_inProgress_of_returned (heffect : operation.Effect group after reply)
    (hreply : reply.task = some (key, task)) :
    task ∈ (after.info key).inProgress := by
  cases heffect with
  | popAny completed other taken rest nudge _ _ _ hinfo
  | popFrom other completed taken rest nudge _ _ _ hinfo =>
    simp only [Reply.task, Option.some.injEq, Prod.mk.injEq] at hreply
    obtain ⟨rfl, rfl⟩ := hreply
    simp [hinfo, QueueInfo.afterPop]
  | popAnyNone | assignNone =>
    cases hclosed : group.closed <;> simp [hclosed, Reply.task] at hreply
  | _ => simp [Reply.task] at hreply

end Operation

omit [TaskObject Task] in
theorem Call.returned_eq (operation : Operation Task) (reply : Reply Task) (key : Bytes) :
    returned key (operation, reply) =
      match reply.task with
      | none => []
      | some (other, task) => if other = key then [task] else [] := by
  cases reply <;> rfl

namespace Recorded

theorem Sound.call {state : Recorded Task} (hsound : state.Sound)
    {operation : Operation Task}
    (hfresh : ∀ task ∈ operation.pushed, task ∉ state.pushed) :
    (state.call operation).Sound where
  conserved := hsound.conserved.call operation
  fresh := by
    rw [pushed_call]
    refine hsound.fresh.append ?_ fun task hold hnew => hfresh task hnew hold
    cases operation <;> simp [Operation.pushed]

theorem mem_returned_call {state : Recorded Task} {operation : Operation Task}
    {key : Bytes} {task : Task} :
    task ∈ (state.call operation).returned key ↔ task ∈ state.returned key ∨
        ((operation.run state.group).2).task = some (key, task) := by
  rw [returned_call, List.mem_append, returned_eq]
  refine or_congr_right ?_
  cases (operation.run state.group).2.task with
  | none => simp
  | some entry =>
    obtain ⟨other, current⟩ := entry
    by_cases hkey : other = key
    · simp [hkey, eq_comm]
    · simp [hkey]

/-- A task that a call returns has not been returned before. -/
theorem Sound.notMem_returned {state : Recorded Task} {operation : Operation Task}
    (hsound : (state.call operation).Sound) {key : Bytes} {task : Task}
    (hreply : ((operation.run state.group).2).task = some (key, task)) (other : Bytes) :
    task ∉ state.returned other := by
  intro hmem
  have hnew : task ∈ (state.call operation).accepted key :=
    hsound.mem_accepted_of_returned (mem_returned_call.mpr (Or.inr hreply))
  have hold : task ∈ (state.call operation).accepted other :=
    hsound.mem_accepted_of_returned (mem_returned_call.mpr (Or.inl hmem))
  by_cases hother : other = key
  · subst other
    have hnodup := hsound.nodup_returned key
    rw [returned_call, returned_eq, hreply] at hnodup
    simp only [if_true] at hnodup
    exact (List.nodup_append.mp hnodup).2.2 task hmem task (by simp) rfl
  · exact hsound.notMem_accepted hnew hother hold

end Recorded

namespace Pool

/-- The life of the tasks that have been returned. -/
structure Progress (pool : Pool Task Worker Handler) : Prop where
  sound : pool.toRecorded.Sound
  returned : ∀ key, ∀ task ∈ pool.toRecorded.returned key,
    task ∈ pool.finished ∨ task ∈ (pool.group.info key).inProgress
  finished : ∀ task ∈ pool.finished, ∃ key, task ∈ pool.toRecorded.returned key
  previous : ∀ thread key task, pool.previous thread = some (key, task) →
    task ∈ pool.finished
  busy : ∀ thread key task, pool.busy thread = some (key, task) →
    task ∈ pool.toRecorded.returned key ∧ task ∉ pool.finished
  distinct : ∀ thread other key otherKey task,
    pool.busy thread = some (key, task) →
      pool.busy other = some (otherKey, task) → thread = other

section Threads

variable {pool next : Pool Task Worker Handler} {busy previous : Option (Bytes × Task)}

/-- One thread moves on, and the others stay where they are. -/
def Moves (pool next : Pool Task Worker Handler) (mover : Worker ⊕ Handler)
    (busy previous : Option (Bytes × Task)) : Prop :=
  ∀ thread,
    thread = mover ∧ next.busy thread = busy ∧ next.previous thread = previous ∨
      thread ≠ mover ∧ next.busy thread = pool.busy thread ∧
        next.previous thread = pool.previous thread

omit [TaskObject Task] in
theorem moves_worker [DecidableEq Worker] {worker : Worker} {pc : WorkerPc Task}
    (hworker : next.worker = Function.update pool.worker worker pc)
    (hhandler : next.handler = pool.handler) (hbusy : pc.busy = busy)
    (hprevious : pc.previous = previous) :
    Moves pool next (.inl worker) busy previous := by
  subst hbusy hprevious
  rintro (other | handler)
  · by_cases hother : other = worker
    · subst other
      simp [Pool.busy, Pool.previous, hworker]
    · simp [Pool.busy, Pool.previous, hworker, hother]
  · simp [Pool.busy, Pool.previous, hhandler]

omit [TaskObject Task] in
theorem moves_handler [DecidableEq Handler] {handler : Handler} {pc : HandlerPc Task}
    (hworker : next.worker = pool.worker)
    (hhandler : next.handler = Function.update pool.handler handler pc)
    (hbusy : pc.busy = busy) (hprevious : pc.previous = previous) :
    Moves pool next (.inr handler) busy previous := by
  subst hbusy hprevious
  rintro (worker | other)
  · simp [Pool.busy, Pool.previous, hworker]
  · by_cases hother : other = handler
    · subst other
      simp [Pool.busy, Pool.previous, hhandler]
    · simp [Pool.busy, Pool.previous, hhandler, hother]

end Threads

namespace Progress

variable {pool next : Pool Task Worker Handler}

theorem call (hprogress : Progress pool) {operation : Operation Task}
    (caller : Option (Worker ⊕ Handler))
    (hrecorded : next.toRecorded = pool.toRecorded.call operation)
    (hfinished : next.finished = pool.finished)
    (hfresh : ∀ task ∈ operation.pushed, task ∉ pool.pushed)
    (hreported : ∀ key task, operation.reported = some (key, task) → task ∈ pool.finished)
    (hprevious : ∀ thread entry, next.previous thread = some entry →
      pool.previous thread = some entry)
    (hbusy : ∀ thread entry, next.busy thread = some entry →
      pool.busy thread = some entry ∨
        (caller = some thread ∧ (pool.reply operation).task = some entry)) :
    Progress next := by
  have hsound := hprogress.sound.call hfresh
  have hmem : ∀ key task, task ∈ next.toRecorded.returned key ↔
      task ∈ pool.toRecorded.returned key ∨
        (pool.reply operation).task = some (key, task) := by
    intro key task
    rw [hrecorded, mem_returned_call]
    rfl
  have hnew : ∀ key task, (pool.reply operation).task = some (key, task) →
      ∀ other, task ∉ pool.toRecorded.returned other :=
    fun key task hreply => hsound.notMem_returned hreply
  have hgroup : next.group = (pool.call operation).group :=
    congrArg group hrecorded
  have heffect := pool.effect_call operation
  rw [← hgroup] at heffect
  constructor
  · rw [hrecorded]
    exact hsound
  · intro key task htask
    rw [hfinished]
    rcases (hmem key task).mp htask with hold | hreply
    · rcases hprogress.returned key task hold with hdone | hin
      · exact Or.inl hdone
      · rcases heffect.mem_inProgress hin with hstill | hreport
        · exact Or.inr hstill
        · exact Or.inl (hreported key task hreport)
    · exact Or.inr (heffect.mem_inProgress_of_returned hreply)
  · intro task htask
    rw [hfinished] at htask
    obtain ⟨key, hold⟩ := hprogress.finished task htask
    exact ⟨key, (hmem key task).mpr (Or.inl hold)⟩
  · intro thread key task hthread
    rw [hfinished]
    exact hprogress.previous thread key task (hprevious thread _ hthread)
  · intro thread key task hthread
    rw [hfinished]
    rcases hbusy thread _ hthread with hold | ⟨_, hreply⟩
    · obtain ⟨hreturned, hunfinished⟩ := hprogress.busy thread key task hold
      exact ⟨(hmem key task).mpr (Or.inl hreturned), hunfinished⟩
    · refine ⟨(hmem key task).mpr (Or.inr hreply), ?_⟩
      intro hdone
      obtain ⟨other, hother⟩ := hprogress.finished task hdone
      exact hnew key task hreply other hother
  · intro thread other key otherKey task hthread hother
    rcases hbusy thread _ hthread with hold | ⟨hcaller, hreply⟩
    · rcases hbusy other _ hother with hold' | ⟨_, hreply'⟩
      · exact hprogress.distinct thread other key otherKey task hold hold'
      · exact absurd (hprogress.busy thread key task hold).1
          (hnew otherKey task hreply' key)
    · rcases hbusy other _ hother with hold' | ⟨hcaller', _⟩
      · exact absurd (hprogress.busy other otherKey task hold').1
          (hnew key task hreply otherKey)
      · exact Option.some.inj (hcaller.symm.trans hcaller')

omit [TaskObject Task] in
theorem move (hprogress : Progress pool) (hrecorded : next.toRecorded = pool.toRecorded)
    (hfinished : next.finished = pool.finished)
    (hprevious : ∀ thread entry, next.previous thread = some entry →
      pool.previous thread = some entry)
    (hbusy : ∀ thread entry, next.busy thread = some entry →
      pool.busy thread = some entry) : Progress next := by
  have hgroup : next.group = pool.group := congrArg group hrecorded
  constructor
  · rw [hrecorded]
    exact hprogress.sound
  · rw [hrecorded, hfinished]
    exact hprogress.returned
  · rw [hrecorded, hfinished]
    exact hprogress.finished
  · intro thread key task hthread
    rw [hfinished]
    exact hprogress.previous thread key task (hprevious thread _ hthread)
  · intro thread key task hthread
    rw [hrecorded, hfinished]
    exact hprogress.busy thread key task (hbusy thread _ hthread)
  · intro thread other key otherKey task hthread hother
    exact hprogress.distinct thread other key otherKey task
      (hbusy thread _ hthread) (hbusy other _ hother)

omit [TaskObject Task] in
theorem finish (hprogress : Progress pool) {thread : Worker ⊕ Handler}
    {key : Bytes} {task : Task}
    (hmoves : Moves pool next thread none (some (key, task)))
    (hthread : pool.busy thread = some (key, task))
    (hrecorded : next.toRecorded = pool.toRecorded)
    (hfinished : next.finished = pool.finished ++ [task]) : Progress next := by
  have hprevious : ∀ other entry, next.previous other = some entry →
      pool.previous other = some entry ∨ entry = (key, task) := by
    intro other entry hentry
    rcases hmoves other with ⟨_, _, hnext⟩ | ⟨_, _, hnext⟩
    · rw [hnext] at hentry
      exact .inr (Option.some.inj hentry).symm
    · exact .inl (hnext ▸ hentry)
  have hbusy : ∀ other entry, next.busy other = some entry →
      pool.busy other = some entry ∧ other ≠ thread := by
    intro other entry hentry
    rcases hmoves other with ⟨_, hnext, _⟩ | ⟨hne, hnext, _⟩
    · rw [hnext] at hentry
      contradiction
    · exact ⟨hnext ▸ hentry, hne⟩
  obtain ⟨hreturned, _⟩ := hprogress.busy thread key task hthread
  have hgroup : next.group = pool.group := congrArg group hrecorded
  constructor
  · rw [hrecorded]
    exact hprogress.sound
  · intro other current hcurrent
    rw [hrecorded] at hcurrent
    rw [hgroup, hfinished, List.mem_append]
    exact (hprogress.returned other current hcurrent).imp_left Or.inl
  · intro current hcurrent
    rw [hfinished, List.mem_append, List.mem_singleton] at hcurrent
    rw [hrecorded]
    rcases hcurrent with hold | rfl
    · exact hprogress.finished current hold
    · exact ⟨key, hreturned⟩
  · intro other otherKey current hother
    rw [hfinished, List.mem_append, List.mem_singleton]
    rcases hprevious other _ hother with hold | heq
    · exact Or.inl (hprogress.previous other otherKey current hold)
    · exact Or.inr (congrArg Prod.snd heq)
  · intro other otherKey current hother
    obtain ⟨hold, hne⟩ := hbusy other _ hother
    obtain ⟨hmem, hunfinished⟩ := hprogress.busy other otherKey current hold
    rw [hrecorded, hfinished, List.mem_append, List.mem_singleton]
    refine ⟨hmem, ?_⟩
    rintro (hdone | rfl)
    · exact hunfinished hdone
    · exact hne (hprogress.distinct other thread otherKey key current hold hthread)
  · intro first second firstKey secondKey current hfirst hsecond
    exact hprogress.distinct first second firstKey secondKey current
      (hbusy first _ hfirst).1 (hbusy second _ hsecond).1

section Moves

variable {mover : Worker ⊕ Handler} {busy : Option (Bytes × Task)}
  (hprogress : Progress pool) (hmoves : Moves pool next mover busy none)

include hprogress hmoves

omit [TaskObject Task] in
theorem moveOn (hrecorded : next.toRecorded = pool.toRecorded)
    (hfinished : next.finished = pool.finished)
    (hbusy : ∀ entry, busy = some entry → pool.busy mover = some entry) :
    Progress next := by
  refine hprogress.move hrecorded hfinished ?_ ?_
  · intro thread entry hentry
    rcases hmoves thread with ⟨_, _, hnext⟩ | ⟨_, _, hnext⟩
    · rw [hnext] at hentry
      contradiction
    · rwa [hnext] at hentry
  · intro thread entry hentry
    rcases hmoves thread with ⟨rfl, hnext, _⟩ | ⟨_, hnext, _⟩
    · rw [hnext] at hentry
      exact hbusy entry hentry
    · rwa [hnext] at hentry

theorem moveCall {operation : Operation Task}
    (hrecorded : next.toRecorded = pool.toRecorded.call operation)
    (hfinished : next.finished = pool.finished) (hpushed : operation.pushed = [])
    (hreported : ∀ entry, operation.reported = some entry →
      pool.previous mover = some entry)
    (hbusy : ∀ entry, busy = some entry → (pool.reply operation).task = some entry) :
    Progress next := by
  apply hprogress.call (some mover) hrecorded hfinished
  · simp [hpushed]
  · intro key task hentry
    exact hprogress.previous mover key task (hreported _ hentry)
  · intro thread entry hentry
    rcases hmoves thread with ⟨_, _, hnext⟩ | ⟨_, _, hnext⟩
    · rw [hnext] at hentry
      contradiction
    · rwa [hnext] at hentry
  · intro thread entry hentry
    rcases hmoves thread with ⟨rfl, hnext, _⟩ | ⟨_, hnext, _⟩
    · rw [hnext] at hentry
      exact .inr ⟨rfl, hbusy entry hentry⟩
    · rw [hnext] at hentry
      exact .inl hentry

end Moves

theorem workerCall [DecidableEq Worker] (hprogress : Progress pool) {worker : Worker}
    {previous : Option (Bytes × Task)}
    (hreported : ∀ entry, previous = some entry →
      (pool.worker worker).previous = some entry) :
    Progress (pool.workerCall worker (.popAny previous)) := by
  have hafter : (WorkerPc.afterPop (pool.reply (.popAny previous))).busy =
      (pool.reply (.popAny previous)).task ∧
      (WorkerPc.afterPop (pool.reply (.popAny previous))).previous = none := by
    cases pool.reply (.popAny previous) with
    | popped key task nudge => cases nudge <;> exact ⟨rfl, rfl⟩
    | _ => exact ⟨rfl, rfl⟩
  exact hprogress.moveCall (moves_worker rfl rfl hafter.1 hafter.2) rfl rfl rfl hreported
    fun _ hentry => hentry

theorem clientCall (hprogress : Progress pool) {operation : Operation Task}
    (hfresh : ∀ task ∈ operation.pushed, task ∉ pool.pushed)
    (hreported : operation.reported = none) :
    Progress (pool.call operation) := by
  have hrecorded : (pool.call operation).toRecorded = pool.toRecorded.call operation :=
    rfl
  apply hprogress.call none hrecorded rfl hfresh
  · simp [hreported]
  · exact fun _ _ hentry => hentry
  · exact fun _ _ hentry => Or.inl hentry

variable [DecidableEq Handler]

theorem handlerCall (hprogress : Progress pool) {handler : Handler}
    {operation : Operation Task} {pc : HandlerPc Task} (hpushed : operation.pushed = [])
    (hreported : ∀ entry, operation.reported = some entry →
      (pool.handler handler).previous = some entry)
    (hprevious : pc.previous = none)
    (hbusy : ∀ entry, pc.busy = some entry → (pool.reply operation).task = some entry) :
    Progress ((pool.call operation).setHandler handler pc) :=
  hprogress.moveCall (moves_handler rfl rfl rfl hprevious) rfl rfl hpushed hreported hbusy

theorem popFrom (hprogress : Progress pool) {handler : Handler} {key : Bytes}
    {completed : Option (Bytes × Task)} (collection : Bool)
    (hreported : ∀ entry, completed = some entry →
      (pool.handler handler).previous = some entry) :
    Progress ((pool.call (.popFrom key completed)).setHandler handler
      (.afterPop key collection (pool.reply (.popFrom key completed)))) := by
  refine hprogress.handlerCall rfl hreported ?_ ?_
  · cases pool.reply (.popFrom key completed) with
    | popped other task nudge => cases nudge <;> rfl
    | _ => rfl
  · have heffect := pool.effect_call (.popFrom key completed)
    generalize pool.reply (.popFrom key completed) = reply at heffect ⊢
    intro entry hentry
    cases heffect with
    | popFrom _ _ task rest nudge => cases nudge <;> exact hentry
    | popFromFinished | popFromWait | popFromFailed =>
      simp [HandlerPc.afterPop, HandlerPc.busy] at hentry

theorem assign (hprogress : Progress pool) (handler : Handler) :
    Progress ((pool.call .assignHandler).setHandler handler
      (.afterAssign (pool.reply .assignHandler))) := by
  refine hprogress.handlerCall rfl (by simp [reported]) ?_ ?_
  · cases pool.reply .assignHandler <;> rfl
  · cases pool.reply .assignHandler <;>
      simp [HandlerPc.afterAssign, HandlerPc.busy]

theorem step [DecidableEq Worker] (hprogress : Progress pool)
    {event : PoolEvent Task Worker Handler} (hstep : Step pool event next) :
    Progress next := by
  have hsame : next.toRecorded = pool.toRecorded →
      next.finished = pool.finished → next.worker = pool.worker →
        next.handler = pool.handler → Progress next := by
    intro hrecorded hfinished hworker hhandler
    refine hprogress.move hrecorded hfinished ?_ ?_
    · intro thread entry hentry
      cases thread <;> simpa [Pool.previous, hworker, hhandler] using hentry
    · intro thread entry hentry
      cases thread <;> simpa [Pool.busy, hworker, hhandler] using hentry
  cases hstep with
  | push key task allowThrottle hfresh =>
    exact hprogress.clientCall (by simpa [Operation.pushed] using hfresh) rfl
  | setActive | setInactiveInternal | close =>
    exact hprogress.clientCall (by simp [Operation.pushed]) rfl
  | stopWorker | stopHandler => exact hsame rfl rfl rfl rfl
  | workerStopped | workerKill =>
    exact hprogress.moveOn (moves_worker rfl rfl rfl rfl) rfl rfl
      (by simp [WorkerPc.busy])
  | workerPop hpc =>
    exact hprogress.workerCall fun entry hentry => by
      rw [hpc, ← hentry, WorkerPc.previous]
  | workerRetry => exact hprogress.workerCall (by simp)
  | workerNudge hpc =>
    exact hprogress.moveOn (moves_worker rfl rfl rfl rfl) rfl rfl
      (by simp [Pool.busy, hpc, WorkerPc.busy])
  | workerFinish hpc =>
    exact hprogress.finish (moves_worker rfl rfl rfl rfl)
      (by simp [Pool.busy, hpc, WorkerPc.busy]) rfl rfl
  | handlerStopped | handlerTimeout | handlerNothingCompleted | handlerKill
  | handlerKeep | handlerCleanupFails | dyingKeep | dyingCleanupFails =>
    exact hprogress.moveOn (moves_handler rfl rfl rfl rfl) rfl rfl
      (by simp [HandlerPc.busy])
  | handlerAssign => exact hprogress.assign _
  | handlerPop hpc =>
    apply hprogress.popFrom
    rcases hpc with hpc | ⟨_, rfl⟩
    · intro entry hentry
      rw [hpc, ← hentry, HandlerPc.previous]
    · simp
  | handlerNudge hpc =>
    exact hprogress.moveOn (moves_handler rfl rfl rfl rfl) rfl rfl
      (by simp [Pool.busy, hpc, HandlerPc.busy])
  | handlerFinish _ hpc | handlerFail _ hpc =>
    exact hprogress.finish (moves_handler rfl rfl rfl rfl)
      (by simp [Pool.busy, hpc, HandlerPc.busy]) rfl rfl
  | handlerCompleted hpc =>
    refine hprogress.handlerCall rfl ?_ rfl (by simp [HandlerPc.busy])
    intro entry hentry
    rw [hpc, ← hentry]
    rfl
  | handlerUnassign | handlerCleanup | dyingCleanup =>
    exact hprogress.handlerCall rfl (by simp [reported]) rfl (by simp [HandlerPc.busy])

omit [TaskObject Task] [DecidableEq Handler] in
theorem start (group : TaskQueueGroup Task) (hempty : group.queues = ∅) :
    Progress (Pool.start group : Pool Task Worker Handler) := by
  constructor
  · constructor
    · intro key
      simp [Pool.start, Recorded.accepted, Recorded.returned, Recorded.queued,
        TaskQueueGroup.info, QueueInfo.fresh, hempty]
    · simp [Pool.start, Recorded.pushed]
  · simp [Pool.start, Recorded.returned]
  · simp [Pool.start]
  · rintro (worker | handler) <;>
      simp [Pool.start, Pool.previous, WorkerPc.previous, HandlerPc.previous]
  all_goals
    rintro (worker | handler) <;>
      simp [Pool.start, Pool.busy, WorkerPc.busy, HandlerPc.busy]

end Progress

/-! ## Serial tasks as barriers -/

variable {event : PoolEvent Task Worker Handler}

theorem Step.toRecorded_eq [DecidableEq Worker] [DecidableEq Handler]
    {pool next : Pool Task Worker Handler} (hstep : Step pool event next) :
    next.toRecorded = pool.toRecorded ∨
      ∃ operation, next.toRecorded = pool.toRecorded.call operation := by
  cases hstep <;> first | exact Or.inl rfl | exact Or.inr ⟨_, rfl⟩

theorem Step.finished_subset [DecidableEq Worker] [DecidableEq Handler]
    {pool next : Pool Task Worker Handler} (hstep : Step pool event next) :
    pool.finished ⊆ next.finished := by
  cases hstep <;> first
    | exact List.Subset.refl _
    | exact List.subset_append_left _ _

/-- When a task that does not allow parallel execution has been returned, the
tasks returned before it from the same queue have finished. -/
def Barrier (pool : Pool Task Worker Handler) : Prop :=
  ∀ key other task, Precedes (pool.toRecorded.returned key) other task →
    allowParallel task = false → other ∈ pool.finished

theorem Barrier.step [DecidableEq Worker] [DecidableEq Handler]
    {pool next : Pool Task Worker Handler} (hbarrier : Barrier pool)
    (hexclusive : Exclusive next) (hprogress : Progress next)
    (hstep : Step pool event next) : Barrier next := by
  intro key other task hprecedes hserial
  have hold : Precedes (pool.toRecorded.returned key) other task →
      other ∈ next.finished := fun hbefore =>
    hstep.finished_subset (hbarrier key other task hbefore hserial)
  rcases hstep.toRecorded_eq with hsame | ⟨operation, hcall⟩
  · rw [hsame] at hprecedes
    exact hold hprecedes
  · have hnodup := hprogress.sound.nodup_returned key
    by_cases hbefore : task ∈ pool.toRecorded.returned key
    · rw [hcall, returned_call] at hprecedes hnodup
      exact hold (hprecedes.of_append hnodup hbefore)
    · -- The task is returned by this call, so it is alone in progress.
      have hmem := hprecedes.mem_right
      rw [hcall, mem_returned_call, or_iff_right hbefore] at hmem
      have heffect := pool.effect_call operation
      have hgroup : next.group = (pool.call operation).group :=
        congrArg group hcall
      rw [← hgroup] at heffect
      have halone := hexclusive.alone key task (heffect.mem_inProgress_of_returned hmem)
        hserial
      rcases hprogress.returned key other hprecedes.mem_left with hdone | hin
      · exact hdone
      · rw [halone, Finset.mem_singleton] at hin
        exact absurd hin (hprecedes.ne hnodup)

/-- What is known of every reachable pool whose handlers serve queues of tasks
that do not allow parallel execution. -/
structure Orderly (pool : Pool Task Worker Handler) : Prop where
  exclusive : Exclusive pool
  progress : Progress pool
  barrier : Barrier pool

theorem Reachable.orderly [DecidableEq Worker] [DecidableEq Handler]
    {throttleSize maxSize : ℕ}
    (hserial : Handler → ∀ task : Task, allowParallel task = false)
    {pool : Pool Task Worker Handler} (hreachable : Reachable throttleSize maxSize pool) :
    Orderly pool := by
  apply Transition.Reachable.invariant _ _ hreachable
  · rintro _ ⟨fd, byte, rfl⟩
    refine ⟨Exclusive.start _ rfl, Progress.start _ rfl, ?_⟩
    intro key other task hprecedes
    simpa [Pool.start, Recorded.returned] using hprecedes.mem_left
  · intro state event next _ horderly hstep
    have hexclusive := horderly.exclusive.step hserial hstep
    have hprogress := horderly.progress.step hstep
    exact ⟨hexclusive, hprogress, horderly.barrier.step hexclusive hprogress hstep⟩

/-- When a task that does not allow parallel execution has been returned, every
task accepted before it for the same queue has finished. -/
theorem Orderly.finished_of_precedes {pool : Pool Task Worker Handler}
    (horderly : Orderly pool) {key : Bytes} {other task : Task}
    (hprecedes : Precedes (pool.toRecorded.accepted key) other task)
    (hserial : allowParallel task = false)
    (hreturned : task ∈ pool.toRecorded.returned key) : other ∈ pool.finished := by
  have hsound := horderly.progress.sound
  have hnodup := hsound.nodup_accepted key
  rw [hsound.conserved key] at hprecedes hnodup
  exact horderly.barrier key other task (hprecedes.of_append hnodup hreturned) hserial

end Pool

end Restpose
