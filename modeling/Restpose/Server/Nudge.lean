import Restpose.Server.Load
import Restpose.Server.Shutdown

/-!
# Paused queues are resumed

A processing queue is paused when the indexing queue of the same collection
fills up, and `serve()` resumes it after a nudge.  A pop sends a nudge when the
queue it pops from is about to drop below the throttle size, so a queue that is
paused while its indexing queue has space has a nudge on its way: owed by a pop,
in the pipe, or in the hands of `serve()`.
-/

namespace Restpose

open List Function TaskQueueGroup Transition.Reachable ForwardPc Pool

variable {Task : Type} [TaskObject Task]

/-! ## Which pops send a nudge -/

/-- The operations that pop. -/
def Operation.pops : Operation Task → Bool
  | .popAny _ => true
  | .popFrom _ _ => true
  | _ => false

theorem Operation.task_run_of_not_pops {operation : Operation Task}
    (hpops : operation.pops = false) (group : TaskQueueGroup Task) :
    (operation.run group).2.task = none := by
  have heffect := operation.effect_run group
  generalize (operation.run group).2 = reply at heffect ⊢
  generalize (operation.run group).1 = after at heffect
  cases heffect with
  | popAny | popAnyNone | popAnyFailed | popFrom | popFromFinished
  | popFromWait | popFromFailed => cases hpops
  | assignNone => split <;> rfl
  | _ => rfl

namespace TaskQueueGroup

variable {group : TaskQueueGroup Task} {key : Bytes} {task : Task}

/-- A pop that sends no nudge does not pop the task that fills the queue. -/
theorem takeFront_eq_popped {other : Bytes} (hfd : group.nudgeFd ≠ -1)
    (hreply : (group.takeFront other).2 = .popped key task none) :
    (group.info key).queue.length ≠ group.throttleSize := by
  unfold takeFront at hreply
  split at hreply
  next => cases hreply
  next first rest hqueue =>
    simp only [Reply.popped.injEq] at hreply
    obtain ⟨rfl, rfl, hnudge⟩ := hreply
    rw [hqueue, length_cons]
    intro hlength
    rw [if_pos ⟨hlength, hfd⟩] at hnudge
    cases hnudge

omit [TaskObject Task] in
theorem nudgeFd_of_settings {left right : TaskQueueGroup Task}
    (hsettings : left.settings = right.settings) :
    left.throttleSize = right.throttleSize ∧ left.nudgeFd = right.nudgeFd := by
  simp only [settings, Prod.mk.injEq] at hsettings
  exact ⟨hsettings.1, hsettings.2.2.1⟩

theorem run_eq_popped (hfd : group.nudgeFd ≠ -1) {operation : Operation Task}
    (hreply : (operation.run group).2 = .popped key task none) :
    (group.info key).queue.length ≠ group.throttleSize := by
  -- what is left in the queues is the same after the completion of a task
  have hcompleted : ∀ {completed current}, group.complete completed = some current →
      ∀ other, (current.info other).queue = (group.info other).queue := by
    intro completed current hcomplete other
    rw [(complete_eq_some hcomplete).1, queue_settled]
  have hpops : operation.pops = true := by
    by_contra hnot
    have htask := Operation.task_run_of_not_pops (by simpa using hnot) group
    rw [hreply] at htask
    cases htask
  cases operation with
  | popAny completed =>
    simp only [Operation.run, popAny] at hreply
    split at hreply
    next => cases hreply
    next current hcomplete =>
    obtain ⟨hthrottle, hcurrentFd⟩ := nudgeFd_of_settings (settings_complete hcomplete)
    split at hreply
    next other picked hpick =>
      obtain ⟨hpickedThrottle, hpickedFd⟩ :=
        nudgeFd_of_settings (settings_pickQueue hpick)
      have hlength := takeFront_eq_popped (by rwa [hpickedFd, hcurrentFd]) hreply
      rwa [(pickQueue_eq_some hpick).2.1, hcompleted hcomplete,
        hpickedThrottle, hthrottle] at hlength
    next => split at hreply <;> cases hreply
  | popFrom other completed =>
    simp only [Operation.run, popFrom] at hreply
    split at hreply
    next => cases hreply
    next current hcomplete =>
    obtain ⟨hthrottle, hcurrentFd⟩ := nudgeFd_of_settings (settings_complete hcomplete)
    split at hreply
    next =>
      split at hreply
      next => cases hreply
      next =>
        have hlength := takeFront_eq_popped (by rwa [hcurrentFd]) hreply
        rwa [hcompleted hcomplete, hthrottle] at hlength
    next => cases hreply
  | _ => cases hpops

/-- A queue that drops below the throttle size is popped with a nudge. -/
theorem size_lt_or_nudge (hfd : group.nudgeFd ≠ -1) (operation : Operation Task)
    (hsize : ((operation.run group).1.info key).queue.length < group.throttleSize) :
    (group.info key).queue.length < group.throttleSize ∨
      ∃ task byte, (operation.run group).2 = .popped key task (some byte) := by
  have hconserved := congrArg length (operation.conservation group key)
  rw [length_append, length_append, Call.returned_eq] at hconserved
  cases htask : (operation.run group).2.task with
  | none =>
    rw [htask, length_nil] at hconserved
    exact Or.inl (by omega)
  | some entry =>
    obtain ⟨other, task⟩ := entry
    rw [htask] at hconserved
    by_cases heq : other = key
    · subst heq
      simp only [if_true, length_singleton] at hconserved
      cases hreply : (operation.run group).2 with
      | popped popped current nudge =>
        rw [hreply, Reply.task, Option.some.injEq, Prod.mk.injEq] at htask
        obtain ⟨rfl, rfl⟩ := htask
        cases nudge with
        | none =>
          have hne := run_eq_popped hfd hreply
          exact Or.inl (by omega)
        | some byte => exact Or.inr ⟨current, byte, rfl⟩
      | _ => simp [hreply, Reply.task] at htask
    · simp only [if_neg heq, length_nil] at hconserved
      exact Or.inl (by omega)

omit [TaskObject Task] in
/-- A push that is not throttled returns `LOW_SPACE` or `FULL` only if the
queue holds at least as many tasks as the throttle size afterwards. -/
theorem throttleSize_le_push (hsizes : group.throttleSize ≤ group.maxSize)
    {state : QueueState} (hreply : (group.push key task false).2 = .queued state)
    (hstate : state = .lowSpace ∨ state = .full) :
    group.throttleSize ≤ ((group.push key task false).1.info key).queue.length := by
  have hfound : (group.update key id).info key = group.info key := by
    rw [info_update, update_self]
    rfl
  simp only [push] at hreply ⊢
  split at hreply
  next =>
    cases hreply
    simp at hstate
  next hopen =>
    rw [if_neg hopen]
    split at hreply
    next hfull =>
      rw [if_pos hfull]
      simp only [Bool.false_and, Bool.not_false, Bool.true_and, Bool.false_or,
        decide_eq_true_eq] at hfull
      exact hsizes.trans hfull
    next hfull =>
      rw [if_neg hfull]
      simp only [info_update, update_self, length_append, length_singleton]
      cases hreply
      split at hstate
      next => simp at hstate
      next hlow =>
        simp only [info_update, update_self] at hlow
        exact not_lt.mp hlow

end TaskQueueGroup

namespace Pool

variable {Handler : Type} {pool next : Pool Task Empty Handler}
  {event : PoolEvent Task Empty Handler}

/-- A thread has popped a task and is about to send a nudge. -/
def Owing (pool : Pool Task Empty Handler) : Prop :=
  ∃ handler key task byte collection,
    pool.handler handler = .nudging key task byte collection

variable [DecidableEq Handler]

/-- The steps that do not come from the manager leave the queues as active as
they were. -/
theorem Step.active_eq {Worker Handler : Type} [DecidableEq Worker] [DecidableEq Handler]
    {pool next : Pool Task Worker Handler} {event : PoolEvent Task Worker Handler}
    (hstep : Step pool event next) (hown : event.own = true) (key : Bytes) :
    (next.group.info key).active = (pool.group.info key).active := by
  cases hstep with
  | setActive | setInactiveInternal | close | stopWorker | stopHandler =>
    cases hown
  | _ =>
    first
    | rfl
    | exact (pool.effect_call _).active_eq rfl key

/-- A nudge that is owed stays owed until it is sent. -/
theorem Step.owing (hstep : Step pool event next) (howing : pool.Owing) :
    next.Owing ∨ pool.sent event ≠ [] := by
  obtain ⟨handler, key, task, byte, collection, hhandler⟩ := howing
  have hkept : ∀ {moved : Handler} {pc : HandlerPc Task},
      next.handler = update pool.handler moved pc →
        pool.handler moved ≠ .nudging key task byte collection → next.Owing := by
    intro moved pc hnext hmoved
    have hne : handler ≠ moved := by
      rintro rfl
      exact hmoved hhandler
    refine ⟨handler, key, task, byte, collection, ?_⟩
    rw [hnext, update_of_ne hne, hhandler]
  have hsame : next.handler = pool.handler → next.Owing := by
    intro hnext
    exact ⟨handler, key, task, byte, collection, by rw [hnext, hhandler]⟩
  cases hstep with
  | push | setActive | setInactiveInternal | close | stopHandler =>
    exact Or.inl (hsame rfl)
  | stopWorker worker | @workerStopped worker | @workerPop worker
  | @workerRetry worker | @workerNudge worker | @workerFinish worker
  | @workerKill worker =>
    exact worker.elim
  | handlerNudge hpc => exact Or.inr (by simp [sent, hpc])
  | handlerAssign hpc =>
    refine Or.inl (hkept rfl ?_)
    rcases hpc with ⟨hpc, _⟩ | hpc <;> simp [hpc]
  | handlerPop hpc =>
    refine Or.inl (hkept rfl ?_)
    rcases hpc with hpc | ⟨hpc, _⟩ <;> simp [hpc]
  | handlerKill _ hpc =>
    refine Or.inl (hkept rfl ?_)
    rcases hpc with ⟨current, _, hpc⟩ | hpc <;> simp [hpc]
  | handlerStopped hpc | handlerFinish _ hpc | handlerFail _ hpc
  | handlerTimeout hpc | handlerCompleted hpc | handlerNothingCompleted hpc
  | handlerUnassign hpc | handlerCleanup hpc | handlerKeep hpc
  | handlerCleanupFails hpc | dyingCleanup hpc | dyingKeep hpc
  | dyingCleanupFails hpc => exact Or.inl (hkept rfl (by simp [hpc]))

/-- A queue drops below the throttle size only by a pop that owes a nudge. -/
theorem Step.size_lt (hstep : Step pool event next) (hfd : pool.group.nudgeFd ≠ -1)
    {key : Bytes} (hsize : (next.group.info key).queue.length < pool.group.throttleSize) :
    (pool.group.info key).queue.length < pool.group.throttleSize ∨
      next.Owing := by
  have hcall : ∀ operation : Operation Task, operation.pops = false →
      ((pool.call operation).group.info key).queue.length < pool.group.throttleSize →
      (pool.group.info key).queue.length < pool.group.throttleSize := by
    intro operation hpops hafter
    rcases size_lt_or_nudge hfd operation hafter with
      hbefore | ⟨task, byte, hreply⟩
    · exact hbefore
    · have htask := operation.task_run_of_not_pops hpops pool.group
      rw [hreply] at htask
      cases htask
  cases hstep with
  | @workerStopped worker | @workerPop worker | @workerRetry worker
  | @workerNudge worker | @workerFinish worker | @workerKill worker =>
    exact worker.elim
  | @handlerPop handler other previous collection =>
    rcases size_lt_or_nudge hfd (.popFrom other (previous.map (Prod.mk other))) hsize with
      hbefore | ⟨task, byte, hreply⟩
    · exact Or.inl hbefore
    · refine Or.inr ⟨handler, other, task, byte, collection, ?_⟩
      change update pool.handler handler _ handler = _
      rw [update_self, reply, hreply]
      rfl
  | _ =>
    first
    | exact Or.inl hsize
    | exact Or.inl (hcall _ rfl hsize)

end Pool

/-! ## The lock of the processing group -/

/-- Where a thread holds the lock of the processing group between two steps. -/
def ForwardPc.underLock : ForwardPc → Bool
  | .pushing _ _ => true
  | .pausing _ _ => true
  | _ => false

namespace TaskManager

variable {Proc Index Query Worker Handler Searcher : Type}
  [TaskObject Proc] [TaskObject Index] [TaskObject Query]
  [DecidableEq Worker] [DecidableEq Handler] [DecidableEq Searcher]
  {contents : TaskContents Proc Index}
  {manager next : TaskManager Proc Index Query Worker Handler Searcher}
  {event : ManagerEvent Proc Index Query Worker Handler Searcher}

/-- How a thread goes on after a push, by what the push returned. -/
def afterPush (queue : Bytes) (payload : Payload) : QueueState → ForwardPc
  | .lowSpace => .pausing queue none
  | .full => .pausing queue (some payload)
  | _ => .outside

omit [TaskObject Proc] [TaskObject Query] [DecidableEq Handler] [DecidableEq Searcher] in
theorem pushClone_spec (worker : Worker) (payload : Payload)
    (attempt : Forward Proc Index) {state : QueueState}
    (hreply : manager.indexing.reply (.push attempt.queue attempt.clone false) =
      .queued state) :
    (manager.pushClone worker payload attempt).forwarding =
      update manager.forwarding worker
          (afterPush attempt.queue payload state) ∧
      (manager.pushClone worker payload attempt).lock =
        (if (afterPush attempt.queue payload state).underLock then manager.lock
        else none) ∧
      (manager.pushClone worker payload attempt).pipe = manager.pipe ∧
      (manager.pushClone worker payload attempt).serving = manager.serving := by
  simp only [pushClone, hreply]
  cases state <;> exact ⟨rfl, rfl, rfl, rfl⟩

/-- The threads that are under the lock hold it. -/
def Locked (manager : TaskManager Proc Index Query Worker Handler Searcher) :
    Prop :=
  ∀ worker, (manager.forwarding worker).underLock = true →
    manager.lock = some worker

theorem Locked.step (hlocked : Locked manager)
    (hstep : Step contents manager event next) :
    Locked next := by
  -- a thread that holds the lock moves on and keeps it or releases it
  have hholder : ∀ (worker : Worker) (pc : ForwardPc),
      (manager.forwarding worker).underLock = true →
      next.forwarding = update manager.forwarding worker pc →
      (pc.underLock = true → next.lock = manager.lock) → Locked next := by
    intro worker pc hheld hforwarding hlock other hother
    rw [hforwarding] at hother
    by_cases heq : other = worker
    · subst heq
      rw [update_self] at hother
      rw [hlock hother, hlocked other hheld]
    · rw [update_of_ne heq] at hother
      have hsame := (hlocked other hother).symm.trans (hlocked worker hheld)
      exact absurd (Option.some.inj hsame) heq
  cases hstep with
  | @forwardCall worker key task queue payload =>
    intro other hother
    by_cases heq : other = worker
    · subst heq
      simp [setForwarding, underLock] at hother
    · simp only [setForwarding, update_of_ne heq] at hother
      exact hlocked other hother
  | @forwardLock worker queue payload _ hlock =>
    intro other hother
    by_cases heq : other = worker
    · rw [heq]
    · simp only [setForwarding, update_of_ne heq] at hother
      rw [hlocked other hother] at hlock
      cases hlock
  | @forwardPush worker payload attempt _ hpc =>
    obtain ⟨state, hreply⟩ :=
      exists_reply_push manager.indexing attempt.queue attempt.clone false
    obtain ⟨hforwarding, hlock, _⟩ := pushClone_spec worker payload attempt hreply
    refine hholder worker _ (by rw [hpc]; rfl) hforwarding fun hheld => ?_
    rw [hlock, if_pos hheld]
  | @forwardPause worker queue retry hpc =>
    refine hholder worker (afterPause queue retry) (by rw [hpc]; rfl) rfl ?_
    cases retry <;> simp [afterPause, underLock]
  | @forwardThrow worker queue payload retry hpc =>
    refine hholder worker .outside ?_ rfl (by simp [underLock])
    rcases hpc with hpc | hpc <;> rw [hpc] <;> rfl
  | _ => exact hlocked

theorem Reachable.locked (hreachable : Reachable contents manager) : Locked manager := by
  apply invariant _ _ hreachable
  · rintro _ ⟨fd, rfl⟩ worker hheld
    cases hheld
  · exact fun state event after _ hlocked hstep => hlocked.step hstep

theorem Step.settings_indexing (hstep : Step contents manager event next) :
    next.indexing.group.settings = manager.indexing.group.settings := by
  rcases hstep.indexing_eq with hsame | ⟨own, hown⟩
  · rw [hsame]
  · rcases hown.toRecorded_eq with hsame | ⟨operation, hcall⟩
    · rw [congrArg Recorded.group hsame]
    · rw [congrArg Recorded.group hcall]
      exact operation.settings_run _

theorem Reachable.settings_indexing (hreachable : Reachable contents manager) :
    manager.indexing.group.throttleSize = 100000 ∧
      manager.indexing.group.maxSize = 101000 := by
  apply invariant _ _ hreachable
  · rintro _ ⟨fd, rfl⟩
    exact ⟨rfl, rfl⟩
  · intro state event after _ hbefore hstep
    have hsettings := hstep.settings_indexing
    simp only [settings, Prod.mk.injEq] at hsettings
    rw [hsettings.1, hsettings.2.1]
    exact hbefore

end TaskManager

/-! ## Nudges on their way -/

/-- `serve()` has read the nudges and has still to look for paused queues, and
has not found the indexing queue busy. -/
def ServePc.looksFor (key : Bytes) : ServePc → Prop
  | .received => True
  | .listed busy => key ∉ busy
  | _ => False

/-- `serve()` has read the nudges and will find the queue inactive and not busy
in its current round, or has found it so and will set it active. -/
def ServePc.resumes (key : Bytes) : ServePc → Prop
  | .activating remaining => key ∈ remaining
  | serving => serving.looksFor key

theorem ServePc.resumes_of_looksFor {key : Bytes} {serving : ServePc}
    (hlooks : serving.looksFor key) : serving.resumes key := by
  cases serving with
  | activating remaining => cases hlooks
  | _ => exact hlooks

namespace TaskManager

variable {Proc Index Query Worker Handler Searcher : Type}
  [TaskObject Proc] [TaskObject Index] [TaskObject Query]
  [DecidableEq Worker] [DecidableEq Handler] [DecidableEq Searcher]
  {contents : TaskContents Proc Index}
  {manager next : TaskManager Proc Index Query Worker Handler Searcher}
  {event : ManagerEvent Proc Index Query Worker Handler Searcher}

/-- A nudge byte is in the pipe, or some pop still owes one. -/
def NudgeComing
    (manager : TaskManager Proc Index Query Worker Handler Searcher) : Prop :=
  manager.pipe ≠ [] ∨ manager.indexing.Owing

/-- The indexing queue of a key holds fewer tasks than the throttle size. -/
def HasSpace (manager : TaskManager Proc Index Query Worker Handler Searcher)
    (key : Bytes) : Prop :=
  (manager.indexing.group.info key).queue.length <
    manager.indexing.group.throttleSize

/-- The processing queue of a key is paused. -/
def Paused (manager : TaskManager Proc Index Query Worker Handler Searcher)
    (key : Bytes) : Prop :=
  (manager.processing.group.info key).active = false

variable (hstep : Step contents manager event next)

include hstep

theorem Step.nudgeComing (hevent : event ≠ .serve) (hcoming : manager.NudgeComing) :
    next.NudgeComing := by
  have hpipe : ∀ bytes : List Byte, manager.pipe ≠ [] → manager.pipe ++ bytes ≠ [] := by
    intro bytes hbytes
    simp [hbytes]
  cases hstep with
  | processingRun | search =>
    exact hcoming.imp_left (hpipe _)
  | indexing hstep =>
    rcases hcoming with hbytes | howing
    · exact Or.inl (hpipe _ hbytes)
    · rcases hstep.owing howing with hstill | hsent
      · exact Or.inr hstill
      · exact Or.inl (by simp [hsent])
  | @forwardPush worker payload attempt =>
    obtain ⟨state, hreply⟩ :=
      exists_reply_push manager.indexing attempt.queue attempt.clone false
    obtain ⟨_, _, hsame, _⟩ := pushClone_spec worker payload attempt hreply
    rw [NudgeComing, hsame, indexing_pushClone]
    exact hcoming
  | serveRead | serveBusy | serveInactive | serveActivate | serveDone =>
    exact absurd rfl hevent
  | _ => exact hcoming

theorem Step.serving_eq (hevent : event ≠ .serve) (hstage : next.stage = .running) :
    next.serving = manager.serving := by
  cases hstep with
  | @forwardPush worker payload attempt =>
    obtain ⟨state, hreply⟩ :=
      exists_reply_push manager.indexing attempt.queue attempt.clone false
    exact (pushClone_spec worker payload attempt hreply).2.2.2
  | serveRead | serveBusy | serveInactive | serveActivate | serveDone =>
    exact absurd rfl hevent
  | stop => cases hstage
  | _ => rfl

/-- An indexing queue gets space only by a pop that owes a nudge. -/
theorem Step.hasSpace (hfd : manager.indexing.group.nudgeFd ≠ -1) {key : Bytes}
    (hspace : next.HasSpace key) :
    manager.HasSpace key ∨ next.NudgeComing := by
  have hthrottle := (nudgeFd_of_settings hstep.settings_indexing).1
  rw [HasSpace, hthrottle] at hspace
  rcases hstep.indexing_eq with hsame | ⟨own, hown⟩
  · rw [hsame] at hspace
    exact Or.inl hspace
  · exact (hown.size_lt hfd hspace).imp_right Or.inr

/-- A queue is paused by a thread that is about to pause it. -/
theorem Step.paused (hevent : event ≠ .serve) (hstage : next.stage = .running)
    {key : Bytes} (hpaused : next.Paused key) :
    manager.Paused key ∨ ∃ worker retry,
      manager.forwarding worker = .pausing key retry := by
  have hown : ∀ {own after}, Pool.Step manager.processing own after →
      own.own = true → (after.group.info key).active = false →
      manager.Paused key := by
    intro own after hstep hown hafter
    rwa [hstep.active_eq hown key] at hafter
  cases hstep with
  | processingPush hstep | processingRun hstep | processingFinish hstep
  | processingKill hstep => exact Or.inl (hown hstep rfl hpaused)
  | forwardPush =>
    rw [Paused, processing_pushClone] at hpaused
    exact Or.inl hpaused
  | @forwardPause worker queue retry hpc =>
    by_cases heq : key = queue
    · subst heq
      exact Or.inr ⟨worker, retry, hpc⟩
    · refine Or.inl ?_
      change ((manager.processing.group.setInactiveInternal queue).info
        key).active = false at hpaused
      unfold setInactiveInternal at hpaused
      split at hpaused
      next => exact hpaused
      next =>
        rwa [info_update, update_of_ne heq] at hpaused
  | serveRead | serveBusy | serveInactive | serveActivate | serveDone =>
    exact absurd rfl hevent
  | closeProcessing => cases hstage
  | _ => exact Or.inl hpaused

omit hstep

/-- A thread pauses a queue after it has found the indexing queue without
space. -/
theorem Step.pausing (hstep : Step contents manager event next)
    (hsizes : manager.indexing.group.throttleSize ≤ manager.indexing.group.maxSize)
    {worker : Worker} {queue : Bytes} {retry : Option Payload}
    (hpausing : next.forwarding worker = .pausing queue retry) :
    manager.forwarding worker = .pausing queue retry ∨ ¬next.HasSpace queue := by
  have hmove : ∀ {other : Worker} {pc : ForwardPc},
      next.forwarding = update manager.forwarding other pc →
      (∀ queue retry, pc ≠ .pausing queue retry) →
      manager.forwarding worker = .pausing queue retry := by
    intro other pc hforwarding hpc
    rw [hforwarding] at hpausing
    by_cases heq : worker = other
    · rw [heq, update_self] at hpausing
      exact absurd hpausing (hpc queue retry)
    · rwa [update_of_ne heq] at hpausing
  have hsettings := hstep.settings_indexing
  cases hstep with
  | forwardCall | forwardLock | forwardThrow =>
    exact Or.inl (hmove rfl (by simp))
  | @forwardPush other payload attempt =>
    obtain ⟨state, hreply⟩ :=
      exists_reply_push manager.indexing attempt.queue attempt.clone false
    have hforwarding := (pushClone_spec other payload attempt hreply).1
    by_cases hlow : state = .lowSpace ∨ state = .full
    · by_cases heq : worker = other
      · right
        rw [hforwarding, heq, update_self] at hpausing
        have hqueue : attempt.queue = queue := by
          rcases hlow with rfl | rfl <;> exact (pausing.inj hpausing).1
        rw [HasSpace, (nudgeFd_of_settings hsettings).1, indexing_pushClone, ← hqueue,
          not_lt]
        exact throttleSize_le_push hsizes hreply hlow
      · rw [hforwarding, update_of_ne heq] at hpausing
        exact Or.inl hpausing
    · refine Or.inl (hmove hforwarding ?_)
      cases state with
      | lowSpace => exact absurd (Or.inl rfl) hlow
      | full => exact absurd (Or.inr rfl) hlow
      | _ => simp [afterPush]
  | @forwardPause other queue retry =>
    refine Or.inl (hmove rfl ?_)
    cases retry <;> simp [afterPause]
  | _ => exact Or.inl hpausing

/-- What leads to a paused queue being resumed, while the manager runs. -/
structure Resuming
    (manager : TaskManager Proc Index Query Worker Handler Searcher) :
    Prop where
  pausing : ∀ worker queue retry,
    manager.forwarding worker = .pausing queue retry → manager.HasSpace queue →
      manager.NudgeComing ∨ manager.serving.looksFor queue
  paused : ∀ key, manager.Paused key → manager.HasSpace key →
    manager.NudgeComing ∨ manager.serving.resumes key

theorem Resuming.step_other (hresuming : Resuming manager)
    (hstep : Step contents manager event next) (hevent : event ≠ .serve)
    (hstage : next.stage = .running) (hfd : manager.indexing.group.nudgeFd ≠ -1)
    (hsizes : manager.indexing.group.throttleSize ≤ manager.indexing.group.maxSize) :
    Resuming next := by
  have hserving := hstep.serving_eq hevent hstage
  constructor
  · intro worker queue retry hpausing hspace
    rw [hserving]
    have hbefore := (hstep.pausing hsizes hpausing).resolve_right (not_not_intro hspace)
    rcases hstep.hasSpace hfd hspace with hhad | hcoming
    · exact (hresuming.pausing worker queue retry hbefore hhad).imp_left
        (hstep.nudgeComing hevent)
    · exact Or.inl hcoming
  · intro key hpaused hspace
    rw [hserving]
    rcases hstep.hasSpace hfd hspace with hhad | hcoming
    · rcases hstep.paused hevent hstage hpaused with
        hbefore | ⟨worker, retry, hpausing⟩
      · exact (hresuming.paused key hbefore hhad).imp_left (hstep.nudgeComing hevent)
      · exact (hresuming.pausing worker key retry hpausing hhad).imp
          (hstep.nudgeComing hevent) ServePc.resumes_of_looksFor
    · exact Or.inl hcoming

omit [TaskObject Proc] in
theorem mem_getInactiveQueues {group : TaskQueueGroup Proc} {key : Bytes}
    (hinactive : (group.info key).active = false) :
    key ∈ group.getInactiveQueues := by
  rw [getInactiveQueues, mem_filter, Std.ExtTreeMap.mem_keys, hinactive]
  refine ⟨mem_queues_of_info_ne_fresh fun hfresh => ?_, rfl⟩
  rw [hfresh] at hinactive
  cases hinactive

theorem Resuming.step_serve (hresuming : Resuming manager) (hlocked : Locked manager)
    (hopen : manager.processing.group.closed = false)
    (hstep : Step contents manager .serve next) : Resuming next := by
  -- no thread is about to pause a queue while the lock is free
  have hfree : manager.lock = none → ∀ worker queue retry,
      manager.forwarding worker ≠ .pausing queue retry := by
    intro hlock worker queue retry hpausing
    have hheld := hlocked worker (by rw [hpausing]; rfl)
    rw [hlock] at hheld
    cases hheld
  cases hstep with
  | serveRead =>
    exact ⟨fun _ _ _ _ _ => Or.inr trivial, fun _ _ _ => Or.inr trivial⟩
  | serveBusy _ hserving =>
    have hbusy : ∀ key, manager.HasSpace key →
        key ∉ manager.indexing.group.getBusyQueues := by
      intro key hspace hmem
      have hfull := of_decide_eq_true (mem_filter.mp hmem).2
      exact absurd hspace (not_lt.mpr hfull)
    exact ⟨fun _ queue _ _ hspace => Or.inr (hbusy queue hspace),
      fun key _ hspace => Or.inr (hbusy key hspace)⟩
  | @serveInactive busy _ hserving hlock =>
    constructor
    · intro worker queue retry hpausing
      exact absurd hpausing (hfree hlock worker queue retry)
    · intro key hpaused hspace
      refine (hresuming.paused key hpaused hspace).imp_right fun hresumes => ?_
      rw [hserving] at hresumes
      change key ∈ filter _ _
      rw [mem_filter]
      refine ⟨mem_getInactiveQueues hpaused, ?_⟩
      have hnot : key ∉ busy := hresumes
      simpa using hnot
  | @serveActivate first remaining _ hserving hlock =>
    constructor
    · intro worker queue retry hpausing
      exact absurd hpausing (hfree hlock worker queue retry)
    · intro key hpaused hspace
      have hinfo : ((manager.processing.group.setActive first true).info
          key).active = false := hpaused
      rw [setActive, if_neg (by rw [hopen]; simp), if_pos rfl,
        info_checkForCleanup, info_update] at hinfo
      by_cases heq : key = first
      · rw [heq, update_self] at hinfo
        cases hinfo
      · rw [update_of_ne heq] at hinfo
        refine (hresuming.paused key hinfo hspace).imp_right fun hresumes => ?_
        rw [hserving] at hresumes
        exact (mem_cons.mp hresumes).resolve_left heq
  | serveDone _ hserving =>
    have hnone : ∀ key, ¬manager.serving.resumes key := by
      intro key hresumes
      rw [hserving] at hresumes
      cases hresumes
    constructor
    · intro worker queue retry hpausing hspace
      refine Or.inl ((hresuming.pausing worker queue retry hpausing
        hspace).resolve_right fun hlooks => ?_)
      exact hnone queue (ServePc.resumes_of_looksFor hlooks)
    · intro key hpaused hspace
      exact Or.inl ((hresuming.paused key hpaused hspace).resolve_right (hnone key))

theorem Step.running (hstep : Step contents manager event next)
    (hstage : next.stage = .running) : manager.stage = .running := by
  cases hstep with
  | forwardPush => simpa using hstage
  | _ => first | exact hstage | cases hstage

/-- The processing group is closed after the manager has stopped running. -/
theorem Step.open_processing (hstep : Step contents manager event next)
    (hstage : next.stage = .running) :
    next.processing.group.closed = manager.processing.group.closed := by
  cases hstep with
  | processingPush hstep | processingRun hstep | processingFinish hstep
  | processingKill hstep => exact hstep.closed_eq (by simp)
  | forwardPush => rw [processing_pushClone]
  | forwardPause | serveActivate =>
    exact (manager.processing.effect_call _).closed_eq (by simp)
  | closeProcessing => cases hstage
  | _ => rfl

theorem Reachable.open_processing (hreachable : Reachable contents manager)
    (hstage : manager.stage = .running) :
    manager.processing.group.closed = false := by
  revert hstage
  apply invariant _ _ hreachable
  · rintro _ ⟨fd, rfl⟩ _
    rfl
  · intro state event after _ hbefore hstep hstage
    rw [hstep.open_processing hstage]
    exact hbefore (hstep.running hstage)

theorem Reachable.resuming (hreachable : Reachable contents manager)
    (hstage : manager.stage = .running) (hfd : manager.indexing.group.nudgeFd ≠ -1) :
    Resuming manager := by
  revert hstage hfd
  apply Transition.Reachable.invariant _ _ hreachable
  · rintro _ ⟨fd, rfl⟩ _ _
    refine ⟨fun worker queue retry hpausing => (by cases hpausing), ?_⟩
    intro key hpaused
    simp [Paused, start, Pool.start, create, setNudge, info, QueueInfo.fresh] at hpaused
  · intro state event after hbefore hresuming hstep hstage hfd
    have hstate : Reachable contents state := hbefore
    have hrunning := hstep.running hstage
    rw [(nudgeFd_of_settings hstep.settings_indexing).2] at hfd
    have hsettings := hstate.settings_indexing
    by_cases hevent : event = .serve
    · subst hevent
      exact (hresuming hrunning hfd).step_serve hstate.locked
        (hstate.open_processing hrunning) hstep
    · exact (hresuming hrunning hfd).step_other hstep hevent hstage hfd (by omega)

/-- While the manager runs, a processing queue that is paused while its indexing
queue holds fewer tasks than the throttle size is going to be resumed: a nudge
byte is in the pipe, or some pop owes one, or `serve()` has read the nudges and
will find the queue in its current round. -/
theorem paused_queue_resumed (hreachable : Reachable contents manager)
    (hstage : manager.stage = .running)
    (hfd : manager.indexing.group.nudgeFd ≠ -1) (key : Bytes)
    (hpaused : (manager.processing.group.info key).active = false)
    (hspace : (manager.indexing.group.info key).queue.length <
      manager.indexing.group.throttleSize) :
    manager.pipe ≠ [] ∨ manager.indexing.Owing ∨
      manager.serving.resumes key := by
  rw [← or_assoc]
  exact (hreachable.resuming hstage hfd).paused key hpaused hspace

section Witness

/-- The indexing tasks that clients push meanwhile. -/
def clientTasks (count : ℕ) : List IndexingTask :=
  (List.range count).map IndexingTask.mk

theorem length_clientTasks (count : ℕ) : (clientTasks count).length = count := by
  rw [clientTasks, length_map, length_range]

theorem nodup_clientTasks (count : ℕ) : (clientTasks count).Nodup := by
  refine List.Nodup.map ?_ nodup_range
  rintro left right hsame
  exact IndexingTask.mk.inj hsame

variable {count : ℕ}

theorem notMem_clientTasks {address : ℕ} (haddress : count ≤ address) :
    (⟨address⟩ : IndexingTask) ∉ clientTasks count := by
  simpa [clientTasks] using haddress

/-- A thread performs a task of its only queue while the indexing queue of the
same name holds `tasks` and no handler has it. -/
structure Loaded (manager : Small 1 1) (tasks : List IndexingTask) : Prop where
  reachable : Reachable plainContents manager
  worker : manager.processing.worker 0 = .performing (ascii "a") ⟨1, true⟩
  info : manager.indexing.group.info =
    Function.update (fun _ => .fresh) (ascii "a") ⟨tasks, ∅, true, false⟩
  closed : manager.indexing.group.closed = false
  settings : manager.indexing.group.settings = (100000, 101000, 3, 73)
  handler : manager.indexing.handler = fun _ => .top
  handlerStop : manager.indexing.handlerStop = fun _ => false

/-- Clients can fill the indexing queue while a thread performs a task. -/
theorem exists_loaded {base : Small 1 1} (hreachable : Reachable plainContents base)
    (hindexing : base.indexing =
      Pool.start ((TaskQueueGroup.create 100000 101000).setNudge 3 73))
    (hworker : base.processing.worker 0 = .performing (ascii "a") ⟨1, true⟩)
    (hcount : count ≤ 101000) :
    ∃ manager, Loaded manager (clientTasks count) ∧
      manager.indexing.pushed = clientTasks count ∧
      manager.processing = base.processing ∧
      manager.forwarding = base.forwarding ∧ manager.lock = base.lock ∧
      manager.stage = base.stage := by
  have hfresh : base.indexing.group.info = fun _ => QueueInfo.fresh := by
    funext key
    simp [hindexing, Pool.start, TaskQueueGroup.info, TaskQueueGroup.create,
      TaskQueueGroup.setNudge]
  have hpushed : base.indexing.pushed = [] := by
    rw [hindexing]
    rfl
  have hroom : (base.indexing.group.info (ascii "a")).queue.length +
      (clientTasks count).length ≤ base.indexing.group.maxSize := by
    have hmax : base.indexing.group.maxSize = 101000 := by
      rw [hindexing]
      rfl
    rw [hfresh, length_clientTasks, hmax]
    simpa [QueueInfo.fresh] using hcount
  obtain ⟨pool, hsteps, hinfo, hclosed, hhandler, hstop, hpool⟩ :=
    base.indexing.steps_fill (ascii "a") (clientTasks count) (by rw [hindexing]; rfl)
      (by simpa [hpushed] using nodup_clientTasks count) hroom
  obtain ⟨pipe, hmanager⟩ := steps_indexing plainContents hsteps
  refine ⟨_, ⟨hreachable.steps hmanager, hworker, ?_, hclosed, ?_, ?_, ?_⟩, ?_,
    rfl, rfl, rfl, rfl⟩
  · rw [hinfo, hfresh]
    rfl
  · rw [settings_of_steps hsteps, hindexing]
    rfl
  · rw [hhandler, hindexing]
    rfl
  · rw [hstop, hindexing]
    rfl
  · rw [hpool, hpushed, List.nil_append]

variable {loaded : Small 1 1} {tasks : List IndexingTask}

theorem Loaded.pop {popped rest : List IndexingTask}
    (hloaded : Loaded loaded (popped ++ rest)) (hne : popped ++ rest ≠ []) :
    ∃ pool, Transition.Steps Pool.OwnStep loaded.indexing pool ∧
      (pool.group.info (ascii "a")).queue = rest ∧
      pool.group.settings = (100000, 101000, 3, 73) := by
  have hinfo : loaded.indexing.group.info (ascii "a") =
      ⟨popped ++ rest, ∅, true, false⟩ := by
    rw [hloaded.info, update_self]
  have hpick : (loaded.indexing.group.info (ascii "a")).pickable = true := by
    rw [hinfo]
    cases hqueue : popped ++ rest with
    | nil => exact absurd hqueue hne
    | cons task others => rfl
  have honly : ∀ other, other ≠ ascii "a" →
      (loaded.indexing.group.info other).pickable = false := by
    intro other hother
    rw [hloaded.info, update_of_ne hother]
    rfl
  have htop : loaded.indexing.handler 0 = .top := congrFun hloaded.handler 0
  obtain ⟨assigned, hassign, hpopping, hassigned⟩ := steps_assign htop
    (congrFun hloaded.handlerStop 0) hpick honly
  rw [hinfo] at hassigned
  obtain ⟨pool, previous, hpops, _, hrest⟩ := steps_pops popped rest hpopping hassigned
  have hsteps := hassign.trans hpops
  exact ⟨pool, hsteps, by rw [hrest], (settings_of_steps hsteps).trans hloaded.settings⟩

/-- The call of the thread, with the clone at an address. -/
def attemptOf (address : ℕ) : Forward BareTask IndexingTask :=
  ⟨ascii "a", ⟨1, true⟩, ascii "a", ⟨address⟩⟩

theorem Loaded.push (hloaded : Loaded loaded tasks)
    (hforwarding : loaded.forwarding 0 = .pushing (ascii "a") (.other 0))
    {address : ℕ} (hfresh : (⟨address⟩ : IndexingTask) ∉ loaded.indexing.pushed)
    {state : QueueState} {left : List IndexingTask}
    (hreply : (loaded.indexing.group.push (ascii "a") ⟨address⟩ false).2 = .queued state)
    (hinfo : (loaded.indexing.group.push (ascii "a") ⟨address⟩ false).1.info =
      Function.update (fun _ => .fresh) (ascii "a") ⟨left, ∅, true, false⟩) :
    ∃ next, Step plainContents loaded (.forward 0) next ∧ Loaded next left ∧
      next.forwarding 0 = afterPush (ascii "a") (.other 0) state ∧
      next.processing = loaded.processing ∧ next.stage = loaded.stage := by
  have hstep : Step plainContents loaded (.forward 0)
      (loaded.pushClone 0 (.other 0) (attemptOf address)) :=
    .forwardPush (attemptOf address) hloaded.worker hforwarding hfresh rfl
  have hindexing : (loaded.pushClone 0 (.other 0)
      (attemptOf address)).indexing = _ := indexing_pushClone 0 _ _
  have hprocessing : (loaded.pushClone 0 (.other 0)
      (attemptOf address)).processing = _ := processing_pushClone 0 _ _
  refine ⟨_, hstep, ⟨hloaded.reachable.step hstep, ?_, ?_, ?_, ?_, ?_, ?_⟩, ?_,
    hprocessing, stage_pushClone 0 _ _⟩
  · rw [hprocessing]
    exact hloaded.worker
  · rw [hindexing]
    exact hinfo
  · rw [hindexing, (loaded.indexing.effect_call _).closed_eq (by simp)]
    exact hloaded.closed
  · rw [hindexing]
    exact (Operation.settings_run _ _).trans hloaded.settings
  · rw [hindexing]
    exact hloaded.handler
  · rw [hindexing]
    exact hloaded.handlerStop
  · rw [(pushClone_spec 0 (.other 0) (attemptOf address) hreply).1, update_self]
    rfl

theorem Loaded.pause (hloaded : Loaded loaded tasks) {retry : Option Payload}
    (hforwarding : loaded.forwarding 0 = .pausing (ascii "a") retry) :
    ∃ next, Step plainContents loaded (.forward 0) next ∧ Loaded next tasks ∧
      next.forwarding 0 = afterPause (ascii "a") retry ∧
      next.processing = loaded.processing.call (.setInactiveInternal (ascii "a")) ∧
      next.stage = loaded.stage :=
  have hstep := Step.forwardPause hforwarding
  ⟨_, hstep, ⟨hloaded.reachable.step hstep, hloaded.worker, hloaded.info,
    hloaded.closed, hloaded.settings, hloaded.handler, hloaded.handlerStop⟩,
    update_self (0 : Fin 1) _ loaded.forwarding, rfl, rfl⟩

/-- A thread is about to push an indexing task. -/
def pushingMoves : List (SmallMove 1 1) :=
  [.processing (.push (ascii "a") ⟨1, true⟩ true), .processing (.runWorker 0),
    .call 0 (ascii "a") (.other 0), .lock 0]

theorem isSome_pushingMoves :
    (runMoves plainContents anyMove pushingMoves).isSome = true := by
  decide

def pushingState : Small 1 1 :=
  (runMoves plainContents anyMove pushingMoves).get
    isSome_pushingMoves

theorem reachable_pushingState : Reachable plainContents pushingState :=
  .of_runMoves (Option.some_get isSome_pushingMoves).symm

theorem exists_paused (hcount : count + 1 = 100000) :
    ∃ manager, Loaded manager (clientTasks count ++ [⟨count⟩]) ∧
      manager.stage = .running ∧
      (manager.processing.group.info (ascii "a")).active = false := by
  obtain ⟨manager, hloaded, hpushed, hprocessing, hforwarding, _, hstage⟩ :=
    exists_loaded reachable_pushingState rfl rfl (show count ≤ 101000 by omega)
  have hqueue : (manager.indexing.group.info (ascii "a")).queue = clientTasks count := by
    rw [hloaded.info, Function.update_self]
  have hthrottle : manager.indexing.group.throttleSize = 100000 :=
    congrArg Prod.fst hloaded.settings
  have hmax : manager.indexing.group.maxSize = 101000 :=
    congrArg (fun settings => settings.2.1) hloaded.settings
  obtain ⟨hreply, hinfo⟩ :=
    TaskQueueGroup.push_of_room (⟨count⟩ : IndexingTask) hloaded.closed
    (by rw [hqueue, length_clientTasks, hmax]; omega)
  rw [hqueue, length_clientTasks, hthrottle, if_neg (by omega)] at hreply
  rw [hloaded.info, Function.update_self, Function.update_idem] at hinfo
  obtain ⟨pushed, _, hafter, hpausing, hsame, hpushing⟩ :=
    hloaded.push (by rw [hforwarding]; rfl)
      (by rw [hpushed]; exact notMem_clientTasks le_rfl) hreply hinfo
  obtain ⟨paused, _, hpaused, _, hinactive, hpausedStage⟩ := hafter.pause hpausing
  refine ⟨paused, hpaused, ?_, ?_⟩
  · rw [hpausedStage, hpushing, hstage]
    rfl
  · rw [hinactive, hsame, hprocessing]
    decide

/-- The queue is paused at the throttle size, and the handler pops one task. -/
theorem paused_queue_resumed_popped :
    ∃ manager : TaskManager BareTask IndexingTask BareTask (Fin 1) (Fin 1) Empty,
      Reachable plainContents manager ∧ manager.stage = .running ∧
      (manager.processing.group.info (ascii "a")).active = false ∧
      (manager.indexing.group.info (ascii "a")).queue.length <
        manager.indexing.group.throttleSize ∧
      (manager.pipe ≠ [] ∨ manager.indexing.Owing ∨
        manager.serving.resumes (ascii "a")) := by
  obtain ⟨count, hcount⟩ : ∃ count, count + 1 = 100000 := ⟨99999, rfl⟩
  obtain ⟨manager, hloaded, hstage, hpaused⟩ := exists_paused hcount
  obtain ⟨first, rest, htasks⟩ : ∃ first rest,
      clientTasks count ++ [⟨count⟩] = [first] ++ rest :=
    List.exists_cons_of_ne_nil (by simp)
  have hlength := congrArg List.length htasks
  rw [htasks] at hloaded
  obtain ⟨pool, hsteps, hrest, hsettings⟩ := hloaded.pop (by simp)
  obtain ⟨pipe, hmanager⟩ := steps_indexing plainContents hsteps
  have hreachable := hloaded.reachable.steps hmanager
  have hspace : (pool.group.info (ascii "a")).queue.length <
      pool.group.throttleSize := by
    simp only [List.length_append, length_clientTasks, List.length_cons,
      List.length_nil] at hlength
    have hthrottle : pool.group.throttleSize = 100000 :=
      congrArg Prod.fst hsettings
    rw [hrest, hthrottle]
    omega
  have hfd : pool.group.nudgeFd ≠ -1 := by
    have hfd : pool.group.nudgeFd = 3 :=
      congrArg (fun settings => settings.2.2.1) hsettings
    rw [hfd]
    decide
  exact ⟨_, hreachable, hstage, hpaused, hspace,
    paused_queue_resumed hreachable hstage hfd _ hpaused hspace⟩

end Witness

end TaskManager

end Restpose
