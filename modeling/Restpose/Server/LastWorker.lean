import Restpose.Server.Progress

/-!
# The last worker leaves nothing

After `close()` a worker returns as soon as `pick_queue` finds nothing, which
may be because the tasks that are left have to wait for one in progress.  The
worker that carries that task comes back for them: every task in progress is
carried by some worker, and the worker that returns last carries none.
-/

namespace Restpose

open Function TaskQueueGroup QueueInfo Operation

variable {Task Worker : Type}

/-- The task that a worker has popped and not yet reported. -/
def WorkerPc.carried : WorkerPc Task → Option (Bytes × Task)
  | .top previous => previous
  | .nudging key task _ => some (key, task)
  | .performing key task => some (key, task)
  | _ => none

namespace Pool

variable [TaskObject Task]

/-- No worker was told to stop or ended by an exception. -/
def Untroubled (pool : Pool Task Worker Empty) : Prop :=
  ∀ worker, pool.worker worker ≠ .dead ∧ pool.workerStop worker = false

/-- What is in progress is carried by a worker, and the workers have all
returned only if nothing is left. -/
structure Attended (pool : Pool Task Worker Empty) : Prop where
  carried : ∀ key, ∀ task ∈ (pool.group.info key).inProgress,
    ∃ worker, (pool.worker worker).carried = some (key, task)
  unassigned : ∀ key, (pool.group.info key).assigned = false
  active : pool.group.closed = true →
    ∀ key, (pool.group.info key).active = true
  closed : ∀ worker, pool.worker worker = .returned → pool.group.closed = true
  empty : ∀ worker, (∀ other, pool.worker other = .returned) →
    pool.worker worker = .returned → ∀ key, (pool.group.info key).queue = []

section Steps

variable {pool next : Pool Task Worker Empty}

theorem closed_quiet_run {operation : Operation Task} (hquiet : operation.quiet = true)
    {group : TaskQueueGroup Task} (hclosed : group.closed = true) (key : Bytes) :
    ((operation.run group).1.info key).queue = (group.info key).queue := by
  have heffect := operation.effect_run group
  generalize (operation.run group).1 = after at heffect
  generalize (operation.run group).2 = reply at heffect
  cases heffect with
  | accepted _ _ _ _ _ hopen =>
    rw [hclosed] at hopen
    cases hopen
  | refused _ _ _ _ _ _ _ hinfo | close _ hinfo => rw [hinfo]
  | setActive _ _ _ hinfo | setInactiveInternal _ _ hinfo => rw [hinfo, if_pos hclosed]
  | _ => cases hquiet

theorem Attended.quietCall (hattended : Attended pool) {operation : Operation Task}
    (hquiet : operation.quiet = true) :
    Attended (pool.call operation) where
  carried := by
    intro key task htask
    change task ∈ ((operation.run pool.group).1.info key).inProgress at htask
    rw [(quiet_run hquiet pool.group key).1] at htask
    exact hattended.carried key task htask
  unassigned := by
    intro key
    change ((operation.run pool.group).1.info key).assigned = false
    rw [(quiet_run hquiet pool.group key).2]
    exact hattended.unassigned key
  active := (pool.effect_call operation).active hattended.active
  closed := by
    intro worker hreturned
    exact (pool.effect_call operation).closed_of_closed
      (hattended.closed worker hreturned)
  empty := by
    intro worker hall hreturned key
    change ((operation.run pool.group).1.info key).queue = []
    rw [closed_quiet_run hquiet (hattended.closed worker hreturned)]
    exact hattended.empty worker hall hreturned key

variable [DecidableEq Worker]

omit [TaskObject Task] in
theorem Attended.setWorker (hattended : Attended pool) {worker : Worker}
    {pc : WorkerPc Task} (hpc : pc.carried = (pool.worker worker).carried)
    (hafter : pc ≠ .returned) : Attended (pool.setWorker worker pc) where
  carried := by
    intro key task htask
    obtain ⟨other, hother⟩ := hattended.carried key task htask
    refine ⟨other, ?_⟩
    by_cases heq : other = worker
    · subst heq
      simpa [Pool.setWorker, hpc] using hother
    · simpa [Pool.setWorker, heq] using hother
  unassigned := hattended.unassigned
  active := hattended.active
  closed := by
    intro other hreturned
    refine hattended.closed other ?_
    by_cases heq : other = worker
    · subst heq
      exact absurd (by simpa [Pool.setWorker] using hreturned) hafter
    · simpa [Pool.setWorker, heq] using hreturned
  empty := by
    intro other hall
    exact absurd (by simpa [Pool.setWorker] using hall worker) hafter

variable {worker : Worker} {previous : Option (Bytes × Task)}

omit [DecidableEq Worker] in
/-- What is still in progress after a worker has reported its task is carried
by another one. -/
theorem Attended.carried_settled (hattended : Attended pool)
    (hprevious : (pool.worker worker).carried = previous) {key : Bytes} {task : Task}
    (htask : task ∈ (pool.group.settled previous key).inProgress) :
    ∃ other, other ≠ worker ∧ (pool.worker other).carried = some (key, task) := by
  obtain ⟨other, hother⟩ := hattended.carried key task
    (pool.group.inProgress_settled_subset previous key htask)
  refine ⟨other, ?_, hother⟩
  rintro rfl
  rw [hprevious] at hother
  simp [hother, settled] at htask

/-- In a closed group, a queue with tasks that cannot be picked has a task in
progress. -/
theorem exists_inProgress_of_not_pickable {info : QueueInfo Task}
    (hactive : info.active = true) (hassigned : info.assigned = false)
    (hqueue : info.queue ≠ []) (hpick : info.pickable = false) :
    ∃ task, task ∈ info.inProgress := by
  have hallowed : info.checkParallelAllowed ≠ true := by
    intro hallowed
    rw [pickable_iff.mpr ⟨hactive, hassigned, hqueue, hallowed⟩] at hpick
    cases hpick
  rw [← Finset.nonempty_def, Finset.nonempty_iff_ne_empty]
  intro hempty
  refine hallowed ?_
  simp [checkParallelAllowed, hempty]

variable {pc : WorkerPc Task}

theorem Attended.popped (hattended : Attended pool)
    (hprevious : (pool.worker worker).carried = previous) {key : Bytes}
    {task : Task} {rest : List Task} (hpc : pc.carried = some (key, task))
    (hinfo : next.group.info = update (pool.group.settled previous) key
      ((pool.group.settled previous key).afterPop task rest))
    (hclosed : next.group.closed = pool.group.closed)
    (hactive : next.group.closed = true → ∀ other, (next.group.info other).active = true)
    (hworker : next.worker = update pool.worker worker pc) :
    Attended next where
  carried := by
    intro other current hcurrent
    rw [hinfo] at hcurrent
    by_cases hself : other = key ∧ current = task
    · refine ⟨worker, ?_⟩
      rw [hworker, update_self, hpc, hself.1, hself.2]
    · have hsettled : current ∈ (pool.group.settled previous other).inProgress := by
        by_cases heq : other = key
        · subst heq
          rw [update_self, afterPop, Finset.mem_insert] at hcurrent
          exact hcurrent.resolve_left fun htask => hself ⟨rfl, htask⟩
        · rwa [update_of_ne heq] at hcurrent
      obtain ⟨carrier, hne, hcarrier⟩ := hattended.carried_settled hprevious hsettled
      refine ⟨carrier, ?_⟩
      rw [hworker, update_of_ne hne, hcarrier]
  unassigned := by
    intro other
    rw [hinfo]
    by_cases heq : other = key
    · subst heq
      simp [afterPop, hattended.unassigned]
    · simp [heq, hattended.unassigned]
  active := hactive
  closed := by
    intro other hreturned
    rw [hclosed]
    rw [hworker] at hreturned
    by_cases heq : other = worker
    · rw [heq, update_self] at hreturned
      rw [hreturned] at hpc
      cases hpc
    · rw [update_of_ne heq] at hreturned
      exact hattended.closed other hreturned
  empty := by
    intro _ hall
    have hreturned := hall worker
    rw [hworker, update_self] at hreturned
    rw [hreturned] at hpc
    cases hpc

theorem Attended.idle (hattended : Attended pool)
    (hprevious : (pool.worker worker).carried = previous)
    (hpick : ∀ key, (pool.group.settled previous key).pickable = false)
    (hinfo : next.group.info = pool.group.settled previous)
    (hclosed : next.group.closed = pool.group.closed)
    (hpc : pc = .returned → pool.group.closed = true)
    (hactive : next.group.closed = true → ∀ other, (next.group.info other).active = true)
    (hworker : next.worker = update pool.worker worker pc) :
    Attended next where
  carried := by
    intro key task htask
    rw [hinfo] at htask
    obtain ⟨carrier, hne, hcarrier⟩ := hattended.carried_settled hprevious htask
    refine ⟨carrier, ?_⟩
    rw [hworker, update_of_ne hne, hcarrier]
  unassigned := by
    intro key
    rw [hinfo, assigned_settled]
    exact hattended.unassigned key
  active := hactive
  closed := by
    intro other hreturned
    rw [hclosed]
    rw [hworker] at hreturned
    by_cases heq : other = worker
    · rw [heq, update_self] at hreturned
      exact hpc hreturned
    · rw [update_of_ne heq] at hreturned
      exact hattended.closed other hreturned
  empty := by
    intro _ hall _ key
    have hreturned := hall worker
    rw [hworker, update_self] at hreturned
    have hstillActive := hactive (hclosed.trans (hpc hreturned)) key
    rw [hinfo] at hstillActive ⊢
    by_contra hqueue
    obtain ⟨task, htask⟩ := exists_inProgress_of_not_pickable hstillActive
      ((pool.group.assigned_settled previous key).trans
        (hattended.unassigned key)) hqueue (hpick key)
    -- the worker that carries this task has not returned
    obtain ⟨carrier, hne, hcarrier⟩ := hattended.carried_settled hprevious htask
    have hgone := hall carrier
    rw [hworker, update_of_ne hne] at hgone
    rw [hgone] at hcarrier
    cases hcarrier

/-- A worker calls `pop_any` and reports the task that it carries. -/
theorem Attended.workerCall (hattended : Attended pool) {worker : Worker}
    {previous : Option (Bytes × Task)}
    (hprevious : (pool.worker worker).carried = previous)
    (halive : WorkerPc.afterPop (pool.reply (.popAny previous)) ≠ .dead) :
    Attended (pool.workerCall worker (.popAny previous)) := by
  have hactive : (pool.workerCall worker (.popAny previous)).group.closed =
      true → ∀ key, ((pool.workerCall worker (.popAny previous)).group.info key).active =
        true :=
    (pool.effect_call (.popAny previous)).active hattended.active
  have heffect := pool.effect_call (.popAny previous)
  have hworker : (pool.workerCall worker (.popAny previous)).worker =
    update pool.worker worker
        (.afterPop (pool.reply (.popAny previous))) := rfl
  change Operation.Effect pool.group
    (pool.workerCall worker (.popAny previous)).group _ _ at heffect
  generalize pool.workerCall worker (.popAny previous) = next at *
  generalize pool.reply (.popAny previous) = reply at *
  cases heffect with
  | popAny _ key task rest nudge _ _ hclosed hinfo =>
    refine hattended.popped hprevious ?_ hinfo hclosed hactive hworker
    cases nudge <;> rfl
  | popAnyNone _ hpick hclosed hinfo =>
    refine hattended.idle hprevious hpick hinfo hclosed ?_ hactive hworker
    cases hgroup : pool.group.closed with
    | false => simp [WorkerPc.afterPop]
    | true => exact fun _ => rfl
  | popAnyFailed => exact absurd rfl halive

omit [TaskObject Task] in
theorem untroubled_of_setWorker (huntroubled : (pool.setWorker worker pc).Untroubled)
    (halive : pool.worker worker ≠ .dead) : pool.Untroubled := by
  intro other
  refine ⟨?_, (huntroubled other).2⟩
  by_cases heq : other = worker
  · rwa [heq]
  · simpa [Pool.setWorker, heq] using (huntroubled other).1

variable {event : PoolEvent Task Worker Empty}

theorem Step.untroubled (hstep : Step pool event next) (huntroubled : next.Untroubled) :
    pool.Untroubled := by
  cases hstep with
  | push | setActive | setInactiveInternal | close => exact huntroubled
  | stopWorker worker =>
    have hstopped := (huntroubled worker).2
    simp at hstopped
  | workerStopped hpc | workerPop hpc | workerRetry hpc | workerNudge hpc
  | workerFinish hpc | workerKill hpc =>
    exact untroubled_of_setWorker huntroubled (by simp [hpc])
  | @stopHandler handler | @handlerStopped handler | @handlerAssign handler
  | @handlerPop handler | @handlerNudge handler | @handlerFinish handler
  | @handlerFail handler | @handlerTimeout handler | @handlerCompleted handler
  | @handlerNothingCompleted handler | @handlerUnassign handler
  | @handlerKill handler | @handlerCleanup handler | @handlerKeep handler
  | @handlerCleanupFails handler | @dyingCleanup handler | @dyingKeep handler
  | @dyingCleanupFails handler => exact handler.elim

theorem Attended.step (hattended : Attended pool) (hstep : Step pool event next)
    (huntroubled : next.Untroubled) : Attended next := by
  have hbefore := hstep.untroubled huntroubled
  cases hstep with
  | push | setActive | setInactiveInternal | close =>
    exact hattended.quietCall rfl
  | stopWorker worker =>
    have hstopped := (huntroubled worker).2
    simp at hstopped
  | @workerStopped worker _ _ hstop =>
    rw [(hbefore worker).2] at hstop
    cases hstop
  | @workerPop worker previous hpc | @workerRetry worker hpc =>
    refine hattended.workerCall (by rw [hpc]; rfl) ?_
    simpa [Pool.workerCall, Pool.setWorker] using (huntroubled worker).1
  | workerNudge hpc => exact hattended.setWorker (by rw [hpc]; rfl) (by simp)
  | @workerFinish worker key task hpc =>
    have hfinished : Attended (pool.finish task) :=
      ⟨hattended.carried, hattended.unassigned, hattended.active, hattended.closed,
        hattended.empty⟩
    refine hfinished.setWorker ?_ (by simp)
    change _ = (pool.worker worker).carried
    rw [hpc]
    rfl
  | @workerKill worker =>
    have hdead := (huntroubled worker).1
    simp [Pool.setWorker] at hdead
  | @stopHandler handler | @handlerStopped handler | @handlerAssign handler
  | @handlerPop handler | @handlerNudge handler | @handlerFinish handler
  | @handlerFail handler | @handlerTimeout handler | @handlerCompleted handler
  | @handlerNothingCompleted handler | @handlerUnassign handler
  | @handlerKill handler | @handlerCleanup handler | @handlerKeep handler
  | @handlerCleanupFails handler | @dyingCleanup handler | @dyingKeep handler
  | @dyingCleanupFails handler => exact handler.elim

omit [TaskObject Task] [DecidableEq Worker] in
theorem Attended.start (group : TaskQueueGroup Task) (hempty : group.queues = ∅)
    (hopen : group.closed = false) :
    Attended (Pool.start group : Pool Task Worker Empty) := by
  have hinfo : ∀ key, group.info key = fresh := by
    intro key
    simp [info, hempty]
  constructor
  · intro key task htask
    simp [Pool.start, hinfo, QueueInfo.fresh] at htask
  · intro key
    simp [Pool.start, hinfo, QueueInfo.fresh]
  · intro hclosed
    simp [Pool.start, hopen] at hclosed
  · intro worker hreturned
    cases hreturned
  · intro worker _ hreturned
    cases hreturned

theorem Reachable.attended {throttleSize maxSize : ℕ}
    (hreachable : Reachable throttleSize maxSize pool) (huntroubled : pool.Untroubled) :
    Attended pool := by
  revert huntroubled
  apply Transition.Reachable.invariant _ _ hreachable
  · rintro _ ⟨fd, byte, rfl⟩ _
    exact Attended.start _ rfl rfl
  · intro before event after _ hbefore hstep huntroubled
    exact (hbefore (hstep.untroubled huntroubled)).step hstep huntroubled

end Steps

variable [DecidableEq Worker]

/-- When all workers of a group have received `NULL`, with at least one worker
and none that died or was told to stop, every queue of the group is empty. -/
theorem workers_drain_group [Nonempty Worker] {throttleSize maxSize : ℕ}
    {pool : Pool Task Worker Empty}
    (hreachable : Reachable throttleSize maxSize pool)
    (hnever : ∀ worker, pool.workerStop worker = false)
    (hreturned : ∀ worker, pool.worker worker = .returned) (key : Bytes) :
    (pool.group.info key).queue = [] := by
  have huntroubled : pool.Untroubled := by
    intro worker
    exact ⟨by rw [hreturned worker]; simp, hnever worker⟩
  obtain ⟨worker⟩ := ‹Nonempty Worker›
  exact (hreachable.attended huntroubled).empty worker hreturned
    (hreturned worker) key

section Witness

/-- Two tasks that do not allow parallel execution are in one queue. -/
def serialPool : Pool BareTask (Fin 2) Empty :=
  ((start (TaskQueueGroup.create 5 6)).call
    (.push (ascii "a") ⟨0, false⟩ false)).call
      (.push (ascii "a") ⟨1, false⟩ false)

/-- One worker has popped the first of them, and the group is closed. -/
def closedPool : Pool BareTask (Fin 2) Empty :=
  (serialPool.workerCall 0 (.popAny none)).call .close

/-- The other worker has returned, with a task left in the queue. -/
def returnedPool : Pool BareTask (Fin 2) Empty :=
  closedPool.workerCall 1 (.popAny none)

/-- The first worker has come back for that task. -/
def secondPool : Pool BareTask (Fin 2) Empty :=
  ((returnedPool.finish ⟨0, false⟩).setWorker 0
    (.top (some (ascii "a", ⟨0, false⟩)))).workerCall 0
      (.popAny (some (ascii "a", ⟨0, false⟩)))

/-- The first worker has returned too. -/
def drainedPool : Pool BareTask (Fin 2) Empty :=
  ((secondPool.finish ⟨1, false⟩).setWorker 0
    (.top (some (ascii "a", ⟨1, false⟩)))).workerCall 0
      (.popAny (some (ascii "a", ⟨1, false⟩)))

theorem reachable_drainedPool : Reachable 5 6 drainedPool := by
  have hstart : Reachable 5 6 (start (create 5 6) : Pool BareTask (Fin 2) Empty) :=
    .initial ⟨-1, 81, rfl⟩
  have hfirst := hstart.step (.push (ascii "a") (⟨0, false⟩ : BareTask) false (by decide))
  have hserial : Reachable 5 6 serialPool := hfirst.step
    (.push (ascii "a") (⟨1, false⟩ : BareTask) false (by decide))
  have hpopped : Reachable 5 6 (serialPool.workerCall 0 (.popAny none)) :=
    hserial.step (.workerPop rfl rfl)
  have hclosed : Reachable 5 6 closedPool := hpopped.step .close
  have hreturned : Reachable 5 6 returnedPool := hclosed.step (.workerPop rfl rfl)
  have hfinished := hreturned.step (.workerFinish
    (show returnedPool.worker 0 = .performing (ascii "a") ⟨0, false⟩ by decide))
  have hsecond : Reachable 5 6 secondPool := hfinished.step (.workerPop rfl rfl)
  have hlast := hsecond.step (.workerFinish
    (show secondPool.worker 0 = .performing (ascii "a") ⟨1, false⟩ by decide))
  exact hlast.step (.workerPop rfl rfl)

theorem workers_drain_group_drainedPool :
    returnedPool.worker 1 = .returned ∧
      (returnedPool.group.info (ascii "a")).queue = [⟨1, false⟩] ∧
      (drainedPool.group.info (ascii "a")).queue = [] :=
  ⟨by decide, by decide, workers_drain_group reachable_drainedPool
    (by decide) (by decide) (ascii "a")⟩

end Witness

end Pool

end Restpose
