import Restpose.Server.Schedule

/-!
# Checkpoints

A checkpoint is an `IndexingCheckpointTask` inside a `DelayedIndexingTask` on
the processing queue of a collection.  It is a barrier in both queues: the
tasks before it have finished when it is performed in the processing group, so
that their clones are before its clone in the indexing queue, where all tasks
are barriers.
-/

namespace Restpose

open Function ForwardPc

/-- The queue and the task that a thread has still to push. -/
def ForwardPc.pending : ForwardPc → Option (Bytes × Payload)
  | .outside => none
  | .entering queue payload => some (queue, payload)
  | .pushing queue payload => some (queue, payload)
  | .pausing queue retry => retry.map (Prod.mk queue)
  | .waiting queue payload => some (queue, payload)

namespace Pool

variable {Task Worker Handler : Type} [TaskObject Task]
  [DecidableEq Worker] [DecidableEq Handler]
  {pool next : Pool Task Worker Handler}
  {event : PoolEvent Task Worker Handler}

/-- What a call adds to the accepted and the returned tasks comes at the
end. -/
theorem Step.exists_append (hstep : Step pool event next) (key : Bytes) :
    (∃ rest, next.toRecorded.accepted key = pool.toRecorded.accepted key ++ rest) ∧
      ∃ rest, next.toRecorded.returned key = pool.toRecorded.returned key ++ rest := by
  rcases hstep.toRecorded_eq with hsame | ⟨operation, hcall⟩
  · rw [hsame]
    exact ⟨⟨[], by simp⟩, ⟨[], by simp⟩⟩
  · rw [hcall, Recorded.accepted_call, Recorded.returned_call]
    exact ⟨⟨_, rfl⟩, ⟨_, rfl⟩⟩

/-- A worker inside `perform` stays there until `perform` ends. -/
theorem Step.performing (hstep : Step pool event next) {worker : Worker} {key : Bytes}
    {task : Task} (hpc : pool.worker worker = .performing key task)
    (hfinish : event ≠ .finishWorker worker) (hkill : event ≠ .killWorker worker) :
    next.worker worker = .performing key task := by
  have hmove : ∀ other (state : Pool Task Worker Handler) pc,
      other ≠ worker → state.worker = pool.worker →
        (state.setWorker other pc).worker worker = .performing key task := by
    intro other state pc hne hsame
    change update state.worker other pc worker = _
    rw [update_of_ne (Ne.symm hne), hsame, hpc]
  cases hstep with
  | @workerStopped other _ hother | @workerNudge other _ _ _ hother =>
    exact hmove other pool _ (by rintro rfl; simp [hpc] at hother) rfl
  | @workerPop other _ hother | @workerRetry other hother =>
    exact hmove other _ _ (by rintro rfl; simp [hpc] at hother) rfl
  | @workerFinish other =>
    exact hmove other _ _ (by rintro rfl; exact hfinish rfl) rfl
  | @workerKill other =>
    exact hmove other pool _ (by rintro rfl; exact hkill rfl) rfl
  | _ => exact hpc

end Pool

namespace TaskManager

variable {Proc Index Query Worker Handler Searcher : Type}
  [TaskObject Proc] [TaskObject Index] [TaskObject Query]
  [DecidableEq Worker] [DecidableEq Handler] [DecidableEq Searcher]
  {contents : TaskContents Proc Index}
  {manager next : TaskManager Proc Index Query Worker Handler Searcher}
  {event : ManagerEvent Proc Index Query Worker Handler Searcher}

/-- A thread stays inside `perform` while it is inside
`queue_indexing_from_processing`. -/
theorem Step.performing (hstep : Step contents manager event next) {worker : Worker}
    {key : Bytes} {task : Proc}
    (hpc : manager.processing.worker worker = .performing key task)
    (hinside : manager.forwarding worker ≠ .outside) :
    next.processing.worker worker = .performing key task := by
  cases hstep with
  | processingPush hstep | processingRun hstep =>
    exact hstep.performing hpc (by simp) (by simp)
  | processingFinish hstep _ houtside =>
    refine hstep.performing hpc ?_ (by simp)
    rintro ⟨⟩
    exact hinside houtside
  | processingKill hstep houtside =>
    refine hstep.performing hpc (by simp) ?_
    rintro ⟨⟩
    exact hinside houtside
  | forwardPush =>
    rw [processing_pushClone]
    exact hpc
  | _ => exact hpc

omit [TaskObject Proc] [TaskObject Query] [DecidableEq Handler] [DecidableEq Searcher] in
theorem forwarding_pushClone
    (manager : TaskManager Proc Index Query Worker Handler Searcher) (worker : Worker)
    (payload : Payload) (attempt : Forward Proc Index) :
    ∃ pc : ForwardPc, (manager.pushClone worker payload attempt).forwarding =
        update manager.forwarding worker pc ∧
      ∀ entry, pc.pending = some entry → entry = (attempt.queue, payload) := by
  simp only [pushClone]
  split
  · exact ⟨.outside, rfl, by simp [pending]⟩
  · exact ⟨.pausing attempt.queue none, rfl, by simp [pending]⟩
  · exact ⟨.pausing attempt.queue (some payload), rfl, by simp [pending]⟩
  · exact ⟨.outside, rfl, by simp [pending]⟩

/-- What a thread has still to push, it had to push before, or its `perform`
has just asked for it. -/
theorem Step.pending (hstep : Step contents manager event next) {worker : Worker}
    {entry : Bytes × Payload} (hpending : (next.forwarding worker).pending = some entry) :
    (manager.forwarding worker).pending = some entry ∨
      ∃ key task, next.processing.worker worker = .performing key task ∧
        ∀ inner, contents.wrapped task = some inner → entry = (key, inner) := by
  have hmove : ∀ (other : Worker) (pc : ForwardPc),
      next.forwarding = update manager.forwarding other pc →
        (∀ found, pc.pending = some found →
          (manager.forwarding other).pending = some found) →
        (manager.forwarding worker).pending = some entry := by
    intro other pc hnext hbefore
    rw [hnext] at hpending
    by_cases hother : worker = other
    · subst other
      rw [update_self] at hpending
      exact hbefore entry hpending
    · rwa [update_of_ne hother] at hpending
  cases hstep with
  | @forwardCall other key task queue payload hworker _ hwrapped =>
    by_cases hother : worker = other
    · subst other
      refine Or.inr ⟨key, task, hworker, ?_⟩
      intro inner hinner
      obtain ⟨_, rfl, rfl⟩ := hwrapped inner hinner
      simpa [setForwarding, pending, eq_comm] using hpending
    · refine Or.inl ?_
      simpa [setForwarding, update_of_ne hother] using hpending
  | @forwardLock other queue payload hpc =>
    refine Or.inl (hmove other (.pushing queue payload) rfl ?_)
    rcases hpc with hpc | hpc <;> simp [hpc, pending]
  | @forwardPush other payload attempt _ hpc =>
    obtain ⟨pc, hforwarding, hentry⟩ := forwarding_pushClone manager other payload attempt
    refine Or.inl (hmove other pc hforwarding ?_)
    intro found hfound
    rw [hentry found hfound, hpc, pending]
  | @forwardPause other queue retry hpc =>
    refine Or.inl (hmove other (afterPause queue retry) rfl ?_)
    cases retry <;> simp [hpc, afterPause, pending]
  | @forwardThrow other =>
    exact Or.inl (hmove other .outside rfl (by simp [pending]))
  | _ => exact Or.inl hpending

/-- What holds of the clones that processing tasks have pushed. -/
structure Pipelined (contents : TaskContents Proc Index)
    (manager : TaskManager Proc Index Query Worker Handler Searcher) :
    Prop where
  pending : ∀ worker entry,
    (manager.forwarding worker).pending = some entry →
      ∃ key task, manager.processing.worker worker = .performing key task ∧
        ∀ inner, contents.wrapped task = some inner → entry = (key, inner)
  wrapped : ∀ forward ∈ manager.forwards, ∀ inner,
    contents.wrapped forward.task = some inner → forward.queue = forward.key
  returned : ∀ forward ∈ manager.forwards,
    forward.task ∈ manager.processing.toRecorded.returned forward.key
  accepted : ∀ forward ∈ manager.forwards,
    forward.clone ∈ manager.indexing.toRecorded.accepted forward.queue
  order : ∀ earlier ∈ manager.forwards, ∀ later ∈ manager.forwards,
    earlier.queue = later.queue →
      Precedes (manager.processing.toRecorded.accepted later.key)
        earlier.task later.task →
      allowParallel later.task = false →
        Precedes (manager.indexing.toRecorded.accepted later.queue)
          earlier.clone later.clone

theorem Step.exists_append_processing
    (hstep : Step contents manager event next) (key : Bytes) :
    (∃ rest, next.processing.toRecorded.accepted key =
        manager.processing.toRecorded.accepted key ++ rest) ∧
      ∃ rest, next.processing.toRecorded.returned key =
        manager.processing.toRecorded.returned key ++ rest := by
  rcases hstep.processing_eq with hsame | ⟨own, hown⟩
  · rw [hsame]
    exact ⟨⟨[], by simp⟩, ⟨[], by simp⟩⟩
  · exact hown.exists_append key

theorem Step.exists_append_indexing (hstep : Step contents manager event next)
    (key : Bytes) :
    ∃ rest, next.indexing.toRecorded.accepted key =
      manager.indexing.toRecorded.accepted key ++ rest := by
  rcases hstep.indexing_eq with hsame | ⟨own, hown⟩
  · rw [hsame]
    exact ⟨[], by simp⟩
  · exact (hown.exists_append key).1

namespace Pipelined

omit [TaskObject Query] [DecidableEq Worker] [DecidableEq Handler]
  [DecidableEq Searcher] in
/-- The clone of a new call goes to the end of the indexing queue, and no task
behind the caller can have made a call before. -/
theorem order_append (hpipelined : Pipelined contents manager)
    (horderly : manager.processing.Orderly) {worker : Worker}
    {attempt : Forward Proc Index}
    (hworker : manager.processing.worker worker = .performing attempt.key attempt.task)
    (hprocessing : next.processing = manager.processing)
    (hindexing : next.indexing.toRecorded.accepted attempt.queue =
      manager.indexing.toRecorded.accepted attempt.queue ++ [attempt.clone])
    (hold : ∀ earlier ∈ manager.forwards, ∀ later ∈ manager.forwards,
      earlier.queue = later.queue →
        Precedes (next.processing.toRecorded.accepted later.key) earlier.task later.task →
                  allowParallel later.task = false →
                    Precedes (next.indexing.toRecorded.accepted later.queue)
                      earlier.clone later.clone) :
    ∀ earlier ∈ manager.forwards ++ [attempt],
      ∀ later ∈ manager.forwards ++ [attempt], earlier.queue = later.queue →
        Precedes (next.processing.toRecorded.accepted later.key) earlier.task later.task →
        allowParallel later.task = false →
          Precedes (next.indexing.toRecorded.accepted later.queue)
            earlier.clone later.clone := by
  intro earlier hearlier later hlater hqueue hprecedes hserial
  rw [List.mem_append, List.mem_singleton] at hearlier hlater
  rcases hlater with hlater | rfl
  · rcases hearlier with hearlier | rfl
    · exact hold earlier hearlier later hlater hqueue hprecedes hserial
    · rw [hprocessing] at hprecedes
      have hdone := horderly.finished_of_precedes hprecedes hserial
        (hpipelined.returned later hlater)
      have hbusy : manager.processing.busy (.inl worker) =
          some (earlier.key, earlier.task) := by
        simp [Pool.busy, hworker, WorkerPc.busy]
      exact absurd hdone (horderly.progress.busy _ _ _ hbusy).2
  · rcases hearlier with hearlier | rfl
    · rw [hindexing]
      refine Precedes.of_mem_append ?_ (by simp)
      rw [← hqueue]
      exact hpipelined.accepted earlier hearlier
    · rw [hprocessing] at hprecedes
      have hnodup := horderly.progress.sound.nodup_accepted earlier.key
      exact absurd rfl (hprecedes.ne hnodup)

theorem step (hpipelined : Pipelined contents manager)
    (horderly : manager.processing.Orderly) (horderly' : next.processing.Orderly)
    (hstep : Step contents manager event next) : Pipelined contents next := by
  have hreturned : ∀ forward ∈ manager.forwards,
      forward.task ∈ next.processing.toRecorded.returned forward.key := by
    intro forward hforward
    obtain ⟨rest, hrest⟩ := (hstep.exists_append_processing forward.key).2
    rw [hrest]
    exact List.mem_append_left _ (hpipelined.returned forward hforward)
  have haccepted : ∀ forward ∈ manager.forwards,
      forward.clone ∈ next.indexing.toRecorded.accepted forward.queue := by
    intro forward hforward
    obtain ⟨rest, hrest⟩ := hstep.exists_append_indexing forward.queue
    rw [hrest]
    exact List.mem_append_left _ (hpipelined.accepted forward hforward)
  have horder : ∀ earlier ∈ manager.forwards, ∀ later ∈ manager.forwards,
      earlier.queue = later.queue →
        Precedes (next.processing.toRecorded.accepted later.key)
          earlier.task later.task →
        allowParallel later.task = false →
          Precedes (next.indexing.toRecorded.accepted later.queue)
            earlier.clone later.clone := by
    intro earlier hearlier later hlater hqueue hprecedes hserial
    have hmem := horderly.progress.sound.mem_accepted_of_returned
      (hpipelined.returned later hlater)
    have hnodup := horderly'.progress.sound.nodup_accepted later.key
    obtain ⟨rest, hrest⟩ := (hstep.exists_append_processing later.key).1
    obtain ⟨rest', hrest'⟩ := hstep.exists_append_indexing later.queue
    rw [hrest] at hprecedes hnodup
    rw [hrest']
    exact (hpipelined.order earlier hearlier later hlater hqueue
      (hprecedes.of_append hnodup hmem) hserial).append_right rest'
  have hpending : ∀ worker entry, (next.forwarding worker).pending = some entry →
        ∃ key task, next.processing.worker worker = .performing key task ∧
          ∀ inner, contents.wrapped task = some inner → entry = (key, inner) := by
    intro worker entry hentry
    rcases hstep.pending hentry with hbefore | hnew
    · obtain ⟨key, task, hpc, hinner⟩ := hpipelined.pending worker entry hbefore
      have hinside : manager.forwarding worker ≠ .outside := by
        intro houtside
        simp [houtside, ForwardPc.pending] at hbefore
      exact ⟨key, task, hstep.performing hpc hinside, hinner⟩
    · exact hnew
  rcases hstep.forwards_eq with hsame |
    ⟨worker, attempt, payload, hworker, hpc, hprocessing, hforwards, hindexing⟩
  · refine ⟨hpending, ?_, ?_, ?_, ?_⟩ <;> rw [hsame]
    · exact hpipelined.wrapped
    · exact hreturned
    · exact haccepted
    · exact horder
  · have hnew : ∀ property : Forward Proc Index → Prop,
        (∀ forward ∈ manager.forwards, property forward) → property attempt →
          ∀ forward ∈ next.forwards, property forward := by
      intro property hold hattempt forward hforward
      rw [hforwards, List.mem_append, List.mem_singleton] at hforward
      rcases hforward with hforward | rfl
      · exact hold forward hforward
      · exact hattempt
    refine ⟨hpending, ?_, ?_, ?_, ?_⟩
    · apply hnew _ hpipelined.wrapped
      intro inner hinner
      obtain ⟨key, task, hpc', hentry⟩ := hpipelined.pending worker
        (attempt.queue, payload) (by rw [hpc, ForwardPc.pending])
      rw [hworker, WorkerPc.performing.injEq] at hpc'
      obtain ⟨rfl, rfl⟩ := hpc'
      exact congrArg Prod.fst (hentry inner hinner)
    · apply hnew _ hreturned
      have hbusy : manager.processing.busy (.inl worker) =
          some (attempt.key, attempt.task) := by
        simp [Pool.busy, hworker, WorkerPc.busy]
      rw [hprocessing]
      exact (horderly.progress.busy _ _ _ hbusy).1
    · apply hnew _ haccepted
      rw [hindexing]
      simp
    · rw [hforwards]
      exact hpipelined.order_append horderly hworker hprocessing hindexing horder

omit [TaskObject Query] [DecidableEq Worker] [DecidableEq Handler]
  [DecidableEq Searcher] in
theorem start (fd : ℤ) : Pipelined contents (TaskManager.start fd :
      TaskManager Proc Index Query Worker Handler Searcher) := by
  constructor <;> simp [TaskManager.start, ForwardPc.pending]

end Pipelined

theorem Reachable.pipelined (hreachable : Reachable contents manager) :
    Pipelined contents manager := by
  apply Transition.Reachable.invariant _ _ hreachable
  · rintro _ ⟨fd, rfl⟩
    exact Pipelined.start fd
  · intro state event after hbefore hpipelined hstep
    have hafter : Reachable contents after := .step hbefore hstep
    exact hpipelined.step (Reachable.orderly_processing hbefore)
      hafter.orderly_processing hstep

/-- When `set_reached` is executed for a checkpoint on a collection, every
processing task accepted there before the checkpoint has finished, and so has
every indexing task that those tasks have pushed onto the indexing queue of the
collection. -/
theorem checkpoint_barrier (hreachable : Reachable contents manager)
    {handler : Handler} {key checkid : Bytes}
    (hstep : Step contents manager (.setReached handler key checkid) next)
    {checkpoint : Forward Proc Index} {doCommit : Bool}
    (hcheckpoint : checkpoint ∈ manager.forwards)
    (hwrapped : contents.wrapped checkpoint.task =
      some (.checkpoint checkid doCommit))
    (hclone : (manager.indexing.handler handler).task =
      some checkpoint.clone) :
    checkpoint.task ∈ manager.processing.toRecorded.accepted key ∧
      ∀ other, Precedes (manager.processing.toRecorded.accepted key) other
          checkpoint.task →
        other ∈ manager.processing.finished ∧
          ∀ forward ∈ manager.forwards, forward.task = other →
            forward.queue = key → forward.clone ∈ manager.indexing.finished := by
  have hpipelined := hreachable.pipelined
  have hprocessing := hreachable.orderly_processing
  have hindexing := hreachable.orderly_indexing
  have hbusy : manager.indexing.busy (.inr handler) =
      some (key, checkpoint.clone) := by
    cases hstep with
    | setReached hhandler =>
        rw [hhandler] at hclone
        rw [Pool.busy, hhandler, HandlerPc.busy, Option.some.inj hclone]
  obtain ⟨hreturned, _⟩ :=
    hindexing.progress.busy (.inr handler) key checkpoint.clone hbusy
  have hqueue : checkpoint.queue = key := by
    by_contra hne
    exact hindexing.progress.sound.notMem_accepted
      (hindexing.progress.sound.mem_accepted_of_returned hreturned) hne
      (hpipelined.accepted checkpoint hcheckpoint)
  have hkey : checkpoint.key = key := by
    rw [← hqueue, hpipelined.wrapped checkpoint hcheckpoint _ hwrapped]
  have hserial := contents.serial_wrapped _ _ hwrapped
  have htask := hpipelined.returned checkpoint hcheckpoint
  rw [hkey] at htask
  refine ⟨hprocessing.progress.sound.mem_accepted_of_returned htask, ?_⟩
  intro other hprecedes
  refine ⟨hprocessing.finished_of_precedes hprecedes hserial htask, ?_⟩
  rintro forward hforward rfl hforwardQueue
  have horder := hpipelined.order forward hforward checkpoint hcheckpoint
    (hforwardQueue.trans hqueue.symm) (by rwa [hkey]) hserial
  rw [hqueue] at horder
  exact hindexing.finished_of_precedes horder (contents.serial_indexing _)
    hreturned

section Witness

/-- The tasks that are not parallel are checkpoints, and so are the clones at
address 2. -/
def checkpointContents : TaskContents BareTask IndexingTask where
  wrapped task :=
    if task.parallel then none else some (.checkpoint (ascii "c") true)
  payload task :=
    if task.address = 2 then .checkpoint (ascii "c") true else .other 0
  serial_wrapped := by
    intro task inner hinner
    change task.parallel = false
    cases hparallel : task.parallel with
    | false => rfl
    | true => simp [hparallel] at hinner
  serial_indexing := IndexingTask.serial

/-- A document and a checkpoint are pushed; the first thread processes both,
while the second finds nothing to do, and the indexing thread performs the two
clones. -/
def checkpointMoves : List (SmallMove 2 1) :=
  [.processing (.push (ascii "a") ⟨1, true⟩ true),
    .processing (.push (ascii "a") ⟨2, false⟩ true),
    .processing (.runWorker 0),
    .call 0 (ascii "a") (.other 0),
    .lock 0,
    .push 0 ⟨1⟩,
    .processing (.finishWorker 0),
    .processing (.runWorker 1),
    .processing (.runWorker 0),
    .call 0 (ascii "a") (.checkpoint (ascii "c") true),
    .lock 0,
    .push 0 ⟨2⟩,
    .indexing (.runHandler 0),
    .indexing (.runHandler 0),
    .indexing (.finishHandler 0 true),
    .indexing (.runHandler 0)]

theorem isSome_checkpointMoves : (runMoves checkpointContents anyMove
      checkpointMoves).isSome = true := by
  decide

/-- The indexing thread is inside `perform` of the checkpoint. -/
def checkpointState : Small 2 1 :=
  (runMoves checkpointContents anyMove checkpointMoves).get
    isSome_checkpointMoves

theorem checkpoint_barrier_checkpointState :
    (⟨1, true⟩ : BareTask) ∈ checkpointState.processing.finished ∧
      (⟨1⟩ : IndexingTask) ∈ checkpointState.indexing.finished := by
  have hreachable : Reachable checkpointContents checkpointState :=
    .of_runMoves (Option.some_get isSome_checkpointMoves).symm
  have hhandler : checkpointState.indexing.handler 0 =
      .performing (ascii "a") ⟨2⟩ true := by decide
  have hforwards : checkpointState.forwards =
      [⟨ascii "a", ⟨1, true⟩, ascii "a", ⟨1⟩⟩,
        ⟨ascii "a", ⟨2, false⟩, ascii "a", ⟨2⟩⟩] := by rfl
  have haccepted : checkpointState.processing.toRecorded.accepted (ascii "a") =
      [⟨1, true⟩, ⟨2, false⟩] := by decide
  have hcheckpoint : ⟨ascii "a", ⟨2, false⟩, ascii "a", ⟨2⟩⟩ ∈
      checkpointState.forwards := by simp [hforwards]
  obtain ⟨_, hbefore⟩ := checkpoint_barrier hreachable
    (.setReached hhandler rfl) hcheckpoint rfl (by rw [hhandler]; rfl)
  obtain ⟨hdone, hclones⟩ := hbefore ⟨1, true⟩ (by
    rw [haccepted]
    exact List.Sublist.refl _)
  exact ⟨hdone, hclones ⟨ascii "a", ⟨1, true⟩, ascii "a", ⟨1⟩⟩
    (by simp [hforwards]) rfl rfl⟩

end Witness

end TaskManager

end Restpose
