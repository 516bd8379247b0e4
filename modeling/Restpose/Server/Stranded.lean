import Restpose.Server.Nudge

/-!
# Threads that wait for a full indexing queue

A thread that finds the indexing queue full pauses its processing queue and
waits on the condition of the processing group.  The state below is the one of
the manager together with the threads that no broadcast has woken since they
began to wait.  While the manager runs, such a thread is going to be woken after
the indexing queue has got space.  After `stop()` nobody reads the nudges any
more, and the closed group may have no other broadcast to make.
-/

namespace Restpose

open TaskQueueGroup Transition.Reachable List Recorded

/-- The operation broadcasts the condition of the group. -/
def Operation.broadcasts {Task : Type} [TaskObject Task]
    (operation : Operation Task) (group : TaskQueueGroup Task) : Bool :=
  match operation with
  | .unassignHandler _ => true
  | .setActive _ _ => !group.closed
  | .close => true
  | _ =>
      match (operation.run group).2 with
      | .queued state => state.accepts
      | .popped _ _ _ => true
      | _ => false

/-- A closed group without tasks accepts none and returns none. -/
theorem Operation.broadcasts_of_drained {Task : Type} [TaskObject Task]
    {group : TaskQueueGroup Task} (hdrained : group.Drained) {operation : Operation Task}
    (hclose : operation ≠ .close) (hunassign : ∀ key, operation ≠ .unassignHandler key) :
    operation.broadcasts group = false := by
  have hreply : (match (operation.run group).2 with
      | .queued state => state.accepts
      | .popped _ _ _ => true
      | _ => false) = false := by
    have heffect := operation.effect_run group
    have hnone := (operation.drained_run hdrained).2
    generalize (operation.run group).2 = reply at heffect hnone ⊢
    generalize (operation.run group).1 = next at heffect
    cases heffect with
    | accepted _ _ _ _ _ hopen =>
      rw [hdrained.1] at hopen
      contradiction
    | refused _ _ _ _ hstate => rcases hstate with rfl | rfl <;> rfl
    | popAny | popFrom => cases hnone
    | popAnyNone | assignNone => rw [hdrained.1]; rfl
    | _ => rfl
  cases operation with
  | unassignHandler key => exact absurd rfl (hunassign key)
  | close => exact absurd rfl hclose
  | setActive key on => simp [broadcasts, hdrained.1]
  | _ => exact hreply

/-- The thread is inside `cond.wait()` of the branch for a full queue. -/
def ForwardPc.isWaiting : ForwardPc → Bool
  | .waiting _ _ => true
  | _ => false

namespace TaskManager

variable {Proc Index Query Worker Handler Searcher : Type}
  [TaskObject Proc] [TaskObject Index] [TaskObject Query]
  [DecidableEq Worker] [DecidableEq Handler] [DecidableEq Searcher]
  {contents : TaskContents Proc Index}
  {manager next : TaskManager Proc Index Query Worker Handler Searcher}
  {event : ManagerEvent Proc Index Query Worker Handler Searcher}

/-- A step between these states broadcasts the condition of the processing
group. -/
def Broadcast
    (manager next : TaskManager Proc Index Query Worker Handler Searcher) :
    Prop :=
  ∃ operation, next.processing.toRecorded =
      manager.processing.toRecorded.call operation ∧
    operation.broadcasts manager.processing.group = true

omit [TaskObject Index] [TaskObject Query] [DecidableEq Worker] [DecidableEq Handler]
  [DecidableEq Searcher] in
theorem not_broadcast_of_eq
    (hsame : next.processing.toRecorded = manager.processing.toRecorded) :
    ¬Broadcast manager next := by
  rintro ⟨operation, hcall, _⟩
  rw [hsame] at hcall
  have hlength := congrArg (fun recorded => recorded.log.length) hcall
  simp [call] at hlength

omit [TaskObject Index] [TaskObject Query] [DecidableEq Worker] [DecidableEq Handler]
  [DecidableEq Searcher] in
theorem Broadcast.of_call (hbroadcast : Broadcast manager next)
    {operation : Operation Proc}
    (hcall : next.processing.toRecorded = manager.processing.toRecorded.call operation) :
    operation.broadcasts manager.processing.group = true := by
  obtain ⟨other, hother, hbroadcasts⟩ := hbroadcast
  rw [hother] at hcall
  have hlog := congrArg log hcall
  simp only [call, append_cancel_left_eq, cons.injEq, Prod.mk.injEq, and_true] at hlog
  rwa [← hlog.1]

/-- While the manager runs, a paused queue stays paused until the next
broadcast. -/
theorem Step.paused_or_broadcast (hstep : Step contents manager event next)
    (hstage : next.stage = .running) (hopen : manager.processing.group.closed = false)
    {key : Bytes} (hpaused : manager.Paused key) :
    next.Paused key ∨ Broadcast manager next := by
  have hown : ∀ {own after}, Pool.Step manager.processing own after →
      own.own = true → (after.group.info key).active = false := by
    intro own after hstep hown
    rw [hstep.active_eq hown key]
    exact hpaused
  cases hstep with
  | processingPush hstep | processingRun hstep | processingFinish hstep
  | processingKill hstep => exact Or.inl (hown hstep rfl)
  | forwardPush =>
    rw [Paused, processing_pushClone]
    exact Or.inl hpaused
  | @forwardPause worker queue retry hpc =>
    refine Or.inl ?_
    change ((manager.processing.group.setInactiveInternal queue).info key).active = false
    rw [setInactiveInternal, hopen, if_neg Bool.false_ne_true, info_update]
    by_cases heq : key = queue
    · rw [heq, Function.update_self]
    · rw [Function.update_of_ne heq]
      exact hpaused
  | @serveActivate queue =>
    refine Or.inr ⟨.setActive queue true, rfl, ?_⟩
    simp [Operation.broadcasts, hopen]
  | closeProcessing => cases hstage
  | _ => exact Or.inl hpaused

/-- A thread begins to wait after it has paused the queue. -/
theorem Step.paused_of_waiting (hstep : Step contents manager event next)
    (hopen : manager.processing.group.closed = false) {worker : Worker} {key : Bytes}
    {payload : Payload} (hwaiting : next.forwarding worker = .waiting key payload) :
    manager.forwarding worker = .waiting key payload ∨ next.Paused key := by
  have hmove : ∀ {other : Worker} {pc : ForwardPc},
      next.forwarding = Function.update manager.forwarding other pc →
      (∀ queue payload, pc ≠ .waiting queue payload) →
      manager.forwarding worker = .waiting key payload := by
    intro other pc hforwarding hpc
    rw [hforwarding] at hwaiting
    by_cases heq : worker = other
    · rw [heq, Function.update_self] at hwaiting
      exact absurd hwaiting (hpc key payload)
    · rwa [Function.update_of_ne heq] at hwaiting
  cases hstep with
  | forwardCall | forwardLock | forwardThrow =>
    exact Or.inl (hmove rfl (by simp))
  | @forwardPush other payload attempt =>
    obtain ⟨state, hreply⟩ :=
      exists_reply_push manager.indexing attempt.queue attempt.clone false
    refine Or.inl (hmove (pushClone_spec other payload attempt hreply).1 ?_)
    cases state <;> simp [afterPush]
  | @forwardPause other queue retry =>
    by_cases hqueue : queue = key
    · right
      change ((manager.processing.group.setInactiveInternal queue).info key).active =
        false
      rw [setInactiveInternal, hopen, if_neg Bool.false_ne_true, info_update, hqueue,
        Function.update_self]
    · left
      change Function.update manager.forwarding other (afterPause queue retry)
        worker = _ at hwaiting
      by_cases heq : worker = other
      · rw [heq, Function.update_self] at hwaiting
        cases retry with
        | none => cases hwaiting
        | some again => exact absurd (ForwardPc.waiting.inj hwaiting).1 hqueue
      · rwa [Function.update_of_ne heq] at hwaiting
  | _ => exact Or.inl hwaiting

/-- The processing group is closed and empty, and `stop()` has closed it. -/
structure Silent
    (manager : TaskManager Proc Index Query Worker Handler Searcher) :
    Prop where
  drained : manager.processing.group.Drained
  notRunning : manager.stage ≠ .running
  closed : manager.stage ≠ .closingProcessing

/-- Nothing broadcasts the condition of a closed and empty group again. -/
theorem Silent.step (hsilent : Silent manager)
    (hstep : Step contents manager event next) :
    Silent next ∧ ¬Broadcast manager next := by
  have hdrained : next.processing.group.Drained := by
    rcases hstep.processing_eq with hsame | ⟨own, hown⟩
    · rw [hsame]
      exact hsilent.drained
    · exact hown.drained hsilent.drained
  have hcall : ∀ {operation : Operation Proc},
      next.processing.toRecorded = manager.processing.toRecorded.call operation →
      operation ≠ .close → (∀ key, operation ≠ .unassignHandler key) →
      ¬Broadcast manager next := by
    intro operation hcall hclose hunassign hbroadcast
    have hbroadcasts := hbroadcast.of_call hcall
    rw [Operation.broadcasts_of_drained hsilent.drained hclose hunassign] at hbroadcasts
    contradiction
  have hstages : next.stage ≠ .running ∧ next.stage ≠ .closingProcessing := by
    cases hstep with
    | forwardPush =>
      rw [stage_pushClone]
      exact ⟨hsilent.notRunning, hsilent.closed⟩
    | stop hstage => exact absurd hstage hsilent.notRunning
    | _ => first | exact ⟨hsilent.notRunning, hsilent.closed⟩ | simp
  refine ⟨⟨hdrained, hstages.1, hstages.2⟩, ?_⟩
  cases hstep with
  | processingPush hstep =>
    cases hstep with
    | push => exact hcall rfl (by simp) (by simp)
  | processingRun hstep =>
    cases hstep with
    | workerPop | workerRetry => exact hcall rfl (by simp) (by simp)
    | _ => exact not_broadcast_of_eq rfl
  | processingFinish hstep | processingKill hstep =>
    cases hstep
    exact not_broadcast_of_eq rfl
  | forwardPush => exact not_broadcast_of_eq (by rw [processing_pushClone])
  | forwardPause => exact hcall rfl (by simp) (by simp)
  | serveActivate hstage => exact absurd hstage hsilent.notRunning
  | closeProcessing hstage => exact absurd hstage hsilent.closed
  | _ => exact not_broadcast_of_eq rfl

theorem Silent.steps (hsilent : Silent manager)
    {later : TaskManager Proc Index Query Worker Handler Searcher}
    (hsteps : Transition.Steps (Step contents) manager later) : Silent later :=
  hsteps.invariant hsilent fun _ _ _ _ hbefore hstep => (hbefore.step hstep).1

end TaskManager

/-- The manager together with the threads that no broadcast has woken since they
began to wait. -/
structure Watched (Proc Index Query Worker Handler Searcher : Type) where
  manager : TaskManager Proc Index Query Worker Handler Searcher
  asleep : Worker → Prop

namespace Watched

variable {Proc Index Query Worker Handler Searcher : Type}
  [TaskObject Proc] [TaskObject Index] [TaskObject Query]
  [DecidableEq Worker] [DecidableEq Handler] [DecidableEq Searcher]
  {contents : TaskContents Proc Index}
  {watched : Watched Proc Index Query Worker Handler Searcher}

/-- A broadcast wakes all threads; a thread that begins to wait is asleep. -/
def after (watched : Watched Proc Index Query Worker Handler Searcher)
    (next : TaskManager Proc Index Query Worker Handler Searcher) :
    Watched Proc Index Query Worker Handler Searcher where
  manager := next
  asleep worker := ¬TaskManager.Broadcast watched.manager next ∧
    (next.forwarding worker).isWaiting = true ∧
    ((watched.manager.forwarding worker).isWaiting = true →
      watched.asleep worker)

/-- The steps of the manager, in which the threads that sleep take none.  The
wait of a thread may also end without a broadcast. -/
inductive Step (contents : TaskContents Proc Index) :
    Watched Proc Index Query Worker Handler Searcher →
      Option (ManagerEvent Proc Index Query Worker Handler Searcher) →
        Watched Proc Index Query Worker Handler Searcher → Prop where
  | moved {before : Watched Proc Index Query Worker Handler Searcher}
      {event : ManagerEvent Proc Index Query Worker Handler Searcher}
      {next : TaskManager Proc Index Query Worker Handler Searcher}
      (hstep : TaskManager.Step contents before.manager event next)
      (hawake : ∀ worker, event = .forward worker → ¬before.asleep worker) :
      Step contents before (some event) (before.after next)
  | spurious {before : Watched Proc Index Query Worker Handler Searcher}
      (worker : Worker) :
      Step contents before none
        ⟨before.manager, fun other => before.asleep other ∧ other ≠ worker⟩

/-- The states that can come about. -/
def Reachable (contents : TaskContents Proc Index) :
    Watched Proc Index Query Worker Handler Searcher → Prop :=
  Transition.Reachable
    (fun watched => ∃ fd, watched = ⟨TaskManager.start fd, fun _ => False⟩)
    (Step contents)

theorem Reachable.manager (hreachable : Reachable contents watched) :
    TaskManager.Reachable contents watched.manager := by
  apply invariant _ _ hreachable
  · rintro _ ⟨fd, rfl⟩
    exact .initial ⟨fd, rfl⟩
  · intro before event after _ hbefore hstep
    cases hstep with
    | moved hstep => exact hbefore.step hstep
    | spurious => exact hbefore

theorem Reachable.isWaiting (hreachable : Reachable contents watched) {worker : Worker}
    (hasleep : watched.asleep worker) :
    (watched.manager.forwarding worker).isWaiting = true := by
  revert hasleep
  apply invariant _ _ hreachable
  · rintro _ ⟨fd, rfl⟩ hasleep
    exact hasleep.elim
  · intro before event after _ hbefore hstep hasleep
    cases hstep with
    | moved => exact hasleep.2.1
    | spurious => exact hbefore hasleep.1

/-- Every state of the manager comes about with some threads asleep. -/
theorem exists_reachable {manager : TaskManager Proc Index Query Worker Handler Searcher}
    (hreachable : TaskManager.Reachable contents manager) :
    ∃ asleep, Reachable contents ⟨manager, asleep⟩ := by
  apply invariant _ _ hreachable
  · rintro _ ⟨fd, rfl⟩
    exact ⟨_, .initial ⟨fd, rfl⟩⟩
  · intro before event after _ hbefore hstep
    obtain ⟨asleep, hwatched⟩ := hbefore
    by_cases hforward : ∃ worker, event = .forward worker
    · obtain ⟨worker, rfl⟩ := hforward
      refine ⟨_, (hwatched.step (.spurious worker)).step (.moved hstep ?_)⟩
      rintro other hother hasleep
      exact hasleep.2 (ManagerEvent.forward.inj hother).symm
    · refine ⟨_, hwatched.step (.moved hstep ?_)⟩
      intro worker hevent
      exact absurd ⟨worker, hevent⟩ hforward

/-- While the manager runs, the queue of a thread that sleeps is paused. -/
theorem Reachable.paused (hreachable : Reachable contents watched)
    (hstage : watched.manager.stage = .running) {worker : Worker} {key : Bytes}
    {payload : Payload} (hasleep : watched.asleep worker)
    (hwaiting : watched.manager.forwarding worker = .waiting key payload) :
    watched.manager.Paused key := by
  revert hstage hasleep hwaiting
  apply invariant _ _ hreachable
  · rintro _ ⟨fd, rfl⟩ _ hasleep
    exact hasleep.elim
  · intro before event after hreachable hbefore hstep hstage hasleep hwaiting
    have hmanager := Reachable.manager hreachable
    cases hstep with
    | spurious => exact hbefore hstage hasleep.1 hwaiting
    | moved hstep =>
      have hrunning := hstep.running hstage
      have hopen := hmanager.open_processing hrunning
      obtain ⟨hquiet, _, hstill⟩ := hasleep
      rcases hstep.paused_of_waiting hopen hwaiting with hearlier | hpaused
      · have hpaused := hbefore hrunning (hstill (by rw [hearlier]; rfl)) hearlier
        exact (hstep.paused_or_broadcast hstage hopen hpaused).resolve_right hquiet
      · exact hpaused

/-- While the manager runs, a thread that sleeps in the branch for a full queue
is going to be woken once the indexing queue has space: a nudge byte is in the
pipe, or some pop owes one, or `serve()` has read the nudges and will set the
queue active. -/
theorem sleeper_woken (hreachable : Reachable contents watched)
    (hstage : watched.manager.stage = .running)
    (hfd : watched.manager.indexing.group.nudgeFd ≠ -1) {worker : Worker}
    {key : Bytes} {payload : Payload} (hasleep : watched.asleep worker)
    (hwaiting : watched.manager.forwarding worker = .waiting key payload)
    (hspace : (watched.manager.indexing.group.info key).queue.length <
      watched.manager.indexing.group.throttleSize) :
    watched.manager.pipe ≠ [] ∨ watched.manager.indexing.Owing ∨
      watched.manager.serving.resumes key := by
  have hpaused := hreachable.paused hstage hasleep hwaiting
  rw [← or_assoc]
  exact (hreachable.manager.resuming hstage hfd).paused key hpaused hspace

/-- A step that makes no call on the processing group wakes no thread. -/
theorem Reachable.quiet_step (hreachable : Reachable contents watched)
    {event : ManagerEvent Proc Index Query Worker Handler Searcher}
    {next : TaskManager Proc Index Query Worker Handler Searcher}
    (hstep : TaskManager.Step contents watched.manager event next)
    (hevent : ∀ worker, event ≠ .forward worker)
    (hprocessing : next.processing.toRecorded = watched.manager.processing.toRecorded)
    (hforwarding : next.forwarding = watched.manager.forwarding) :
    Reachable contents ⟨next, watched.asleep⟩ := by
  have hafter : Reachable contents (watched.after next) :=
    hreachable.step (.moved hstep fun worker heq => absurd heq (hevent worker))
  have hasleep : (watched.after next).asleep = watched.asleep := by
    funext worker
    refine propext ⟨fun hasleep => ?_, fun hasleep => ?_⟩
    · rw [after, hforwarding] at hasleep
      exact hasleep.2.2 hasleep.2.1
    · rw [after, hforwarding]
      exact ⟨TaskManager.not_broadcast_of_eq hprocessing,
        hreachable.isWaiting hasleep, fun _ => hasleep⟩
  rwa [← hasleep]

theorem Reachable.indexing (hreachable : Reachable contents watched)
    {pool : Pool Index Empty Handler}
    (hsteps : Transition.Steps Pool.OwnStep watched.manager.indexing pool) :
    ∃ pipe, Reachable contents ⟨{ watched.manager with indexing := pool, pipe := pipe },
        watched.asleep⟩ := by
  induction hsteps with
  | refl => exact ⟨watched.manager.pipe, hreachable⟩
  | tail _ hstep ih =>
    obtain ⟨pipe, hbefore⟩ := ih
    exact ⟨_, hbefore.quiet_step (.indexing hstep.1 hstep.2) (by simp) rfl
      rfl⟩

section Witness

open TaskManager

variable {loaded : Small 1 1}

/-- The thread finds the queue full and goes to sleep, and the handler pops
tasks until the queue has space. -/
theorem exists_asleep {count : ℕ} (hcount : count = 101000)
    (hloaded : Loaded loaded (clientTasks count))
    (hpushed : loaded.indexing.pushed = clientTasks count)
    (hforwarding : loaded.forwarding 0 = .pushing (ascii "a") (.other 0)) :
    ∃ watched : Watched BareTask IndexingTask BareTask (Fin 1) (Fin 1) Empty,
      Reachable plainContents watched ∧ watched.asleep 0 ∧
      watched.manager.forwarding 0 = .waiting (ascii "a") (.other 0) ∧
      (watched.manager.indexing.group.info (ascii "a")).queue.length <
        watched.manager.indexing.group.throttleSize ∧
      watched.manager.indexing.group.nudgeFd = 3 ∧
      watched.manager.processing =
        loaded.processing.call (.setInactiveInternal (ascii "a")) ∧
      watched.manager.stage = loaded.stage := by
  have hmax : loaded.indexing.group.maxSize = 101000 :=
    congrArg (fun settings => settings.2.1) hloaded.settings
  have hfull : loaded.indexing.group.maxSize ≤
      (loaded.indexing.group.info (ascii "a")).queue.length := by
    rw [hloaded.info, Function.update_self, length_clientTasks, hmax, hcount]
  obtain ⟨hreply, hinfo⟩ := push_of_full (⟨count⟩ : IndexingTask) hloaded.closed hfull
  obtain ⟨pushed, hpush, hafter, hpausing, hsame, hstage⟩ :=
    hloaded.push hforwarding (by rw [hpushed]; exact notMem_clientTasks le_rfl)
      hreply (hinfo.trans hloaded.info)
  obtain ⟨paused, hpause, hwaiting, hpc, hprocessing, hpausedStage⟩ :=
    hafter.pause hpausing
  obtain ⟨asleep, hreachable⟩ := exists_reachable hloaded.reachable
  have hpushedReachable := hreachable.step (.moved hpush (by
    intro worker _ hasleep
    have hisWaiting := Reachable.isWaiting hreachable hasleep
    rw [Subsingleton.elim worker 0, hforwarding] at hisWaiting
    cases hisWaiting))
  have hpausedReachable := hpushedReachable.step (.moved hpause (by
    intro worker _ hasleep
    have hisWaiting := hasleep.2.1
    rw [Subsingleton.elim worker 0, hpausing] at hisWaiting
    cases hisWaiting))
  have hsleeps : (((⟨loaded, asleep⟩ : Watched _ _ _ _ _ _).after
      pushed).after paused).asleep 0 := by
    refine ⟨fun hbroadcast => ?_, by rw [hpc]; rfl, fun hisWaiting => ?_⟩
    · have hbroadcasts := hbroadcast.of_call (by rw [hprocessing]; rfl)
      cases hbroadcasts
    · change (pushed.forwarding 0).isWaiting = true at hisWaiting
      rw [hpausing] at hisWaiting
      cases hisWaiting
  have hsplit : clientTasks count =
      (clientTasks count).take 1001 ++ (clientTasks count).drop 1001 :=
    (take_append_drop _ _).symm
  rw [hsplit] at hwaiting
  obtain ⟨pool, hpops, hrest, hsettings⟩ := hwaiting.pop (by
    rw [← hsplit]
    intro hnil
    have hlength := length_clientTasks count
    rw [hnil, length_nil] at hlength
    omega)
  obtain ⟨pipe, hfinal⟩ := Reachable.indexing hpausedReachable hpops
  refine ⟨_, hfinal, hsleeps, hpc, ?_, ?_, ?_, ?_⟩
  · have hthrottle : pool.group.throttleSize = 100000 :=
      congrArg Prod.fst hsettings
    change (pool.group.info _).queue.length < pool.group.throttleSize
    rw [hrest, hthrottle, length_drop, length_clientTasks]
    omega
  · exact congrArg (fun settings => settings.2.2.1) hsettings
  · exact hprocessing.trans (by rw [hsame])
  · exact hpausedStage.trans hstage

/-- The thread sleeps while the manager runs, and the queue has space again. -/
theorem sleeper_woken_popped :
    ∃ watched : Watched BareTask IndexingTask BareTask (Fin 1) (Fin 1) Empty,
      Reachable plainContents watched ∧ watched.manager.stage = .running ∧
      watched.asleep 0 ∧
      watched.manager.forwarding 0 = .waiting (ascii "a") (.other 0) ∧
      (watched.manager.indexing.group.info (ascii "a")).queue.length <
        watched.manager.indexing.group.throttleSize ∧
      (watched.manager.pipe ≠ [] ∨ watched.manager.indexing.Owing ∨
        watched.manager.serving.resumes (ascii "a")) := by
  obtain ⟨count, hcount⟩ : ∃ count, count = 101000 := ⟨_, rfl⟩
  obtain ⟨loaded, hloaded, hpushed, _, hforwarding, _, hstage⟩ :=
    exists_loaded reachable_pushingState rfl rfl hcount.le
  obtain ⟨watched, hreachable, hasleep, hpc, hspace, hfd, _, hrunning⟩ :=
    exists_asleep hcount hloaded hpushed (by rw [hforwarding]; rfl)
  rw [hstage] at hrunning
  exact ⟨watched, hreachable, hrunning, hasleep, hpc, hspace,
    sleeper_woken hreachable hrunning (by rw [hfd]; decide) hasleep hpc hspace⟩

/-- A thread has called `queue_indexing_from_processing`. -/
def enteringMoves : List (SmallMove 1 1) :=
  [.processing (.push (ascii "a") ⟨1, true⟩ true), .processing (.runWorker 0),
    .call 0 (ascii "a") (.other 0)]

theorem isSome_enteringMoves :
    (runMoves plainContents anyMove enteringMoves).isSome = true := by
  decide

def enteringState : Small 1 1 :=
  (runMoves plainContents anyMove enteringMoves).get
    isSome_enteringMoves

theorem reachable_enteringState : TaskManager.Reachable plainContents enteringState :=
  .of_runMoves (Option.some_get isSome_enteringMoves).symm

/-- `stop()` closes the processing group before the thread gets the lock. -/
theorem exists_closed {tasks : List IndexingTask} (hloaded : Loaded loaded tasks)
    (hstage : loaded.stage = .running) (hlock : loaded.lock = none)
    (hforwarding : loaded.forwarding 0 = .entering (ascii "a") (.other 0)) :
    ∃ next, Loaded next tasks ∧ next.indexing = loaded.indexing ∧
      next.forwarding 0 = .pushing (ascii "a") (.other 0) ∧
      next.processing = loaded.processing.call .close ∧
      next.stage = .closingSearch := by
  have hstopped := hloaded.reachable.step (.stop hstage)
  have hclosed := hstopped.step (.closeProcessing rfl hlock)
  have hlocked := hclosed.step (.forwardLock (Or.inl hforwarding) hlock)
  exact ⟨_, ⟨hlocked, hloaded.worker, hloaded.info, hloaded.closed,
    hloaded.settings, hloaded.handler, hloaded.handlerStop⟩, rfl,
    Function.update_self (0 : Fin 1) _ loaded.forwarding, rfl, rfl⟩

/-- A thread calls `queue_indexing_from_processing` for a full queue after
`stop()` has closed the processing group.  It sleeps although the queue gets
space, and nothing that can still happen broadcasts the condition. -/
theorem stranded_after_stop :
    ∃ watched : Watched BareTask IndexingTask BareTask (Fin 1) (Fin 1) Empty,
      Reachable plainContents watched ∧ watched.asleep 0 ∧
      watched.manager.forwarding 0 = .waiting (ascii "a") (.other 0) ∧
      (watched.manager.indexing.group.info (ascii "a")).queue.length <
        watched.manager.indexing.group.throttleSize ∧
      ∀ later event next,
        Transition.Steps (TaskManager.Step plainContents) watched.manager later →
        TaskManager.Step plainContents later event next →
        ¬Broadcast later next := by
  obtain ⟨count, hcount⟩ : ∃ count, count = 101000 := ⟨_, rfl⟩
  obtain ⟨loaded, hloaded, hpushed, hprocessing, hforwarding, hlock, hstage⟩ :=
    exists_loaded reachable_enteringState rfl rfl hcount.le
  obtain ⟨closed, hclosed, hindexing, hpushing, hgroup, hclosing⟩ :=
    exists_closed hloaded hstage hlock (by rw [hforwarding]; rfl)
  obtain ⟨watched, hreachable, hasleep, hpc, hspace, _, hsame, hlast⟩ :=
    exists_asleep hcount hclosed (by rw [hindexing, hpushed]) hpushing
  have hsilent : Silent watched.manager := by
    refine ⟨?_, by rw [hlast, hclosing]; simp, by rw [hlast, hclosing]; simp⟩
    rw [hsame, hgroup, hprocessing]
    exact TaskQueueGroup.drained_of_closedAndEmpty (by decide)
  exact ⟨watched, hreachable, hasleep, hpc, hspace,
    fun later event next hsteps hstep =>
      ((hsilent.steps hsteps).step hstep).2⟩

end Witness

end Watched

end Restpose
