import Restpose.Server.TaskManager

/-!
# Running schedules

An event determines the step of a pool, and a move the step of the manager, so
that runs can be computed.  What is computed comes with the step that leads to
it, so every computed run is a run of the step relations.
-/

namespace Restpose

open Option

namespace Pool

variable {Task Worker Handler : Type} [TaskObject Task]
  [DecidableEq Worker] [DecidableEq Handler]

/-- The next step of a worker with its own code. -/
def runWorker (pool : Pool Task Worker Handler) (worker : Worker) :
    Option { next // Step pool (.runWorker worker) next } :=
  match hpc : pool.worker worker with
  | .top _ =>
      if hstop : pool.workerStop worker = false then
        some ⟨_, .workerPop hpc hstop⟩
      else some ⟨_, .workerStopped hpc (Bool.eq_true_of_not_eq_false hstop)⟩
  | .waiting => some ⟨_, .workerRetry hpc⟩
  | .nudging _ _ _ => some ⟨_, .workerNudge hpc⟩
  | _ => none

/-- The next step of a handler with its own code. -/
def runHandler (pool : Pool Task Worker Handler) (handler : Handler) :
    Option { next // Step pool (.runHandler handler) next } :=
  match hpc : pool.handler handler with
  | .top =>
      if hstop : pool.handlerStop handler = false then
        some ⟨_, .handlerAssign (.inl ⟨hpc, hstop⟩)⟩
      else some ⟨_, .handlerStopped hpc (Bool.eq_true_of_not_eq_false hstop)⟩
  | .assigning => some ⟨_, .handlerAssign (.inr hpc)⟩
  | .popping _ _ _ => some ⟨_, .handlerPop (.inl hpc)⟩
  | .waiting _ _ => some ⟨_, .handlerPop (.inr ⟨hpc, rfl⟩)⟩
  | .nudging _ _ _ _ => some ⟨_, .handlerNudge hpc⟩
  | .leaving _ (some _) _ => some ⟨_, .handlerCompleted hpc⟩
  | .leaving _ none _ => some ⟨_, .handlerNothingCompleted hpc⟩
  | .unassigning _ => some ⟨_, .handlerUnassign hpc⟩
  | .finishing _ true => some ⟨_, .handlerCleanup hpc⟩
  | .finishing _ false => some ⟨_, .handlerKeep hpc⟩
  | .dying _ _ true => some ⟨_, .dyingCleanup hpc⟩
  | .dying _ _ false => some ⟨_, .dyingKeep hpc⟩
  | _ => none

/-- The step that an event stands for, if there is one. -/
def advance (pool : Pool Task Worker Handler) :
    (event : PoolEvent Task Worker Handler) →
      Option { next // Step pool event next }
  | .push key task allowThrottle =>
      if hfresh : task ∈ pool.pushed then none
      else some ⟨_, .push key task allowThrottle hfresh⟩
  | .setActive key on => some ⟨_, .setActive key on⟩
  | .setInactiveInternal key => some ⟨_, .setInactiveInternal key⟩
  | .close => some ⟨_, .close⟩
  | .stopWorker worker => some ⟨_, .stopWorker worker⟩
  | .stopHandler handler => some ⟨_, .stopHandler handler⟩
  | .runWorker worker => pool.runWorker worker
  | .runHandler handler => pool.runHandler handler
  | .finishWorker worker =>
      match hpc : pool.worker worker with
      | .performing _ _ => some ⟨_, .workerFinish hpc⟩
      | _ => none
  | .finishHandler handler collection =>
      match hpc : pool.handler handler with
      | .performing _ _ _ => some ⟨_, .handlerFinish collection hpc⟩
      | _ => none
  | .failHandler handler collection =>
      match hpc : pool.handler handler with
      | .performing _ _ _ => some ⟨_, .handlerFail collection hpc⟩
      | _ => none
  | .killWorker worker =>
      match hpc : pool.worker worker with
      | .performing _ _ => some ⟨_, .workerKill hpc⟩
      | _ => none
  | .killHandler handler collection =>
      match hpc : pool.handler handler with
      | .performing _ _ _ =>
          some ⟨_, .handlerKill collection (.inl ⟨_, rfl, hpc⟩)⟩
      | .leaving _ _ _ => some ⟨_, .handlerKill collection (.inr hpc)⟩
      | _ => none
  | .timeout handler =>
      match hpc : pool.handler handler with
      | .waiting _ _ => some ⟨_, .handlerTimeout hpc⟩
      | _ => none
  | .failCleanup handler =>
      match hpc : pool.handler handler with
      | .finishing _ true => some ⟨_, .handlerCleanupFails hpc⟩
      | .dying _ _ true => some ⟨_, .dyingCleanupFails hpc⟩
      | _ => none

end Pool

/-- The choices of a scheduler for the manager, up to the close of the indexing
group. -/
inductive ManagerMove (Proc Index Worker Handler : Type) where
  | processing (event : PoolEvent Proc Worker Empty)
  | indexing (event : PoolEvent Index Empty Handler)
  /-- `perform` calls `queue_indexing_from_processing`. -/
  | call (worker : Worker) (queue : Bytes) (payload : Payload)
  | lock (worker : Worker)
  | push (worker : Worker) (clone : Index)
  | main (stage : Stage)

namespace TaskManager

variable {Proc Index Query Worker Handler Searcher : Type}

/-- The event that a move leads to. -/
def event : ManagerMove Proc Index Worker Handler →
    ManagerEvent Proc Index Query Worker Handler Searcher
  | .processing event => .processing event
  | .indexing event => .indexing event
  | .call worker _ _ => .forward worker
  | .lock worker => .forward worker
  | .push worker _ => .forward worker
  | .main stage => .main stage

theorem eq_main {move : ManagerMove Proc Index Worker Handler} {stage : Stage}
    (hevent : (event move : ManagerEvent Proc Index Query Worker Handler Searcher) =
      .main stage) :
    move = .main stage := by
  cases move with
  | main _ =>
    cases hevent
    rfl
  | _ => cases hevent

variable [TaskObject Proc] [TaskObject Index] [TaskObject Query]
  [DecidableEq Worker] [DecidableEq Handler] [DecidableEq Searcher]
  (contents : TaskContents Proc Index)

/-- The step that a move stands for, if there is one. -/
def advance (manager : TaskManager Proc Index Query Worker Handler Searcher) :
    (move : ManagerMove Proc Index Worker Handler) →
      Option { next // Step contents manager (event move) next }
  | .processing (.push key task allowThrottle) =>
      if hlock : manager.lock = none then
        (manager.processing.advance (.push key task allowThrottle)).map
          fun next => ⟨_, .processingPush next.2 hlock⟩
      else none
  | .processing (.runWorker worker) =>
      if hlock : manager.processing.popsNext worker = true →
          manager.lock = none then
        (manager.processing.advance (.runWorker worker)).map
          fun next => ⟨_, .processingRun next.2 hlock⟩
      else none
  | .processing (.finishWorker worker) =>
      match hworker : manager.processing.worker worker with
      | .performing _ task =>
          if hcalled : manager.forwarding worker = .outside ∧
              ((contents.wrapped task).isSome →
                manager.called worker = true) then
            (manager.processing.advance (.finishWorker worker)).map
              fun next =>
                ⟨_, .processingFinish next.2 hworker hcalled.1 hcalled.2⟩
          else none
      | _ => none
  | .processing _ => none
  | .indexing event =>
      if hown : event.own = true then
        (manager.indexing.advance event).map
          fun next => ⟨_, .indexing next.2 hown⟩
      else none
  | .call worker queue payload =>
      match hworker : manager.processing.worker worker,
        houtside : manager.forwarding worker with
      | .performing key task, .outside =>
          if hwrapped : ∀ inner ∈ contents.wrapped task,
              manager.called worker = false ∧ queue = key ∧ payload = inner then
            some ⟨_, .forwardCall queue payload hworker houtside hwrapped⟩
          else none
      | _, _ => none
  | .lock worker =>
      match hpc : manager.forwarding worker, hlock : manager.lock with
      | .entering _ _, none => some ⟨_, .forwardLock (.inl hpc) hlock⟩
      | .waiting _ _, none => some ⟨_, .forwardLock (.inr hpc) hlock⟩
      | _, _ => none
  | .push worker clone =>
      match hworker : manager.processing.worker worker,
        hpc : manager.forwarding worker with
      | .performing key task, .pushing queue payload =>
          if hclone : clone ∉ manager.indexing.pushed ∧
              contents.payload clone = payload then
            some ⟨_, .forwardPush ⟨key, task, queue, clone⟩ hworker hpc
              hclone.1 hclone.2⟩
          else none
      | _, _ => none
  | .main .running =>
      if hstage : manager.stage = .running then some ⟨_, .stop hstage⟩
      else none
  | .main .closingProcessing =>
      if hstage : manager.stage = .closingProcessing ∧ manager.lock = none then
        some ⟨_, .closeProcessing hstage.1 hstage.2⟩
      else none
  | .main .closingSearch =>
      if hstage : manager.stage = .closingSearch then
        some ⟨_, .closeSearch hstage⟩
      else none
  | .main .drainingProcessing =>
      if hstage : manager.stage = .drainingProcessing ∧ manager.lock = none ∧
          manager.processing.group.closedAndEmpty = true then
        some ⟨_, .drainProcessing hstage.1 hstage.2.1 hstage.2.2⟩
      else none
  | .main .closingIndexing =>
      if hstage : manager.stage = .closingIndexing then
        some ⟨_, .closeIndexing hstage⟩
      else none
  | .main _ => none

/-- The state after a list of moves, if all of them are possible and
allowed. -/
def runMoves
    (allowed : TaskManager Proc Index Query Worker Handler Searcher →
      ManagerMove Proc Index Worker Handler → Bool)
    (moves : List (ManagerMove Proc Index Worker Handler)) :
    Option (TaskManager Proc Index Query Worker Handler Searcher) :=
  moves.foldlM (fun manager move =>
    if allowed manager move then (manager.advance contents move).map (·.1)
    else none)
    (start 3)

/-- The moves that close the groups. -/
def closingMoves : List (ManagerMove Proc Index Worker Handler) :=
  [.main .running, .main .closingProcessing, .main .closingSearch,
    .main .drainingProcessing, .main .closingIndexing]

variable {contents}
  {manager : TaskManager Proc Index Query Worker Handler Searcher}
  {allowed : TaskManager Proc Index Query Worker Handler Searcher →
    ManagerMove Proc Index Worker Handler → Bool}
  {moves : List (ManagerMove Proc Index Worker Handler)}

/-- A computed run is a run of every step relation that has its steps. -/
theorem reachable_runMoves {step : TaskManager Proc Index Query Worker Handler Searcher →
      ManagerEvent Proc Index Query Worker Handler Searcher →
        TaskManager Proc Index Query Worker Handler Searcher → Prop}
    (hsound : ∀ state move next, allowed state move = true →
      Step contents state (event move) next → step state (event move) next)
    (hrun : runMoves contents allowed moves = some manager) :
    Transition.Reachable (fun state => ∃ fd, state = start fd) step manager := by
  have hfrom : ∀ state, Transition.Reachable (fun state => ∃ fd, state = start fd)
    step state →
      moves.foldlM (fun state move =>
        if allowed state move then (advance contents state move).map (·.1) else none)
        state = some manager →
      Transition.Reachable (fun state => ∃ fd, state = start fd) step manager := by
    clear hrun
    induction moves with
    | nil =>
      intro state hreachable hrun
      obtain rfl := some.inj hrun
      exact hreachable
    | cons move moves ih =>
      intro state hreachable hrun
      rw [List.foldlM_cons, bind_eq_bind, bind_eq_some_iff] at hrun
      obtain ⟨middle, hmove, hrest⟩ := hrun
      rw [ite_none_right_eq_some, map_eq_some_iff] at hmove
      obtain ⟨hallowed, next, -, rfl⟩ := hmove
      exact ih next (.step hreachable (hsound state move next hallowed next.2)) hrest
  exact hfrom (start 3) (.initial ⟨3, rfl⟩) hrun

theorem Reachable.of_runMoves (hrun : runMoves contents allowed moves = some manager) :
    Reachable contents manager :=
  reachable_runMoves (fun _ _ _ _ => id) hrun

/-! ## Small managers -/

/-- A manager with some processing and indexing threads. -/
abbrev Small (workers handlers : ℕ) : Type :=
  TaskManager BareTask IndexingTask BareTask (Fin workers) (Fin handlers) Empty

abbrev SmallMove (workers handlers : ℕ) : Type :=
  ManagerMove BareTask IndexingTask (Fin workers) (Fin handlers)

/-- All moves are allowed. -/
def anyMove {workers handlers : ℕ} :
    Small workers handlers → SmallMove workers handlers → Bool :=
  fun _ _ => true

end TaskManager

end Restpose
