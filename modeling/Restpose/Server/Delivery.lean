import Restpose.Server.QueueFacts

/-!
# Delivery of tasks

A recorded group keeps the log of its calls.  However threads interleave their
calls, the tasks accepted for a key are at every moment the tasks returned for
it, in the same order, followed by the tasks still in its queue.
-/

namespace Restpose

open List TaskQueueGroup QueueInfo

variable {Task : Type} [TaskObject Task]

/-- A push with this result has put the task into the queue. -/
def QueueState.accepts : QueueState → Bool
  | .hasSpace => true
  | .lowSpace => true
  | .full => false
  | .closed => false

/-- A call of an operation and what it returned. -/
abbrev Call (Task : Type) := Operation Task × Reply Task

namespace Call

/-- The task that a call pushed onto the queue of a key. -/
def accepted (key : Bytes) : Call Task → List Task
  | (.push other task _, .queued state) =>
      if other = key ∧ state.accepts then [task] else []
  | _ => []

/-- The task that a call failed to push. -/
def refused : Call Task → List Task
  | (.push _ task _, .queued state) => if state.accepts then [] else [task]
  | _ => []

/-- The task that a call returned from the queue of a key. -/
def returned (key : Bytes) : Call Task → List Task
  | (_, .popped other task _) => if other = key then [task] else []
  | _ => []

/-- The task that a call returned. -/
def delivered : Call Task → List Task
  | (_, .popped _ task _) => [task]
  | _ => []

end Call

/-- A group with the calls made on it, oldest first. -/
structure Recorded (Task : Type) where
  group : TaskQueueGroup Task
  log : List (Call Task)

namespace Recorded

/-- Make a call and record it. -/
def call (state : Recorded Task) (operation : Operation Task) : Recorded Task :=
  ⟨(operation.run state.group).1,
    state.log ++ [(operation, (operation.run state.group).2)]⟩

/-- The calls of all threads in the order in which they held the lock. -/
def runAll (state : Recorded Task) (operations : List (Operation Task)) :
    Recorded Task :=
  operations.foldl call state

def start (throttleSize maxSize : ℕ) : Recorded Task :=
  ⟨TaskQueueGroup.create throttleSize maxSize, []⟩

/-- The tasks accepted for a key, oldest first. -/
def accepted (state : Recorded Task) (key : Bytes) : List Task :=
  state.log.flatMap (Call.accepted key)

/-- The tasks returned for a key, oldest first. -/
def returned (state : Recorded Task) (key : Bytes) : List Task :=
  state.log.flatMap (Call.returned key)

/-- The tasks returned for any key, oldest first. -/
def delivered (state : Recorded Task) : List Task :=
  state.log.flatMap Call.delivered

/-- The tasks whose push failed, oldest first. -/
def refused (state : Recorded Task) : List Task :=
  state.log.flatMap Call.refused

/-- The tasks that a push was tried with, oldest first. -/
def pushed (state : Recorded Task) : List Task :=
  state.log.flatMap fun call => call.1.pushed

/-- The tasks in the queue of a key. -/
def queued (state : Recorded Task) (key : Bytes) : List Task :=
  (state.group.info key).queue

end Recorded

@[simp]
theorem TaskQueueGroup.queue_settled (group : TaskQueueGroup Task)
    (completed : Option (Bytes × Task)) (key : Bytes) :
    (group.settled completed key).queue = (group.info key).queue := by
  unfold settled
  split
  · rfl
  · split <;> rfl

/-- What a call adds to a queue goes to its end, and what it returns comes
from its front. -/
theorem Operation.conservation (group : TaskQueueGroup Task) (operation : Operation Task)
    (key : Bytes) :
    (group.info key).queue ++ Call.accepted key (operation, (operation.run group).2) =
      Call.returned key (operation, (operation.run group).2) ++
        ((operation.run group).1.info key).queue := by
  have heffect := operation.effect_run group
  generalize (operation.run group).1 = after at heffect
  generalize (operation.run group).2 = reply at heffect
  cases heffect with
  | accepted other task allowThrottle state hstate _ _ hinfo =>
    have haccepts : state.accepts = true := by
      rcases hstate with rfl | rfl <;> rfl
    rw [hinfo]
    by_cases hother : other = key
    · subst other
      simp [Call.accepted, Call.returned, haccepts]
    · simp [Call.accepted, Call.returned, hother, Ne.symm hother]
  | refused other task allowThrottle state hstate _ _ hinfo =>
    have haccepts : state.accepts = false := by
      rcases hstate with rfl | rfl <;> rfl
    simp [Call.accepted, Call.returned, haccepts, hinfo]
  | popAny completed other task rest nudge _ hqueue _ hinfo
  | popFrom other completed task rest nudge _ hqueue _ hinfo =>
    rw [queue_settled] at hqueue
    rw [hinfo]
    by_cases hother : other = key
    · subst other
      simp [Call.accepted, Call.returned, afterPop, hqueue]
    · simp [Call.accepted, Call.returned, hother, Ne.symm hother]
  | popAnyNone completed _ _ hinfo =>
    cases group.closed <;> simp [Call.accepted, Call.returned, hinfo]
  | popAnyFailed _ _ _ hafter | popFromFailed _ _ _ _ hafter =>
    simp [Call.accepted, Call.returned, hafter]
  | popFromFinished other completed _ _ _ hinfo
  | popFromWait other completed _ _ hinfo | completed other task _ hinfo
  | close _ hinfo =>
    simp [Call.accepted, Call.returned, hinfo]
  | assigned other _ _ hinfo | unassigned other _ hinfo =>
    by_cases hother : key = other <;>
      simp [Call.accepted, Call.returned, hinfo, hother]
  | assignNone _ hafter =>
    cases group.closed <;> simp [Call.accepted, Call.returned, hafter]
  | setActive other _ _ hinfo | setInactiveInternal other _ hinfo =>
    have hqueue : (after.info key).queue = (group.info key).queue := by
      rw [hinfo]
      split
      · rfl
      · by_cases hother : key = other
        all_goals simp [hother]
    simp [Call.accepted, Call.returned, hqueue]

namespace Recorded

section Call

variable (state : Recorded Task) (operation : Operation Task)

@[simp]
theorem accepted_call (key : Bytes) :
    (state.call operation).accepted key = state.accepted key ++
      Call.accepted key (operation, (operation.run state.group).2) := by
  simp [accepted, call]

@[simp]
theorem returned_call (key : Bytes) :
    (state.call operation).returned key = state.returned key ++
      Call.returned key (operation, (operation.run state.group).2) := by
  simp [returned, call]

@[simp]
theorem pushed_call :
    (state.call operation).pushed = state.pushed ++ operation.pushed := by
  simp [pushed, call]

end Call

/-- The tasks accepted for a key have been returned for it, in that order, or
are still queued. -/
def Conserved (state : Recorded Task) : Prop :=
  ∀ key, state.accepted key = state.returned key ++ state.queued key

omit [TaskObject Task] in
theorem conserved_start (throttleSize maxSize : ℕ) :
    (start throttleSize maxSize : Recorded Task).Conserved := by
  intro key
  simp [start, accepted, returned, queued, create, info, fresh]

theorem Conserved.call {state : Recorded Task} (hconserved : state.Conserved)
    (operation : Operation Task) : (state.call operation).Conserved := by
  intro key
  have hstep := operation.conservation state.group key
  calc (state.call operation).accepted key = state.returned key ++ (state.queued key ++
          Call.accepted key (operation, (operation.run state.group).2)) := by
        rw [accepted_call, hconserved key, List.append_assoc]
    _ = state.returned key ++
      (Call.returned key (operation, (operation.run state.group).2) ++
            (state.call operation).queued key) := by
        rw [queued, hstep, queued, Recorded.call]
    _ = (state.call operation).returned key ++ (state.call operation).queued key := by
        rw [returned_call, List.append_assoc]

theorem Conserved.runAll {state : Recorded Task} (hconserved : state.Conserved)
    (operations : List (Operation Task)) :
    (state.runAll operations).Conserved := by
  induction operations generalizing state with
  | nil => exact hconserved
  | cons operation operations ih => exact ih (hconserved.call operation)

theorem pushed_runAll (state : Recorded Task) (operations : List (Operation Task)) :
    (state.runAll operations).pushed = state.pushed ++
      operations.flatMap Operation.pushed := by
  induction operations generalizing state with
  | nil => simp [runAll]
  | cons operation operations ih =>
    rw [runAll, List.foldl_cons, ← runAll, ih, pushed_call, List.flatMap_cons,
      List.append_assoc]

/-- A push is accepted for one key or refused, never both. -/
theorem count_accepted_add_le {key other : Bytes} (hne : key ≠ other)
    (state : Recorded Task) (task : Task) :
    (state.accepted key).count task + (state.accepted other).count task +
      state.refused.count task ≤ state.pushed.count task := by
  unfold accepted refused pushed
  induction state.log with
  | nil => simp
  | cons call log ih =>
    have hcall : (Call.accepted key call).count task +
      (Call.accepted other call).count task +
          (Call.refused call).count task ≤ call.1.pushed.count task := by
      obtain ⟨operation, reply⟩ := call
      cases operation with
      | push pushedKey pushedTask allowThrottle =>
        cases reply with
        | queued state =>
          by_cases hkey : pushedKey = key
          · subst pushedKey
            cases state <;>
              simp [Call.accepted, Call.refused, Operation.pushed, QueueState.accepts,
                hne]
          · by_cases hother : pushedKey = other
            · subst pushedKey
              cases state <;>
                simp [Call.accepted, Call.refused, Operation.pushed, QueueState.accepts,
                  hkey]
            · cases state <;>
                simp [Call.accepted, Call.refused, Operation.pushed,
                  QueueState.accepts, hkey, hother]
        | _ => simp [Call.accepted, Call.refused]
      | _ => simp [Call.accepted, Call.refused, Operation.pushed]
    simp only [List.flatMap_cons, List.count_append]
    omega

/-- The deliveries of a task returned for one key only. -/
theorem count_delivered_eq (state : Recorded Task) (key : Bytes) {task : Task}
    (hothers : ∀ other, other ≠ key → task ∉ state.returned other) :
    state.delivered.count task = (state.returned key).count task := by
  unfold delivered returned at *
  generalize state.log = log at hothers ⊢
  induction log with
  | nil => rfl
  | cons call log ih =>
    simp only [flatMap_cons, mem_append, not_or] at hothers
    rw [flatMap_cons, flatMap_cons, count_append,
      count_append, ih fun other hother => (hothers other hother).2]
    congr 1
    obtain ⟨operation, reply⟩ := call
    cases reply with
    | popped other returnedTask nudge =>
      by_cases hother : other = key
      · simp [Call.delivered, Call.returned, hother]
      · have hnot := (hothers other hother).1
        simp only [Call.returned, if_true, mem_singleton] at hnot
        simp [Call.delivered, Call.returned, hother, Ne.symm hnot]
    | _ => simp [Call.delivered, Call.returned]

/-- A recorded group in which every push has handed over a new task object. -/
structure Sound (state : Recorded Task) : Prop where
  conserved : state.Conserved
  fresh : state.pushed.Nodup

namespace Sound

variable {state : Recorded Task}

theorem count_pushed_le (hsound : state.Sound) (task : Task) :
    state.pushed.count task ≤ 1 :=
  nodup_iff_count_le_one.mp hsound.fresh task

variable {key : Bytes} {task : Task}

variable (hsound : state.Sound)

include hsound

/-- A task is accepted for one key at most. -/
theorem notMem_accepted {other : Bytes} (htask : task ∈ state.accepted key)
    (hother : other ≠ key) : task ∉ state.accepted other := by
  intro hmem
  have hcount := count_accepted_add_le (Ne.symm hother) state task
  have hfirst := count_pos_iff.mpr htask
  have hsecond := count_pos_iff.mpr hmem
  have hpushed := hsound.count_pushed_le task
  omega

theorem nodup_accepted (key : Bytes) : (state.accepted key).Nodup := by
  rw [nodup_iff_count_le_one]
  intro task
  have hne : key ≠ key ++ [0] := by simp
  have hcount := count_accepted_add_le hne state task
  have hpushed := hsound.count_pushed_le task
  omega

theorem nodup_returned (key : Bytes) : (state.returned key).Nodup := by
  have hnodup := hsound.nodup_accepted key
  rw [hsound.conserved key] at hnodup
  exact (nodup_append.mp hnodup).1

omit [TaskObject Task] in
theorem mem_accepted_of_returned (htask : task ∈ state.returned key) :
    task ∈ state.accepted key := by
  rw [hsound.conserved key]
  exact mem_append_left _ htask

omit [TaskObject Task] in
theorem mem_accepted_of_queued (htask : task ∈ state.queued key) :
    task ∈ state.accepted key := by
  rw [hsound.conserved key]
  exact mem_append_right _ htask

theorem count_queued_add_delivered (htask : task ∈ state.accepted key) :
    (state.queued key).count task + state.delivered.count task = 1 := by
  have hdelivered := count_delivered_eq state key
    fun other hother hmem => hsound.notMem_accepted htask hother
      (hsound.mem_accepted_of_returned hmem)
  have hone := count_eq_one_of_mem (hsound.nodup_accepted key) htask
  rw [hsound.conserved key, count_append] at hone
  omega

/-- A task that is never accepted is never returned. -/
theorem notMem_delivered (hnever : ∀ key, task ∉ state.accepted key) :
    task ∉ state.delivered := by
  have hreturned : ∀ key, task ∉ state.returned key := fun key hmem =>
    hnever key (hsound.mem_accepted_of_returned hmem)
  rw [← count_eq_zero, count_delivered_eq state [] fun other _ => hreturned other,
    count_eq_zero]
  exact hreturned []

theorem notMem_accepted_of_refused (htask : task ∈ state.refused) (key : Bytes) :
    task ∉ state.accepted key := by
  intro hmem
  have hne : key ≠ key ++ [0] := by simp
  have hcount := count_accepted_add_le hne state task
  have hfirst := count_pos_iff.mpr hmem
  have hsecond := count_pos_iff.mpr htask
  have hpushed := hsound.count_pushed_le task
  omega

omit hsound

end Sound

theorem sound_runAll_start {throttleSize maxSize : ℕ} {operations : List (Operation Task)}
    (hfresh : (operations.flatMap Operation.pushed).Nodup) :
    ((start throttleSize maxSize).runAll operations).Sound where
  conserved := (conserved_start throttleSize maxSize).runAll operations
  fresh := by
    rw [pushed_runAll]
    simpa [start, pushed] using hfresh

/-- Exactly-once delivery in order.  Every push hands over a new task object.
An accepted task is in the queue of its key or has been returned, once and not
both; a refused one is never returned; the tasks returned for a key are those
accepted for it in the same order; and the cleanup of a queue discards no
task. -/
theorem delivery_exactly_once (throttleSize maxSize : ℕ)
    (operations : List (Operation Task))
    (hfresh : (operations.flatMap Operation.pushed).Nodup) :
    let state := (start throttleSize maxSize).runAll operations
    (∀ key, ∀ task ∈ state.accepted key,
      (((state.queued key).count task = 1 ∧ state.delivered.count task = 0) ∨
        ((state.queued key).count task = 0 ∧
          state.delivered.count task = 1)) ∧
      ∀ other, other ≠ key → task ∉ state.queued other) ∧
    (∀ task ∈ state.refused, task ∉ state.delivered) ∧
    (∀ key, state.accepted key = state.returned key ++ state.queued key) ∧
    ∀ key other, ((state.group.checkForCleanup key).info other).queue =
      state.queued other := by
  intro state
  have hsound : state.Sound := sound_runAll_start hfresh
  refine ⟨?_, ?_, hsound.conserved, ?_⟩
  · intro key task htask
    have hcount := hsound.count_queued_add_delivered htask
    refine ⟨by omega, ?_⟩
    intro other hother hmem
    exact hsound.notMem_accepted htask hother
      (hsound.mem_accepted_of_queued hmem)
  · intro task htask
    exact hsound.notMem_delivered (hsound.notMem_accepted_of_refused htask)
  · intro key other
    rw [TaskQueueGroup.info_checkForCleanup, queued]

/-- Two tasks for one key, a pause, a refused push after the group is closed,
and all that is accepted returned in order. -/
def sampleCalls : List (Operation BareTask) :=
  [.push (ascii "a") ⟨1, true⟩ true, .push (ascii "a") ⟨2, false⟩ true,
    .popAny none, .setActive (ascii "b") false, .close,
    .push (ascii "b") ⟨3, true⟩ false, .popAny (some (ascii "a", ⟨1, true⟩))]

theorem delivery_exactly_once_sample :
    ((start 5 6).runAll sampleCalls).returned (ascii "a") =
        [⟨1, true⟩, ⟨2, false⟩] ∧
      ((start 5 6).runAll sampleCalls).delivered.count ⟨2, false⟩ = 1 ∧
      (⟨3, true⟩ : BareTask) ∉ ((start 5 6).runAll sampleCalls).delivered := by
  obtain ⟨honce, hrefused, _⟩ := delivery_exactly_once 5 6 sampleCalls (by decide)
  refine ⟨by decide, ?_, hrefused _ (by decide)⟩
  have haccepted : (⟨2, false⟩ : BareTask) ∈
      ((start 5 6).runAll sampleCalls).accepted (ascii "a") := by
    decide
  have hnotQueued : (((start 5 6).runAll sampleCalls).queued (ascii "a")).count
      ⟨2, false⟩ = 0 := by
    decide
  rcases (honce _ _ haccepted).1 with ⟨hqueued, _⟩ | ⟨_, hdelivered⟩
  · omega
  · exact hdelivered

end Recorded

end Restpose
