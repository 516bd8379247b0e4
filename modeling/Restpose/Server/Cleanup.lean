import Restpose.Server.TaskManager

/-!
# Cleanup cannot be observed

`check_for_cleanup` erases a queue that is "equivalent to not existing".  Here
the operations of a group are written with any cleanup in its place, and groups
that agree on all entries, where a missing entry counts as a fresh one, are
shown to answer alike whatever they keep.
-/

namespace Restpose

open TaskQueueGroup List QueueInfo

variable {Task : Type}

/-! ## Groups that keep different entries -/

namespace TaskQueueGroup

/-- Two groups that differ in the fresh entries they keep. -/
structure Alike (left right : TaskQueueGroup Task) : Prop where
  info : left.info = right.info
  lastPopFrom : left.lastPopFrom = right.lastPopFrom
  closed : left.closed = right.closed
  throttleSize : left.throttleSize = right.throttleSize
  maxSize : left.maxSize = right.maxSize
  nudgeFd : left.nudgeFd = right.nudgeFd
  nudgeByte : left.nudgeByte = right.nudgeByte

/-- A cleanup that only takes fresh entries away. -/
def Transparent
    (cleanup : TaskQueueGroup Task → Bytes → TaskQueueGroup Task) : Prop :=
  ∀ group key, Alike (cleanup group key) group

namespace Alike

variable {left right : TaskQueueGroup Task}

theorem refl (group : TaskQueueGroup Task) : Alike group group :=
  ⟨rfl, rfl, rfl, rfl, rfl, rfl, rfl⟩

theorem symm (halike : Alike left right) : Alike right left :=
  ⟨halike.info.symm, halike.lastPopFrom.symm, halike.closed.symm,
    halike.throttleSize.symm, halike.maxSize.symm, halike.nudgeFd.symm,
    halike.nudgeByte.symm⟩

theorem trans {middle : TaskQueueGroup Task} (hfirst : Alike left middle)
    (hsecond : Alike middle right) : Alike left right :=
  ⟨hfirst.info.trans hsecond.info, hfirst.lastPopFrom.trans hsecond.lastPopFrom,
    hfirst.closed.trans hsecond.closed,
    hfirst.throttleSize.trans hsecond.throttleSize,
    hfirst.maxSize.trans hsecond.maxSize, hfirst.nudgeFd.trans hsecond.nudgeFd,
    hfirst.nudgeByte.trans hsecond.nudgeByte⟩

variable (halike : Alike left right)

include halike

theorem update (key : Bytes) (change : QueueInfo Task → QueueInfo Task) :
    Alike (left.update key change) (right.update key change) :=
  { halike with
    info := by rw [info_update, info_update, halike.info] }

theorem setLastPopFrom (key : Bytes) :
    Alike { left with lastPopFrom := key } { right with lastPopFrom := key } :=
  { halike with lastPopFrom := rfl }

theorem close : Alike left.close right.close :=
  { halike with
    closed := rfl
    info := by
      funext key
      rw [info_close, info_close, halike.info] }

theorem cleaned {cleanup other : TaskQueueGroup Task → Bytes → TaskQueueGroup Task}
    (hcleanup : Transparent cleanup) (hother : Transparent other) (key : Bytes) :
    Alike (cleanup left key) (other right key) :=
  (hcleanup left key).trans (halike.trans (hother right key).symm)

/-- Alike groups list the same keys, if fresh entries are not listed. -/
theorem filter_keys (test : Bytes → QueueInfo Task → Bool)
    (hfresh : ∀ key, test key fresh = false) :
    left.queues.keys.filter (fun key => test key (left.info key)) =
      right.queues.keys.filter fun key => test key (right.info key) := by
  have hpresent : ∀ (group : TaskQueueGroup Task) key,
      (key ∈ group.queues ∧ test key (group.info key) = true) ↔
        test key (group.info key) = true := by
    intro group key
    refine ⟨And.right, fun htest => ⟨mem_queues_of_info_ne_fresh ?_, htest⟩⟩
    intro heq
    rw [heq, hfresh] at htest
    cases htest
  refine StdMap.filter_keys_eq fun key => ?_
  rw [hpresent left, hpresent right, halike.info]

theorem getBusyQueues (hthrottle : 0 < left.throttleSize) :
    left.getBusyQueues = right.getBusyQueues := by
  rw [TaskQueueGroup.getBusyQueues, TaskQueueGroup.getBusyQueues, ← halike.throttleSize]
  refine halike.filter_keys
    (fun _ info => decide (left.throttleSize ≤ info.queue.length)) fun key => ?_
  simpa [QueueInfo.fresh] using hthrottle.ne'

theorem getInactiveQueues : left.getInactiveQueues = right.getInactiveQueues :=
  halike.filter_keys (fun _ info => !info.active) fun _ => rfl

variable [TaskObject Task]

theorem find_rotation : left.rotation.find? (fun key => (left.info key).pickable) =
      right.rotation.find? fun key => (right.info key).pickable := by
  have hpart : ∀ part : Bytes → Bool, (left.queues.keys.filter part).find?
          (fun key => (left.info key).pickable) =
        (right.queues.keys.filter part).find? fun key => (right.info key).pickable := by
    intro part
    rw [find?_filter, find?_filter, ← head?_filter, ← head?_filter]
    refine congrArg head? (halike.filter_keys
      (fun key info => decide (part key = true ∧ info.pickable = true))
      fun key => ?_)
    simp [pickable, fresh]
  rw [rotation, rotation, find?_append, find?_append, hpart, hpart, halike.lastPopFrom]

/-- Alike groups pick the same queue. -/
theorem pickQueue : (left.pickQueue = none ∧ right.pickQueue = none) ∨
      ∃ key, left.pickQueue = some (key, { left with lastPopFrom := key }) ∧
        right.pickQueue = some (key, { right with lastPopFrom := key }) := by
  rw [TaskQueueGroup.pickQueue, TaskQueueGroup.pickQueue, halike.find_rotation]
  cases right.rotation.find? fun key => (right.info key).pickable with
  | none => exact Or.inl ⟨rfl, rfl⟩
  | some key => exact Or.inr ⟨key, rfl, rfl⟩

end Alike

theorem alike_checkForCleanup [TaskObject Task] (group : TaskQueueGroup Task)
    (key : Bytes) : Alike (group.checkForCleanup key) group := by
  have hinfo := info_checkForCleanup group key
  unfold checkForCleanup at hinfo ⊢
  split
  next hboring =>
    rw [if_pos hboring] at hinfo
    exact ⟨hinfo, rfl, rfl, rfl, rfl, rfl, rfl⟩
  next => exact Alike.refl group

end TaskQueueGroup

/-! ## Operations with another cleanup -/

variable [TaskObject Task]

namespace TaskQueueGroup

section With

variable (cleanup : TaskQueueGroup Task → Bytes → TaskQueueGroup Task)
  (group : TaskQueueGroup Task)

def completeWith : Option (Bytes × Task) → Option (TaskQueueGroup Task)
  | none => some group
  | some (key, task) =>
      if key ∈ group.queues then
        some (cleanup (group.update key fun info =>
          { info with inProgress := info.inProgress.erase task }) key)
      else none

def takeFrontWith (key : Bytes) : TaskQueueGroup Task × Reply Task :=
  match (group.info key).queue with
  | [] => (group, .assertionFailed)
  | task :: rest =>
      (cleanup (group.update key fun info =>
          { info with
            queue := rest
            inProgress := insert task info.inProgress }) key,
        .popped key task
          (if rest.length + 1 = group.throttleSize ∧ group.nudgeFd ≠ -1 then
            some group.nudgeByte
          else none))

def popAnyWith (completed : Option (Bytes × Task)) :
    TaskQueueGroup Task × Reply Task :=
  match group.completeWith cleanup completed with
  | none => (group, .assertionFailed)
  | some current =>
      match current.pickQueue with
      | some (key, picked) => picked.takeFrontWith cleanup key
      | none => (current, if current.closed then .finished else .wait)

def popFromWith (key : Bytes) (completed : Option (Bytes × Task)) :
    TaskQueueGroup Task × Reply Task :=
  match group.completeWith cleanup completed with
  | none => (group, .assertionFailed)
  | some current =>
      let info := current.info key
      if current.closed ||
          (info.active && !info.queue.isEmpty && info.checkParallelAllowed) then
        if info.queue.isEmpty then (current, .finished)
        else current.takeFrontWith cleanup key
      else (current, .wait)

def unassignHandlerWith (key : Bytes) : TaskQueueGroup Task :=
  cleanup (group.update key fun info => { info with assigned := false }) key

def setActiveWith (key : Bytes) (on : Bool) : TaskQueueGroup Task :=
  if group.closed then group
  else
    let switched := group.update key fun info => { info with active := on }
    if on then cleanup switched key else switched

end With

end TaskQueueGroup

/-- The effect of an operation with another cleanup, and its reply. -/
def Operation.runWith
    (cleanup : TaskQueueGroup Task → Bytes → TaskQueueGroup Task)
    (group : TaskQueueGroup Task) :
    Operation Task → TaskQueueGroup Task × Reply Task
  | .popAny previous => group.popAnyWith cleanup previous
  | .popFrom key previous => group.popFromWith cleanup key previous
  | .unassignHandler key => (group.unassignHandlerWith cleanup key, .done)
  | .setActive key on => (group.setActiveWith cleanup key on, .done)
  | operation => operation.run group

theorem Operation.runWith_checkForCleanup (group : TaskQueueGroup Task)
    (operation : Operation Task) :
    operation.runWith checkForCleanup group = operation.run group := by
  cases operation <;> rfl

namespace TaskQueueGroup

/-- Alike groups with the same reply. -/
def AlikeResults (left right : TaskQueueGroup Task × Reply Task) : Prop :=
  Alike left.1 right.1 ∧ left.2 = right.2

namespace Alike

variable {cleanup other : TaskQueueGroup Task → Bytes → TaskQueueGroup Task}
  {left right : TaskQueueGroup Task}

variable (halike : Alike left right)

include halike

omit [TaskObject Task] in
theorem push (key : Bytes) (task : Task) (allowThrottle : Bool) :
    AlikeResults (left.push key task allowThrottle)
      (right.push key task allowThrottle) := by
  have hfound := halike.update key id
  simp only [TaskQueueGroup.push, hfound.closed, hfound.throttleSize, hfound.maxSize,
    hfound.info]
  split
  next => exact ⟨hfound, rfl⟩
  next =>
    split
    next => exact ⟨hfound, rfl⟩
    next =>
      exact ⟨hfound.update key fun info => { info with queue := info.queue ++ [task] },
        rfl⟩

theorem assignHandler :
    AlikeResults left.assignHandler right.assignHandler := by
  rw [TaskQueueGroup.assignHandler, TaskQueueGroup.assignHandler]
  rcases halike.pickQueue with ⟨hnone, hotherNone⟩ | ⟨key, hsome, hotherSome⟩
  · simp only [hnone, hotherNone]
    exact ⟨halike, by rw [halike.closed]⟩
  · simp only [hsome, hotherSome]
    exact ⟨(halike.setLastPopFrom key).update key fun info =>
      { info with assigned := true }, rfl⟩

variable (hcleanup : Transparent cleanup) (hother : Transparent other)

include hcleanup hother

theorem takeFrontWith (key : Bytes) :
    AlikeResults (left.takeFrontWith cleanup key) (right.takeFrontWith other key) := by
  rw [TaskQueueGroup.takeFrontWith, TaskQueueGroup.takeFrontWith, halike.info]
  cases (right.info key).queue with
  | nil => exact ⟨halike, rfl⟩
  | cons task rest =>
    refine ⟨(halike.update key _).cleaned hcleanup hother key, ?_⟩
    simp only [halike.throttleSize, halike.nudgeFd, halike.nudgeByte]

omit [TaskObject Task] in
theorem setActiveWith (key : Bytes) (on : Bool) :
    Alike (left.setActiveWith cleanup key on) (right.setActiveWith other key on) := by
  have hswitched := halike.update key fun info => { info with active := on }
  rw [TaskQueueGroup.setActiveWith, TaskQueueGroup.setActiveWith, halike.closed]
  split
  next => exact halike
  next =>
    cases on with
    | false => exact hswitched
    | true => exact hswitched.cleaned hcleanup hother key

section Completed

variable {completed : Option (Bytes × Task)}
  (hknown : ∀ key task, completed = some (key, task) →
    key ∈ left.queues ∧ key ∈ right.queues)

include hknown

theorem completeWith : ∃ current otherCurrent,
      left.completeWith cleanup completed = some current ∧
        right.completeWith other completed = some otherCurrent ∧
        Alike current otherCurrent := by
  cases completed with
  | none => exact ⟨left, right, rfl, rfl, halike⟩
  | some entry =>
    obtain ⟨key, task⟩ := entry
    obtain ⟨hleft, hright⟩ := hknown key task rfl
    refine ⟨_, _, if_pos hleft, if_pos hright, ?_⟩
    exact (halike.update key _).cleaned hcleanup hother key

theorem popAnyWith :
    AlikeResults (left.popAnyWith cleanup completed)
      (right.popAnyWith other completed) := by
  obtain ⟨current, otherCurrent, hleft, hright, hcurrent⟩ :=
    halike.completeWith hcleanup hother hknown
  simp only [TaskQueueGroup.popAnyWith, hleft, hright]
  rcases hcurrent.pickQueue with ⟨hnone, hotherNone⟩ | ⟨key, hsome, hotherSome⟩
  · simp only [hnone, hotherNone]
    exact ⟨hcurrent, by rw [hcurrent.closed]⟩
  · simp only [hsome, hotherSome]
    exact (hcurrent.setLastPopFrom key).takeFrontWith hcleanup hother key

theorem popFromWith (key : Bytes) :
    AlikeResults (left.popFromWith cleanup key completed)
      (right.popFromWith other key completed) := by
  obtain ⟨current, otherCurrent, hleft, hright, hcurrent⟩ :=
    halike.completeWith hcleanup hother hknown
  simp only [TaskQueueGroup.popFromWith, hleft, hright, hcurrent.closed, hcurrent.info]
  split
  next =>
    split
    next => exact ⟨hcurrent, rfl⟩
    next => exact hcurrent.takeFrontWith hcleanup hother key
  next => exact ⟨hcurrent, rfl⟩

end Completed

/-- Alike groups reply alike and stay alike, if both know the queue of a task
that is reported as completed. -/
theorem runWith {operation : Operation Task}
    (hknown : ∀ key task, operation.reported = some (key, task) →
      key ∈ left.queues ∧ key ∈ right.queues) :
    AlikeResults (operation.runWith cleanup left) (operation.runWith other right) := by
  cases operation with
  | push key task allowThrottle => exact halike.push key task allowThrottle
  | popAny completed => exact halike.popAnyWith hcleanup hother hknown
  | popFrom key completed => exact halike.popFromWith hcleanup hother hknown key
  | assignHandler => exact halike.assignHandler
  | unassignHandler key =>
    exact ⟨(halike.update key _).cleaned hcleanup hother key, rfl⟩
  | completed key task =>
    obtain ⟨hleft, hright⟩ := hknown key task rfl
    refine ⟨?_, rfl⟩
    simp only [Operation.runWith, Operation.run, completed, if_pos hleft, if_pos hright]
    exact halike.update key _
  | setActive key on =>
    exact ⟨halike.setActiveWith hcleanup hother key on, rfl⟩
  | setInactiveInternal key =>
    refine ⟨?_, rfl⟩
    simp only [Operation.runWith, Operation.run, setInactiveInternal, halike.closed]
    split
    next => exact halike
    next => exact halike.update key _
  | close => exact ⟨halike.close, rfl⟩

end Alike

end TaskQueueGroup

/-! ## Runs -/

/-- A call on a group. -/
inductive Request (Task : Type) where
  | call (operation : Operation Task)
  | getBusyQueues
  | getInactiveQueues

/-- What a call returns. -/
inductive Answer (Task : Type) where
  | returned (reply : Reply Task)
  | keys (keys : List Bytes)
  deriving DecidableEq

namespace Request

def runWith
    (cleanup : TaskQueueGroup Task → Bytes → TaskQueueGroup Task)
    (group : TaskQueueGroup Task) :
    Request Task → TaskQueueGroup Task × Answer Task
  | .call operation =>
      ((operation.runWith cleanup group).1,
        .returned (operation.runWith cleanup group).2)
  | .getBusyQueues => (group, .keys group.getBusyQueues)
  | .getInactiveQueues => (group, .keys group.getInactiveQueues)

/-- The task that a call reports as completed. -/
def reported : Request Task → Option (Bytes × Task)
  | .call operation => operation.reported
  | _ => none

end Request

/-- The task that a call returned, with its key. -/
def Answer.task : Answer Task → Option (Bytes × Task)
  | .returned reply => reply.task
  | .keys _ => none

namespace TaskQueueGroup

/-- What a sequence of calls returns. -/
def answersWith
    (cleanup : TaskQueueGroup Task → Bytes → TaskQueueGroup Task)
    (group : TaskQueueGroup Task) : List (Request Task) → List (Answer Task)
  | [] => []
  | request :: requests =>
      (request.runWith cleanup group).2 ::
        answersWith cleanup (request.runWith cleanup group).1 requests

/-- The popped tasks that have not been reported after a call. -/
def outstandingAfter (outstanding : List (Bytes × Task))
    (request : Request Task) (answer : Answer Task) :
    List (Bytes × Task) :=
  outstanding.filter (fun entry => request.reported ≠ some entry) ++
    answer.task.toList

/-- Every task that is reported as completed has been popped under its key and
has not been reported since. -/
def ReportsPopped (group : TaskQueueGroup Task)
    (outstanding : List (Bytes × Task)) : List (Request Task) → Prop
  | [] => True
  | request :: requests =>
      (∀ entry ∈ request.reported, entry ∈ outstanding) ∧
        ReportsPopped (request.runWith checkForCleanup group).1
          (outstandingAfter outstanding request
            (request.runWith checkForCleanup group).2) requests

instance decidableReportsPopped : ∀ (group : TaskQueueGroup Task)
    (outstanding : List (Bytes × Task)) (requests : List (Request Task)),
    Decidable (group.ReportsPopped outstanding requests)
  | _, _, [] => .isTrue trivial
  | group, outstanding, request :: requests =>
      have : Decidable (ReportsPopped (request.runWith checkForCleanup group).1
          (outstandingAfter outstanding request
            (request.runWith checkForCleanup group).2) requests) :=
        decidableReportsPopped _ _ requests
      inferInstanceAs (Decidable ((∀ entry ∈ request.reported,
        entry ∈ outstanding) ∧ _))

/-- The popped tasks that have not been reported are in progress. -/
def Holds (group : TaskQueueGroup Task)
    (outstanding : List (Bytes × Task)) : Prop :=
  ∀ key task, (key, task) ∈ outstanding → task ∈ (group.info key).inProgress

section Run

variable {group kept : TaskQueueGroup Task}
  {outstanding : List (Bytes × Task)} {request : Request Task}

omit [TaskObject Task] in
theorem Holds.mem_queues (hholds : group.Holds outstanding) {key : Bytes} {task : Task}
    (hmem : (key, task) ∈ outstanding) :
    key ∈ group.queues := by
  refine mem_queues_of_info_ne_fresh fun hfresh => ?_
  have htask := hholds key task hmem
  rw [hfresh] at htask
  exact Finset.notMem_empty task htask

theorem Holds.runWith (hholds : group.Holds outstanding) :
    (request.runWith checkForCleanup group).1.Holds (outstandingAfter outstanding request
        (request.runWith checkForCleanup group).2) := by
  intro key task hmem
  rw [outstandingAfter, mem_append, mem_filter, Option.mem_toList] at hmem
  cases request with
  | call operation =>
    have heffect := operation.effect_run group
    rw [← operation.runWith_checkForCleanup group] at heffect
    rcases hmem with ⟨hold, hkept⟩ | hnew
    · rcases heffect.mem_inProgress (hholds key task hold) with
        hstill | hreported
      · exact hstill
      · exact absurd hreported (of_decide_eq_true hkept)
    · exact heffect.mem_inProgress_of_returned hnew
  | getBusyQueues | getInactiveQueues =>
    rcases hmem with ⟨hold, _⟩ | hnew
    · exact hholds key task hold
    · cases hnew

/-- A group that erases queues and one that keeps them stay alike and answer a
call alike. -/
theorem Alike.runWith_request (halike : Alike group kept)
    (hholds : group.Holds outstanding) (hthrottle : 0 < group.throttleSize)
    (hreported : ∀ entry, request.reported = some entry → entry ∈ outstanding) :
    Alike (request.runWith checkForCleanup group).1
        (request.runWith (fun group _ => group) kept).1 ∧
      (request.runWith checkForCleanup group).2 =
        (request.runWith (fun group _ => group) kept).2 := by
  cases request with
  | call operation =>
    have hkept : kept.Holds outstanding := by
      rw [Holds, ← halike.info]
      exact hholds
    have hknown : ∀ key task, operation.reported = some (key, task) →
        key ∈ group.queues ∧ key ∈ kept.queues := by
      intro key task heq
      have hmem := hreported (key, task) heq
      exact ⟨hholds.mem_queues hmem, hkept.mem_queues hmem⟩
    obtain ⟨hafter, hreply⟩ := halike.runWith alike_checkForCleanup
      (fun group _ => Alike.refl group) hknown
    exact ⟨hafter, congrArg Answer.returned hreply⟩
  | getBusyQueues =>
    exact ⟨halike, congrArg Answer.keys (halike.getBusyQueues hthrottle)⟩
  | getInactiveQueues =>
    exact ⟨halike, congrArg Answer.keys halike.getInactiveQueues⟩

/-- The assertions hold as long as the queue of a reported task is there. -/
theorem answer_ne_assertionFailed (hholds : group.Holds outstanding)
    (hreported : ∀ entry, request.reported = some entry → entry ∈ outstanding) :
    (request.runWith checkForCleanup group).2 ≠ .returned .assertionFailed := by
  cases request with
  | call operation =>
    intro hfailed
    have hreply : (operation.run group).2 = .assertionFailed := by
      rw [← operation.runWith_checkForCleanup group]
      exact Answer.returned.inj hfailed
    have heffect := operation.effect_run group
    rw [hreply] at heffect
    generalize hreplyAs : Reply.assertionFailed = reply at heffect
    cases heffect with
    | popAnyFailed key task habsent =>
      exact habsent (hholds.mem_queues (hreported (key, task) rfl))
    | popFromFailed key other task habsent =>
      exact habsent (hholds.mem_queues (hreported (other, task) rfl))
    | popAnyNone => cases hclosed : group.closed <;> simp [hclosed] at hreplyAs
    | assignNone => cases hclosed : group.closed <;> simp [hclosed] at hreplyAs
    | _ => cases hreplyAs
  | getBusyQueues | getInactiveQueues => exact fun hfailed => by cases hfailed

theorem throttleSize_runWith (group : TaskQueueGroup Task) (request : Request Task) :
    (request.runWith checkForCleanup group).1.throttleSize = group.throttleSize := by
  cases request with
  | call operation =>
    have hsettings := operation.settings_run group
    rw [← operation.runWith_checkForCleanup group] at hsettings
    exact congrArg Prod.fst hsettings
  | getBusyQueues | getInactiveQueues => rfl

theorem Alike.answersWith (halike : Alike group kept) (hholds : group.Holds outstanding)
    (hthrottle : 0 < group.throttleSize) {requests : List (Request Task)}
    (hreports : group.ReportsPopped outstanding requests) :
    group.answersWith checkForCleanup requests =
      kept.answersWith (fun group _ => group) requests ∧
      .returned .assertionFailed ∉ group.answersWith checkForCleanup requests := by
  induction requests generalizing group kept outstanding with
  | nil => exact ⟨rfl, not_mem_nil⟩
  | cons request requests ih =>
    obtain ⟨hreported, hrest⟩ := hreports
    obtain ⟨hafter, hanswer⟩ := halike.runWith_request hholds hthrottle hreported
    rw [← throttleSize_runWith group request] at hthrottle
    obtain ⟨hanswers, hnever⟩ := ih hafter hholds.runWith hthrottle hrest
    constructor
    · rw [answersWith, answersWith, hanswer, hanswers]
    · rw [answersWith, mem_cons, not_or]
      exact ⟨(answer_ne_assertionFailed hholds hreported).symm, hnever⟩

end Run

/-- A group that erases boring queues and one that never does return the same
to every sequence of calls in which completed tasks are reported under the key
they were popped from, and no assertion fails. -/
theorem cleanup_unobservable (throttleSize maxSize : ℕ)
    (hthrottle : 0 < throttleSize) (fd : ℤ) (byte : Byte)
    (requests : List (Request Task))
    (hreports : ((create throttleSize maxSize).setNudge fd byte).ReportsPopped
      [] requests) :
    ((create throttleSize maxSize).setNudge fd byte).answersWith
        checkForCleanup requests =
      ((create throttleSize maxSize).setNudge fd byte).answersWith
        (fun group _ => group) requests ∧
    .returned .assertionFailed ∉
      ((create throttleSize maxSize).setNudge fd byte).answersWith
        checkForCleanup requests := by
  refine Alike.answersWith (Alike.refl _) ?_ hthrottle hreports
  intro key task hmem
  cases hmem

/-- A task is pushed, popped and reported, which erases its queue. -/
def erasingRequests : List (Request BareTask) :=
  [.call (.push (ascii "a") ⟨0, false⟩ false), .call (.popAny none),
    .getBusyQueues, .call (.popAny (some (ascii "a", ⟨0, false⟩))),
    .getInactiveQueues, .call .close]

theorem cleanup_unobservable_erasingRequests :
    ((create 5 6).setNudge (-1) 81).answersWith checkForCleanup
        erasingRequests =
      ((create 5 6).setNudge (-1) 81).answersWith (fun group _ => group)
        erasingRequests ∧
    .returned .assertionFailed ∉
      ((create 5 6).setNudge (-1) 81).answersWith checkForCleanup
        erasingRequests :=
  cleanup_unobservable 5 6 (by decide) (-1) 81 erasingRequests (by decide)

end TaskQueueGroup

end Restpose
