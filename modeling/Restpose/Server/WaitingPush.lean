import Restpose.Server.Delivery

/-!
# Pushes that wait

A push with a non-zero `end_time` looks its queue up once and keeps a reference
to the entry while it waits for space.  The wait releases the lock, and the
other threads may erase the entry meanwhile.  `pop_from` looks its queue up
again after each wait; `push` does not.
-/

namespace Restpose

variable {Task Thread : Type} [TaskObject Task]

/-! ## The model -/

/-- A push inside `timedwait`.  The flag says whether the entry that its
reference was taken from is still in the map; an entry made later under the same
key is another one. -/
structure Waiter (Task : Type) where
  key : Bytes
  task : Task
  allowThrottle : Bool
  live : Bool
  deriving DecidableEq

/-- How far a push has got. -/
inductive PushResult where
  | waiting
  | returned (state : QueueState)
  /-- The push has used a reference to an entry that was erased. -/
  | undefined
  deriving DecidableEq

/-- A group and the pushes that wait for space in it. -/
structure Waiting (Task Thread : Type) where
  group : TaskQueueGroup Task
  waiter : Thread → Option (Waiter Task)

/-- The steps of the threads: a push with an `end_time`, the end of a wait, and
the operations that do not wait for space. -/
inductive PushEvent (Task Thread : Type) where
  | begin (thread : Thread) (key : Bytes) (task : Task)
      (allowThrottle : Bool)
  | resume (thread : Thread)
  | timeout (thread : Thread)
  | call (operation : Operation Task)

namespace Waiting

variable [DecidableEq Thread]

def setWaiter (state : Waiting Task Thread) (thread : Thread)
    (waiter : Option (Waiter Task)) : Waiting Task Thread :=
  { state with waiter := Function.update state.waiter thread waiter }

/-- A turn of the loop of `push` on the entry of the group.  Where `push` with
`end_time` zero returns `FULL`, the thread waits. -/
def turn (state : Waiting Task Thread) (thread : Thread) (key : Bytes)
    (task : Task) (allowThrottle : Bool) : Waiting Task Thread × PushResult :=
  let pushed := state.group.push key task allowThrottle
  let after := { state with group := pushed.1 }
  match pushed.2 with
  | .queued .full =>
      (after.setWaiter thread (some ⟨key, task, allowThrottle, true⟩), .waiting)
  | .queued result => (after.setWaiter thread none, .returned result)
  | _ => (after, .undefined)

/-- `push` goes on after a wait that did not time out.  A closed group is
noticed before the reference is used. -/
def resume (state : Waiting Task Thread) (thread : Thread)
    (waiter : Waiter Task) : Waiting Task Thread × PushResult :=
  if state.group.closed then
    (state.setWaiter thread none, .returned .closed)
  else if waiter.live then
    state.turn thread waiter.key waiter.task waiter.allowThrottle
  else (state.setWaiter thread none, .undefined)

/-- Another thread runs an operation, which may erase entries. -/
def call (state : Waiting Task Thread) (operation : Operation Task) :
    Waiting Task Thread :=
  let after := (operation.run state.group).1
  { group := after
    waiter := fun thread => (state.waiter thread).map fun waiter =>
      { waiter with live := waiter.live && decide (waiter.key ∈ after.queues) } }

/-- A step, with what it returns if it is one of a push.  A thread that waits
begins no other push. -/
def run (state : Waiting Task Thread) :
    PushEvent Task Thread → Waiting Task Thread × Option PushResult
  | .begin thread key task allowThrottle =>
      match state.waiter thread with
      | none =>
          let result := state.turn thread key task allowThrottle
          (result.1, some result.2)
      | some _ => (state, none)
  | .resume thread =>
      match state.waiter thread with
      | none => (state, none)
      | some waiter =>
          let result := state.resume thread waiter
          (result.1, some result.2)
  | .timeout thread =>
      match state.waiter thread with
      | none => (state, none)
      | some _ => (state.setWaiter thread none, some (.returned .full))
  | .call operation => (state.call operation, none)

def start (throttleSize maxSize : ℕ) : Waiting Task Thread :=
  ⟨TaskQueueGroup.create throttleSize maxSize, fun _ => none⟩

/-- The state after some steps. -/
def runAll (state : Waiting Task Thread)
    (events : List (PushEvent Task Thread)) : Waiting Task Thread :=
  events.foldl (fun current event => (current.run event).1) state

end Waiting

/-! ## Operations that erase an entry -/

/-- An operation ends with the cleanup of a queue that has nothing left: it
reports the last task in progress, sets the queue active or takes its handler
away. -/
def Operation.Empties (group : TaskQueueGroup Task) (key : Bytes) :
    Operation Task → Prop
  | .popAny (some (other, task)) | .popFrom _ (some (other, task)) =>
      other = key ∧ (group.info key).queue = [] ∧
        (group.info key).inProgress ⊆ {task} ∧
        (group.info key).active = true ∧ (group.info key).assigned = false
  | .setActive other on =>
      other = key ∧ on = true ∧ group.closed = false ∧
        (group.info key).queue = [] ∧ (group.info key).inProgress = ∅ ∧
        (group.info key).assigned = false
  | .unassignHandler other =>
      other = key ∧ (group.info key).queue = [] ∧
        (group.info key).inProgress = ∅ ∧ (group.info key).active = true
  | _ => False

namespace TaskQueueGroup

variable {group : TaskQueueGroup Task} {key : Bytes}

variable {other : Bytes}

omit [TaskObject Task] in
theorem mem_queues_update {change : QueueInfo Task → QueueInfo Task}
    (hmem : key ∈ group.queues) : key ∈ (group.update other change).queues := by
  simp [update, hmem]

theorem mem_queues_checkForCleanup (hmem : key ∈ group.queues)
    (hkept : other = key → (group.info key).boring = false) :
    key ∈ (group.checkForCleanup other).queues := by
  unfold checkForCleanup
  split
  next hboring =>
    have hne : other ≠ key := by
      intro heq
      rw [heq, hkept heq] at hboring
      cases hboring
    simp [hmem, hne]
  next => exact hmem

theorem boring_iff {info : QueueInfo Task} : info.boring = true ↔
    info.queue = [] ∧ info.inProgress = ∅ ∧ info.active = true ∧
      info.assigned = false := by
  simp [QueueInfo.boring, and_assoc]

/-- Reporting a task erases the entry of its queue only if nothing is left
there. -/
theorem mem_queues_complete {current : TaskQueueGroup Task}
    {completed : Option (Bytes × Task)} (hmem : key ∈ group.queues)
    (hcomplete : group.complete completed = some current)
    (hkept : ∀ task, completed = some (key, task) →
      ¬((group.info key).queue = [] ∧ (group.info key).inProgress ⊆ {task} ∧
        (group.info key).active = true ∧
        (group.info key).assigned = false)) :
    key ∈ current.queues := by
  cases completed with
  | none =>
    cases hcomplete
    exact hmem
  | some entry =>
    obtain ⟨other, task⟩ := entry
    rw [complete] at hcomplete
    split at hcomplete
    next =>
      cases hcomplete
      refine mem_queues_checkForCleanup (mem_queues_update hmem) ?_
      rintro rfl
      rw [info_update, Function.update_self, Bool.eq_false_iff, ne_eq, boring_iff]
      rintro ⟨hqueue, hprogress, hactive, hassigned⟩
      refine hkept task rfl ⟨hqueue, ?_, hactive, hassigned⟩
      rw [Finset.erase_eq_empty_iff] at hprogress
      rcases hprogress with hempty | hsingle
      · simp [hempty]
      · exact hsingle.subset
    next => cases hcomplete

theorem mem_queues_takeFront (hmem : key ∈ group.queues) :
    key ∈ (group.takeFront other).1.queues := by
  unfold takeFront
  split
  next => exact hmem
  next task rest hqueue =>
    refine mem_queues_checkForCleanup (mem_queues_update hmem) ?_
    rintro rfl
    -- the popped task is in progress
    rw [info_update, Function.update_self, Bool.eq_false_iff, ne_eq, boring_iff]
    rintro ⟨_, hprogress, _⟩
    exact Finset.insert_ne_empty _ _ hprogress

theorem mem_queues_pickQueue {picked : TaskQueueGroup Task}
    (hpick : group.pickQueue = some (other, picked)) :
    picked.queues = group.queues := by
  simp only [pickQueue, Option.map_eq_some_iff, Prod.mk.injEq] at hpick
  obtain ⟨_, _, _, rfl⟩ := hpick
  rfl

omit [TaskObject Task] in
theorem mem_queues_push {task : Task} {allowThrottle : Bool}
    (hmem : key = other ∨ key ∈ group.queues) :
    key ∈ (group.push other task allowThrottle).1.queues := by
  have hfound : key ∈ (group.update other id).queues := by
    rcases hmem with rfl | hmem
    · simp [update]
    · exact mem_queues_update hmem
  simp only [push]
  split
  next => exact hfound
  next =>
    split
    next => exact hfound
    next => exact mem_queues_update hfound

/-- An entry stays in the map as long as no operation empties it. -/
theorem mem_queues_run {operation : Operation Task} (hmem : key ∈ group.queues)
    (hkept : ¬operation.Empties group key) :
    key ∈ (operation.run group).1.queues := by
  cases operation with
  | push other task allowThrottle => exact mem_queues_push (Or.inr hmem)
  | popAny completed =>
    rw [Operation.run, popAny]
    split
    next => exact hmem
    next current hcomplete =>
      have hcurrent : key ∈ current.queues := by
        refine mem_queues_complete hmem hcomplete fun task hreported hleft => ?_
        rw [hreported] at hkept
        exact hkept ⟨rfl, hleft⟩
      split
      next other picked hpick =>
        rw [← mem_queues_pickQueue hpick] at hcurrent
        exact mem_queues_takeFront hcurrent
      next => exact hcurrent
  | popFrom other completed =>
    rw [Operation.run, popFrom]
    split
    next => exact hmem
    next current hcomplete =>
      have hcurrent : key ∈ current.queues := by
        refine mem_queues_complete hmem hcomplete fun task hreported hleft => ?_
        rw [hreported] at hkept
        exact hkept ⟨rfl, hleft⟩
      simp only
      split
      next =>
        split
        next => exact hcurrent
        next => exact mem_queues_takeFront hcurrent
      next => exact hcurrent
  | assignHandler =>
    rw [Operation.run, assignHandler]
    split
    next other picked hpick =>
      rw [← mem_queues_pickQueue hpick] at hmem
      exact mem_queues_update hmem
    next => exact hmem
  | unassignHandler other =>
    refine mem_queues_checkForCleanup (mem_queues_update hmem) ?_
    rintro rfl
    rw [info_update, Function.update_self, Bool.eq_false_iff, ne_eq, boring_iff]
    rintro ⟨hqueue, hprogress, hactive, _⟩
    exact hkept ⟨rfl, hqueue, hprogress, hactive⟩
  | completed other task =>
    rw [Operation.run, completed]
    split
    next => exact mem_queues_update hmem
    next => exact hmem
  | setActive other on =>
    rw [Operation.run, setActive]
    split
    next => exact hmem
    next hopen =>
      cases on with
      | false =>
        rw [if_neg (by simp)]
        exact mem_queues_update hmem
      | true =>
        refine mem_queues_checkForCleanup (mem_queues_update hmem) ?_
        rintro rfl
        rw [info_update, Function.update_self, Bool.eq_false_iff, ne_eq, boring_iff]
        rintro ⟨hqueue, hprogress, _, hassigned⟩
        exact hkept ⟨rfl, rfl, by simpa using hopen, hqueue, hprogress, hassigned⟩
  | setInactiveInternal other =>
    rw [Operation.run, setInactiveInternal]
    split
    next => exact hmem
    next => exact mem_queues_update hmem
  | close => simpa [Operation.run, close] using hmem

end TaskQueueGroup

/-! ## Runs -/

namespace Waiting

variable [DecidableEq Thread] {state : Waiting Task Thread}

/-- While the group is open, the reference of every push that waits is to the
entry of the group. -/
def Referring (state : Waiting Task Thread) : Prop :=
  state.group.closed = false → ∀ thread waiter,
    state.waiter thread = some waiter →
      waiter.live = true ∧ waiter.key ∈ state.group.queues

/-- While the group is open, an operation empties no queue that a push waits
for. -/
def Guarded (state : Waiting Task Thread) : PushEvent Task Thread → Prop
  | .call operation => state.group.closed = false → ∀ thread waiter,
      state.waiter thread = some waiter →
        ¬operation.Empties state.group waiter.key
  | _ => True

def GuardedRun : Waiting Task Thread → List (PushEvent Task Thread) → Prop
  | _, [] => True
  | state, event :: events =>
      state.Guarded event ∧ GuardedRun (state.run event).1 events

omit [TaskObject Task] in
theorem Referring.setWaiter (hreferring : state.Referring) (thread : Thread)
    {waiter : Option (Waiter Task)}
    (hwaiter : ∀ found, waiter = some found → found.live = true ∧
      found.key ∈ state.group.queues) :
    (state.setWaiter thread waiter).Referring := by
  intro hopen other found hfound
  change Function.update state.waiter thread waiter other = some found at hfound
  by_cases heq : other = thread
  · rw [heq, Function.update_self] at hfound
    exact hwaiter found hfound
  · rw [Function.update_of_ne heq] at hfound
    exact hreferring hopen other found hfound

omit [TaskObject Task] in
theorem Referring.setWaiter_none (hreferring : state.Referring) (thread : Thread) :
    (state.setWaiter thread none).Referring :=
  hreferring.setWaiter thread fun _ hfound => by cases hfound

theorem closed_push (group : TaskQueueGroup Task) (key : Bytes) (task : Task)
    (allowThrottle : Bool) :
    (group.push key task allowThrottle).1.closed = group.closed :=
  (Operation.effect_push group key task allowThrottle).closed_eq (by simp)

theorem Referring.turn (hreferring : state.Referring) (thread : Thread) (key : Bytes)
    (task : Task) (allowThrottle : Bool) :
    (state.turn thread key task allowThrottle).1.Referring := by
  have hafter : Referring { state with group :=
      (state.group.push key task allowThrottle).1 } := by
    intro hopen other waiter hwaiter
    rw [closed_push] at hopen
    obtain ⟨hlive, hmem⟩ := hreferring hopen other waiter hwaiter
    exact ⟨hlive, TaskQueueGroup.mem_queues_push (Or.inr hmem)⟩
  simp only [Waiting.turn]
  split
  next =>
    refine hafter.setWaiter thread fun found hfound => ?_
    cases hfound
    exact ⟨rfl, TaskQueueGroup.mem_queues_push (Or.inl rfl)⟩
  next => exact hafter.setWaiter_none thread
  next => exact hafter

theorem Referring.resume (hreferring : state.Referring) (thread : Thread)
    (waiter : Waiter Task) : (state.resume thread waiter).1.Referring := by
  unfold Waiting.resume
  split
  next => exact hreferring.setWaiter_none thread
  next =>
    split
    next => exact hreferring.turn thread _ _ _
    next => exact hreferring.setWaiter_none thread

omit [DecidableEq Thread] in
theorem Referring.call (hreferring : state.Referring) {operation : Operation Task}
    (hguarded : state.Guarded (.call operation)) :
    (state.call operation).Referring := by
  intro hafter thread waiter hwaiter
  have hopen : state.group.closed = false := by
    by_contra hclosed
    rw [Bool.not_eq_false] at hclosed
    have hstill := (operation.effect_run state.group).closed_of_closed hclosed
    rw [Waiting.call] at hafter
    rw [hstill] at hafter
    cases hafter
  obtain ⟨old, hold, rfl⟩ := Option.map_eq_some_iff.mp hwaiter
  obtain ⟨hlive, hmem⟩ := hreferring hopen thread old hold
  have hkept : old.key ∈ (operation.run state.group).1.queues :=
    TaskQueueGroup.mem_queues_run hmem (hguarded hopen thread old hold)
  exact ⟨by simp [hlive, hkept], hkept⟩

theorem Referring.run (hreferring : state.Referring) {event : PushEvent Task Thread}
    (hguarded : state.Guarded event) :
    (state.run event).1.Referring := by
  cases event with
  | begin thread key task allowThrottle =>
    simp only [Waiting.run]
    split
    next => exact hreferring.turn thread key task allowThrottle
    next => exact hreferring
  | resume thread =>
    simp only [Waiting.run]
    split
    next => exact hreferring
    next waiter _ => exact hreferring.resume thread waiter
  | timeout thread =>
    simp only [Waiting.run]
    split
    next => exact hreferring
    next => exact hreferring.setWaiter_none thread
  | call operation => exact hreferring.call hguarded

theorem Referring.runAll (hreferring : state.Referring)
    {events : List (PushEvent Task Thread)} (hguarded : state.GuardedRun events) :
    (state.runAll events).Referring := by
  induction events generalizing state with
  | nil => exact hreferring
  | cons event events ih => exact ih (hreferring.run hguarded.1) hguarded.2

/-- A push that is accepted has its task in the queue of the group. -/
theorem mem_queue_turn {thread : Thread} {key : Bytes} {task : Task}
    {allowThrottle : Bool} {result : QueueState}
    (hreturned : (state.turn thread key task allowThrottle).2 = .returned result)
    (haccepts : result.accepts = true) :
    task ∈ ((state.turn thread key task allowThrottle).1.group.info key).queue := by
  have heffect := Operation.effect_push state.group key task allowThrottle
  simp only [Waiting.turn] at hreturned ⊢
  generalize state.group.push key task allowThrottle = pushed at heffect hreturned
  obtain ⟨after, reply⟩ := pushed
  cases heffect with
  | accepted _ _ _ accepted haccepted _ _ hinfo =>
    rcases haccepted with rfl | rfl
    all_goals
      change task ∈ (after.info key).queue
      simp [hinfo]
  | refused _ _ _ refused hrefused =>
    rcases hrefused with rfl | rfl
    · cases hreturned
    · cases hreturned
      cases haccepts

/-- In every run in which nothing empties a queue that a push waits for, a push
that resumes in an open group refers to the entry of its key, and if it is
accepted its task is in the queue of that key. -/
theorem waiting_push_lands (throttleSize maxSize : ℕ)
    (events : List (PushEvent Task Thread))
    (hguarded : (start throttleSize maxSize).GuardedRun events)
    (thread : Thread) (waiter : Waiter Task)
    (hwaiter : ((start throttleSize maxSize).runAll events).waiter thread =
      some waiter)
    (hopen : ((start throttleSize maxSize).runAll events).group.closed =
      false) :
    let state := (start throttleSize maxSize).runAll events
    (waiter.live = true ∧ waiter.key ∈ state.group.queues) ∧
    ∀ result, (state.resume thread waiter).2 = .returned result →
      result.accepts = true →
      waiter.task ∈
        ((state.resume thread waiter).1.group.info waiter.key).queue := by
  intro state
  have hstart : (start throttleSize maxSize : Waiting Task Thread).Referring := by
    intro _ other found hfound
    cases hfound
  obtain ⟨hlive, hmem⟩ := hstart.runAll hguarded hopen thread waiter hwaiter
  refine ⟨⟨hlive, hmem⟩, fun result hreturned haccepts => ?_⟩
  have hresume : state.resume thread waiter =
      state.turn thread waiter.key waiter.task waiter.allowThrottle := by
    rw [Waiting.resume, if_neg (by rw [hopen]; simp), if_pos hlive]
  rw [hresume] at hreturned ⊢
  exact mem_queue_turn hreturned haccepts

/-- A push waits for space behind a task, which is popped. -/
def poppedEvents : List (PushEvent BareTask Unit) :=
  [.call (.push (ascii "k") ⟨0, true⟩ false),
    .begin () (ascii "k") ⟨1, true⟩ true, .call (.popAny none)]

theorem waiting_push_lands_poppedEvents :
    let state := (start 1 2).runAll poppedEvents
    let waiter := ⟨ascii "k", ⟨1, true⟩, true, true⟩
    state.waiter () = some waiter ∧
      (state.resume () waiter).2 = .returned .lowSpace ∧
      waiter.task ∈ ((state.resume () waiter).1.group.info (ascii "k")).queue := by
  intro state waiter
  have hguarded : (start 1 2).GuardedRun poppedEvents :=
    ⟨fun _ _ _ _ hempties => hempties, trivial,
      fun _ _ _ _ hempties => hempties, trivial⟩
  have hwaiter : state.waiter () = some waiter := by decide
  have hreturned : (state.resume () waiter).2 = .returned .lowSpace := by decide
  exact ⟨hwaiter, hreturned, (waiting_push_lands 1 2 poppedEvents hguarded ()
    waiter hwaiter (by decide)).2 _ hreturned rfl⟩

/-- The popped task is reported as completed before the push gets to run, which
erases the entry that it refers to. -/
theorem waiting_push_dangles :
    let state := (start 1 2).runAll
      (poppedEvents ++ [.call (.popAny (some (ascii "k", ⟨0, true⟩)))])
    state.group.closed = false ∧
      (state.run (.resume ())).2 = some .undefined := by
  decide

end Waiting

end Restpose
