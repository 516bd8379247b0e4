import Restpose.Server.TaskQueueGroup

/-!
# What the operations of a group do

Seen through `info`, which gives a key without an entry the fresh entry, every
operation changes one key at most and the cleanup of queues changes nothing.
The lemmas below describe each operation that way, once.
-/

namespace Restpose

open TaskQueueGroup QueueInfo Option Std.ExtTreeMap Prod

variable {Task : Type} [TaskObject Task]

namespace QueueInfo

variable {info : QueueInfo Task}

theorem eq_fresh_of_boring (hboring : info.boring) : info = fresh := by
  obtain ⟨queue, inProgress, active, assigned⟩ := info
  simp only [boring, Bool.and_eq_true, List.isEmpty_iff, decide_eq_true_iff,
    Bool.not_eq_true'] at hboring
  obtain ⟨⟨⟨rfl, rfl⟩, rfl⟩, rfl⟩ := hboring
  rfl

theorem pickable_iff : info.pickable = true ↔
    info.active = true ∧ info.assigned = false ∧ info.queue ≠ [] ∧
      info.checkParallelAllowed = true := by
  simp [pickable, and_assoc]

/-- If the next task may start, then nothing is in progress, or it and some
task in progress are parallel. -/
theorem cases_of_checkParallelAllowed {task : Task} {rest : List Task}
    (hqueue : info.queue = task :: rest) (hallowed : info.checkParallelAllowed = true) :
    info.inProgress = ∅ ∨ ((∃ first ∈ info.inProgress, allowParallel first = true) ∧
        allowParallel task = true) := by
  unfold checkParallelAllowed at hallowed
  cases hmin : info.inProgress.min with
  | top => exact Or.inl (Finset.min_eq_top.mp hmin)
  | coe first =>
    have hfirst : first ∈ info.inProgress := Finset.mem_of_min hmin
    rw [hmin] at hallowed
    cases hparallel : allowParallel first with
    | false => simp [hparallel] at hallowed
    | true =>
      refine Or.inr ⟨⟨first, hfirst, hparallel⟩, ?_⟩
      simpa [WithTop.some, hparallel, hqueue] using hallowed

/-- The entry after its first task has been popped. -/
def afterPop (info : QueueInfo Task) (task : Task) (rest : List Task) :
    QueueInfo Task :=
  { info with queue := rest, inProgress := insert task info.inProgress }

end QueueInfo

namespace TaskQueueGroup

variable {group : TaskQueueGroup Task}

omit [TaskObject Task] in
theorem info_update (group : TaskQueueGroup Task) (key : Bytes)
    (change : QueueInfo Task → QueueInfo Task) :
    (group.update key change).info =
      Function.update group.info key (change (group.info key)) := by
  funext other
  by_cases hother : other = key
  · simp [info, update, hother]
  · simp [info, update, Function.update_of_ne hother, Ne.symm hother, getElem?_insert]

@[simp]
theorem info_checkForCleanup (group : TaskQueueGroup Task) (key : Bytes) :
    (group.checkForCleanup key).info = group.info := by
  unfold checkForCleanup
  split
  next hboring =>
    have hfresh := eq_fresh_of_boring hboring
    funext other
    by_cases hother : other = key
    · rw [hother, hfresh]
      simp [info]
    · simp [info, Ne.symm hother, getElem?_erase]
  next => rfl

@[simp]
theorem closed_checkForCleanup (group : TaskQueueGroup Task) (key : Bytes) :
    (group.checkForCleanup key).closed = group.closed := by
  unfold checkForCleanup
  split <;> rfl

omit [TaskObject Task] in
theorem mem_queues_of_info_ne_fresh {key : Bytes} (hinfo : group.info key ≠ fresh) :
    key ∈ group.queues := by
  by_contra habsent
  apply hinfo
  simp [info, getElem?_eq_none habsent]

omit [TaskObject Task] in
theorem mem_rotation_iff {key : Bytes} : key ∈ group.rotation ↔ key ∈ group.queues := by
  simp only [rotation, List.mem_append, List.mem_filter, Std.ExtTreeMap.mem_keys]
  cases (compare (group.lastPopFrom ++ [0]) key).isLE <;> simp

/-- `pick_queue` returns a queue that passes its test and changes nothing but
the place where it will continue. -/
theorem pickQueue_eq_some {key : Bytes} {picked : TaskQueueGroup Task}
    (hpick : group.pickQueue = some (key, picked)) :
    (group.info key).pickable = true ∧ picked.info = group.info ∧
      picked.closed = group.closed := by
  simp only [pickQueue, map_eq_some_iff, Prod.mk.injEq] at hpick
  obtain ⟨found, hfound, rfl, rfl⟩ := hpick
  exact ⟨by simpa using List.find?_some hfound, rfl, rfl⟩

/-- When `pick_queue` finds nothing, no queue passes its test. -/
theorem pickQueue_eq_none (hpick : group.pickQueue = none) (key : Bytes) :
    (group.info key).pickable = false := by
  simp only [pickQueue, map_eq_none_iff, List.find?_eq_none] at hpick
  by_cases hmem : key ∈ group.queues
  · simpa using hpick key (mem_rotation_iff.mpr hmem)
  · have hfresh : group.info key = fresh := by
      by_contra hne
      exact hmem (mem_queues_of_info_ne_fresh hne)
    simp [hfresh, pickable, fresh]

/-! ## The operations on the view -/

/-- The entries after the caller's completed task has been taken out. -/
def settled (group : TaskQueueGroup Task)
    (completed : Option (Bytes × Task)) (key : Bytes) :
    QueueInfo Task :=
  match completed with
  | none => group.info key
  | some (other, task) =>
      if key = other then
        { group.info key with inProgress := (group.info key).inProgress.erase task }
      else group.info key

variable {completed : Option (Bytes × Task)}

theorem complete_eq_some {current : TaskQueueGroup Task}
    (hcomplete : group.complete completed = some current) :
    current.info = group.settled completed ∧ current.closed = group.closed := by
  cases completed with
  | none =>
    simp only [complete, some.injEq] at hcomplete
    subst current
    exact ⟨rfl, rfl⟩
  | some entry =>
    obtain ⟨other, task⟩ := entry
    simp only [complete] at hcomplete
    split at hcomplete
    next =>
      simp only [some.injEq] at hcomplete
      subst current
      refine ⟨?_, by simp [update]⟩
      funext key
      rw [info_checkForCleanup, info_update]
      by_cases hkey : key = other
      · subst key
        simp [settled]
      · simp [settled, hkey]
    next => contradiction

theorem complete_eq_none (hcomplete : group.complete completed = none) :
    ∃ key task, completed = some (key, task) ∧ key ∉ group.queues := by
  cases completed with
  | none => simp [complete] at hcomplete
  | some entry =>
    obtain ⟨key, task⟩ := entry
    refine ⟨key, task, rfl, ?_⟩
    intro hmem
    simp [complete, hmem] at hcomplete

theorem info_completed (group : TaskQueueGroup Task) (key : Bytes) (task : Task) :
    (group.completed key task).info = group.settled (some (key, task)) := by
  unfold completed
  split
  next =>
    rw [info_update]
    funext other
    by_cases hother : other = key <;> simp [settled, hother]
  next habsent =>
    have hfresh : group.info key = fresh := by
      by_contra hne
      exact habsent (mem_queues_of_info_ne_fresh hne)
    funext other
    by_cases hother : other = key
    · simp [settled, hother, hfresh, fresh]
    · simp [settled, hother]

omit [TaskObject Task] in
theorem info_close (group : TaskQueueGroup Task) (key : Bytes) :
    group.close.info key = { group.info key with active := true } := by
  simp only [info, close, Std.ExtTreeMap.getElem?_map]
  cases group.queues[key]? <;> simp [fresh]

theorem takeFront_of_queue {key : Bytes} {task : Task} {rest : List Task}
    (hqueue : (group.info key).queue = task :: rest) :
    (∃ nudge, (group.takeFront key).2 = .popped key task nudge) ∧
      (group.takeFront key).1.info = Function.update group.info key
        ((group.info key).afterPop task rest) ∧
      (group.takeFront key).1.closed = group.closed := by
  simp only [takeFront, hqueue, info_checkForCleanup, info_update, closed_checkForCleanup]
  exact ⟨⟨_, rfl⟩, rfl, rfl⟩

end TaskQueueGroup

/-- All that an operation can do to a group, in terms of the entries of its
keys. -/
inductive Operation.Effect (group after : TaskQueueGroup Task) :
    Operation Task → Reply Task → Prop
  | accepted (key : Bytes) (task : Task) (allowThrottle : Bool)
      (state : QueueState) (hstate : state = .hasSpace ∨ state = .lowSpace)
      (hopen : group.closed = false) (hclosed : after.closed = group.closed)
      (hinfo : after.info = Function.update group.info key
        { group.info key with queue := (group.info key).queue ++ [task] }) :
      Effect group after (.push key task allowThrottle) (.queued state)
  | refused (key : Bytes) (task : Task) (allowThrottle : Bool)
      (state : QueueState) (hstate : state = .full ∨ state = .closed)
      (hiff : state = .closed ↔ group.closed = true)
      (hclosed : after.closed = group.closed)
      (hinfo : after.info = group.info) :
      Effect group after (.push key task allowThrottle) (.queued state)
  | popAny (completed : Option (Bytes × Task)) (key : Bytes)
      (task : Task) (rest : List Task) (nudge : Option Byte)
      (hpick : (group.settled completed key).pickable = true)
      (hqueue : (group.settled completed key).queue = task :: rest)
      (hclosed : after.closed = group.closed)
      (hinfo : after.info = Function.update (group.settled completed) key
        ((group.settled completed key).afterPop task rest)) :
      Effect group after (.popAny completed) (.popped key task nudge)
  | popAnyNone (completed : Option (Bytes × Task))
      (hpick : ∀ key, (group.settled completed key).pickable = false)
      (hclosed : after.closed = group.closed)
      (hinfo : after.info = group.settled completed) :
      Effect group after (.popAny completed)
        (if group.closed then .finished else .wait)
  | popAnyFailed (key : Bytes) (task : Task) (habsent : key ∉ group.queues)
      (hafter : after = group) :
      Effect group after (.popAny (some (key, task))) .assertionFailed
  | popFrom (key : Bytes) (completed : Option (Bytes × Task))
      (task : Task) (rest : List Task) (nudge : Option Byte)
      (hready : group.closed = true ∨
        (group.settled completed key).checkParallelAllowed = true)
      (hqueue : (group.settled completed key).queue = task :: rest)
      (hclosed : after.closed = group.closed)
      (hinfo : after.info = Function.update (group.settled completed) key
        ((group.settled completed key).afterPop task rest)) :
      Effect group after (.popFrom key completed) (.popped key task nudge)
  | popFromFinished (key : Bytes) (completed : Option (Bytes × Task))
      (hopen : group.closed = true)
      (hqueue : (group.settled completed key).queue = [])
      (hclosed : after.closed = group.closed)
      (hinfo : after.info = group.settled completed) :
      Effect group after (.popFrom key completed) .finished
  | popFromWait (key : Bytes) (completed : Option (Bytes × Task))
      (hopen : group.closed = false) (hclosed : after.closed = group.closed)
      (hinfo : after.info = group.settled completed) :
      Effect group after (.popFrom key completed) .wait
  | popFromFailed (key other : Bytes) (task : Task)
      (habsent : other ∉ group.queues) (hafter : after = group) :
      Effect group after (.popFrom key (some (other, task))) .assertionFailed
  | assigned (key : Bytes) (hpick : (group.info key).pickable = true)
      (hclosed : after.closed = group.closed)
      (hinfo : after.info = Function.update group.info key
        { group.info key with assigned := true }) :
      Effect group after .assignHandler (.assigned key)
  | assignNone (hpick : ∀ key, (group.info key).pickable = false)
      (hafter : after = group) :
      Effect group after .assignHandler
        (if group.closed then .finished else .wait)
  | unassigned (key : Bytes) (hclosed : after.closed = group.closed)
      (hinfo : after.info = Function.update group.info key
        { group.info key with assigned := false }) :
      Effect group after (.unassignHandler key) .done
  | completed (key : Bytes) (task : Task)
      (hclosed : after.closed = group.closed)
      (hinfo : after.info = group.settled (some (key, task))) :
      Effect group after (.completed key task) .done
  | setActive (key : Bytes) (on : Bool) (hclosed : after.closed = group.closed)
      (hinfo : after.info = if group.closed then group.info else
        Function.update group.info key { group.info key with active := on }) :
      Effect group after (.setActive key on) .done
  | setInactiveInternal (key : Bytes) (hclosed : after.closed = group.closed)
      (hinfo : after.info = if group.closed then group.info else
        Function.update group.info key { group.info key with active := false }) :
      Effect group after (.setInactiveInternal key) .done
  | close (hclosed : after.closed = true)
      (hinfo : after.info = fun key => { group.info key with active := true }) :
      Effect group after .close .done

namespace Operation

variable (group : TaskQueueGroup Task)

variable (key : Bytes)

theorem effect_push (task : Task) (allowThrottle : Bool) :
    Effect group (group.push key task allowThrottle).1
      (.push key task allowThrottle) (group.push key task allowThrottle).2 := by
  have hfound : (group.update key id).info = group.info := by
    rw [TaskQueueGroup.info_update, id, Function.update_eq_self]
  have hclosed : (group.update key id).closed = group.closed := rfl
  simp only [TaskQueueGroup.push]
  split
  next hgroup =>
    exact .refused key task allowThrottle .closed (Or.inr rfl)
      (by simpa [hclosed] using hgroup) rfl hfound
  next hgroup =>
    rw [hclosed, Bool.not_eq_true] at hgroup
    split
    next =>
      exact .refused key task allowThrottle .full (Or.inl rfl)
        (by simp [hgroup]) rfl hfound
    next =>
      refine .accepted key task allowThrottle _ ?_ hgroup rfl ?_
      · split
        · exact Or.inl rfl
        · exact Or.inr rfl
      · rw [info_update, hfound]

variable (completed : Option (Bytes × Task))

theorem effect_popAny : Effect group (group.popAny completed).1 (.popAny completed)
      (group.popAny completed).2 := by
  unfold TaskQueueGroup.popAny
  cases hcomplete : group.complete completed with
  | none =>
    obtain ⟨key, task, rfl, habsent⟩ := complete_eq_none hcomplete
    exact .popAnyFailed key task habsent rfl
  | some current =>
    obtain ⟨hinfo, hclosed⟩ := complete_eq_some hcomplete
    cases hpick : current.pickQueue with
    | none =>
      simp only [hpick, hclosed]
      refine .popAnyNone completed ?_ hclosed hinfo
      rw [← hinfo]
      exact pickQueue_eq_none hpick
    | some entry =>
      obtain ⟨key, picked⟩ := entry
      obtain ⟨hpickable, hpicked, hpickedClosed⟩ := pickQueue_eq_some hpick
      have hqueue := (pickable_iff.mp hpickable).2.2.1
      obtain ⟨task, rest, hcons⟩ := List.exists_cons_of_ne_nil hqueue
      rw [← hpicked] at hcons
      obtain ⟨⟨nudge, hreply⟩, htaken, htakenClosed⟩ := takeFront_of_queue hcons
      simp only [hpick, hreply]
      rw [hpicked, hinfo] at hcons htaken
      rw [hinfo] at hpickable
      exact .popAny completed key task rest nudge hpickable hcons
        (htakenClosed.trans (hpickedClosed.trans hclosed)) htaken

theorem effect_popFrom :
    Effect group (group.popFrom key completed).1 (.popFrom key completed)
      (group.popFrom key completed).2 := by
  unfold TaskQueueGroup.popFrom
  cases hcomplete : group.complete completed with
  | none =>
    obtain ⟨other, task, rfl, habsent⟩ := complete_eq_none hcomplete
    exact .popFromFailed key other task habsent rfl
  | some current =>
    obtain ⟨hinfo, hclosed⟩ := complete_eq_some hcomplete
    simp only
    split
    next hready =>
      simp only [Bool.or_eq_true, Bool.and_eq_true, hclosed] at hready
      split
      next hempty =>
        rw [List.isEmpty_iff] at hempty
        have hgroup : group.closed = true := by
          rcases hready with hgroup | ⟨⟨_, hnonempty⟩, _⟩
          · exact hgroup
          · simp [hempty] at hnonempty
        rw [hinfo] at hempty
        exact .popFromFinished key completed hgroup hempty hclosed hinfo
      next hnonempty =>
        rw [List.isEmpty_iff] at hnonempty
        obtain ⟨task, rest, hcons⟩ := List.exists_cons_of_ne_nil hnonempty
        obtain ⟨⟨nudge, hreply⟩, htaken, htakenClosed⟩ := takeFront_of_queue hcons
        simp only [hreply]
        rw [hinfo] at hcons htaken hready
        exact .popFrom key completed task rest nudge (hready.imp_right And.right)
          hcons (htakenClosed.trans hclosed) htaken
    next hready =>
      simp only [Bool.or_eq_true, hclosed, not_or, Bool.not_eq_true] at hready
      exact .popFromWait key completed hready.1 hclosed hinfo

theorem effect_assignHandler :
    Effect group group.assignHandler.1 .assignHandler group.assignHandler.2 := by
  unfold TaskQueueGroup.assignHandler
  cases hpick : group.pickQueue with
  | none => exact .assignNone (TaskQueueGroup.pickQueue_eq_none hpick) rfl
  | some entry =>
    obtain ⟨key, picked⟩ := entry
    obtain ⟨hpickable, hpicked, hclosed⟩ := pickQueue_eq_some hpick
    refine .assigned key hpickable hclosed ?_
    rw [info_update, hpicked]

theorem effect_setActive (on : Bool) :
    Effect group (group.setActive key on) (.setActive key on) .done := by
  refine .setActive key on ?_ ?_
  · unfold TaskQueueGroup.setActive
    split
    next => rfl
    next => cases on <;> simp [TaskQueueGroup.update]
  · unfold TaskQueueGroup.setActive
    split
    next => rfl
    next => cases on <;> simp [info_update]

theorem effect_setInactiveInternal :
    Effect group (group.setInactiveInternal key) (.setInactiveInternal key) .done := by
  refine .setInactiveInternal key ?_ ?_
  · unfold TaskQueueGroup.setInactiveInternal
    split <;> rfl
  · unfold TaskQueueGroup.setInactiveInternal
    split
    next => rfl
    next => rw [info_update]

/-- The effects listed are all there are. -/
theorem effect_run (operation : Operation Task) :
    Effect group (operation.run group).1 operation (operation.run group).2 := by
  cases operation with
  | push key task allowThrottle => exact effect_push group key task allowThrottle
  | popAny previous => exact effect_popAny group previous
  | popFrom key previous => exact effect_popFrom group key previous
  | assignHandler => exact effect_assignHandler group
  | unassignHandler key =>
    refine .unassigned key ?_ ?_
    · simp [run, TaskQueueGroup.unassignHandler, TaskQueueGroup.update]
    · simp [run, TaskQueueGroup.unassignHandler, TaskQueueGroup.info_update]
  | completed key task =>
    refine .completed key task ?_ (group.info_completed key task)
    simp only [run, TaskQueueGroup.completed]
    split <;> rfl
  | setActive key on => exact effect_setActive group key on
  | setInactiveInternal key => exact effect_setInactiveInternal group key
  | close => exact .close rfl (funext group.info_close)

variable {group} {after : TaskQueueGroup Task} {operation : Operation Task}
  {reply : Reply Task}

/-- Only `close` changes whether a group is closed. -/
theorem Effect.closed_eq (heffect : operation.Effect group after reply)
    (hclose : operation ≠ .close) : after.closed = group.closed := by
  cases heffect with
  | popAnyFailed _ _ _ hsame | popFromFailed _ _ _ _ hsame
  | assignNone _ hsame =>
    rw [hsame]
  | close => exact absurd rfl hclose
  | _ => assumption

theorem Effect.closed_of_closed (heffect : operation.Effect group after reply)
    (hclosed : group.closed = true) : after.closed = true := by
  by_cases hclose : operation = .close
  · subst hclose
    cases heffect with
    | close hafter => exact hafter
  · rw [heffect.closed_eq hclose, hclosed]

end Operation

/-! ## Beside the queues -/

namespace TaskQueueGroup

variable {group current : TaskQueueGroup Task}

/-- What no operation changes. -/
def settings (group : TaskQueueGroup Task) : ℕ × ℕ × ℤ × Byte :=
  (group.throttleSize, group.maxSize, group.nudgeFd, group.nudgeByte)

/-- The settings and the place from which `pick_queue` will go on. -/
def frame (group : TaskQueueGroup Task) :
    (ℕ × ℕ × ℤ × Byte) × Bytes :=
  (group.settings, group.lastPopFrom)

theorem frame_checkForCleanup (group : TaskQueueGroup Task) (key : Bytes) :
    (group.checkForCleanup key).frame = group.frame := by
  unfold checkForCleanup
  split <;> rfl

theorem frame_takeFront (group : TaskQueueGroup Task) (key : Bytes) :
    (group.takeFront key).1.frame = group.frame := by
  unfold takeFront
  split
  next => rfl
  next => exact frame_checkForCleanup _ key

theorem frame_complete {completed : Option (Bytes × Task)}
    (hcomplete : group.complete completed = some current) :
    current.frame = group.frame := by
  unfold complete at hcomplete
  split at hcomplete
  next =>
    cases hcomplete
    rfl
  next =>
    split at hcomplete
    next =>
      cases hcomplete
      exact frame_checkForCleanup _ _
    next => cases hcomplete

theorem frame_pickQueue {key : Bytes} (hpick : group.pickQueue = some (key, current)) :
    current.frame = (group.settings, key) := by
  simp only [pickQueue, map_eq_some_iff, Prod.mk.injEq] at hpick
  obtain ⟨_, _, rfl, rfl⟩ := hpick
  rfl

theorem settings_complete {completed : Option (Bytes × Task)}
    (hcomplete : group.complete completed = some current) :
    current.settings = group.settings :=
  congrArg fst (frame_complete hcomplete)

theorem settings_pickQueue {key : Bytes} (hpick : group.pickQueue = some (key, current)) :
    current.settings = group.settings :=
  congrArg fst (frame_pickQueue hpick)

/-- The group that an operation calls `pick_queue` on. -/
def scanned (group : TaskQueueGroup Task) :
    Operation Task → Option (TaskQueueGroup Task)
  | .popAny completed => group.complete completed
  | .assignHandler => some group
  | _ => none

/-- The queue that an operation picks. -/
def picked (group : TaskQueueGroup Task) (operation : Operation Task) :
    Option Bytes :=
  (group.scanned operation).bind fun scanned => scanned.pickQueue.map Prod.fst

/-- The frame after an operation. -/
def reframed (group : TaskQueueGroup Task) (operation : Operation Task) :
    (ℕ × ℕ × ℤ × Byte) × Bytes :=
  (group.settings, (group.picked operation).getD group.lastPopFrom)

theorem frame_popAny (group : TaskQueueGroup Task) (completed : Option (Bytes × Task)) :
    (group.popAny completed).1.frame = group.reframed (.popAny completed) := by
  simp only [popAny, reframed, picked, scanned]
  cases hcomplete : group.complete completed with
  | none => rfl
  | some current =>
    simp only [bind_some]
    cases hpick : current.pickQueue with
    | none => exact frame_complete hcomplete
    | some entry =>
      obtain ⟨key, next⟩ := entry
      have hpicked : next.frame = (group.settings, key) := by
        rw [frame_pickQueue hpick, settings_complete hcomplete]
      exact (frame_takeFront next key).trans hpicked

theorem frame_popFrom (group : TaskQueueGroup Task) (key : Bytes)
    (completed : Option (Bytes × Task)) :
    (group.popFrom key completed).1.frame = group.frame := by
  unfold popFrom
  split
  next => rfl
  next current hcomplete =>
    simp only
    split
    next =>
      split
      next => exact frame_complete hcomplete
      next => rw [frame_takeFront, frame_complete hcomplete]
    next => exact frame_complete hcomplete

end TaskQueueGroup

namespace Operation

/-- Only picking a queue moves the place from which to go on. -/
theorem frame_run (group : TaskQueueGroup Task) (operation : Operation Task) :
    (operation.run group).1.frame = group.reframed operation := by
  cases operation with
  | push key task allowThrottle =>
    simp only [run, TaskQueueGroup.push]
    split
    next => rfl
    next => split <;> rfl
  | popAny completed => exact group.frame_popAny completed
  | popFrom key completed => exact group.frame_popFrom key completed
  | assignHandler =>
    simp only [run, TaskQueueGroup.assignHandler, TaskQueueGroup.reframed,
      TaskQueueGroup.picked, TaskQueueGroup.scanned, Option.bind_some]
    cases hpick : group.pickQueue with
    | none => rfl
    | some entry =>
      obtain ⟨key, next⟩ := entry
      have hpicked := TaskQueueGroup.frame_pickQueue hpick
      exact hpicked
  | unassignHandler key => exact TaskQueueGroup.frame_checkForCleanup _ key
  | completed key task =>
    simp only [run, TaskQueueGroup.completed]
    split <;> rfl
  | setActive key on =>
    simp only [run, TaskQueueGroup.setActive]
    split
    next => rfl
    next =>
    cases on with
    | false => rfl
    | true => exact TaskQueueGroup.frame_checkForCleanup _ key
  | setInactiveInternal key =>
    simp only [run, TaskQueueGroup.setInactiveInternal]
    split <;> rfl
  | close => rfl

theorem settings_run (group : TaskQueueGroup Task) (operation : Operation Task) :
    (operation.run group).1.settings = group.settings :=
  congrArg fst (frame_run group operation)

theorem lastPopFrom_run (group : TaskQueueGroup Task) (operation : Operation Task) :
    (operation.run group).1.lastPopFrom =
      (group.picked operation).getD group.lastPopFrom :=
  congrArg snd (frame_run group operation)

end Operation

end Restpose
