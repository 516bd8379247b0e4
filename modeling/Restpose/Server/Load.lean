import Restpose.Server.TaskManager

/-!
# Loading and unloading a queue

What clients and threads can always do with a queue: fill it as far as there is
room, take it over, and pop it down one task after the other.
-/

namespace Restpose

open List Function TaskQueueGroup Recorded

variable {Task : Type} [TaskObject Task]

namespace TaskQueueGroup

variable {group : TaskQueueGroup Task} {key : Bytes} {task : Task}

variable (task) in
omit [TaskObject Task] in
theorem push_of_room (hopen : group.closed = false)
    (hroom : (group.info key).queue.length < group.maxSize) :
    (group.push key task false).2 = .queued
        (if (group.info key).queue.length + 1 < group.throttleSize then .hasSpace
        else .lowSpace) ∧
      (group.push key task false).1.info = Function.update group.info key
        { group.info key with queue := (group.info key).queue ++ [task] } := by
  have hinfo : (group.update key id).info = group.info := by
    rw [info_update, id, update_eq_self]
  have hclosed : ¬((group.update key id).closed = true) := by
    change ¬(group.closed = true)
    rw [hopen]
    simp
  have hnotFull : ¬(((false && decide ((group.update key id).throttleSize ≤
      ((group.update key id).info key).queue.length)) ||
      (!false && decide ((group.update key id).maxSize ≤
        ((group.update key id).info key).queue.length))) = true) := by
    rw [hinfo]
    simp only [Bool.false_and, Bool.not_false, Bool.true_and, Bool.false_or,
      decide_eq_true_eq, not_le]
    exact hroom
  simp only [push]
  rw [if_neg hclosed, if_neg hnotFull, hinfo]
  refine ⟨rfl, ?_⟩
  rw [info_update, hinfo]

variable (task) in
omit [TaskObject Task] in
theorem push_of_full (hopen : group.closed = false)
    (hfull : group.maxSize ≤ (group.info key).queue.length) :
    (group.push key task false).2 = .queued .full ∧
      (group.push key task false).1.info = group.info := by
  have hinfo : (group.update key id).info = group.info := by
    rw [info_update, id, update_eq_self]
  have hclosed : ¬((group.update key id).closed = true) := by
    change ¬(group.closed = true)
    rw [hopen]
    simp
  have hisFull : ((false && decide ((group.update key id).throttleSize ≤
      ((group.update key id).info key).queue.length)) ||
      (!false && decide ((group.update key id).maxSize ≤
        ((group.update key id).info key).queue.length))) = true := by
    rw [hinfo]
    simp only [Bool.false_and, Bool.not_false, Bool.true_and, Bool.false_or,
      decide_eq_true_eq]
    exact hfull
  simp only [push]
  rw [if_neg hclosed, if_pos hisFull]
  exact ⟨rfl, hinfo⟩

theorem popFrom_of_settled {completed : Option (Bytes × Task)} {rest : List Task}
    (hknown : ∀ other current, completed = some (other, current) → other ∈ group.queues)
    (hsettled : group.settled completed key =
      ⟨task :: rest, ∅, true, (group.info key).assigned⟩) :
    ∃ nudge, (group.popFrom key completed).2 = .popped key task nudge ∧
      (group.popFrom key completed).1.info = Function.update (group.settled completed) key
          ⟨rest, {task}, true, (group.info key).assigned⟩ ∧
      (group.popFrom key completed).1.closed = group.closed := by
  have hcomplete : ∃ current, group.complete completed = some current := by
    cases hnone : group.complete completed with
    | none =>
      obtain ⟨other, current, hsome, habsent⟩ := complete_eq_none hnone
      exact absurd (hknown other current hsome) habsent
    | some current => exact ⟨current, rfl⟩
  obtain ⟨current, hcurrent⟩ := hcomplete
  obtain ⟨hinfo, hclosed⟩ := complete_eq_some hcurrent
  have hkey : current.info key = ⟨task :: rest, ∅, true, (group.info key).assigned⟩ := by
    rw [hinfo, hsettled]
  have htake : group.popFrom key completed = current.takeFront key := by
    simp [popFrom, hcurrent, hkey, QueueInfo.checkParallelAllowed]
  have hqueue : (current.info key).queue = task :: rest := by rw [hkey]
  obtain ⟨⟨nudge, hreply⟩, htaken, htakenClosed⟩ := takeFront_of_queue hqueue
  rw [htake]
  refine ⟨nudge, hreply, ?_, htakenClosed.trans hclosed⟩
  rw [htaken, hkey, hinfo]
  rfl

theorem assignHandler_of_only (hpick : (group.info key).pickable = true)
    (honly : ∀ other, other ≠ key → (group.info other).pickable = false) :
    group.assignHandler.2 = .assigned key ∧
      group.assignHandler.1.info = Function.update group.info key
        { group.info key with assigned := true } ∧
      group.assignHandler.1.closed = group.closed := by
  have heffect := Operation.effect_assignHandler group
  generalize group.assignHandler.2 = reply at heffect
  generalize group.assignHandler.1 = after at heffect
  cases heffect with
  | assigned other hother hclosed hinfo =>
    have heq : other = key := by
      by_contra hne
      rw [honly other hne] at hother
      cases hother
    subst heq
    exact ⟨rfl, hinfo, hclosed⟩
  | assignNone hnone =>
    rw [hnone key] at hpick
    cases hpick

end TaskQueueGroup

namespace Pool

variable {Worker Handler : Type} [DecidableEq Worker] [DecidableEq Handler]
  {pool : Pool Task Worker Handler}

/-- A step that does not come from the manager. -/
def OwnStep (pool : Pool Task Worker Handler)
    (event : PoolEvent Task Worker Handler) (next : Pool Task Worker Handler) :
    Prop :=
  Step pool event next ∧ event.own = true

theorem settings_of_steps {next : Pool Task Worker Handler}
    (hsteps : Transition.Steps OwnStep pool next) :
    next.group.settings = pool.group.settings := by
  induction hsteps with
  | refl => rfl
  | tail _ hstep ih =>
    rw [← ih]
    rcases hstep.1.toRecorded_eq with hsame | ⟨operation, hcall⟩
    · rw [congrArg group hsame]
    · rw [congrArg group hcall]
      exact operation.settings_run _

theorem steps_fill (pool : Pool Task Worker Handler) (key : Bytes) (tasks : List Task)
    (hopen : pool.group.closed = false) (hfresh : (pool.pushed ++ tasks).Nodup)
    (hroom : (pool.group.info key).queue.length + tasks.length ≤ pool.group.maxSize) :
    ∃ next, Transition.Steps OwnStep pool next ∧
      next.group.info = update pool.group.info key { pool.group.info key with
          queue := (pool.group.info key).queue ++ tasks } ∧
      next.group.closed = false ∧ next.handler = pool.handler ∧
      next.handlerStop = pool.handlerStop ∧
      next.pushed = pool.pushed ++ tasks := by
  induction tasks using reverseRecOn with
  | nil =>
    refine ⟨pool, .refl, ?_, hopen, rfl, rfl, by simp⟩
    rw [append_nil, update_eq_self]
  | append_singleton tasks task ih =>
    rw [length_append, length_singleton] at hroom
    rw [← append_assoc, nodup_append] at hfresh
    obtain ⟨next, hsteps, hinfo, hclosed, hhandler, hstop, hpushed⟩ :=
      ih hfresh.1 (by omega)
    have hmax : next.group.maxSize = pool.group.maxSize :=
      congrArg (fun settings => settings.2.1) (settings_of_steps hsteps)
    have hqueue : (next.group.info key).queue = (pool.group.info key).queue ++ tasks := by
      rw [hinfo, update_self]
    have hlength : (next.group.info key).queue.length <
        next.group.maxSize := by
      rw [hqueue, hmax, length_append]
      omega
    have hnew : task ∉ next.pushed := by
      rw [hpushed]
      exact fun hmem => hfresh.2.2 task hmem task (by simp) rfl
    refine ⟨next.call (.push key task false),
      .tail hsteps ⟨.push key task false hnew, rfl⟩, ?_, ?_, hhandler, hstop,
      ?_⟩
    · refine (TaskQueueGroup.push_of_room _ hclosed hlength).2.trans ?_
      rw [hinfo]
      simp
    · exact ((next.effect_call _).closed_eq (by simp)).trans hclosed
    · change (next.toRecorded.call _).pushed = _
      rw [pushed_call, hpushed, append_assoc]
      rfl

variable {handler : Handler}

theorem steps_assign {key : Bytes} (hhandler : pool.handler handler = .top)
    (hstop : pool.handlerStop handler = false)
    (hpick : (pool.group.info key).pickable = true)
    (honly : ∀ other, other ≠ key → (pool.group.info other).pickable = false) :
    ∃ next, Transition.Steps OwnStep pool next ∧
      next.handler handler = .popping key none false ∧
      next.group.info key = { pool.group.info key with assigned := true } := by
  obtain ⟨hreply, hinfo, _⟩ := TaskQueueGroup.assignHandler_of_only hpick honly
  refine ⟨_, .tail .refl ⟨.handlerAssign (Or.inl ⟨hhandler, hstop⟩), rfl⟩, ?_, ?_⟩
  · change update pool.handler handler _ handler = _
    rw [update_self]
    exact congrArg HandlerPc.afterAssign hreply
  · change pool.group.assignHandler.1.info key = _
    rw [hinfo, update_self]

/-- A handler pops a task from its queue, performs it and comes back. -/
theorem steps_pop {key : Bytes} {previous : Option Task} {collection : Bool} {task : Task}
    {rest : List Task}
    (hhandler : pool.handler handler = .popping key previous collection)
    (hinfo : pool.group.info key = ⟨task :: rest, previous.toFinset, true, true⟩) :
    ∃ next, Transition.Steps OwnStep pool next ∧
      next.handler handler = .popping key (some task) collection ∧
      next.group.info key = ⟨rest, {task}, true, true⟩ := by
  have hmem : key ∈ pool.group.queues := by
    refine mem_queues_of_info_ne_fresh fun hfresh => ?_
    rw [hinfo] at hfresh
    exact absurd (congrArg QueueInfo.queue hfresh) (by simp [QueueInfo.fresh])
  have hsettled : pool.group.settled (previous.map (Prod.mk key)) key =
      ⟨task :: rest, ∅, true, (pool.group.info key).assigned⟩ := by
    cases previous with
    | none | some current => simp [settled, hinfo]
  obtain ⟨nudge, hreply, hpopped, _⟩ := popFrom_of_settled (by
      intro other current hsome
      obtain ⟨_, _, hentry⟩ := Option.map_eq_some_iff.mp hsome
      cases hentry
      exact hmem) hsettled
  have hpop : Step pool (.runHandler handler) _ := .handlerPop (Or.inl hhandler)
  -- the pool after the pop, with the task in progress
  generalize hafter : (pool.call (.popFrom key (previous.map
    (Prod.mk key)))).setHandler handler (.afterPop key collection
      (pool.reply (.popFrom key (previous.map (Prod.mk key))))) = after at hpop
  have hafterHandler : after.handler handler =
      .afterPop key collection (.popped key task nudge) := by
    rw [← hafter]
    change update pool.handler handler _ handler = _
    rw [update_self]
    exact congrArg _ hreply
  have hafterInfo : after.group.info key = ⟨rest, {task}, true, true⟩ := by
    rw [← hafter]
    change (pool.group.popFrom key (previous.map (Prod.mk key))).1.info key = _
    rw [hpopped, update_self, hinfo]
  have hperformed : ∃ performing, Transition.Steps OwnStep after performing ∧
      performing.handler handler = .performing key task collection ∧
      performing.group = after.group := by
    cases nudge with
    | none => exact ⟨after, .refl, hafterHandler, rfl⟩
    | some byte =>
      exact ⟨_, .tail .refl ⟨.handlerNudge hafterHandler, rfl⟩, update_self _ _ _, rfl⟩
  obtain ⟨performing, hsteps, hpc, hgroup⟩ := hperformed
  refine ⟨_, .tail (.trans (.tail .refl ⟨hpop, rfl⟩) hsteps)
    ⟨.handlerFinish collection hpc, rfl⟩, update_self _ _ _, ?_⟩
  change performing.group.info key = _
  rw [hgroup, hafterInfo]

theorem steps_pops {key : Bytes} {collection : Bool} (popped rest : List Task)
    (hhandler : pool.handler handler = .popping key none collection)
    (hinfo : pool.group.info key = ⟨popped ++ rest, ∅, true, true⟩) :
    ∃ next previous, Transition.Steps OwnStep pool next ∧
      next.handler handler = .popping key previous collection ∧
      next.group.info key = ⟨rest, previous.toFinset, true, true⟩ := by
  induction popped using reverseRecOn generalizing rest with
  | nil => exact ⟨pool, none, .refl, hhandler, hinfo⟩
  | append_singleton popped task ih =>
    obtain ⟨next, previous, hsteps, hpc, hqueue⟩ :=
      ih (task :: rest) (by rw [hinfo, append_assoc]; rfl)
    obtain ⟨after, hpop, hafter, hrest⟩ := steps_pop hpc hqueue
    exact ⟨after, some task, hsteps.trans hpop, hafter, hrest⟩

end Pool

namespace TaskManager

variable {Proc Index Query Worker Handler Searcher : Type}
  [TaskObject Proc] [TaskObject Index] [TaskObject Query]
  [DecidableEq Worker] [DecidableEq Handler] [DecidableEq Searcher]
  {manager : TaskManager Proc Index Query Worker Handler Searcher}

theorem steps_indexing (contents : TaskContents Proc Index)
    {pool : Pool Index Empty Handler}
    (hsteps : Transition.Steps Pool.OwnStep manager.indexing pool) :
    ∃ pipe, Transition.Steps (Step contents) manager
      { manager with indexing := pool, pipe := pipe } := by
  induction hsteps with
  | refl => exact ⟨manager.pipe, .refl⟩
  | tail _ hstep ih =>
    obtain ⟨pipe, hbefore⟩ := ih
    exact ⟨_, .tail hbefore (.indexing hstep.1 hstep.2)⟩

end TaskManager

end Restpose
