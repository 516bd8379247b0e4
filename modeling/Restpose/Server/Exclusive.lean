import Restpose.Server.Pool

/-!
# Exclusive execution

A task that does not allow parallel execution is alone among the tasks in
progress of its queue, and a queue has one handler at most.  `pop_from` does
not look at the tasks in progress once the group is closed, so the first fact
rests on the second: what is in progress in a queue with a handler is what that
handler has popped.
-/

namespace Restpose

open Option Finset TaskQueueGroup QueueInfo Prod

variable {Task Worker Handler : Type} [TaskObject Task]

/-- What the invariant says about a handler: the queue it holds and the task
it has popped. -/
def HandlerPc.view (pc : HandlerPc Task) : Option Bytes × Option Task :=
  (pc.held, pc.task)

namespace QueueInfo

/-- A task in progress that does not allow parallel execution is the only
one. -/
def Alone (info : QueueInfo Task) : Prop :=
  ∀ task ∈ info.inProgress, allowParallel task = false →
    info.inProgress = {task}

theorem Alone.mono {before after : QueueInfo Task} (halone : before.Alone)
    (hsubset : after.inProgress ⊆ before.inProgress) : after.Alone := by
  intro task hmem hserial
  have hold := halone task (hsubset hmem) hserial
  apply Finset.Subset.antisymm
  · rw [← hold]
    exact hsubset
  · exact singleton_subset_iff.mpr hmem

/-- The test of `check_parallel_allowed` is enough: one look at a task in
progress tells whether all of them are parallel. -/
theorem Alone.afterPop {info : QueueInfo Task} {task : Task} {rest : List Task}
    (halone : info.Alone) (hqueue : info.queue = task :: rest)
    (hallowed : info.checkParallelAllowed = true) :
    (info.afterPop task rest).Alone := by
  intro current hmem hserial
  rcases cases_of_checkParallelAllowed hqueue hallowed with
    hempty | ⟨⟨first, hfirst, hparallel⟩, htask⟩
  · simp only [QueueInfo.afterPop, hempty, insert_empty_eq,
      Finset.mem_singleton] at hmem ⊢
    rw [hmem]
  · rcases mem_insert.mp hmem with rfl | hold
    · rw [htask] at hserial
      contradiction
    · rw [halone current hold hserial, mem_singleton] at hfirst
      rw [hfirst, hserial] at hparallel
      contradiction

end QueueInfo

namespace TaskQueueGroup

theorem inProgress_settled_subset (group : TaskQueueGroup Task)
    (completed : Option (Bytes × Task)) (key : Bytes) :
    (group.settled completed key).inProgress ⊆ (group.info key).inProgress := by
  unfold settled
  split
  · exact Finset.Subset.refl _
  · split
    · exact erase_subset _ _
    · exact Finset.Subset.refl _

@[simp]
theorem assigned_settled (group : TaskQueueGroup Task) (completed : Option (Bytes × Task))
    (key : Bytes) :
    (group.settled completed key).assigned = (group.info key).assigned := by
  unfold settled
  split
  · rfl
  · split <;> rfl

@[simp]
theorem active_settled (group : TaskQueueGroup Task) (completed : Option (Bytes × Task))
    (key : Bytes) :
    (group.settled completed key).active = (group.info key).active := by
  unfold settled
  split
  · rfl
  · split <;> rfl

theorem inProgress_settled_eq_empty {group : TaskQueueGroup Task} {key : Bytes}
    {previous : Option Task}
    (hconfined : ∀ task ∈ (group.info key).inProgress, previous = some task) :
    (group.settled (previous.map (Prod.mk key)) key).inProgress = ∅ := by
  cases previous with
  | none =>
    rw [eq_empty_iff_forall_notMem]
    intro task htask
    simpa using hconfined task htask
  | some current =>
    simp only [map_some, settled, if_true]
    rw [eq_empty_iff_forall_notMem]
    intro task htask
    obtain ⟨hne, hmem⟩ := mem_erase.mp htask
    exact hne (some.inj (hconfined task hmem)).symm

end TaskQueueGroup

/-- The operations that change which queues are active. -/
def Operation.switching : Operation Task → Bool
  | .setActive _ _ => true
  | .setInactiveInternal _ => true
  | .close => true
  | _ => false

namespace Operation

variable {group after : TaskQueueGroup Task} {operation : Operation Task}
  {reply : Reply Task}

theorem Effect.active_eq (heffect : operation.Effect group after reply)
    (hswitching : operation.switching = false) (key : Bytes) :
    (after.info key).active = (group.info key).active := by
  cases heffect with
  | refused _ _ _ _ _ _ _ hinfo => rw [hinfo]
  | accepted other _ _ _ _ _ _ hinfo | assigned other _ _ hinfo
  | unassigned other _ hinfo =>
    rw [hinfo]
    by_cases hkey : key = other <;> simp [hkey]
  | popAny completed other task rest _ _ _ _ hinfo
  | popFrom other completed task rest _ _ _ _ hinfo =>
    rw [hinfo]
    by_cases hkey : key = other
    · simp [hkey, afterPop]
    · simp [hkey]
  | popAnyNone _ _ _ hinfo | popFromFinished _ _ _ _ _ hinfo
  | popFromWait _ _ _ _ hinfo | completed _ _ _ hinfo =>
    rw [hinfo, active_settled]
  | popAnyFailed _ _ _ hsame | popFromFailed _ _ _ _ hsame
  | assignNone _ hsame => rw [hsame]
  | setActive | setInactiveInternal | close => cases hswitching

/-- In a closed group every queue is active. -/
theorem Effect.active (heffect : operation.Effect group after reply)
    (hactive : group.closed = true → ∀ key, (group.info key).active = true)
    (hclosed : after.closed = true) (key : Bytes) :
    (after.info key).active = true := by
  by_cases hclose : operation = .close
  · subst hclose
    cases heffect with
    | close _ hinfo => simp [hinfo]
  · rw [heffect.closed_eq hclose] at hclosed
    cases hswitching : operation.switching with
    | false => rw [heffect.active_eq hswitching, hactive hclosed]
    | true =>
      cases heffect with
      | setActive _ _ _ hinfo | setInactiveInternal _ _ hinfo =>
        rw [hinfo, if_pos hclosed, hactive hclosed]
      | close => exact absurd rfl hclose
      | _ => cases hswitching

end Operation

/-- The operations that neither pop nor report nor assign. -/
def Operation.quiet : Operation Task → Bool
  | .push _ _ _ => true
  | .setActive _ _ => true
  | .setInactiveInternal _ => true
  | .close => true
  | _ => false

/-- The quiet operations leave the tasks in progress and the assignments
alone. -/
theorem Operation.quiet_run {operation : Operation Task} (hquiet : operation.quiet = true)
    (group : TaskQueueGroup Task) (key : Bytes) :
    ((operation.run group).1.info key).inProgress = (group.info key).inProgress ∧
      ((operation.run group).1.info key).assigned = (group.info key).assigned := by
  have heffect := operation.effect_run group
  generalize (operation.run group).1 = after at heffect
  generalize (operation.run group).2 = reply at heffect
  cases heffect with
  | accepted other task allowThrottle state _ _ _ hinfo =>
    rw [hinfo]
    by_cases hother : key = other <;> simp [hother]
  | refused other task allowThrottle state _ _ _ hinfo | close _ hinfo =>
    simp [hinfo]
  | setActive other _ _ hinfo | setInactiveInternal other _ hinfo =>
    rw [hinfo]
    cases group.closed
    · by_cases hother : key = other <;> simp [hother]
    · simp
  | _ => simp [quiet] at hquiet

namespace Pool

/-- The invariant behind exclusive execution. -/
structure Exclusive (pool : Pool Task Worker Handler) : Prop where
  alone : ∀ key, (pool.group.info key).Alone
  assigned : ∀ handler key, (pool.handler handler).held = some key →
    (pool.group.info key).assigned = true
  unique : ∀ handler other key, (pool.handler handler).held = some key →
    (pool.handler other).held = some key → handler = other
  confined : ∀ handler key, (pool.handler handler).held = some key →
    ∀ task ∈ (pool.group.info key).inProgress,
      (pool.handler handler).task = some task

namespace Exclusive

variable {pool next : Pool Task Worker Handler} (hexclusive : Exclusive pool)

include hexclusive

theorem shrink (hprogress : ∀ key, (next.group.info key).inProgress ⊆
      (pool.group.info key).inProgress)
    (hassigned : ∀ key, (next.group.info key).assigned = (pool.group.info key).assigned)
    (hview : ∀ handler, (next.handler handler).view = (pool.handler handler).view) :
    Exclusive next := by
  have hheld : ∀ handler, (next.handler handler).held =
      (pool.handler handler).held := fun handler =>
    congrArg fst (hview handler)
  have htask : ∀ handler, (next.handler handler).task =
      (pool.handler handler).task := fun handler =>
    congrArg snd (hview handler)
  constructor
  · exact fun key => (hexclusive.alone key).mono (hprogress key)
  · intro handler key hholds
    rw [hassigned]
    rw [hheld] at hholds
    exact hexclusive.assigned handler key hholds
  · intro handler other key hholds hother
    rw [hheld] at hholds hother
    exact hexclusive.unique handler other key hholds hother
  · intro handler key hholds task hmem
    rw [hheld] at hholds
    rw [htask]
    exact hexclusive.confined handler key hholds task (hprogress key hmem)

theorem workerPop {completed : Option (Bytes × Task)} {key : Bytes} {task : Task}
    {rest : List Task}
    (hpick : (pool.group.settled completed key).pickable = true)
    (hqueue : (pool.group.settled completed key).queue = task :: rest)
    (hinfo : next.group.info = Function.update (pool.group.settled completed)
      key ((pool.group.settled completed key).afterPop task rest))
    (hhandler : next.handler = pool.handler) : Exclusive next := by
  obtain ⟨_, hunassigned, _, hallowed⟩ := pickable_iff.mp hpick
  rw [assigned_settled] at hunassigned
  have hsubset := pool.group.inProgress_settled_subset completed
  have hother : ∀ other, other ≠ key → next.group.info other =
      pool.group.settled completed other := by
    intro other hne
    rw [hinfo, Function.update_of_ne hne]
  have hfree : ∀ handler other, (next.handler handler).held = some other →
      other ≠ key := by
    rintro handler other hholds rfl
    rw [hhandler] at hholds
    rw [hexclusive.assigned handler other hholds] at hunassigned
    contradiction
  constructor
  · intro other
    have hsettled := (hexclusive.alone other).mono (hsubset other)
    by_cases hkey : other = key
    · subst other
      rw [hinfo, Function.update_self]
      exact hsettled.afterPop hqueue hallowed
    · rw [hother other hkey]
      exact hsettled
  · intro handler other hholds
    rw [hother other (hfree handler other hholds), assigned_settled]
    rw [hhandler] at hholds
    exact hexclusive.assigned handler other hholds
  · rw [hhandler]
    exact hexclusive.unique
  · intro handler other hholds current hmem
    rw [hother other (hfree handler other hholds)] at hmem
    rw [hhandler] at hholds ⊢
    exact hexclusive.confined handler other hholds current (hsubset other hmem)

section Handler

variable [DecidableEq Handler] {handler : Handler} {pc : HandlerPc Task}
  {key : Bytes}

/-- A handler takes a queue that no other handler holds, or keeps the one it
has, and everything in progress there is its own. -/
theorem hold (key : Bytes)
    (hhandler : next.handler = Function.update pool.handler handler pc)
    (hheld : pc.held = some key)
    (hfree : ∀ other, (pool.handler other).held = some key → other = handler)
    (hothers : ∀ other, other ≠ key →
      (next.group.info other).inProgress ⊆ (pool.group.info other).inProgress ∧
        (next.group.info other).assigned = (pool.group.info other).assigned)
    (hassigned : (next.group.info key).assigned = true)
    (hprogress : ∀ task ∈ (next.group.info key).inProgress,
      pc.task = some task) : Exclusive next := by
  have hself : next.handler handler = pc := by rw [hhandler, Function.update_self]
  have hrest : ∀ other, other ≠ handler →
      next.handler other = pool.handler other := by
    intro other hne
    rw [hhandler, Function.update_of_ne hne]
  have hkeys : ∀ other, other ≠ handler → ∀ otherKey,
      (next.handler other).held = some otherKey → otherKey ≠ key := by
    rintro other hne otherKey hholds rfl
    rw [hrest other hne] at hholds
    exact hne (hfree other hholds)
  constructor
  · intro other
    by_cases hkey : other = key
    · subst other
      intro task hmem _
      ext current
      rw [mem_singleton]
      constructor
      · intro hcurrent
        have hsame := (hprogress current hcurrent).symm.trans (hprogress task hmem)
        exact some.inj hsame
      · rintro rfl
        exact hmem
    · exact (hexclusive.alone other).mono (hothers other hkey).1
  · intro other otherKey hholds
    by_cases hother : other = handler
    · subst other
      rw [hself, hheld, some.injEq] at hholds
      rw [← hholds]
      exact hassigned
    · rw [(hothers otherKey (hkeys other hother otherKey hholds)).2]
      rw [hrest other hother] at hholds
      exact hexclusive.assigned other otherKey hholds
  · intro first second otherKey hfirst hsecond
    by_cases hone : first = handler
    · subst first
      rw [hself, hheld, some.injEq] at hfirst
      by_contra hne
      exact hkeys second (Ne.symm hne) otherKey hsecond hfirst.symm
    · by_cases htwo : second = handler
      · subst second
        rw [hself, hheld, some.injEq] at hsecond
        exact absurd hsecond.symm (hkeys first hone otherKey hfirst)
      · rw [hrest first hone] at hfirst
        rw [hrest second htwo] at hsecond
        exact hexclusive.unique first second otherKey hfirst hsecond
  · intro other otherKey hholds task hmem
    by_cases hother : other = handler
    · subst other
      rw [hself] at hholds ⊢
      rw [hheld, some.injEq] at hholds
      subst otherKey
      exact hprogress task hmem
    · have hkey := hkeys other hother otherKey hholds
      rw [hrest other hother] at hholds ⊢
      exact hexclusive.confined other otherKey hholds task
        ((hothers otherKey hkey).1 hmem)

theorem release (hhandler : next.handler = Function.update pool.handler handler pc)
    (hheld : pc.held = none) (hbefore : (pool.handler handler).held = some key)
    (hprogress : ∀ other, (next.group.info other).inProgress ⊆
      (pool.group.info other).inProgress)
    (hassigned : ∀ other, other ≠ key → (next.group.info other).assigned =
      (pool.group.info other).assigned) : Exclusive next := by
  have hrest : ∀ other otherKey, (next.handler other).held = some otherKey →
      next.handler other = pool.handler other ∧ otherKey ≠ key := by
    intro other otherKey hholds
    have hne : other ≠ handler := by
      rintro rfl
      rw [hhandler, Function.update_self, hheld] at hholds
      contradiction
    have hsame : next.handler other = pool.handler other := by
      rw [hhandler, Function.update_of_ne hne]
    refine ⟨hsame, ?_⟩
    rintro rfl
    rw [hsame] at hholds
    exact hne (hexclusive.unique other handler otherKey hholds hbefore)
  constructor
  · exact fun other => (hexclusive.alone other).mono (hprogress other)
  · intro other otherKey hholds
    obtain ⟨hsame, hne⟩ := hrest other otherKey hholds
    rw [hassigned otherKey hne]
    rw [hsame] at hholds
    exact hexclusive.assigned other otherKey hholds
  · intro first second otherKey hfirst hsecond
    obtain ⟨hone, _⟩ := hrest first otherKey hfirst
    obtain ⟨htwo, _⟩ := hrest second otherKey hsecond
    rw [hone] at hfirst
    rw [htwo] at hsecond
    exact hexclusive.unique first second otherKey hfirst hsecond
  · intro other otherKey hholds task hmem
    obtain ⟨hsame, _⟩ := hrest other otherKey hholds
    rw [hsame] at hholds ⊢
    exact hexclusive.confined other otherKey hholds task (hprogress otherKey hmem)

theorem setHandler (hhandler : next.handler = Function.update pool.handler handler pc)
    (hgroup : ∀ key, (next.group.info key).inProgress ⊆ (pool.group.info key).inProgress ∧
      (next.group.info key).assigned = (pool.group.info key).assigned)
    (hview : pc.view = (pool.handler handler).view) : Exclusive next := by
  apply hexclusive.shrink (fun key => (hgroup key).1) (fun key => (hgroup key).2)
  intro other
  rw [hhandler]
  by_cases hother : other = handler
  · subst other
    rw [Function.update_self, hview]
  · rw [Function.update_of_ne hother]

end Handler

/-! ## The calls -/

theorem quietCall {operation : Operation Task}
    (hquiet : operation.quiet = true) : Exclusive (pool.call operation) := by
  apply hexclusive.shrink
  · exact fun key => (operation.quiet_run hquiet pool.group key).1.subset
  · exact fun key => (operation.quiet_run hquiet pool.group key).2
  · exact fun _ => rfl

theorem workerCall [DecidableEq Worker] (worker : Worker)
    (completed : Option (Bytes × Task)) :
    Exclusive (pool.workerCall worker (.popAny completed)) := by
  have heffect := pool.effect_call (.popAny completed)
  unfold Pool.workerCall
  generalize pool.reply (.popAny completed) = reply at heffect ⊢
  cases heffect with
  | popAny _ key task rest nudge hpick hqueue _ hpopped =>
    exact hexclusive.workerPop hpick hqueue hpopped rfl
  | popAnyNone _ _ _ hsettled =>
    apply hexclusive.shrink
    · intro key
      rw [toRecorded_setWorker, hsettled]
      exact pool.group.inProgress_settled_subset completed key
    · intro key
      rw [toRecorded_setWorker, hsettled, assigned_settled]
    · exact fun _ => rfl
  | popAnyFailed key task _ hsame =>
    apply hexclusive.shrink
    · intro other
      rw [toRecorded_setWorker, hsame]
    · intro other
      rw [toRecorded_setWorker, hsame]
    · exact fun _ => rfl

section HandlerCalls

variable [DecidableEq Handler] {handler : Handler} {key : Bytes}

theorem assign (hserial : ∀ task : Task, allowParallel task = false)
    (hfree : (pool.handler handler).view = (none, none)) :
    Exclusive ((pool.call .assignHandler).setHandler handler
      (.afterAssign (pool.reply .assignHandler))) := by
  have heffect := pool.effect_call .assignHandler
  generalize pool.reply .assignHandler = reply at heffect ⊢
  cases heffect with
  | assigned key hpick _ hinfo =>
    obtain ⟨_, hunassigned, hqueue, hallowed⟩ := pickable_iff.mp hpick
    apply hexclusive.hold key rfl rfl
    · intro other hholds
      rw [hexclusive.assigned other key hholds] at hunassigned
      contradiction
    · intro other hother
      rw [toRecorded_setHandler, hinfo, Function.update_of_ne hother]
      exact ⟨Finset.Subset.refl _, rfl⟩
    · rw [toRecorded_setHandler, hinfo, Function.update_self]
    · intro task hmem
      rw [toRecorded_setHandler, hinfo, Function.update_self] at hmem
      obtain ⟨first, rest, hcons⟩ := List.exists_cons_of_ne_nil hqueue
      rcases cases_of_checkParallelAllowed hcons hallowed with
        hempty | ⟨_, hparallel⟩
      · simp [hempty] at hmem
      · simp [hserial first] at hparallel
  | assignNone _ hsame =>
    apply hexclusive.setHandler rfl
    · intro other
      rw [toRecorded_setHandler, hsame]
      exact ⟨Finset.Subset.refl _, rfl⟩
    · rw [hfree]
      cases pool.group.closed <;> rfl

omit [DecidableEq Handler] in
theorem mem_queues
    (hheld : (pool.handler handler).held = some key) : key ∈ pool.group.queues := by
  apply mem_queues_of_info_ne_fresh
  intro hfresh
  have hassigned := hexclusive.assigned handler key hheld
  simp [hfresh, fresh] at hassigned

theorem popFrom {previous : Option Task} (collection : Bool)
    (hview : (pool.handler handler).view = (some key, previous)) :
    Exclusive ((pool.call (.popFrom key (previous.map (Prod.mk key)))).setHandler
      handler (.afterPop key collection
        (pool.reply (.popFrom key (previous.map (Prod.mk key)))))) := by
  have hheld : (pool.handler handler).held = some key := congrArg Prod.fst hview
  have htask : (pool.handler handler).task = previous := congrArg snd hview
  have hassigned := hexclusive.assigned handler key hheld
  have hempty := inProgress_settled_eq_empty
    fun task hmem => htask ▸ hexclusive.confined handler key hheld task hmem
  have hfree : ∀ other, (pool.handler other).held = some key →
      other = handler := fun other hother =>
    hexclusive.unique other handler key hother hheld
  have hsubset := pool.group.inProgress_settled_subset (previous.map (Prod.mk key))
  have hsettled : ∀ pc : HandlerPc Task, pc.held = some key →
      (pool.call (.popFrom key (previous.map (Prod.mk key)))).group.info =
        pool.group.settled (previous.map (Prod.mk key)) →
      Exclusive ((pool.call (.popFrom key (previous.map (Prod.mk key)))).setHandler
        handler pc) := by
    intro pc hpc hinfo
    apply hexclusive.hold key rfl hpc hfree
    · intro other _
      rw [toRecorded_setHandler, hinfo, assigned_settled]
      exact ⟨hsubset other, rfl⟩
    · rwa [toRecorded_setHandler, hinfo, assigned_settled]
    · intro task hmem
      rw [toRecorded_setHandler, hinfo, hempty] at hmem
      simp at hmem
  have heffect := pool.effect_call (.popFrom key (previous.map (Prod.mk key)))
  generalize pool.reply (.popFrom key (previous.map (Prod.mk key))) = reply at heffect ⊢
  generalize hcompleted : previous.map (Prod.mk key) = completed at *
  cases heffect with
  | popFrom _ _ task rest nudge _ _ _ hinfo =>
    apply hexclusive.hold key rfl
    · cases nudge <;> rfl
    · exact hfree
    · intro other hother
      rw [toRecorded_setHandler, hinfo, Function.update_of_ne hother, assigned_settled]
      exact ⟨hsubset other, rfl⟩
    · rw [toRecorded_setHandler, hinfo, Function.update_self]
      simpa [afterPop] using hassigned
    · intro current hmem
      rw [toRecorded_setHandler, hinfo, Function.update_self] at hmem
      simp only [afterPop, hempty, insert_empty_eq, mem_singleton] at hmem
      subst current
      cases nudge <;> rfl
  | popFromFinished _ _ _ _ _ hinfo | popFromWait _ _ _ _ hinfo =>
    exact hsettled _ rfl hinfo
  | popFromFailed _ other task habsent _ =>
    have hkey : other = key := by
      cases previous with
      | none => simp at hcompleted
      | some current =>
        rw [map_some, some.injEq, Prod.mk.injEq] at hcompleted
        exact hcompleted.1.symm
    rw [hkey] at habsent
    exact absurd (hexclusive.mem_queues hheld) habsent

theorem completed {task : Task}
    (hview : (pool.handler handler).view = (some key, some task)) :
    Exclusive ((pool.call (.completed key task)).setHandler handler
      (.unassigning key)) := by
  have hheld : (pool.handler handler).held = some key := congrArg Prod.fst hview
  have htask : (pool.handler handler).task = some task :=
    congrArg Prod.snd hview
  have hempty := TaskQueueGroup.inProgress_settled_eq_empty
    fun current hmem => htask ▸ hexclusive.confined handler key hheld current hmem
  have heffect := pool.effect_call (.completed key task)
  generalize pool.reply (.completed key task) = reply at heffect
  cases heffect with
  | completed _ _ _ hinfo =>
    apply hexclusive.hold key rfl rfl
    · exact fun other hother =>
        hexclusive.unique other handler key hother hheld
    · intro other _
      rw [toRecorded_setHandler, hinfo, assigned_settled]
      exact ⟨pool.group.inProgress_settled_subset _ other, rfl⟩
    · rw [toRecorded_setHandler, hinfo, assigned_settled]
      exact hexclusive.assigned handler key hheld
    · intro current hmem
      rw [toRecorded_setHandler, hinfo] at hmem
      simp only [map_some] at hempty
      simp [hempty] at hmem

theorem unassign {pc : HandlerPc Task}
    (hheld : (pool.handler handler).held = some key) (hpc : pc.held = none) :
    Exclusive ((pool.call (.unassignHandler key)).setHandler handler pc) := by
  have heffect := pool.effect_call (.unassignHandler key)
  generalize pool.reply (.unassignHandler key) = reply at heffect
  cases heffect with
  | unassigned _ _ hinfo =>
    apply hexclusive.release rfl hpc hheld
    · intro other
      rw [toRecorded_setHandler, hinfo]
      by_cases hother : other = key <;> simp [hother]
    · intro other hother
      rw [toRecorded_setHandler, hinfo, Function.update_of_ne hother]

end HandlerCalls

variable [DecidableEq Worker] [DecidableEq Handler]

/-- Handlers serve queues of tasks that do not allow parallel execution. -/
theorem step (hserial : Handler → ∀ task : Task, allowParallel task = false)
    {event : PoolEvent Task Worker Handler}
    (hstep : Step pool event next) : Exclusive next := by
  have hsame : ∀ key, (pool.group.info key).inProgress ⊆
      (pool.group.info key).inProgress ∧ (pool.group.info key).assigned =
        (pool.group.info key).assigned :=
    fun _ => ⟨Finset.Subset.refl _, rfl⟩
  have hmove : ∀ (handler : Handler) (pc : HandlerPc Task),
    pc.view = (pool.handler handler).view →
        next.handler = Function.update pool.handler handler pc →
          next.group = pool.group → Exclusive next := by
    intro handler pc hview hhandler hgroup
    apply hexclusive.setHandler hhandler _ hview
    rw [hgroup]
    exact hsame
  have hworker : next.handler = pool.handler → next.group = pool.group →
      Exclusive next := by
    intro hhandler hgroup
    apply hexclusive.shrink
    · exact fun key => by rw [hgroup]
    · exact fun key => by rw [hgroup]
    · exact fun handler => by rw [hhandler]
  cases hstep with
  | push | setActive | setInactiveInternal | close =>
    exact hexclusive.quietCall rfl
  | stopWorker | stopHandler | workerStopped | workerNudge | workerFinish
  | workerKill =>
    exact hworker rfl rfl
  | workerPop | workerRetry => exact hexclusive.workerCall _ _
  | handlerStopped hpc | handlerNudge hpc | handlerFinish _ hpc
  | handlerFail _ hpc | handlerTimeout hpc | handlerNothingCompleted hpc
  | handlerKeep hpc | handlerCleanupFails hpc | dyingKeep hpc
  | dyingCleanupFails hpc =>
    exact hmove _ _ (by rw [hpc]; rfl) rfl rfl
  | @handlerAssign handler hpc =>
    apply hexclusive.assign (hserial handler)
    rcases hpc with ⟨hpc, _⟩ | hpc <;> rw [hpc] <;> rfl
  | handlerPop hpc =>
    apply hexclusive.popFrom
    rcases hpc with hpc | ⟨hpc, rfl⟩ <;> rw [hpc] <;> rfl
  | handlerCompleted hpc => exact hexclusive.completed (by rw [hpc]; rfl)
  | handlerUnassign hpc | handlerCleanup hpc | dyingCleanup hpc =>
    exact hexclusive.unassign (by rw [hpc]; rfl) rfl
  | handlerKill _ hpc =>
    refine hmove _ _ ?_ rfl rfl
    rcases hpc with ⟨current, rfl, hpc⟩ | hpc <;> rw [hpc] <;> rfl

omit [DecidableEq Worker] [DecidableEq Handler] hexclusive in
theorem start (group : TaskQueueGroup Task) (hempty : group.queues = ∅) :
    Exclusive (Pool.start group : Pool Task Worker Handler) := by
  have hinfo : ∀ key, group.info key = fresh := by
    intro key
    simp [info, hempty]
  constructor
  · intro key task hmem
    simp [Pool.start, hinfo, fresh] at hmem
  · intro handler key hheld
    simp [Pool.start, HandlerPc.held] at hheld
  · intro handler other key hheld
    simp [Pool.start, HandlerPc.held] at hheld
  · intro handler key hheld
    simp [Pool.start, HandlerPc.held] at hheld

end Exclusive

variable [DecidableEq Worker] [DecidableEq Handler]

theorem Reachable.exclusive {throttleSize maxSize : ℕ}
    (hserial : Handler → ∀ task : Task, allowParallel task = false)
    {pool : Pool Task Worker Handler} (hreachable : Reachable throttleSize maxSize pool) :
    Exclusive pool := by
  apply Transition.Reachable.invariant _ _ hreachable
  · rintro _ ⟨fd, byte, rfl⟩
    exact Exclusive.start _ rfl
  · intro state event next _ hexclusive hstep
    exact hexclusive.step hserial hstep

/-- In every reachable pool a task that does not allow parallel execution is
alone among the tasks in progress of its queue, at most one handler is between
`assign_handler` and `unassign_handler` for a queue, and at most one task is in
progress in each queue of a pool with handlers.  The tasks of such a pool are
indexing tasks, whose constructor does not allow parallel execution. -/
theorem exclusive_execution {throttleSize maxSize : ℕ}
    (hserial : Handler → ∀ task : Task, allowParallel task = false)
    {pool : Pool Task Worker Handler}
    (hreachable : Reachable throttleSize maxSize pool) :
    (∀ key, ∀ task ∈ (pool.group.info key).inProgress,
      allowParallel task = false →
        (pool.group.info key).inProgress = {task}) ∧
      (∀ key handler other, (pool.handler handler).held = some key →
        (pool.handler other).held = some key → handler = other) ∧
      (Handler → ∀ key, (pool.group.info key).inProgress.card ≤ 1) := by
  have hexclusive := hreachable.exclusive hserial
  refine ⟨hexclusive.alone, ?_, ?_⟩
  · exact fun key handler other => hexclusive.unique handler other key
  · intro handler key
    rw [Finset.card_le_one]
    intro task htask other hother
    rw [hexclusive.alone key task htask (hserial handler task),
      Finset.mem_singleton] at hother
    exact hother.symm

section Witness

/-- A task has been pushed. -/
def queuedPool : Pool IndexingTask Empty (Fin 2) :=
  (start (TaskQueueGroup.create 5 6)).call (.push (ascii "a") ⟨1⟩ false)

/-- The first handler has taken its queue. -/
def assignedPool : Pool IndexingTask Empty (Fin 2) :=
  (queuedPool.call .assignHandler).setHandler 0
    (.afterAssign (queuedPool.reply .assignHandler))

/-- The first handler has popped the task. -/
def poppedPool : Pool IndexingTask Empty (Fin 2) :=
  (assignedPool.call (.popFrom (ascii "a") none)).setHandler 0
    (.afterPop (ascii "a") false
      (assignedPool.reply (.popFrom (ascii "a") none)))

theorem reachable_poppedPool : Reachable 5 6 poppedPool := by
  have hstart : Reachable 5 6 (start (create 5 6) : Pool IndexingTask Empty (Fin 2)) :=
    .initial ⟨-1, 81, rfl⟩
  have hqueued : Reachable 5 6 queuedPool :=
    hstart.step (.push (ascii "a") (⟨1⟩ : IndexingTask) false (by decide))
  have hassigned : Reachable 5 6 assignedPool :=
    hqueued.step (.handlerAssign (Or.inl ⟨rfl, rfl⟩))
  have hpc : assignedPool.handler 0 = .popping (ascii "a") none false := by
    decide
  exact hassigned.step (.handlerPop (Or.inl hpc))

theorem exclusive_execution_poppedPool :
    (poppedPool.handler 0).held = some (ascii "a") ∧
      (poppedPool.handler 1).held ≠ some (ascii "a") ∧
      (poppedPool.group.info (ascii "a")).inProgress = {⟨1⟩} := by
  obtain ⟨halone, hunique, _⟩ :=
    exclusive_execution (fun _ _ => rfl) reachable_poppedPool
  have hheld : (poppedPool.handler 0).held = some (ascii "a") := by decide
  refine ⟨hheld, ?_, halone (ascii "a") ⟨1⟩ (by decide) rfl⟩
  intro hother
  exact absurd (hunique (ascii "a") 0 1 hheld hother) (by decide)

end Witness

end Pool

end Restpose
