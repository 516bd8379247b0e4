import Restpose.Server.Shutdown

/-!
# Draining the indexing queues

After the indexing group has been closed, an indexing thread that finds its
queue empty returns from `run()`, and does not look for another queue.  So the
queues are drained only if there are enough threads: one for each collection
with tasks in its queue or with a thread in the inner loop at the moment of the
close.
-/

namespace Restpose

open Finset Function HandlerPc QueueInfo Recorded Option TaskQueueGroup
  Transition.Reachable

namespace HandlerPc

variable {Task : Type}

/-- The queue in whose inner loop the thread is. -/
def serving : HandlerPc Task → Option Bytes
  | .popping key _ _ => some key
  | .waiting key _ => some key
  | .nudging key _ _ _ => some key
  | .performing key _ _ => some key
  | _ => none

/-- The thread has been ended by an exception. -/
def lost : HandlerPc Task → Bool
  | .dying _ _ _ => true
  | .dead _ _ => true
  | _ => false

/-- The thread has returned from `run()`. -/
def hasReturned : HandlerPc Task → Bool
  | .finishing _ _ => true
  | .returned _ => true
  | _ => false

/-- The queue that a thread was serving when it returned from `run()`. -/
def served : HandlerPc Task → Option Bytes
  | .finishing key _ => some key
  | .returned held => held
  | _ => none

/-- The thread is inside `run()`. -/
def running (pc : HandlerPc Task) : Bool :=
  !pc.lost && !pc.hasReturned

variable {key : Bytes}

theorem held_of_serving {pc : HandlerPc Task} (hserving : pc.serving = some key) :
    pc.held = some key := by
  cases pc <;> simp_all [serving, held]

theorem running_of_serving {pc : HandlerPc Task} (hserving : pc.serving = some key) :
    pc.running = true := by
  cases pc <;> simp_all [serving, running, lost, hasReturned]

theorem served_of_held {pc : HandlerPc Task} (hheld : pc.held = some key)
    (hreturned : pc.hasReturned = true) : pc.served = some key := by
  cases pc <;> simp_all [served, held, hasReturned]

theorem hasReturned_of_served {pc : HandlerPc Task} (hserved : pc.served = some key) :
    pc.hasReturned = true := by
  cases pc <;> simp_all [served, hasReturned]

end HandlerPc

variable {Task : Type} [TaskObject Task]

namespace Operation

variable {group : TaskQueueGroup Task}

theorem queue_eq_append (hclosed : group.closed = true) (operation : Operation Task)
    (key : Bytes) :
    (group.info key).queue = Call.returned key (operation, (operation.run group).2) ++
        ((operation.run group).1.info key).queue := by
  have hconserved := operation.conservation group key
  rwa [accepted_eq_nil hclosed, List.append_nil] at hconserved

end Operation

namespace Pool

variable {Handler : Type} [DecidableEq Handler]
  {pool next : Pool Task Empty Handler}
  {event : PoolEvent Task Empty Handler}

variable {key : Bytes}

theorem Step.queue_eq_nil (hstep : Step pool event next)
    (hclosed : pool.group.closed = true) (hempty : (pool.group.info key).queue = []) :
    (next.group.info key).queue = [] := by
  rcases hstep.toRecorded_eq with hsame | ⟨operation, hcall⟩
  · rwa [congrArg group hsame]
  · rw [congrArg group hcall]
    rw [Operation.queue_eq_append hclosed operation key] at hempty
    exact (List.append_eq_nil_iff.mp hempty).2

theorem Step.closed_of_closed (hstep : Step pool event next)
    (hclosed : pool.group.closed = true) : next.group.closed = true := by
  rcases hstep.toRecorded_eq with hsame | ⟨operation, hcall⟩
  · rwa [congrArg group hsame]
  · rw [congrArg group hcall]
    exact (operation.effect_run pool.group).closed_of_closed hclosed

/-- A queue that is assigned or has a task in progress has a handler, unless a
thread has been lost. -/
def Owned (pool : Pool Task Empty Handler) : Prop :=
  ∀ key, ((pool.group.info key).assigned = true ∨
      (pool.group.info key).inProgress ≠ ∅) →
    (∃ handler, (pool.handler handler).held = some key) ∨
      ∃ handler, (pool.handler handler).lost = true

namespace Owned

omit [TaskObject Task] in
theorem engaged_of_shrinks {before after : QueueInfo Task}
    (hshrinks : after.inProgress ⊆ before.inProgress ∧ after.assigned = before.assigned)
    (hengaged : after.assigned = true ∨ after.inProgress ≠ ∅) :
    before.assigned = true ∨ before.inProgress ≠ ∅ := by
  rcases hengaged with hassigned | hprogress
  · exact Or.inl (hshrinks.2 ▸ hassigned)
  · refine Or.inr ?_
    intro hempty
    exact hprogress (subset_empty.mp (hempty ▸ hshrinks.1))

omit [TaskObject Task] [DecidableEq Handler] in
theorem shrink (howned : Owned pool)
    (hgroup : ∀ key, (next.group.info key).inProgress ⊆ (pool.group.info key).inProgress ∧
      (next.group.info key).assigned = (pool.group.info key).assigned)
    (hheld : ∀ handler, (next.handler handler).held = (pool.handler handler).held)
    (hlost : ∀ handler, (pool.handler handler).lost = true →
      (next.handler handler).lost = true) : Owned next := by
  intro key hkey
  rcases howned key (engaged_of_shrinks (hgroup key) hkey) with
    ⟨handler, hholds⟩ | ⟨handler, hgone⟩
  · exact Or.inl ⟨handler, by rwa [hheld]⟩
  · exact Or.inr ⟨handler, hlost handler hgone⟩

section Move

variable {handler : Handler} {pc : HandlerPc Task}

omit [TaskObject Task] in
theorem lost_of_update (hhandler : next.handler = update pool.handler handler pc)
    (hlost : (pool.handler handler).lost = true → pc.lost = true) (other : Handler)
    (hgone : (pool.handler other).lost = true) : (next.handler other).lost = true := by
  rw [hhandler]
  by_cases hother : other = handler
  · subst other
    rw [update_self]
    exact hlost hgone
  · rwa [update_of_ne hother]

omit [TaskObject Task] in
theorem keep (howned : Owned pool)
    (hhandler : next.handler = update pool.handler handler pc)
    (hgroup : ∀ key, (next.group.info key).inProgress ⊆ (pool.group.info key).inProgress ∧
      (next.group.info key).assigned = (pool.group.info key).assigned)
    (hheld : pc.held = (pool.handler handler).held)
    (hlost : (pool.handler handler).lost = true → pc.lost = true) : Owned next := by
  refine howned.shrink hgroup ?_ (lost_of_update hhandler hlost)
  intro other
  by_cases hother : other = handler
  · subst other
    rw [hhandler, update_self, hheld]
  · rw [hhandler, update_of_ne hother]

omit [TaskObject Task] in
theorem move (howned : Owned pool) (key : Bytes)
    (hhandler : next.handler = update pool.handler handler pc)
    (hothers : ∀ other, other ≠ key →
      (next.group.info other).inProgress ⊆ (pool.group.info other).inProgress ∧
        (next.group.info other).assigned = (pool.group.info other).assigned)
    (hbefore : ∀ other, (pool.handler handler).held = some other → other = key)
    (hlost : (pool.handler handler).lost = true → pc.lost = true)
    (hafter : pc.held = some key ∨ pc.lost = true ∨
      ((next.group.info key).assigned = false ∧
        (next.group.info key).inProgress = ∅)) :
    Owned next := by
  have hself : next.handler handler = pc := by rw [hhandler, update_self]
  intro other hother
  by_cases hkey : other = key
  · subst other
    rcases hafter with hheld | hgone | ⟨hunassigned, hidle⟩
    · exact Or.inl ⟨handler, by rw [hself, hheld]⟩
    · exact Or.inr ⟨handler, by rw [hself, hgone]⟩
    · rcases hother with hassigned | hprogress
      · rw [hunassigned] at hassigned
        contradiction
      · exact absurd hidle hprogress
  · have hold := engaged_of_shrinks (hothers other hkey) hother
    rcases howned other hold with ⟨holder, hholds⟩ | ⟨holder, hgone⟩
    · have hne : holder ≠ handler := by
        rintro rfl
        exact hkey (hbefore other hholds)
      exact Or.inl ⟨holder, by rwa [hhandler, update_of_ne hne]⟩
    · exact Or.inr ⟨holder, lost_of_update hhandler hlost holder hgone⟩

theorem popFrom (howned : Owned pool) {key : Bytes} {completed : Option (Bytes × Task)}
    (collection : Bool) (hheld : (pool.handler handler).held = some key)
    (hlost : (pool.handler handler).lost = false) :
    Owned ((pool.call (.popFrom key completed)).setHandler handler
      (.afterPop key collection (pool.reply (.popFrom key completed)))) := by
  have hothers : ∀ other, other ≠ key →
      ((pool.call (.popFrom key completed)).group.info other).inProgress ⊆
          (pool.group.info other).inProgress ∧
        ((pool.call (.popFrom key completed)).group.info other).assigned =
          (pool.group.info other).assigned := by
    intro other hother
    have hsubset := pool.group.inProgress_settled_subset completed other
    have hassigned := pool.group.assigned_settled completed other
    have heffect := pool.effect_call (.popFrom key completed)
    generalize pool.reply (.popFrom key completed) = reply at heffect
    cases heffect with
    | popFrom _ _ task rest _ _ _ _ hinfo =>
      rw [hinfo, update_of_ne hother]
      exact ⟨hsubset, hassigned⟩
    | popFromFinished _ _ _ _ _ hinfo | popFromWait _ _ _ _ hinfo =>
      rw [hinfo]
      exact ⟨hsubset, hassigned⟩
    | popFromFailed _ _ _ _ hsame =>
      rw [hsame]
      exact ⟨Finset.Subset.refl _, rfl⟩
  refine howned.move key rfl hothers ?_ ?_ (Or.inl ?_)
  · intro other hother
    rw [hheld, some.injEq] at hother
    exact hother.symm
  · simp [hlost]
  · cases pool.reply (.popFrom key completed) with
    | popped other task nudge => cases nudge <;> rfl
    | _ => rfl

theorem assign (howned : Owned pool) (hheld : (pool.handler handler).held = none)
    (hlost : (pool.handler handler).lost = false) :
    Owned ((pool.call .assignHandler).setHandler handler
      (.afterAssign (pool.reply .assignHandler))) := by
  have heffect := pool.effect_call .assignHandler
  generalize pool.reply .assignHandler = reply at heffect ⊢
  cases heffect with
  | assigned key _ _ hinfo =>
    refine howned.move key rfl ?_ (by simp [hheld]) (by simp [hlost]) (Or.inl rfl)
    intro other hother
    rw [toRecorded_setHandler, hinfo, update_of_ne hother]
    exact ⟨Finset.Subset.refl _, rfl⟩
  | assignNone _ hsame =>
    refine howned.keep rfl ?_ ?_ (by simp [hlost])
    · intro key
      rw [toRecorded_setHandler, hsame]
      exact ⟨Finset.Subset.refl _, rfl⟩
    · rw [hheld]
      cases pool.group.closed <;> rfl

theorem unassign (howned : Owned pool) (hexclusive : Exclusive pool) {key : Bytes}
    (hheld : (pool.handler handler).held = some key)
    (hlost : (pool.handler handler).lost = true → pc.lost = true)
    (hafter : pc.lost = true ∨ (pool.handler handler).task = none) :
    Owned ((pool.call (.unassignHandler key)).setHandler handler pc) := by
  have heffect := pool.effect_call (.unassignHandler key)
  generalize pool.reply (.unassignHandler key) = reply at heffect
  cases heffect with
  | unassigned _ _ hinfo =>
    refine howned.move key rfl ?_ ?_ hlost ?_
    · intro other hother
      rw [toRecorded_setHandler, hinfo, update_of_ne hother]
      exact ⟨Finset.Subset.refl _, rfl⟩
    · intro other hother
      rw [hheld, some.injEq] at hother
      exact hother.symm
    · refine Or.inr (hafter.imp_right ?_)
      intro htask
      rw [toRecorded_setHandler, hinfo, update_self]
      refine ⟨rfl, ?_⟩
      rw [eq_empty_iff_forall_notMem]
      intro task hmem
      have hown := hexclusive.confined handler key hheld task hmem
      simp [htask] at hown

end Move

theorem step (howned : Owned pool) (hexclusive : Exclusive pool)
    (hstep : Step pool event next) : Owned next := by
  have hsame : ∀ key, (pool.group.info key).inProgress ⊆
      (pool.group.info key).inProgress ∧ (pool.group.info key).assigned =
        (pool.group.info key).assigned :=
    fun _ => ⟨Finset.Subset.refl _, rfl⟩
  have hquiet : ∀ operation : Operation Task, operation.quiet = true →
      Owned (pool.call operation) := by
    intro operation hoperation
    refine howned.shrink ?_ (fun _ => rfl) fun _ => id
    intro key
    have hrun := operation.quiet_run hoperation pool.group key
    exact ⟨hrun.1.subset, hrun.2⟩
  have hkeep : ∀ (handler : Handler) (pc : HandlerPc Task),
      next.handler = update pool.handler handler pc →
        next.group = pool.group → pc.held = (pool.handler handler).held →
          ((pool.handler handler).lost = true → pc.lost = true) → Owned next := by
    intro handler pc hhandler hgroup hheld hlost
    refine howned.keep hhandler ?_ hheld hlost
    rw [hgroup]
    exact hsame
  cases hstep with
  | push | setActive | setInactiveInternal | close => exact hquiet _ rfl
  | stopWorker worker | @workerStopped worker | @workerPop worker
  | @workerRetry worker | @workerNudge worker | @workerFinish worker
  | @workerKill worker =>
    exact worker.elim
  | stopHandler => exact howned.shrink hsame (fun _ => rfl) fun _ => id
  | handlerStopped hpc | handlerNudge hpc | handlerFinish _ hpc
  | handlerFail _ hpc | handlerTimeout hpc | handlerNothingCompleted hpc
  | handlerKeep hpc =>
    exact hkeep _ _ rfl rfl (by rw [hpc]; rfl) (by rw [hpc]; simp [lost])
  | handlerAssign hpc =>
    rcases hpc with ⟨hpc, _⟩ | hpc <;>
      exact howned.assign (by rw [hpc]; rfl) (by rw [hpc]; rfl)
  | handlerPop hpc =>
    rcases hpc with hpc | ⟨hpc, _⟩ <;>
      exact howned.popFrom _ (by rw [hpc]; rfl) (by rw [hpc]; rfl)
  | @handlerCompleted handler key task collection hpc =>
    refine howned.keep rfl ?_ (by rw [hpc]; rfl) (by rw [hpc]; simp [lost])
    intro other
    have heffect := pool.effect_call (.completed key task)
    generalize pool.reply (.completed key task) = reply at heffect
    cases heffect with
    | completed _ _ _ hinfo =>
      rw [toRecorded_setHandler, hinfo]
      exact ⟨pool.group.inProgress_settled_subset _ other,
        pool.group.assigned_settled _ other⟩
  | handlerUnassign hpc | handlerCleanup hpc =>
    exact howned.unassign hexclusive (by rw [hpc]; rfl)
      (by rw [hpc]; simp [lost]) (Or.inr (by rw [hpc]; rfl))
  | handlerKill _ hpc =>
    rcases hpc with ⟨current, rfl, hpc⟩ | hpc <;>
      exact hkeep _ _ rfl rfl (by rw [hpc]; rfl) fun _ => rfl
  | handlerCleanupFails hpc | dyingKeep hpc | dyingCleanupFails hpc =>
    exact hkeep _ _ rfl rfl (by rw [hpc]; rfl) fun _ => rfl
  | dyingCleanup hpc =>
    exact howned.unassign hexclusive (by rw [hpc]; rfl) (fun _ => rfl) (Or.inl rfl)

end Owned

/-- What is known of the threads of a group, before and after its close. -/
structure Tended (pool : Pool Task Empty Handler) : Prop where
  owned : Owned pool
  served : ∀ handler key, (pool.handler handler).served = some key →
    (pool.group.info key).queue = []
  returned : ∀ handler, (pool.handler handler).hasReturned = true →
    pool.group.closed = true
  active : pool.group.closed = true →
    ∀ key, (pool.group.info key).active = true

theorem Step.active (hstep : Step pool event next)
    (hactive : pool.group.closed = true → ∀ key, (pool.group.info key).active = true) :
    next.group.closed = true → ∀ key, (next.group.info key).active = true := by
  rcases hstep.toRecorded_eq with hsame | ⟨operation, hcall⟩
  · rwa [congrArg group hsame]
  · rw [congrArg group hcall]
    exact (operation.effect_run pool.group).active hactive

/-- How a thread that has returned from `run()` came to do so: before this step,
because it was told to stop, or because the group is closed and its queue, if it
has one, is empty. -/
inductive HasLeft (pool next : Pool Task Empty Handler) (handler : Handler) : Prop where
  | before (hreturned : (pool.handler handler).hasReturned = true)
      (hserved : ∀ key, (next.handler handler).served = some key →
        (pool.handler handler).served = some key)
  | stopped (hstop : pool.handlerStop handler = true)
      (hserved : (next.handler handler).served = none)
  | closed (hclosed : pool.group.closed = true)
      (hqueue : ∀ key, (next.handler handler).served = some key →
        (next.group.info key).queue = [])

omit [DecidableEq Handler] in
theorem closed_of_afterAssign
    (hreturned : (afterAssign (pool.reply .assignHandler)).hasReturned = true) :
    pool.group.closed = true ∧
      (afterAssign (pool.reply .assignHandler)).served = none := by
  have heffect := pool.effect_call .assignHandler
  generalize pool.reply .assignHandler = reply at heffect hreturned ⊢
  cases heffect with
  | assigned => simp [afterAssign, hasReturned] at hreturned
  | assignNone =>
    cases hclosed : pool.group.closed with
    | false => simp [hclosed, afterAssign, hasReturned] at hreturned
    | true => simp [afterAssign, served]

omit [DecidableEq Handler] in
theorem closed_of_afterPop {completed : Option (Bytes × Task)} {collection : Bool}
    (hreturned : (HandlerPc.afterPop key collection
      (pool.reply (.popFrom key completed))).hasReturned = true) :
    pool.group.closed = true ∧ ∀ other, (HandlerPc.afterPop key collection
        (pool.reply (.popFrom key completed))).served = some other →
      ((pool.call (.popFrom key completed)).group.info other).queue = [] := by
  have heffect := pool.effect_call (.popFrom key completed)
  generalize pool.reply (.popFrom key completed) = reply at heffect hreturned ⊢
  cases heffect with
  | popFrom _ _ task rest nudge =>
    cases nudge <;> simp [HandlerPc.afterPop, hasReturned] at hreturned
  | popFromFinished _ _ hclosed hqueue _ hinfo =>
    refine ⟨hclosed, ?_⟩
    intro other hserved
    simp only [HandlerPc.afterPop, served, Option.some.injEq] at hserved
    rw [hinfo, ← hserved, hqueue]
  | popFromWait | popFromFailed =>
    simp [HandlerPc.afterPop, hasReturned] at hreturned

theorem Step.hasLeft (hstep : Step pool event next) {handler : Handler}
    (hreturned : (next.handler handler).hasReturned = true) :
    HasLeft pool next handler := by
  have hkeep : next.handler handler = pool.handler handler →
      HasLeft pool next handler := by
    intro hsame
    rw [hsame] at hreturned
    exact .before hreturned fun key hserved => by rwa [hsame] at hserved
  have hmove : ∀ {moved : Handler} {pc : HandlerPc Task},
      next.handler = Function.update pool.handler moved pc →
        (handler = moved → next.handler handler = pc → pc.hasReturned = true →
          HasLeft pool next handler) → HasLeft pool next handler := by
    intro moved pc hnext hself
    by_cases hmoved : handler = moved
    · have hpc : next.handler handler = pc := by rw [hnext, hmoved, Function.update_self]
      exact hself hmoved hpc (hpc ▸ hreturned)
    · exact hkeep (by rw [hnext, Function.update_of_ne hmoved])
  cases hstep with
  | handlerStopped hpc hstop =>
    refine hmove rfl ?_
    rintro rfl hself -
    exact .stopped hstop (by rw [hself]; rfl)
  | handlerAssign hpc =>
    refine hmove rfl ?_
    rintro rfl hself hleft
    obtain ⟨hclosed, hnone⟩ := closed_of_afterAssign hleft
    refine .closed hclosed fun key hserved => ?_
    rw [hself, hnone] at hserved
    contradiction
  | handlerPop hpc =>
    refine hmove rfl ?_
    rintro rfl hself hleft
    obtain ⟨hclosed, hempty⟩ := closed_of_afterPop hleft
    exact .closed hclosed fun key hserved => hempty key (hself ▸ hserved)
  | handlerCleanup hpc =>
    refine hmove rfl ?_
    rintro rfl hself -
    refine .before (by rw [hpc]; rfl) fun key hserved => ?_
    rw [hself] at hserved
    cases hserved
  | handlerKeep hpc =>
    refine hmove rfl ?_
    rintro rfl hself -
    refine .before (by rw [hpc]; rfl) fun key hserved => ?_
    rw [hself] at hserved
    rw [hpc]
    exact hserved
  | push | setActive | setInactiveInternal | close | stopHandler =>
    exact hkeep rfl
  | stopWorker worker | @workerStopped worker | @workerPop worker
  | @workerRetry worker | @workerNudge worker | @workerFinish worker
  | @workerKill worker =>
    exact worker.elim
  | _ => exact hmove rfl (fun _ _ hleft => by cases hleft)

theorem Tended.step (htended : Tended pool) (hexclusive : Exclusive pool)
    (hstop : ∀ handler, pool.handlerStop handler = true → pool.group.closed = true)
    (hstep : Step pool event next) : Tended next := by
  refine ⟨htended.owned.step hexclusive hstep, ?_, ?_, hstep.active htended.active⟩
  · intro handler key hserved
    cases hstep.hasLeft (hasReturned_of_served hserved) with
    | before hbefore hkeep =>
      exact hstep.queue_eq_nil (htended.returned handler hbefore)
        (htended.served handler key (hkeep key hserved))
    | stopped _ hnone =>
      rw [hnone] at hserved
      contradiction
    | closed _ hempty => exact hempty key hserved
  · intro handler hreturned
    cases hstep.hasLeft hreturned with
    | before hbefore =>
      exact hstep.closed_of_closed (htended.returned handler hbefore)
    | stopped htold => exact hstep.closed_of_closed (hstop handler htold)
    | closed hclosed => exact hstep.closed_of_closed hclosed

omit [TaskObject Task] [DecidableEq Handler] in
theorem Tended.start (group : TaskQueueGroup Task) (hempty : group.queues = ∅)
    (hopen : group.closed = false) :
    Tended (Pool.start group : Pool Task Empty Handler) := by
  have hinfo : ∀ key, group.info key = fresh := by
    intro key
    simp [info, hempty]
  constructor
  · intro key hkey
    simp [Pool.start, hinfo, QueueInfo.fresh] at hkey
  · simp [Pool.start, HandlerPc.served]
  · simp [Pool.start, HandlerPc.hasReturned]
  · simp [Pool.start, hopen]

/-! ## Threads and queues after the close -/

variable [Fintype Handler]

/-- The queues that have tasks or a thread in its inner loop. -/
def pending (pool : Pool Task Empty Handler) : Finset Bytes :=
  pool.group.queues.keys.toFinset.filter fun key =>
    (pool.group.info key).queue.isEmpty = false ∨
      ∃ handler, (pool.handler handler).serving = some key

/-- The threads that are inside `run()`. -/
def runners (pool : Pool Task Empty Handler) : Finset Handler :=
  Finset.univ.filter fun handler => (pool.handler handler).running = true

omit [TaskObject Task] [DecidableEq Handler] in
@[simp]
theorem mem_runners {handler : Handler} :
    handler ∈ pool.runners ↔ (pool.handler handler).running = true := by
  simp [runners]

omit [DecidableEq Handler] in
theorem mem_pending (hexclusive : Exclusive pool) :
    key ∈ pool.pending ↔ (pool.group.info key).queue ≠ [] ∨
      ∃ handler, (pool.handler handler).serving = some key := by
  have hentry : ((pool.group.info key).queue ≠ [] ∨
      ∃ handler, (pool.handler handler).serving = some key) →
        key ∈ pool.group.queues := by
    rintro (hqueue | ⟨handler, hserving⟩)
    · apply mem_queues_of_info_ne_fresh
      intro hfresh
      simp [hfresh, fresh] at hqueue
    · exact hexclusive.mem_queues (held_of_serving hserving)
  simp only [pending, mem_filter, List.mem_toFinset,
    Std.ExtTreeMap.mem_keys, List.isEmpty_eq_false_iff]
  exact ⟨And.right, fun hkey => ⟨hentry hkey, hkey⟩⟩

/-- There is a thread inside `run()` for every queue that has tasks or a
thread in its inner loop, unless a thread has been lost. -/
def Spare (pool : Pool Task Empty Handler) : Prop :=
  (∃ handler, (pool.handler handler).lost = true) ∨
    pool.pending.card ≤ pool.runners.card

omit [TaskObject Task] [DecidableEq Handler] in
theorem card_pending_le (threads : Finset Handler)
    (hheld : ∀ key ∈ pool.pending, ∃ handler ∈ threads,
      (pool.handler handler).held = some key) :
    pool.pending.card ≤ threads.card := by
  refine card_le_card_of_forall_subsingleton
    (fun key handler => (pool.handler handler).held = some key) hheld ?_
  intro handler _ key hkey other hother
  exact some.inj (hkey.2.symm.trans hother.2)

omit [DecidableEq Handler] [Fintype Handler] in
/-- In a closed group a queue with tasks that cannot be assigned has a thread
inside `run()`. -/
theorem Tended.exists_runner (htended : Tended pool) (hclosed : pool.group.closed = true)
    (hnone : ¬∃ handler, (pool.handler handler).lost = true)
    (hqueue : (pool.group.info key).queue ≠ [])
    (hpick : (pool.group.info key).pickable = false) :
    ∃ handler, (pool.handler handler).held = some key ∧
      (pool.handler handler).running = true := by
  have hkey : (pool.group.info key).assigned = true ∨
      (pool.group.info key).inProgress ≠ ∅ := by
    by_contra hfree
    rw [not_or, not_not, Bool.not_eq_true] at hfree
    have hpickable : (pool.group.info key).pickable = true := by
      rw [pickable_iff]
      refine ⟨htended.active hclosed key, hfree.1, hqueue, ?_⟩
      simp [checkParallelAllowed, hfree.2]
    rw [hpick] at hpickable
    contradiction
  obtain ⟨handler, hheld⟩ := (htended.owned key hkey).resolve_right hnone
  refine ⟨handler, hheld, ?_⟩
  have hkept : (pool.handler handler).lost = false := by
    rw [Bool.eq_false_iff]
    exact fun hlost => hnone ⟨handler, hlost⟩
  have hinside : (pool.handler handler).hasReturned = false := by
    rw [Bool.eq_false_iff]
    intro hreturned
    exact hqueue (htended.served handler key (served_of_held hheld hreturned))
  simp [running, hkept, hinside]

namespace Spare

variable {handler : Handler} {pc : HandlerPc Task}

omit [Fintype Handler] in
theorem queue_ne_nil (hstep : Step pool event next) (hclosed : pool.group.closed = true)
    (hqueue : (next.group.info key).queue ≠ []) :
    (pool.group.info key).queue ≠ [] :=
  fun hempty => hqueue (hstep.queue_eq_nil hclosed hempty)

omit [TaskObject Task] in
theorem of_lost (hhandler : next.handler = update pool.handler handler pc)
    (hlost : pc.lost = true) : Spare next :=
  Or.inl ⟨handler, by rw [hhandler, update_self, hlost]⟩

variable (hstep : Step pool event next) (hexclusive' : Exclusive next)
  (hclosed : pool.group.closed = true)

include hstep hexclusive' hclosed

/-- A lost thread stays lost, so a thread that departs is of interest only when
there is none. -/
theorem depart (hhandler : next.handler = update pool.handler handler pc)
    (hheld : (pool.handler handler).held = none)
    (hkept : (pool.handler handler).lost = false)
    (hall : ¬(∃ other, (pool.handler other).lost = true) → ∀ key,
      (pool.group.info key).queue ≠ [] →
        ∃ other, (pool.handler other).held = some key ∧
          (pool.handler other).running = true) : Spare next := by
  have hothers : ∀ other, other ≠ handler →
      next.handler other = pool.handler other := by
    intro other hne
    rw [hhandler, update_of_ne hne]
  by_cases hnone : ∃ other, (pool.handler other).lost = true
  · obtain ⟨other, hother⟩ := hnone
    have hne : other ≠ handler := by
      rintro rfl
      rw [hkept] at hother
      contradiction
    exact Or.inl ⟨other, by rwa [hothers other hne]⟩
  refine Or.inr (card_pending_le next.runners ?_)
  intro key hkey
  rw [mem_pending hexclusive'] at hkey
  rcases hkey with hqueue | ⟨other, hother⟩
  · obtain ⟨other, hholds, hrunning⟩ := hall hnone key (queue_ne_nil hstep hclosed hqueue)
    have hne : other ≠ handler := by
      rintro rfl
      rw [hheld] at hholds
      contradiction
    refine ⟨other, ?_, by rwa [hothers other hne]⟩
    rwa [mem_runners, hothers other hne]
  · refine ⟨other, ?_, held_of_serving hother⟩
    rw [mem_runners]
    exact running_of_serving hother

variable (hspare : Spare pool) (hexclusive : Exclusive pool)

include hspare hexclusive

theorem mono (hlost : ∀ handler, (pool.handler handler).lost = true →
      (next.handler handler).lost = true)
    (hrunning : ∀ handler, (pool.handler handler).running = true →
      (next.handler handler).running = true)
    (hserving : ∀ handler key, (next.handler handler).serving = some key →
      (pool.group.info key).queue ≠ [] ∨
        (pool.handler handler).serving = some key) : Spare next := by
  rcases hspare with ⟨handler, hgone⟩ | hcard
  · exact Or.inl ⟨handler, hlost handler hgone⟩
  · refine Or.inr ?_
    have hpending : next.pending ⊆ pool.pending := by
      intro key hkey
      rw [mem_pending hexclusive'] at hkey
      rw [mem_pending hexclusive]
      rcases hkey with hqueue | ⟨handler, hthis⟩
      · exact Or.inl (queue_ne_nil hstep hclosed hqueue)
      · exact (hserving handler key hthis).imp_right fun hbefore =>
          ⟨handler, hbefore⟩
    have hrunners : pool.runners ⊆ next.runners := by
      intro handler hhandler
      rw [mem_runners] at hhandler ⊢
      exact hrunning handler hhandler
    calc
      next.pending.card ≤ pool.pending.card := card_le_card hpending
      _ ≤ pool.runners.card := hcard
      _ ≤ next.runners.card := card_le_card hrunners

theorem of_handler_eq (hhandler : next.handler = pool.handler) : Spare next := by
  refine hspare.mono hstep hexclusive' hclosed hexclusive ?_ ?_ ?_ <;> rw [hhandler]
  · exact fun _ => id
  · exact fun _ => id
  · exact fun _ _ => Or.inr

theorem setHandler (hhandler : next.handler = update pool.handler handler pc)
    (hkept : (pool.handler handler).lost = false)
    (hrunning : (pool.handler handler).running = true → pc.running = true)
    (hserving : ∀ key, pc.serving = some key → (pool.group.info key).queue ≠ [] ∨
        (pool.handler handler).serving = some key) : Spare next := by
  have hcases : ∀ other, (other = handler ∧ next.handler other = pc) ∨
      next.handler other = pool.handler other := by
    intro other
    rw [hhandler]
    by_cases hother : other = handler
    · subst other
      exact Or.inl ⟨rfl, update_self ..⟩
    · exact Or.inr (update_of_ne hother _ _)
  refine hspare.mono hstep hexclusive' hclosed hexclusive ?_ ?_ ?_
  · intro other hother
    rcases hcases other with ⟨rfl, -⟩ | hsame
    · rw [hkept] at hother
      contradiction
    · rwa [hsame]
  · intro other hother
    rcases hcases other with ⟨rfl, hself⟩ | hsame
    · rw [hself]
      exact hrunning hother
    · rwa [hsame]
  · intro other key hother
    rcases hcases other with ⟨rfl, hself⟩ | hsame
    · rw [hself] at hother
      exact hserving key hother
    · rw [hsame] at hother
      exact Or.inr hother

theorem finish (hhandler : next.handler = update pool.handler handler pc)
    (hbefore : (pool.handler handler).serving = some key) (hheld : pc.held = some key)
    (hserving : pc.serving = none) (hempty : (next.group.info key).queue = []) :
    Spare next := by
  have hself : next.handler handler = pc := by rw [hhandler, update_self]
  have hrest : ∀ other, other ≠ handler →
      next.handler other = pool.handler other := by
    intro other hne
    rw [hhandler, update_of_ne hne]
  have hservingPool : ∀ other otherKey, (next.handler other).serving = some otherKey →
        other ≠ handler ∧ (pool.handler other).serving = some otherKey := by
    intro other otherKey hother
    have hne : other ≠ handler := by
      rintro rfl
      rw [hself, hserving] at hother
      contradiction
    rw [hrest other hne] at hother
    exact ⟨hne, hother⟩
  rcases hspare with ⟨other, hgone⟩ | hcard
  · have hne : other ≠ handler := by
      rintro rfl
      have hrunning := running_of_serving hbefore
      simp [running, hgone] at hrunning
    exact Or.inl ⟨other, by rwa [hrest other hne]⟩
  · refine Or.inr ?_
    have hpending : next.pending ⊆ pool.pending.erase key := by
      intro otherKey hkey
      rw [mem_pending hexclusive'] at hkey
      rw [mem_erase, mem_pending hexclusive]
      rcases hkey with hqueue | ⟨other, hother⟩
      · refine ⟨?_, Or.inl (queue_ne_nil hstep hclosed hqueue)⟩
        rintro rfl
        exact hqueue hempty
      · obtain ⟨hne, hthis⟩ := hservingPool other otherKey hother
        refine ⟨?_, Or.inr ⟨other, hthis⟩⟩
        rintro rfl
        exact hne (hexclusive.unique other handler otherKey
          (held_of_serving hthis) (held_of_serving hbefore))
    have hmem : key ∈ pool.pending :=
      (mem_pending hexclusive).mpr (Or.inr ⟨handler, hbefore⟩)
    have hrunners : pool.runners ⊆ insert handler next.runners := by
      intro other hother
      rw [mem_insert, mem_runners]
      by_cases hne : other = handler
      · exact Or.inl hne
      · rw [hrest other hne]
        exact Or.inr (mem_runners.mp hother)
    have hpositive := card_pos.mpr ⟨key, hmem⟩
    have hfewer := card_le_card hpending
    rw [card_erase_of_mem hmem] at hfewer
    have hmore := (card_le_card hrunners).trans (card_insert_le handler next.runners)
    omega

theorem step (htended : Tended pool)
    (hstop : ∀ handler, pool.handlerStop handler = true → pool.group.Drained) :
    Spare next := by
  have hmove {handler : Handler} {pc : HandlerPc Task}
      (hhandler : next.handler = update pool.handler handler pc) :=
    hspare.setHandler hstep hexclusive' hclosed hexclusive hhandler
  have hcases := hstep
  cases hcases with
  | push | setActive | setInactiveInternal | close | stopHandler =>
    exact hspare.of_handler_eq hstep hexclusive' hclosed hexclusive rfl
  | stopWorker worker | @workerStopped worker | @workerPop worker
  | @workerRetry worker | @workerNudge worker | @workerFinish worker
  | @workerKill worker =>
    exact worker.elim
  | @handlerStopped handler hpc htold =>
    refine depart hstep hexclusive' hclosed rfl (by rw [hpc]; rfl) (by rw [hpc]; rfl) ?_
    intro _ key hqueue
    exact absurd ((hstop handler htold).2 key) hqueue
  | @handlerAssign handler hpc =>
    have hfree : (pool.handler handler).held = none ∧
        (pool.handler handler).lost = false := by
      rcases hpc with ⟨hpc, _⟩ | hpc <;> rw [hpc] <;> exact ⟨rfl, rfl⟩
    have heffect := pool.effect_call .assignHandler
    generalize pool.reply .assignHandler = reply at *
    cases heffect with
    | assigned key hpick =>
      refine hmove rfl hfree.2 (fun _ => rfl) ?_
      intro other hother
      obtain rfl := some.inj hother
      exact Or.inl (pickable_iff.mp hpick).2.2.1
    | assignNone hpick =>
      refine depart hstep hexclusive' hclosed rfl hfree.1 hfree.2 ?_
      intro hnone key hqueue
      exact htended.exists_runner hclosed hnone hqueue (hpick key)
  | @handlerPop handler key previous collection hpc =>
    have hserving : (pool.handler handler).serving = some key := by
      rcases hpc with hpc | ⟨hpc, _⟩ <;> rw [hpc] <;> rfl
    have hkept : (pool.handler handler).lost = false := by
      rcases hpc with hpc | ⟨hpc, _⟩ <;> rw [hpc] <;> rfl
    have heffect := pool.effect_call (.popFrom key (previous.map (Prod.mk key)))
    generalize previous.map (Prod.mk key) = completed at *
    generalize pool.reply (.popFrom key completed) = reply at *
    cases heffect with
    | popFrom _ _ task rest nudge =>
      refine hmove rfl hkept (fun _ => by cases nudge <;> rfl) ?_
      intro other hother
      cases nudge <;>
        exact Or.inr (hserving.trans hother)
    | popFromFinished _ _ _ hqueue _ hinfo =>
      refine hspare.finish hstep hexclusive' hclosed hexclusive rfl hserving
        rfl rfl ?_
      rw [toRecorded_setHandler, hinfo, hqueue]
    | popFromWait _ _ hopen =>
      rw [hclosed] at hopen
      contradiction
    | popFromFailed => exact of_lost rfl rfl
  | handlerNudge hpc | handlerFinish _ hpc =>
    refine hmove rfl (by rw [hpc]; rfl) (fun _ => rfl) ?_
    rw [hpc]
    exact fun _ => Or.inr
  | handlerFail _ hpc | handlerTimeout hpc | handlerCompleted hpc
  | handlerNothingCompleted hpc | handlerUnassign hpc =>
    exact hmove rfl (by rw [hpc]; rfl) (fun _ => rfl) (by simp [serving])
  | handlerKill | handlerCleanupFails | dyingCleanup | dyingKeep
  | dyingCleanupFails =>
    exact of_lost rfl rfl
  | handlerCleanup hpc | handlerKeep hpc =>
    refine hmove rfl (by rw [hpc]; rfl) ?_ (by simp [serving])
    rw [hpc]
    exact id

omit hstep hexclusive' hclosed hspare hexclusive

omit [DecidableEq Handler] in
theorem close (hexclusive : Exclusive pool) (hexclusive' : Exclusive (pool.call .close))
    (htended : Tended pool) (hopen : pool.group.closed = false)
    (hcard : pool.pending.card ≤ Fintype.card Handler) :
    Spare (pool.call .close) := by
  by_cases hnone : ∃ handler, (pool.handler handler).lost = true
  · exact Or.inl hnone
  · have heffect := pool.effect_call .close
    generalize pool.reply .close = reply at heffect
    have hpending : (pool.call .close).pending = pool.pending := by
      ext key
      rw [mem_pending hexclusive', mem_pending hexclusive]
      cases heffect with
      | close _ hinfo =>
        rw [hinfo]
        rfl
    have hrunners : (pool.call .close).runners = univ := by
      rw [eq_univ_iff_forall]
      intro handler
      rw [mem_runners]
      change (pool.handler handler).running = true
      have hinside : (pool.handler handler).hasReturned = false := by
        rw [Bool.eq_false_iff]
        intro hreturned
        rw [htended.returned handler hreturned] at hopen
        contradiction
      have hkept : (pool.handler handler).lost = false := by
        rw [Bool.eq_false_iff]
        exact fun hlost => hnone ⟨handler, hlost⟩
      simp [running, hinside, hkept]
    refine Or.inr ?_
    rwa [hpending, hrunners, card_univ]

omit [DecidableEq Handler] in
/-- When all threads have returned, the queues are empty. -/
theorem queue_eq_nil (hspare : Spare pool) (hexclusive : Exclusive pool)
    (hreturned : ∀ handler, (pool.handler handler).hasReturned = true) (key : Bytes) :
    (pool.group.info key).queue = [] := by
  have hnone : pool.runners = ∅ := by
    rw [eq_empty_iff_forall_notMem]
    intro handler hmem
    rw [mem_runners, running, hreturned handler] at hmem
    simp at hmem
  rcases hspare with ⟨handler, hlost⟩ | hcard
  · have hboth := hreturned handler
    cases hpc : pool.handler handler <;>
      simp [hpc, lost, hasReturned] at hlost hboth
  · rw [hnone, card_empty, Nat.le_zero, card_eq_zero] at hcard
    by_contra hqueue
    have hmem := (mem_pending hexclusive).mpr (Or.inl hqueue)
    rw [hcard] at hmem
    simp at hmem

end Spare

end Pool

namespace TaskManager

variable {Proc Index Query Worker Handler Searcher : Type}
  [TaskObject Proc] [TaskObject Index] [TaskObject Query]
  [DecidableEq Worker] [DecidableEq Handler] [DecidableEq Searcher]
  {contents : TaskContents Proc Index}
  {manager next : TaskManager Proc Index Query Worker Handler Searcher}
  {event : ManagerEvent Proc Index Query Worker Handler Searcher}

/-- `join()` stops the indexing threads after it has found the indexing group
drained. -/
theorem Step.drained_of_stoppingIndexing (hstep : Step contents manager event next)
    (hstage : next.stage = .stoppingIndexing) :
    manager.stage = .stoppingIndexing ∨ manager.indexing.group.Drained := by
  cases hstep with
  | forwardPush => exact Or.inl (by simpa using hstage)
  | drainIndexing _ hempty =>
    exact Or.inr (drained_of_closedAndEmpty hempty)
  | _ => first | exact Or.inl hstage | contradiction

/-- Only `join()` stops an indexing thread. -/
theorem Step.handlerStop (hstep : Step contents manager event next) {handler : Handler}
    (hstop : next.indexing.handlerStop handler = true) :
    manager.indexing.handlerStop handler = true ∨ manager.stage = .stoppingIndexing := by
  cases hstep with
  | @indexing own after hstep hown =>
    refine Or.inl ?_
    cases hstep <;> first | exact hstop | simp [PoolEvent.own] at hown
  | forwardPush attempt =>
    rw [indexing_pushClone] at hstop
    exact Or.inl hstop
  | stopIndexing _ hstage => exact Or.inr hstage
  | _ => exact Or.inl hstop

theorem Step.drained_indexing (hstep : Step contents manager event next)
    (hdrained : manager.indexing.group.Drained) :
    next.indexing.group.Drained := by
  rcases hstep.indexing_eq with hsame | ⟨own, hown⟩
  · rwa [hsame]
  · exact hown.drained hdrained

/-- What holds of the indexing threads in every run. -/
structure Supervised
    (manager : TaskManager Proc Index Query Worker Handler Searcher) :
    Prop where
  stage : manager.stage = .stoppingIndexing → manager.indexing.group.Drained
  stop : ∀ handler, manager.indexing.handlerStop handler = true →
    manager.indexing.group.Drained
  tended : manager.indexing.Tended

theorem Supervised.step (hsupervised : Supervised manager)
    (hexclusive : manager.indexing.Exclusive) (hstep : Step contents manager event next) :
    Supervised next := by
  constructor
  · intro hstage
    rcases hstep.drained_of_stoppingIndexing hstage with hbefore | hbefore
    · exact hstep.drained_indexing (hsupervised.stage hbefore)
    · exact hstep.drained_indexing hbefore
  · intro handler hstop
    rcases hstep.handlerStop hstop with hbefore | hbefore
    · exact hstep.drained_indexing (hsupervised.stop handler hbefore)
    · exact hstep.drained_indexing (hsupervised.stage hbefore)
  · rcases hstep.indexing_eq with hsame | ⟨own, hown⟩
    · rw [hsame]
      exact hsupervised.tended
    · exact hsupervised.tended.step hexclusive
        (fun handler hstop => (hsupervised.stop handler hstop).1) hown

theorem Reachable.supervised (hreachable : Reachable contents manager) :
    Supervised manager := by
  apply invariant _ _ hreachable
  · rintro _ ⟨fd, rfl⟩
    refine ⟨by simp [start], by simp [start, Pool.start], ?_⟩
    exact Pool.Tended.start _ rfl rfl
  · intro state event after hbefore hsupervised hstep
    exact hsupervised.step (Reachable.orderly_indexing hbefore).exclusive hstep

variable [Fintype Handler]

/-- When the indexing group is closed there is a thread for every collection
that has indexing tasks or a thread in its inner loop. -/
def SpareStep (contents : TaskContents Proc Index)
    (manager : TaskManager Proc Index Query Worker Handler Searcher)
    (event : ManagerEvent Proc Index Query Worker Handler Searcher)
    (next : TaskManager Proc Index Query Worker Handler Searcher) : Prop :=
  Step contents manager event next ∧
    (event = .main .closingIndexing →
      manager.indexing.pending.card ≤ Fintype.card Handler)

/-- The managers that such steps lead to. -/
def SparelyReachable (contents : TaskContents Proc Index) :
    TaskManager Proc Index Query Worker Handler Searcher → Prop :=
  Transition.Reachable (fun manager => ∃ fd, manager = start fd)
    (SpareStep contents)

theorem SparelyReachable.reachable (hreachable : SparelyReachable contents manager) :
    Reachable contents manager := by
  apply invariant _ _ hreachable
  · exact fun state hstart => .initial hstart
  · exact fun state event after _ hbefore hstep => .step hbefore hstep.1

theorem SpareStep.spare (hreachable : Reachable contents manager)
    (hspare : manager.indexing.group.closed = true → manager.indexing.Spare)
    (hstep : SpareStep contents manager event next)
    (hclosed : next.indexing.group.closed = true) : next.indexing.Spare := by
  obtain ⟨hstep, hcard⟩ := hstep
  have hnext : Reachable contents next := .step hreachable hstep
  have hexclusive := hreachable.orderly_indexing.exclusive
  have hexclusive' := hnext.orderly_indexing.exclusive
  have hsupervised := hreachable.supervised
  cases hbefore : manager.indexing.group.closed with
  | true =>
    rcases hstep.indexing_eq with hsame | ⟨own, hown⟩
    · rw [hsame]
      exact hspare hbefore
    · exact (hspare hbefore).step hown hexclusive' hbefore hexclusive
        hsupervised.tended hsupervised.stop
  | false =>
    rcases hstep.closed_indexing hclosed with hstill | ⟨rfl, _⟩
    · rw [hbefore] at hstill
      contradiction
    · cases hstep with
      | closeIndexing =>
        exact Pool.Spare.close hexclusive hexclusive' hsupervised.tended
          hbefore (hcard rfl)

/-- In a run in which the indexing group is closed while there are enough
threads, all its queues are empty once all threads have returned. -/
theorem indexing_queues_drained
    (hreachable : SparelyReachable contents manager)
    (hclosed : manager.indexing.group.closed = true)
    (hreturned : ∀ handler,
      (manager.indexing.handler handler).hasReturned = true)
    (key : Bytes) : (manager.indexing.group.info key).queue = [] := by
  have hspare : manager.indexing.group.closed = true →
      manager.indexing.Spare := by
    apply Transition.Reachable.invariant _ _ hreachable
    · rintro _ ⟨fd, rfl⟩
      simp [start, Pool.start, TaskQueueGroup.create, TaskQueueGroup.setNudge]
    · intro state event after hbefore hspare hstep
      exact hstep.spare (SparelyReachable.reachable hbefore) hspare
  exact (hspare hclosed).queue_eq_nil
    hreachable.reachable.orderly_indexing.exclusive hreturned key

section Witness

/-- Two collections get an indexing task each, and the manager stops up to the
close of the indexing group. -/
def twoCollections (Handler : Type) : List (ManagerMove BareTask IndexingTask
    (Fin 1) Handler) :=
  [.processing (.push (ascii "a") ⟨1, true⟩ true),
    .processing (.push (ascii "b") ⟨2, true⟩ true),
    .processing (.runWorker 0),
    .call 0 (ascii "a") (.other 0),
    .lock 0,
    .push 0 ⟨1⟩,
    .processing (.finishWorker 0),
    .processing (.runWorker 0),
    .call 0 (ascii "b") (.other 0),
    .lock 0,
    .push 0 ⟨2⟩,
    .processing (.finishWorker 0)] ++ closingMoves

/-- A thread takes a queue, performs its task and finds the queue empty. -/
def serveOne {Handler : Type} (handler : Handler) : List (ManagerMove BareTask
    IndexingTask (Fin 1) Handler) :=
  [.indexing (.runHandler handler),
    .indexing (.runHandler handler),
    .indexing (.finishHandler handler true),
    .indexing (.runHandler handler),
    .indexing (.runHandler handler)]

/-- The main thread moves on only while there are enough threads. -/
def sparely
    (manager : Small 1 2) :
    SmallMove 1 2 → Bool
  | .main _ => decide (manager.indexing.pending.card ≤ Fintype.card (Fin 2))
  | _ => true

theorem isSome_sparely : (runMoves plainContents sparely
      (twoCollections (Fin 2) ++ serveOne 0 ++ serveOne 1)).isSome = true := by
  decide

/-- Two threads have served two collections. -/
def drainedState : Small 1 2 :=
  (runMoves plainContents sparely
    (twoCollections (Fin 2) ++ serveOne 0 ++ serveOne 1)).get isSome_sparely

theorem indexing_queues_drained_drainedState :
    (∀ handler, (drainedState.indexing.handler handler).hasReturned = true) ∧
      ∀ key, (drainedState.indexing.group.info key).queue = [] := by
  have hreachable : SparelyReachable plainContents drainedState := by
    apply reachable_runMoves _ (Option.some_get isSome_sparely).symm
    intro state move next hallowed hstep
    refine ⟨hstep, ?_⟩
    intro hevent
    rw [eq_main hevent] at hallowed
    exact of_decide_eq_true hallowed
  have hreturned : ∀ handler,
      (drainedState.indexing.handler handler).hasReturned = true := by decide
  exact ⟨hreturned,
    indexing_queues_drained hreachable (by decide) hreturned⟩

theorem isSome_strandedMoves : (runMoves plainContents anyMove
      (twoCollections (Fin 1) ++ serveOne 0)).isSome = true := by
  decide

/-- One thread has served one of two collections. -/
def strandedState : Small 1 1 :=
  (runMoves plainContents anyMove
    (twoCollections (Fin 1) ++ serveOne 0)).get isSome_strandedMoves

/-- All indexing threads can return while a queue has tasks. -/
theorem indexing_queue_stranded :
    Reachable plainContents strandedState ∧
      strandedState.indexing.group.closed = true ∧
      (∀ handler,
        (strandedState.indexing.handler handler).hasReturned = true) ∧
      (strandedState.indexing.group.info (ascii "b")).queue = [⟨2⟩] := by
  refine ⟨?_, by decide, by decide, by decide⟩
  exact .of_runMoves (Option.some_get isSome_strandedMoves).symm

end Witness

end TaskManager

end Restpose
