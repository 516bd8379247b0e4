import Restpose.Server.QueueFacts

/-!
# Queues in turn

`pick_queue` goes round the keys from the one that was picked last.  A queue
that could be picked is not passed, so that no other queue is picked twice
before it.
-/

namespace Restpose

open List Option Bool

/-! ## Going round -/

section Round

variable {Key : Type} [LinearOrder Key]

/-- From `cursor` on, `next` comes before `goal`. -/
def Sooner (cursor next goal : Key) : Prop :=
  cursor < next ∧ (goal ≤ cursor ∨ next < goal) ∨
    next ≤ cursor ∧ goal ≤ cursor ∧ next < goal

/-- From `start` on, `cursor` comes before `goal`. -/
def Ahead (start goal cursor : Key) : Prop :=
  cursor = start ∨ start < cursor ∧ cursor < goal ∨
    goal < start ∧ (start < cursor ∨ cursor < goal)

/-- A step that does not go past the goal does not come round to the start. -/
theorem Ahead.step {start goal cursor next : Key} (hahead : Ahead start goal cursor)
    (hne : goal ≠ start) (hsooner : Sooner cursor next goal) :
    next ≠ start ∧ Ahead start goal next := by
  unfold Ahead Sooner at *
  grind

end Round

theorem not_lt_append_zero_iff {key cursor : Bytes} :
    ¬ key < cursor ++ [0] ↔ cursor < key := by
  induction cursor generalizing key with
  | nil =>
    cases key with
    | nil => simp
    | cons byte key => simp [cons_lt_cons_iff]
  | cons first cursor ih =>
    cases key with
    | nil => simp
    | cons byte key =>
      rw [cons_append, cons_lt_cons_iff, cons_lt_cons_iff, ← ih]
      grind

namespace TaskQueueGroup

variable {Task : Type} [TaskObject Task] {group : TaskQueueGroup Task}

/-! ## Picking -/

omit [TaskObject Task] in
theorem pairwise_rotation : group.rotation.Pairwise (Sooner group.lastPopFrom) := by
  have hreached : ∀ key : Bytes, (compare (group.lastPopFrom ++ [0]) key).isLE = true ↔
        group.lastPopFrom < key := by
    intro key
    rw [Ordering.isLE_iff_ne_gt, Std.OrientedCmp.gt_iff_lt,
      compare_eq_lt_iff, not_lt_append_zero_iff]
  have hkeys : group.queues.keys.Pairwise fun left right => left < right :=
    Std.ExtTreeMap.ordered_keys.imp compare_eq_lt_iff.mp
  refine pairwise_append.mpr ⟨?_, ?_, ?_⟩
  · refine (hkeys.filter _).imp_of_mem fun hleft hright hlt => ?_
    rw [mem_filter, hreached] at hleft
    exact .inl ⟨hleft.2, .inr hlt⟩
  · refine (hkeys.filter _).imp_of_mem fun hleft hright hlt => ?_
    rw [mem_filter, not_eq_true', ← not_eq_true, hreached, not_lt] at hleft hright
    exact .inr ⟨hleft.2, hright.2, hlt⟩
  · intro left hleft right hright
    rw [mem_filter, hreached] at hleft
    rw [mem_filter, not_eq_true', ← not_eq_true, hreached, not_lt] at hright
    exact .inl ⟨hleft.2, .inl hright.2⟩

/-- The queue that is picked is the first one that can be. -/
theorem sooner_of_pickQueue {key other : Bytes} {picked : TaskQueueGroup Task}
    (hpick : group.pickQueue = some (key, picked))
    (hother : (group.info other).pickable = true) :
    other = key ∨ Sooner group.lastPopFrom key other := by
  simp only [pickQueue, map_eq_some_iff, Prod.mk.injEq] at hpick
  obtain ⟨found, hfound, rfl, -⟩ := hpick
  obtain ⟨-, before, after, hrotation, hbefore⟩ := find?_eq_some_iff_append.mp hfound
  have hmem : other ∈ group.rotation := by
    rw [mem_rotation_iff]
    apply mem_queues_of_info_ne_fresh
    intro hfresh
    rw [hfresh] at hother
    cases hother
  have hpairwise := group.pairwise_rotation
  rw [hrotation] at hmem hpairwise
  rcases mem_append.mp hmem with hpassed | hmem
  · have hno := hbefore other hpassed
    rw [hother] at hno
    cases hno
  · rcases mem_cons.mp hmem with heq | hafter
    · exact .inl heq
    · have hrest := (pairwise_append.mp hpairwise).2.1
      exact .inr ((pairwise_cons.mp hrest).1 other hafter)

/-- A queue passes the test of `pick_queue` in an operation. -/
def Eligible (group : TaskQueueGroup Task) (operation : Operation Task)
    (key : Bytes) : Prop :=
  ∃ scanned, group.scanned operation = some scanned ∧
    (scanned.info key).pickable = true

/-! ## Runs -/

/-- The group after some operations. -/
def runAll (group : TaskQueueGroup Task) (operations : List (Operation Task)) :
    TaskQueueGroup Task :=
  operations.foldl (fun group operation => (operation.run group).1) group

/-- The queues that some operations pick. -/
def picks : TaskQueueGroup Task → List (Operation Task) → List Bytes
  | _, [] => []
  | group, operation :: operations =>
      (group.picked operation).toList ++
        picks (operation.run group).1 operations

/-- A queue is eligible whenever the operations pick a queue. -/
def AlwaysEligible (queue : Bytes) :
    TaskQueueGroup Task → List (Operation Task) → Prop
  | _, [] => True
  | group, operation :: operations =>
      ((group.picked operation).isSome = true →
        group.Eligible operation queue) ∧
        AlwaysEligible queue (operation.run group).1 operations

variable {queue other : Bytes}

/-- One operation: the queue is picked, or another one before it. -/
theorem ahead_run (hahead : Ahead other queue group.lastPopFrom) (hne : queue ≠ other)
    {operation : Operation Task}
    (heligible : (group.picked operation).isSome = true →
      group.Eligible operation queue) :
    group.picked operation = some queue ∨ group.picked operation ≠ some other ∧
        Ahead other queue (operation.run group).1.lastPopFrom := by
  rw [operation.lastPopFrom_run]
  cases hpicked : group.picked operation with
  | none => exact .inr ⟨(some_ne_none other).symm, hahead⟩
  | some key =>
    rw [hpicked] at heligible
    obtain ⟨scanned, hscanned, hpickable⟩ := heligible rfl
    simp only [picked, hscanned, bind_some, map_eq_some_iff] at hpicked
    obtain ⟨⟨_, after⟩, hpick, rfl⟩ := hpicked
    have hcursor : scanned.lastPopFrom = group.lastPopFrom := by
      cases operation with
      | popAny completed => exact congrArg Prod.snd (frame_complete hscanned)
      | assignHandler =>
        cases hscanned
        rfl
      | _ => cases hscanned
    rcases sooner_of_pickQueue hpick hpickable with rfl | hsooner
    · exact .inl rfl
    · rw [hcursor] at hsooner
      obtain ⟨hother, hnext⟩ := hahead.step hne hsooner
      exact .inr ⟨fun heq => hother (some.inj heq), hnext⟩

/-- The run: as long as the queue has not been picked, the one that was picked
first is not picked again. -/
theorem mem_picks_of_ahead {between : List (Operation Task)} {last : Operation Task}
    (hne : queue ≠ other) (hahead : Ahead other queue group.lastPopFrom)
    (halways : AlwaysEligible queue group (between ++ [last]))
    (hlast : (group.runAll between).picked last = some other) :
    queue ∈ group.picks between := by
  induction between generalizing group with
  | nil =>
    change group.picked last = some other at hlast
    rcases ahead_run hahead hne halways.1 with hqueue | ⟨hnot, -⟩
    · rw [hlast, some.injEq] at hqueue
      exact absurd hqueue.symm hne
    · exact absurd hlast hnot
  | cons operation between ih =>
    rw [picks, mem_append]
    rcases ahead_run hahead hne halways.1 with hqueue | ⟨-, hahead⟩
    · exact .inl (by rw [hqueue]; exact mem_singleton_self queue)
    · exact .inr (ih hahead halways.2 hlast)

/-- Between two picks of a queue every other one that can be picked all the
time has its turn. -/
theorem round_robin {first last : Operation Task}
    {between : List (Operation Task)} (hne : queue ≠ other)
    (hfirst : group.picked first = some other)
    (halways : AlwaysEligible queue (first.run group).1 (between ++ [last]))
    (hlast : ((first.run group).1.runAll between).picked last = some other) :
    queue ∈ (first.run group).1.picks between := by
  apply mem_picks_of_ahead hne _ halways hlast
  rw [first.lastPopFrom_run, hfirst]
  exact .inl rfl

/-- Two queues with two tasks each. -/
theorem round_robin_two :
    ∃ group : TaskQueueGroup BareTask,
      ascii "b" ∈ ((Operation.popAny none).run group).1.picks
        [.popAny none] := by
  let waiting : QueueInfo BareTask := ⟨[⟨1, true⟩, ⟨2, true⟩], ∅, true, false⟩
  let queues : StdMap (QueueInfo BareTask) :=
    (Std.ExtTreeMap.empty.insert (ascii "a") waiting).insert (ascii "b") waiting
  let group : TaskQueueGroup BareTask :=
    { (create 5 9 : TaskQueueGroup BareTask) with queues := queues }
  have hfirst : group.picked (.popAny none) = some (ascii "a") := by
    decide +kernel
  have hlast : (((Operation.popAny none).run group).1.runAll
      [.popAny none]).picked (.popAny none) = some (ascii "a") := by
    decide +kernel
  exact ⟨group, round_robin (by decide) hfirst
    ⟨fun _ => ⟨_, rfl, by decide +kernel⟩,
      fun _ => ⟨_, rfl, by decide +kernel⟩, trivial⟩ hlast⟩

end TaskQueueGroup

end Restpose
