import Restpose.Collection.PoolHandles

/-!
# Runs of the pool of handles

Deleting a collection destroys its pooled handles and makes the pool forget
those in use.  Over whole runs of calls, no reader that was created before the
deletion is handed out after it.
-/

namespace Restpose

open List Option StdMap

namespace CollectionPool

/-! ## Deleting -/

section Delete

variable {pool : CollectionPool} {name : Bytes} {pointer : Pointer}

theorem heap_del_of_notMem (hreader : pointer ∉ pool.readers name)
    (hwriter : pool.writer name ≠ some pointer) :
    (pool.del name).heap pointer = pool.heap pointer := by
  have hpointer : pointer ∉ (pool.writer name).toList := by
    rwa [mem_toList]
  calc (pool.del name).heap pointer
      = (pool.destroy (pool.readers name)).heap pointer := if_neg hpointer
    _ = pool.heap pointer := if_neg hreader

theorem heap_of_heap_del {handle : CollectionHandle}
    (halive : (pool.del name).heap pointer = some handle) :
    pool.heap pointer = some handle := by
  change (if _ then none else if _ then none else pool.heap pointer) = _ at halive
  split at halive
  · cases halive
  · split at halive
    · cases halive
    · exact halive

/-- Handles on other collections stay as they are. -/
theorem Sound.heap_del_of_ne (hsound : pool.Sound) {other : Bytes} (hne : other ≠ name)
    {writable : Bool} {serial : ℕ}
    (halive : pool.heap pointer = some ⟨other, writable, serial⟩) :
    (pool.del name).heap pointer = some ⟨other, writable, serial⟩ := by
  rw [heap_del_of_notMem, halive]
  · intro hreader
    obtain ⟨-, serial', halive', -⟩ := hsound.reader name pointer hreader
    rw [halive] at halive'
    cases halive'
    exact hne rfl
  · intro hwriter
    obtain ⟨-, serial', halive'⟩ := hsound.writer name pointer hwriter
    rw [halive] at halive'
    cases halive'
    exact hne rfl

variable (other : Bytes)

theorem readers_del : (pool.del name).readers other =
    if other = name then [] else pool.readers other :=
  listed_erase ..

theorem inUse_del : (pool.del name).inUse other =
    if other = name then [] else pool.inUse other :=
  listed_erase ..

theorem writer_del : (pool.del name).writer other =
    if other = name then none else pool.writer other :=
  pointee_erase ..

theorem deleted_del_self :
    (pool.del name).deleted name = pool.created := Function.update_self ..

theorem deleted_del_of_ne {other : Bytes} (hne : other ≠ name) :
    (pool.del name).deleted other = pool.deleted other :=
  Function.update_of_ne hne _ _

theorem sound_del (hsound : pool.Sound) (name : Bytes) : (pool.del name).Sound where
  reader := by
    intro other pointer hpointer
    rw [readers_del] at hpointer
    split at hpointer
    next => cases hpointer
    next hne =>
      obtain ⟨hheld, serial, halive, hrecent⟩ := hsound.reader other pointer hpointer
      refine ⟨hheld, serial, hsound.heap_del_of_ne hne halive, ?_⟩
      rwa [deleted_del_of_ne hne]
  readers_nodup := by
    intro other
    rw [readers_del]
    split
    · exact nodup_nil
    · exact hsound.readers_nodup other
  readers_length := by
    intro other
    rw [readers_del]
    split
    · exact Nat.zero_le _
    · exact hsound.readers_length other
  used := by
    intro other pointer hpointer
    rw [inUse_del] at hpointer
    split at hpointer
    next => cases hpointer
    next hne =>
      obtain ⟨hheld, serial, halive, hrecent⟩ := hsound.used other pointer hpointer
      refine ⟨hheld, serial, hsound.heap_del_of_ne hne halive, ?_⟩
      rwa [deleted_del_of_ne hne]
  used_nodup := by
    intro other
    rw [inUse_del]
    split
    · exact nodup_nil
    · exact hsound.used_nodup other
  writer := by
    intro other pointer hpointer
    rw [writer_del] at hpointer
    split at hpointer
    next => cases hpointer
    next hne =>
      obtain ⟨hheld, serial, halive⟩ := hsound.writer other pointer hpointer
      exact ⟨hheld, serial, hsound.heap_del_of_ne hne halive⟩
  held_alive := by
    intro pointer hheld
    rw [heap_del_of_notMem]
    · exact hsound.held_alive pointer hheld
    · exact fun hreader => (hsound.reader name pointer hreader).1 hheld
    · exact fun hwriter => (hsound.writer name pointer hwriter).1 hheld
  serial_lt := fun pointer handle halive =>
    hsound.serial_lt pointer handle (heap_of_heap_del halive)
  deleted_le := by
    intro other
    by_cases heq : other = name
    · subst heq
      exact deleted_del_self.le
    · rw [deleted_del_of_ne heq]
      exact hsound.deleted_le other

end Delete

/-! ## Runs -/

section Runs

variable {pool after : CollectionPool}

theorem sound_step (hsound : pool.Sound) {call : Call} (hstep : Step pool call after) :
    after.Sound := by
  obtain ⟨hallowed, rfl⟩ := hstep
  cases call with
  | getReadonly name fresh opens =>
    exact sound_getReadonly hsound hallowed name opens
  | getWritable name fresh opens =>
    exact sound_getWritable hsound hallowed name opens
  | release pointer => exact sound_release hsound hallowed
  | del name => exact sound_del hsound name

theorem Reachable.sound (hreachable : Reachable pool) : pool.Sound := by
  refine Transition.Reachable.invariant ?_ ?_ hreachable
  · rintro state rfl
    exact sound_new
  · exact fun _ _ _ _ hsound hstep => sound_step hsound hstep

theorem deleted_takeOrCreate {name : Bytes} {fresh pointer : Pointer}
    {taken : Option (Pointer × CollectionPool)}
    (htaken : ∀ pointer rest, taken = some (pointer, rest) → rest.deleted = pool.deleted)
    (hobtained : pool.takeOrCreate name fresh taken = some (pointer, after)) :
    after.deleted = pool.deleted := by
  unfold takeOrCreate at hobtained
  cases taken with
  | some found =>
    cases hobtained
    exact htaken _ _ rfl
  | none =>
    cases hvalid : validateCollname name with
    | some error =>
      rw [hvalid] at hobtained
      cases hobtained
    | none =>
      rw [hvalid] at hobtained
      cases hobtained
      rfl

theorem deleted_getReadonly (name : Bytes) (fresh : Pointer) (opens : Bool) :
    (pool.getReadonly name fresh opens).2.deleted = pool.deleted := by
  unfold getReadonly
  cases hobtained : pool.takeOrCreate name fresh (pool.takeReader name) with
  | none => rfl
  | some obtained =>
    have hdeleted := deleted_takeOrCreate (fun pointer rest htaken => by
      obtain ⟨last, -, heq⟩ := map_eq_some_iff.mp htaken
      cases heq
      rfl) hobtained
    cases opens with
    | false | true => exact hdeleted

theorem deleted_getWritable (name : Bytes) (fresh : Pointer) (opens : Bool) :
    (pool.getWritable name fresh opens).2.deleted = pool.deleted := by
  unfold getWritable
  cases hobtained : pool.takeOrCreate name fresh (pool.takeWriter name) with
  | none => rfl
  | some obtained =>
    have hdeleted := deleted_takeOrCreate (fun pointer rest htaken => by
      obtain ⟨last, -, heq⟩ := map_eq_some_iff.mp htaken
      cases heq
      rfl) hobtained
    cases opens with
    | false | true => exact hdeleted

theorem deleted_release (pointer : Option Pointer) :
    (pool.release pointer).deleted = pool.deleted := by
  cases pointer with
  | none => rfl
  | some pointer =>
    unfold release
    cases halive : pool.heap pointer with
    | none => simp only [halive]
    | some handle =>
      simp only [halive]
      split
      · unfold releaseWriter
        split <;> rfl
      · unfold releaseReader
        split
        · simp only
          split <;> rfl
        · rfl

theorem deleted_le_of_step (hsound : pool.Sound) {call : Call}
    (hstep : Step pool call after) (name : Bytes) :
    pool.deleted name ≤ after.deleted name := by
  obtain ⟨-, rfl⟩ := hstep
  cases call with
  | getReadonly other fresh opens =>
    exact (congrFun (deleted_getReadonly other fresh opens) name).ge
  | getWritable other fresh opens =>
    exact (congrFun (deleted_getWritable other fresh opens) name).ge
  | release pointer => exact (congrFun (deleted_release pointer) name).ge
  | del other =>
    by_cases heq : name = other
    · subst heq
      exact (hsound.deleted_le name).trans deleted_del_self.ge
    · exact (deleted_del_of_ne heq).ge

theorem Sound.deleted_le_of_steps (hsound : pool.Sound) {name : Bytes}
    (hsteps : Transition.Steps Step (pool.del name) after) :
    after.Sound ∧ pool.created ≤ after.deleted name := by
  induction hsteps with
  | refl => exact ⟨sound_del hsound name, deleted_del_self.ge⟩
  | tail _ hstep ih =>
    exact ⟨sound_step ih.1 hstep, ih.2.trans (deleted_le_of_step ih.1 hstep name)⟩

/-- A reader that is handed out becomes known to be in use. -/
theorem mem_inUse_of_getReadonly {name : Bytes} {fresh pointer : Pointer} {opens : Bool}
    (hreturned : (pool.getReadonly name fresh opens).1 = some pointer) :
    pointer ∈ (pool.getReadonly name fresh opens).2.inUse name := by
  unfold getReadonly at hreturned ⊢
  cases hobtained : pool.takeOrCreate name fresh (pool.takeReader name) with
  | none =>
    rw [hobtained] at hreturned
    cases hreturned
  | some obtained =>
    rw [hobtained] at hreturned
    cases opens with
    | false => cases hreturned
    | true =>
      cases hreturned
      change obtained.1 ∈ listed (Std.ExtTreeMap.insert _ name _) name
      rw [listed_insert, if_pos rfl]
      exact mem_append_right _ (mem_singleton_self _)

/-- The pool lists are short, and what is in them is alive, had by nobody and
in one place only. -/
structure Tidy (pool : CollectionPool) : Prop where
  short : ∀ name, (pool.readers name).length ≤ maxCachedReadersPerCollection
  alive : ∀ name pointer, pointer ∈ pool.readers name ∨
    pool.writer name = some pointer → pool.heap pointer ≠ none
  unused : ∀ name pointer, pointer ∈ pool.readers name ∨
    pool.writer name = some pointer →
      pointer ∉ pool.held ∧ ∀ other, pointer ∉ pool.inUse other
  nodup : ∀ name, (pool.readers name).Nodup
  readers_inj : ∀ name other pointer, pointer ∈ pool.readers name →
    pointer ∈ pool.readers other → name = other
  writer_inj : ∀ name other pointer, pool.writer name = some pointer →
    pool.writer other = some pointer → name = other
  disjoint : ∀ name other pointer, pointer ∈ pool.readers name →
    pool.writer other ≠ some pointer

theorem Sound.tidy (hsound : pool.Sound) : pool.Tidy where
  short := hsound.readers_length
  alive := by
    rintro name pointer (hreader | hwriter)
    · obtain ⟨-, serial, halive, -⟩ := hsound.reader name pointer hreader
      rw [halive]
      exact some_ne_none _
    · obtain ⟨-, serial, halive⟩ := hsound.writer name pointer hwriter
      rw [halive]
      exact some_ne_none _
  unused := by
    intro name pointer hpooled
    have hheld : pointer ∉ pool.held := by
      rcases hpooled with hreader | hwriter
      · exact (hsound.reader name pointer hreader).1
      · exact (hsound.writer name pointer hwriter).1
    exact ⟨hheld, fun other hused =>
      hheld (hsound.used other pointer hused).1⟩
  nodup := hsound.readers_nodup
  readers_inj := by
    intro name other pointer hname hother
    obtain ⟨-, _, halive, -⟩ := hsound.reader name pointer hname
    obtain ⟨-, _, halive', -⟩ := hsound.reader other pointer hother
    rw [halive] at halive'
    cases halive'
    rfl
  writer_inj := by
    intro name other pointer hname hother
    obtain ⟨-, _, halive⟩ := hsound.writer name pointer hname
    obtain ⟨-, _, halive'⟩ := hsound.writer other pointer hother
    rw [halive] at halive'
    cases halive'
    rfl
  disjoint := by
    intro name other pointer hreader hwriter
    obtain ⟨-, _, halive, -⟩ := hsound.reader name pointer hreader
    obtain ⟨-, _, halive'⟩ := hsound.writer other pointer hwriter
    rw [halive] at halive'
    cases halive'

/-- In every pool that calls lead to, the lists are in order.  If a collection
is deleted there, then whatever calls follow, the readers of it that are handed
out were created after that. -/
theorem pool_forgets_deleted (hreachable : Reachable pool) :
    pool.Tidy ∧
    (∀ pointer handle, pool.heap pointer = some handle →
      handle.serial < pool.created) ∧
    ∀ name after, Transition.Steps Step (pool.del name) after →
      ∀ fresh opens pointer, after.heap fresh = none →
        (after.getReadonly name fresh opens).1 = some pointer →
          ∃ handle,
            (after.getReadonly name fresh opens).2.heap pointer =
              some handle ∧
            handle.name = name ∧ pool.created ≤ handle.serial := by
  have hsound := hreachable.sound
  refine ⟨hsound.tidy, hsound.serial_lt, ?_⟩
  intro name after hsteps fresh opens pointer hfresh hreturned
  obtain ⟨hafter, hdeleted⟩ := hsound.deleted_le_of_steps hsteps
  obtain ⟨-, serial, halive, hrecent⟩ :=
    (sound_getReadonly hafter hfresh name opens).used name pointer
      (mem_inUse_of_getReadonly hreturned)
  refine ⟨_, halive, rfl, ?_⟩
  rw [deleted_getReadonly] at hrecent
  exact hdeleted.trans hrecent

end Runs

/-- A reader was handed out. -/
def oneReader : CollectionPool :=
  (new.getReadonly (ascii "books") 1 true).2

theorem reachable_oneReader : Reachable oneReader := .step (.initial rfl)
    (⟨rfl, rfl⟩ : Step new (.getReadonly (ascii "books") 1 true) oneReader)

/-- The collection is deleted, and the reader released after that: it is
destroyed, and the next one is new although it is at the same address. -/
theorem pool_forgets_deleted_oneReader :
    ∃ handle,
      (((oneReader.del (ascii "books")).release (some 1)).getReadonly
        (ascii "books") 1 true).2.heap 1 = some handle ∧
      handle.name = ascii "books" ∧ oneReader.created ≤ handle.serial := by
  obtain ⟨-, -, hforgets⟩ := pool_forgets_deleted reachable_oneReader
  refine hforgets (ascii "books") _ (.tail .refl (?_ : Step _ (.release (some
    1)) ((oneReader.del (ascii "books")).release (some 1)))) 1 true 1 ?_ ?_
  · exact ⟨fun address haddress => by cases haddress; decide, rfl⟩
  · decide
  · decide

end CollectionPool

end Restpose
