import Restpose.Collection.CollectionPool

/-!
# The invariant of the pool of handles

Every handle is in at most one place: pooled, had by a caller, or had by the
call that is running.  The calls move handles from place to place, and each
move keeps the invariant.
-/

namespace Restpose

open List Finset Function StdMap

namespace CollectionPool

/-- A pool with its handles in order: those that are pooled are alive, of the
right name and mode, and nobody has them; those that are known to be in use
are had by a caller; and all these readers were created after the last deletion
of their collection. -/
structure Sound (pool : CollectionPool) : Prop where
  reader : ∀ name, ∀ pointer ∈ pool.readers name, pointer ∉ pool.held ∧
    ∃ serial, pool.heap pointer = some ⟨name, false, serial⟩ ∧
      pool.deleted name ≤ serial
  readers_nodup : ∀ name, (pool.readers name).Nodup
  readers_length : ∀ name,
    (pool.readers name).length ≤ maxCachedReadersPerCollection
  used : ∀ name, ∀ pointer ∈ pool.inUse name, pointer ∈ pool.held ∧
    ∃ serial, pool.heap pointer = some ⟨name, false, serial⟩ ∧
      pool.deleted name ≤ serial
  used_nodup : ∀ name, (pool.inUse name).Nodup
  writer : ∀ name pointer, pool.writer name = some pointer →
    pointer ∉ pool.held ∧
      ∃ serial, pool.heap pointer = some ⟨name, true, serial⟩
  held_alive : ∀ pointer ∈ pool.held, pool.heap pointer ≠ none
  serial_lt : ∀ pointer handle, pool.heap pointer = some handle →
    handle.serial < pool.created
  deleted_le : ∀ name, pool.deleted name ≤ pool.created

/-- An address that no part of the pool and no caller has. -/
structure Unplaced (pool : CollectionPool) (pointer : Pointer) :
    Prop extends Sound pool where
  notHeld : pointer ∉ pool.held
  notReader : ∀ name, pointer ∉ pool.readers name
  notWriter : ∀ name, pool.writer name ≠ some pointer

/-- A handle that only the running call has. -/
structure Loose (pool : CollectionPool) (pointer : Pointer)
    (handle : CollectionHandle) : Prop extends Unplaced pool pointer where
  alive : pool.heap pointer = some handle

theorem sound_new : new.Sound where
  reader := by simp [readers, new]
  readers_nodup := by simp [readers, new]
  readers_length := by simp [readers, new]
  used := by simp [inUse, new]
  used_nodup := by simp [inUse, new]
  writer := by simp [CollectionPool.writer, new]
  held_alive := by simp [new]
  serial_lt := by simp [new]
  deleted_le := by simp [new]

section Heap

variable {pool : CollectionPool} {pointer : Pointer} {handle : CollectionHandle}

theorem Unplaced.notUsed (hunplaced : Unplaced pool pointer) (name : Bytes) :
    pointer ∉ pool.inUse name :=
  fun hused => hunplaced.notHeld (hunplaced.used name pointer hused).1

theorem Sound.unplaced (hsound : pool.Sound) (hfree : pool.heap pointer = none) :
    Unplaced pool pointer where
  toSound := hsound
  notHeld := fun hheld => hsound.held_alive pointer hheld hfree
  notReader := by
    intro name hreader
    obtain ⟨-, serial, halive, -⟩ := hsound.reader name pointer hreader
    rw [hfree] at halive
    cases halive
  notWriter := by
    intro name hwriter
    obtain ⟨-, serial, halive⟩ := hsound.writer name pointer hwriter
    rw [hfree] at halive
    cases halive

theorem Unplaced.reheap (hunplaced : Unplaced pool pointer)
    {heap : Pointer → Option CollectionHandle} {created : ℕ}
    (hagree : ∀ other, other ≠ pointer → heap other = pool.heap other)
    (hcreated : pool.created ≤ created)
    (hserial : ∀ handle, heap pointer = some handle → handle.serial < created) :
    Unplaced { pool with heap, created } pointer where
  reader := by
    intro name other hother
    obtain ⟨hheld, serial, halive, hrecent⟩ := hunplaced.reader name other hother
    refine ⟨hheld, serial, ?_, hrecent⟩
    rw [← halive]
    exact hagree other fun heq => hunplaced.notReader name (heq ▸ hother)
  readers_nodup := hunplaced.readers_nodup
  readers_length := hunplaced.readers_length
  used := by
    intro name other hother
    obtain ⟨hheld, serial, halive, hrecent⟩ := hunplaced.used name other hother
    refine ⟨hheld, serial, ?_, hrecent⟩
    rw [← halive]
    exact hagree other fun heq => hunplaced.notUsed name (heq ▸ hother)
  used_nodup := hunplaced.used_nodup
  writer := by
    intro name other hother
    obtain ⟨hheld, serial, halive⟩ := hunplaced.writer name other hother
    refine ⟨hheld, serial, ?_⟩
    rw [← halive]
    exact hagree other fun heq => hunplaced.notWriter name (heq ▸ hother)
  held_alive := by
    intro other hother
    have halive := hunplaced.held_alive other hother
    rwa [← hagree other fun heq => hunplaced.notHeld (heq ▸ hother)] at halive
  serial_lt := by
    intro other found hfound
    by_cases heq : other = pointer
    · subst heq
      exact hserial found hfound
    · refine (hunplaced.serial_lt other found ?_).trans_le hcreated
      rw [← hagree other heq]
      exact hfound
  deleted_le := fun name => (hunplaced.deleted_le name).trans hcreated
  notHeld := hunplaced.notHeld
  notReader := hunplaced.notReader
  notWriter := hunplaced.notWriter

theorem Loose.destroy (hloose : Loose pool pointer handle) :
    (pool.destroy [pointer]).Sound := by
  refine (hloose.reheap ?_ (le_refl _) ?_).toSound
  · intro other hne
    simp [hne]
  · intro found hfound
    simp at hfound

theorem Loose.setWritable (hloose : Loose pool pointer handle) (writable : Bool) :
    Loose (pool.setWritable pointer writable) pointer { handle with writable } where
  toUnplaced := by
    refine hloose.reheap ?_ (le_refl _) ?_
    · exact fun other hne => update_of_ne hne _ _
    · intro found hfound
      rw [update_self, hloose.alive, Option.map_some, Option.some.injEq] at hfound
      rw [← hfound]
      exact hloose.serial_lt pointer handle hloose.alive
  alive := by
    simp [CollectionPool.setWritable, hloose.alive]

theorem Unplaced.create (hunplaced : Unplaced pool pointer) (name : Bytes) :
    Loose (pool.create name pointer) pointer ⟨name, false, pool.created⟩ where
  toUnplaced := by
    refine hunplaced.reheap ?_ (Nat.le_succ _) ?_
    · exact fun other hne => update_of_ne hne _ _
    · intro found hfound
      rw [update_self, Option.some.injEq] at hfound
      rw [← hfound]
      exact Nat.lt_succ_self _
  alive := update_self ..

end Heap

/-! ## Lists of readers -/

section Lists

variable {pool : CollectionPool} {name : Bytes} {pointers : List Pointer}

/-- The pool with other pooled readers of a collection. -/
def setReaders (pool : CollectionPool) (name : Bytes)
    (pointers : List Pointer) : CollectionPool :=
  { pool with readonly := pool.readonly.insert name pointers }

/-- The pool with other readers of a collection known to be in use. -/
def setInUse (pool : CollectionPool) (name : Bytes)
    (pointers : List Pointer) : CollectionPool :=
  { pool with readonlyInUse := pool.readonlyInUse.insert name pointers }

theorem Sound.setReaders (hsound : pool.Sound)
    (hreader : ∀ pointer ∈ pointers, pointer ∉ pool.held ∧
      ∃ serial, pool.heap pointer = some ⟨name, false, serial⟩ ∧
        pool.deleted name ≤ serial)
    (hnodup : pointers.Nodup)
    (hlength : pointers.length ≤ maxCachedReadersPerCollection) :
    (pool.setReaders name pointers).Sound := by
  refine { hsound with
    reader := ?_
    readers_nodup := forall_listed_insert hsound.readers_nodup hnodup
    readers_length := forall_listed_insert
      (p := fun list => list.length ≤ _) hsound.readers_length hlength }
  intro other found hfound
  rcases mem_listed_insert hfound with ⟨rfl, hnew⟩ | ⟨-, hold⟩
  · exact hreader found hnew
  · exact hsound.reader other found hold

theorem Sound.setInUse (hsound : pool.Sound)
    (hused : ∀ pointer ∈ pointers, pointer ∈ pool.held ∧
      ∃ serial, pool.heap pointer = some ⟨name, false, serial⟩ ∧
        pool.deleted name ≤ serial)
    (hnodup : pointers.Nodup) : (pool.setInUse name pointers).Sound := by
  refine { hsound with
    used := ?_
    used_nodup := forall_listed_insert hsound.used_nodup hnodup }
  intro other found hfound
  rcases mem_listed_insert hfound with ⟨rfl, hnew⟩ | ⟨-, hold⟩
  · exact hused found hnew
  · exact hsound.used other found hold

end Lists

/-! ## Handing out -/

section HandOut

variable {pool rest : CollectionPool} {pointer : Pointer} {handle : CollectionHandle}
  {name : Bytes}

theorem loose_takeReader (hsound : pool.Sound)
    (htaken : pool.takeReader name = some (pointer, rest)) :
    ∃ serial, Loose rest pointer ⟨name, false, serial⟩ ∧ rest.deleted name ≤ serial := by
  obtain ⟨last, hlast, heq⟩ := Option.map_eq_some_iff.mp htaken
  obtain ⟨rfl, rfl⟩ := Prod.mk.inj heq
  have hmem : last ∈ pool.readers name := mem_of_getLast? hlast
  have hsplit : pool.readers name = (pool.readers name).dropLast ++ [last] :=
    (dropLast_append_getLast? last hlast).symm
  have hnodup := hsound.readers_nodup name
  rw [hsplit, nodup_append] at hnodup
  obtain ⟨hnodup, -, hfresh⟩ := hnodup
  obtain ⟨hheld, serial, halive, hrecent⟩ := hsound.reader name last hmem
  have hrest := hsound.setReaders (fun found hfound => hsound.reader name found
      (mem_of_mem_dropLast hfound))
    hnodup ((dropLast_sublist _).length_le.trans (hsound.readers_length name))
  refine ⟨serial, ⟨⟨hrest, hheld, ?_, ?_⟩, halive⟩, hrecent⟩
  · intro other hother
    rcases StdMap.mem_listed_insert hother with ⟨rfl, hother⟩ | ⟨hne, hother⟩
    · exact hfresh last hother last (List.mem_singleton_self last) rfl
    · obtain ⟨-, serial', halive', -⟩ := hsound.reader other last hother
      rw [halive] at halive'
      cases halive'
      exact hne rfl
  · intro other hother
    obtain ⟨-, serial', halive'⟩ := hsound.writer other last hother
    rw [halive] at halive'
    cases halive'

theorem loose_takeWriter (hsound : pool.Sound)
    (htaken : pool.takeWriter name = some (pointer, rest)) :
    ∃ serial, Loose rest pointer ⟨name, true, serial⟩ := by
  obtain ⟨found, hfound, heq⟩ := Option.map_eq_some_iff.mp htaken
  obtain ⟨rfl, rfl⟩ := Prod.mk.inj heq
  obtain ⟨hheld, serial, halive⟩ := hsound.writer name found hfound
  have hothers : ∀ other pointer, CollectionPool.writer { pool with
        writable := pool.writable.insert name none } other = some pointer →
      other ≠ name ∧ pool.writer other = some pointer := by
    intro other pointer hother
    by_cases heq : other = name
    · subst heq
      rw [CollectionPool.writer, pointee_insert_self] at hother
      cases hother
    · rw [CollectionPool.writer, pointee_insert_of_ne _ heq] at hother
      exact ⟨heq, hother⟩
  have hrest : Sound { pool with
      writable := pool.writable.insert name none } :=
    { hsound with
      writer := fun other pointer hother =>
        hsound.writer other pointer (hothers other pointer hother).2 }
  refine ⟨serial, ⟨⟨hrest, hheld, ?_, ?_⟩, halive⟩⟩
  · intro other hother
    obtain ⟨-, serial', halive', -⟩ := hsound.reader other found hother
    rw [halive] at halive'
    cases halive'
  · intro other hother
    obtain ⟨hne, hwriter⟩ := hothers other found hother
    obtain ⟨-, serial', halive'⟩ := hsound.writer other found hwriter
    rw [halive] at halive'
    cases halive'
    exact hne rfl

variable {fresh : Pointer}

/-- Whatever was taken, the call has a handle; what is true of a handle that was
taken and of a new one is true of it. -/
theorem loose_takeOrCreate (suits : CollectionPool → CollectionHandle → Prop)
    (hsound : pool.Sound) (hfresh : pool.heap fresh = none)
    (hcreated : suits (pool.create name fresh) ⟨name, false, pool.created⟩)
    {taken : Option (Pointer × CollectionPool)}
    (htaken : ∀ pointer rest, taken = some (pointer, rest) →
      ∃ handle, Loose rest pointer handle ∧ suits rest handle)
    (hobtained : pool.takeOrCreate name fresh taken = some (pointer, rest)) :
    ∃ handle, Loose rest pointer handle ∧ suits rest handle := by
  unfold takeOrCreate at hobtained
  cases taken with
  | some found =>
    cases hobtained
    exact htaken _ _ rfl
  | none =>
    cases hvalid : validateCollname name with
    | some error =>
      rw [hvalid] at hobtained
      cases hobtained
    | none =>
      rw [hvalid] at hobtained
      cases hobtained
      exact ⟨_, (hsound.unplaced hfresh).create name, hcreated⟩

theorem Loose.hold (hloose : Loose pool pointer handle) :
    Sound { pool with held := insert pointer pool.held } where
  reader := by
    intro name other hother
    obtain ⟨hheld, halive⟩ := hloose.reader name other hother
    refine ⟨fun hmem => ?_, halive⟩
    rcases mem_insert.mp hmem with rfl | hmem
    · exact hloose.notReader name hother
    · exact hheld hmem
  readers_nodup := hloose.readers_nodup
  readers_length := hloose.readers_length
  used := by
    intro name other hother
    obtain ⟨hheld, halive⟩ := hloose.used name other hother
    exact ⟨mem_insert_of_mem hheld, halive⟩
  used_nodup := hloose.used_nodup
  writer := by
    intro name other hother
    obtain ⟨hheld, halive⟩ := hloose.writer name other hother
    refine ⟨fun hmem => ?_, halive⟩
    rcases mem_insert.mp hmem with rfl | hmem
    · exact hloose.notWriter name hother
    · exact hheld hmem
  held_alive := by
    intro other hother
    rcases mem_insert.mp hother with rfl | hother
    · exact fun hnone => by simp [hloose.alive] at hnone
    · exact hloose.held_alive other hother
  serial_lt := hloose.serial_lt
  deleted_le := hloose.deleted_le

theorem Loose.use {serial : ℕ} (hloose : Loose pool pointer ⟨name, false, serial⟩)
    (hrecent : pool.deleted name ≤ serial) :
    (setInUse { pool with held := insert pointer pool.held } name
      (pool.inUse name ++ [pointer])).Sound := by
  refine hloose.hold.setInUse ?_ ?_
  · intro found hfound
    rcases mem_append.mp hfound with hold | hnew
    · exact hloose.hold.used name found hold
    · obtain rfl := List.mem_singleton.mp hnew
      exact ⟨Finset.mem_insert_self _ _, serial, hloose.alive, hrecent⟩
  · rw [← concat_eq_append]
    exact (hloose.used_nodup name).concat (hloose.notUsed name)

theorem sound_getReadonly (hsound : pool.Sound) (hfresh : pool.heap fresh = none)
    (name : Bytes) (opens : Bool) :
    (pool.getReadonly name fresh opens).2.Sound := by
  unfold getReadonly
  cases hobtained : pool.takeOrCreate name fresh (pool.takeReader name) with
  | none => exact hsound
  | some obtained =>
    obtain ⟨pointer, rest⟩ := obtained
    obtain ⟨handle, hloose, rfl, hrecent⟩ := loose_takeOrCreate
      (fun rest handle => handle.name = name ∧ rest.deleted name ≤ handle.serial)
      hsound hfresh ⟨rfl, hsound.deleted_le name⟩
      (fun pointer rest htaken => by
        obtain ⟨serial, hloose, hrecent⟩ := loose_takeReader hsound htaken
        exact ⟨_, hloose, rfl, hrecent⟩) hobtained
    cases opens with
    | false => exact hloose.destroy
    | true => exact (hloose.setWritable false).use hrecent

theorem sound_getWritable (hsound : pool.Sound) (hfresh : pool.heap fresh = none)
    (name : Bytes) (opens : Bool) :
    (pool.getWritable name fresh opens).2.Sound := by
  unfold getWritable
  cases hobtained : pool.takeOrCreate name fresh (pool.takeWriter name) with
  | none => exact hsound
  | some obtained =>
    obtain ⟨pointer, rest⟩ := obtained
    obtain ⟨handle, hloose, -⟩ := loose_takeOrCreate (fun _ _ => True)
      hsound hfresh trivial (fun pointer rest htaken => by
        obtain ⟨serial, hloose⟩ := loose_takeWriter hsound htaken
        exact ⟨_, hloose, trivial⟩) hobtained
    cases opens with
    | false => exact hloose.destroy
    | true => exact (hloose.setWritable true).hold

end HandOut

/-! ## Taking back -/

section TakeBack

variable {pool : CollectionPool} {pointer : Pointer} {handle : CollectionHandle}
  {name : Bytes} {serial : ℕ}

theorem Sound.drop (hsound : pool.Sound) (hheld : pointer ∈ pool.held)
    (hunknown : ∀ name, pointer ∉ pool.inUse name)
    (halive : pool.heap pointer = some handle) :
    Loose { pool with held := pool.held.erase pointer } pointer handle where
  reader := by
    intro name other hother
    obtain ⟨hfree, halive⟩ := hsound.reader name other hother
    exact ⟨fun hmem => hfree (mem_of_mem_erase hmem), halive⟩
  readers_nodup := hsound.readers_nodup
  readers_length := hsound.readers_length
  used := by
    intro name other hother
    obtain ⟨hmem, halive⟩ := hsound.used name other hother
    refine ⟨mem_erase.mpr ⟨?_, hmem⟩, halive⟩
    rintro rfl
    exact hunknown name hother
  used_nodup := hsound.used_nodup
  writer := by
    intro name other hother
    obtain ⟨hfree, halive⟩ := hsound.writer name other hother
    exact ⟨fun hmem => hfree (mem_of_mem_erase hmem), halive⟩
  held_alive := fun other hother =>
    hsound.held_alive other (mem_of_mem_erase hother)
  serial_lt := hsound.serial_lt
  deleted_le := hsound.deleted_le
  notHeld := notMem_erase pointer pool.held
  notReader := fun name hother => (hsound.reader name pointer hother).1 hheld
  notWriter := fun name hother => (hsound.writer name pointer hother).1 hheld
  alive := halive

theorem Sound.forget (hsound : pool.Sound) (hknown : pointer ∈ pool.inUse name) :
    ∃ serial, Loose (CollectionPool.setInUse { pool with held := pool.held.erase pointer }
      name
        ((pool.inUse name).erase pointer)) pointer ⟨name, false, serial⟩ ∧
      pool.deleted name ≤ serial := by
  obtain ⟨hheld, serial, halive, hrecent⟩ := hsound.used name pointer hknown
  have hforgotten : (pool.setInUse name ((pool.inUse name).erase pointer)).Sound :=
    hsound.setInUse
      (fun found hfound => hsound.used name found (mem_of_mem_erase hfound))
      ((hsound.used_nodup name).erase pointer)
  refine ⟨serial, hforgotten.drop hheld ?_ halive, hrecent⟩
  intro other hother
  rcases mem_listed_insert hother with ⟨rfl, hother⟩ | ⟨hne, hother⟩
  · exact (hsound.used_nodup other).not_mem_erase hother
  · obtain ⟨-, serial', halive', -⟩ := hsound.used other pointer hother
    rw [halive] at halive'
    cases halive'
    exact hne rfl

theorem Loose.poolReader (hloose : Loose pool pointer ⟨name, false, serial⟩)
    (hrecent : pool.deleted name ≤ serial)
    (hlength : (pool.readers name).length < maxCachedReadersPerCollection) :
    (pool.setReaders name (pool.readers name ++ [pointer])).Sound := by
  refine hloose.toSound.setReaders ?_ ?_ ?_
  · intro found hfound
    rcases mem_append.mp hfound with hold | hnew
    · exact hloose.reader name found hold
    · obtain rfl := List.mem_singleton.mp hnew
      exact ⟨hloose.notHeld, serial, hloose.alive, hrecent⟩
  · rw [← concat_eq_append]
    exact (hloose.readers_nodup name).concat (hloose.notReader name)
  · rw [length_append]
    exact hlength

theorem Loose.poolWriter (hloose : Loose pool pointer ⟨name, true, serial⟩) :
    Sound { pool with
      writable := pool.writable.insert name (some pointer) } := by
  refine { hloose.toSound with writer := ?_ }
  intro other found hfound
  by_cases heq : other = name
  · subst heq
    rw [CollectionPool.writer, pointee_insert_self] at hfound
    cases hfound
    exact ⟨hloose.notHeld, serial, hloose.alive⟩
  · rw [CollectionPool.writer, pointee_insert_of_ne _ heq] at hfound
    exact hloose.writer other found hfound

theorem sound_release (hsound : pool.Sound) {address : Option Pointer}
    (hheld : ∀ pointer ∈ address, pointer ∈ pool.held) :
    (pool.release address).Sound := by
  cases address with
  | none => exact hsound
  | some pointer =>
    have hmem := hheld pointer rfl
    unfold release
    cases halive : pool.heap pointer with
    | none => exact absurd halive (hsound.held_alive pointer hmem)
    | some handle =>
      obtain ⟨name, writable, serial⟩ := handle
      simp only [halive]
      cases writable with
      | true =>
        have hloose := hsound.drop hmem (fun other hother => by
          obtain ⟨-, serial', halive', -⟩ := hsound.used other pointer hother
          rw [halive] at halive'
          cases halive') halive
        rw [if_pos rfl, releaseWriter]
        split
        · exact hloose.poolWriter
        · exact hloose.destroy
      | false =>
        rw [if_neg Bool.false_ne_true, releaseReader]
        split
        next hknown =>
          obtain ⟨serial, hloose, hrecent⟩ := hsound.forget hknown
          simp only
          split
          next hlength => exact hloose.poolReader hrecent hlength
          next => exact hloose.destroy
        next hunknown =>
          refine (hsound.drop hmem (fun other hother => ?_) halive).destroy
          obtain ⟨-, serial', halive', -⟩ := hsound.used other pointer hother
          rw [halive] at halive'
          cases halive'
          exact hunknown hother

end TakeBack

end CollectionPool

end Restpose
