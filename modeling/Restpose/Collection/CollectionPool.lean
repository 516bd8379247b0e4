import Restpose.Core.Transition
import Restpose.Json.Utils

/-!
# The pool of collection handles

`CollectionPool` keeps handles on collections that nobody uses, and the
addresses of the readers that are in use.  A reader that comes back is kept
only if its address is still known, so deleting a collection makes the pool
forget the addresses.  Memory is modelled as a heap of handles by address, in
which an address may be used again once the handle at it was destroyed.
-/

namespace Restpose

/-- The address of a `Collection`. -/
abbrev Pointer := ℕ

/-- A `Collection`, with the number of those that were created before it. -/
structure CollectionHandle where
  name : Bytes
  writable : Bool
  serial : ℕ
  deriving DecidableEq

/-- A `CollectionPool`, with the heap that its handles are in, the handles that
callers have, and how many handles had been created when each collection was
deleted last. -/
structure CollectionPool where
  heap : Pointer → Option CollectionHandle
  readonly : StdMap (List Pointer)
  readonlyInUse : StdMap (List Pointer)
  writable : StdMap (Option Pointer)
  held : Finset Pointer
  created : ℕ
  deleted : Bytes → ℕ

namespace CollectionPool

def maxCachedReadersPerCollection : ℕ := 5

def new : CollectionPool where
  heap := fun _ => none
  readonly := ∅
  readonlyInUse := ∅
  writable := ∅
  held := ∅
  created := 0
  deleted := fun _ => 0

/-- The pooled readers of a collection. -/
def readers (pool : CollectionPool) (name : Bytes) : List Pointer :=
  StdMap.listed pool.readonly name

/-- The readers of a collection that are known to be in use. -/
def inUse (pool : CollectionPool) (name : Bytes) : List Pointer :=
  StdMap.listed pool.readonlyInUse name

/-- The pooled writer of a collection. -/
def writer (pool : CollectionPool) (name : Bytes) : Option Pointer :=
  StdMap.pointee pool.writable name

/-- `delete`, on every one of some addresses. -/
def destroy (pool : CollectionPool) (pointers : List Pointer) :
    CollectionPool :=
  { pool with
    heap := fun pointer =>
      if pointer ∈ pointers then none else pool.heap pointer }

/-- `new Collection(name, path)`, at an address that the allocator chose. -/
def create (pool : CollectionPool) (name : Bytes) (fresh : Pointer) :
    CollectionPool :=
  { pool with
    heap := Function.update pool.heap fresh
      (some ⟨name, false, pool.created⟩)
    created := pool.created + 1 }

/-- `open_readonly` and `open_writable`. -/
def setWritable (pool : CollectionPool) (pointer : Pointer)
    (writable : Bool) : CollectionPool :=
  { pool with
    heap := Function.update pool.heap pointer
      ((pool.heap pointer).map fun handle => { handle with writable }) }

/-- The last pooled reader of a collection, taken from the pool. -/
def takeReader (pool : CollectionPool) (name : Bytes) :
    Option (Pointer × CollectionPool) :=
  (pool.readers name).getLast?.map fun pointer =>
    (pointer, { pool with
      readonly := pool.readonly.insert name (pool.readers name).dropLast })

/-- The pooled writer of a collection, taken from the pool. -/
def takeWriter (pool : CollectionPool) (name : Bytes) :
    Option (Pointer × CollectionPool) :=
  (pool.writer name).map fun pointer =>
    (pointer, { pool with writable := pool.writable.insert name none })

/-- The handle to hand out: the one that was taken, or a new one. -/
def takeOrCreate (pool : CollectionPool) (name : Bytes) (fresh : Pointer)
    (taken : Option (Pointer × CollectionPool)) :
    Option (Pointer × CollectionPool) :=
  match taken with
  | some (pointer, rest) => some (pointer, rest)
  | none =>
      match validateCollname name with
      | some _ => none
      | none => some (fresh, pool.create name fresh)

/-- `get_readonly`: the handle, unless it threw.  The address `fresh` is where
a new handle is put, and `opens` says whether `open_readonly` returns. -/
def getReadonly (pool : CollectionPool) (name : Bytes) (fresh : Pointer)
    (opens : Bool) : Option Pointer × CollectionPool :=
  match pool.takeOrCreate name fresh (pool.takeReader name) with
  | none => (none, pool)
  | some (pointer, pool) =>
      if opens then
        let pool := pool.setWritable pointer false
        (some pointer, { pool with
          readonlyInUse :=
            pool.readonlyInUse.insert name (pool.inUse name ++ [pointer])
          held := insert pointer pool.held })
      else (none, pool.destroy [pointer])

def getWritable (pool : CollectionPool) (name : Bytes) (fresh : Pointer)
    (opens : Bool) : Option Pointer × CollectionPool :=
  match pool.takeOrCreate name fresh (pool.takeWriter name) with
  | none => (none, pool)
  | some (pointer, pool) =>
      if opens then
        let pool := pool.setWritable pointer true
        (some pointer, { pool with held := insert pointer pool.held })
      else (none, pool.destroy [pointer])

/-- The part of `release` for a handle that is open for writing. -/
def releaseWriter (pool : CollectionPool) (pointer : Pointer)
    (name : Bytes) : CollectionPool :=
  match pool.writer name with
  | none =>
      { pool with writable := pool.writable.insert name (some pointer) }
  | some _ => pool.destroy [pointer]

/-- The part of `release` for other handles. -/
def releaseReader (pool : CollectionPool) (pointer : Pointer)
    (name : Bytes) : CollectionPool :=
  if pointer ∈ pool.inUse name then
    let pool := { pool with
      readonlyInUse :=
        pool.readonlyInUse.insert name ((pool.inUse name).erase pointer) }
    if (pool.readers name).length < maxCachedReadersPerCollection then
      { pool with
        readonly :=
          pool.readonly.insert name (pool.readers name ++ [pointer]) }
    else pool.destroy [pointer]
  else pool.destroy [pointer]

/-- `release`, of a handle that its caller then no longer has. -/
def release (pool : CollectionPool) : Option Pointer → CollectionPool
  | none => pool
  | some pointer =>
      let pool := { pool with held := pool.held.erase pointer }
      match pool.heap pointer with
      | none => pool
      | some handle =>
          if handle.writable then pool.releaseWriter pointer handle.name
          else pool.releaseReader pointer handle.name

def del (pool : CollectionPool) (name : Bytes) : CollectionPool :=
  let pool := pool.destroy (pool.readers name)
  let pool := pool.destroy (pool.writer name).toList
  { pool with
    readonly := pool.readonly.erase name
    readonlyInUse := pool.readonlyInUse.erase name
    writable := pool.writable.erase name
    deleted := Function.update pool.deleted name pool.created }

/-! ## Calls -/

/-- The calls of the pool. -/
inductive Call where
  | getReadonly (name : Bytes) (fresh : Pointer) (opens : Bool)
  | getWritable (name : Bytes) (fresh : Pointer) (opens : Bool)
  | release (pointer : Option Pointer)
  | del (name : Bytes)
  deriving DecidableEq

/-- What a call returns, if anything, and what it leaves. -/
def run (pool : CollectionPool) : Call → Option Pointer × CollectionPool
  | .getReadonly name fresh opens => pool.getReadonly name fresh opens
  | .getWritable name fresh opens => pool.getWritable name fresh opens
  | .release pointer => (none, pool.release pointer)
  | .del name => (none, pool.del name)

/-- New handles are put at addresses that are free, and only handles that a
caller has are released. -/
def Allowed (pool : CollectionPool) : Call → Prop
  | .getReadonly _ fresh _ => pool.heap fresh = none
  | .getWritable _ fresh _ => pool.heap fresh = none
  | .release pointer => ∀ address ∈ pointer, address ∈ pool.held
  | .del _ => True

def Step (pool : CollectionPool) (call : Call) (after : CollectionPool) :
    Prop :=
  pool.Allowed call ∧ (pool.run call).2 = after

/-- The pools that calls lead to. -/
abbrev Reachable : CollectionPool → Prop :=
  Transition.Reachable (· = new) Step

end CollectionPool

end Restpose
