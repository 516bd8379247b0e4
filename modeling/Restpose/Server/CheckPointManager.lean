import Restpose.Json.Value

/-!
# Checkpoints and their errors

Errors of processing and indexing are collected for each collection until the
next checkpoint is reached there, which takes them over.  A checkpoint is made
known when it is handed out or when it is reached, whichever comes first, and is
forgotten when nobody has asked for it for a while.

The model follows `checkpoints.cc`.  The maps hold pointers that may be null,
and each call reads the clock once.
-/

namespace Restpose

structure IndexingError where
  msg : Bytes
  docType : Bytes
  docId : Bytes
  deriving DecidableEq

/-- A member that is left out if it is empty. -/
def Json.memberUnlessEmpty (name value : Bytes) :
    List (Bytes × Json) :=
  if value = [] then [] else [(name, .string value)]

def IndexingError.toJson (error : IndexingError) : Json :=
  .object (Json.memberUnlessEmpty (ascii "doc_id") error.docId ++
    Json.memberUnlessEmpty (ascii "doc_type") error.docType ++
    [(ascii "msg", .string error.msg)])

/-- `IndexingErrorLog`.  The count is an `unsigned int`. -/
structure IndexingErrorLog where
  errors : List IndexingError
  totalErrors : ℕ
  maxErrors : ℕ

namespace IndexingErrorLog

/-- `IndexingErrorLog(max_errors)`. -/
def create (maxErrors : ℕ) : IndexingErrorLog :=
  ⟨[], 0, maxErrors⟩

def appendError (log : IndexingErrorLog) (error : IndexingError) :
    IndexingErrorLog :=
  { log with
    errors := if log.errors.length < log.maxErrors then log.errors ++ [error]
      else log.errors
    totalErrors := (log.totalErrors + 1) % 2 ^ 32 }

end IndexingErrorLog

structure CheckPoint where
  errors : Option IndexingErrorLog
  lastTouched : ℚ
  reached : Bool

namespace CheckPoint

/-- `CheckPoint()`. -/
def create (now : ℚ) : CheckPoint :=
  ⟨none, now, false⟩

def setReached (_ : CheckPoint) (now : ℚ) (errors : Option IndexingErrorLog) :
    CheckPoint :=
  ⟨errors, now, true⟩

/-- The JSON of `CheckPoint::get_state`. -/
def stateJson (point : CheckPoint) : Json :=
  if point.reached then
    match point.errors with
    | some log => .object [
        (ascii "errors", .array (log.errors.map IndexingError.toJson)),
        (ascii "reached", .bool true),
        (ascii "total_errors", .uint log.totalErrors)]
    | none => .object [
        (ascii "errors", .array []),
        (ascii "reached", .bool true),
        (ascii "total_errors", .int 0)]
  else .object [(ascii "reached", .bool false)]

end CheckPoint

/-- The `points` of `CheckPoints`. -/
abbrev CheckPoints := StdMap (Option CheckPoint)

namespace CheckPoints

def expire (points : CheckPoints) (now maxAge : ℚ) : CheckPoints :=
  points.filter fun _ entry =>
    match entry with
    | none => false
    | some point => decide (now - point.lastTouched < maxAge)

/-- The entry for a checkpoint, made if it is null. -/
def ensure (points : CheckPoints) (now : ℚ) (checkid : Bytes) :
    CheckPoint :=
  (StdMap.pointee points checkid).getD (CheckPoint.create now)

def publishCheckpoint (points : CheckPoints) (now : ℚ)
    (checkid : Bytes) : CheckPoints :=
  points.insert checkid (some (points.ensure now checkid))

def setReached (points : CheckPoints) (now : ℚ) (checkid : Bytes)
    (errors : Option IndexingErrorLog) : CheckPoints :=
  points.insert checkid
    (some ((points.ensure now checkid).setReached now errors))

/-- `CheckPoints::get_state`, which touches the checkpoint. -/
def getState (points : CheckPoints) (now : ℚ) (checkid : Bytes) :
    CheckPoints × Json :=
  match StdMap.pointee points checkid with
  | none => (points, .null)
  | some point =>
      (points.insert checkid (some { point with lastTouched := now }),
        point.stateJson)

def idsToJson (points : CheckPoints) : Json :=
  .array ((points.keys.filter fun checkid =>
    (StdMap.pointee points checkid).isSome).map .string)

end CheckPoints

structure CheckPointManager where
  recentErrors : StdMap (Option IndexingErrorLog)
  checkpoints : StdMap (Option CheckPoints)
  maxRecentErrors : ℕ
  expiryTime : ℚ

namespace CheckPointManager

def create (maxRecentErrors : ℕ) (expiryTime : ℚ) : CheckPointManager :=
  ⟨∅, ∅, maxRecentErrors, expiryTime⟩

def appendError (manager : CheckPointManager) (collName : Bytes)
    (error : IndexingError) : CheckPointManager :=
  let log := (StdMap.pointee manager.recentErrors collName).getD
    (IndexingErrorLog.create manager.maxRecentErrors)
  { manager with
    recentErrors :=
      manager.recentErrors.insert collName (some (log.appendError error)) }

/-- The checkpoints of a collection without the old ones, made if there are
none. -/
def current (manager : CheckPointManager) (now : ℚ) (collName : Bytes) :
    CheckPoints :=
  match StdMap.pointee manager.checkpoints collName with
  | none => ∅
  | some points => points.expire now manager.expiryTime

def publishCheckpoint (manager : CheckPointManager) (now : ℚ)
    (collName checkid : Bytes) : CheckPointManager :=
  { manager with
    checkpoints := manager.checkpoints.insert collName
      (some ((manager.current now collName).publishCheckpoint now checkid)) }

def idsToJson (manager : CheckPointManager) (now : ℚ)
    (collName : Bytes) : CheckPointManager × Json :=
  match StdMap.pointee manager.checkpoints collName with
  | none => (manager, .array [])
  | some points =>
      let expired := points.expire now manager.expiryTime
      ({ manager with
        checkpoints := manager.checkpoints.insert collName (some expired) },
        expired.idsToJson)

def setReached (manager : CheckPointManager) (now : ℚ)
    (collName checkid : Bytes) : CheckPointManager :=
  { manager with
    checkpoints := manager.checkpoints.insert collName
      (some ((manager.current now collName).setReached now checkid
        (StdMap.pointee manager.recentErrors collName)))
    recentErrors := manager.recentErrors.erase collName }

def getState (manager : CheckPointManager) (now : ℚ)
    (collName checkid : Bytes) : CheckPointManager × Json :=
  match StdMap.pointee manager.checkpoints collName with
  | none => (manager, .null)
  | some points =>
      let state := (points.expire now manager.expiryTime).getState now checkid
      ({ manager with
        checkpoints := manager.checkpoints.insert collName (some state.1) },
        state.2)

/-- The calls on a manager. -/
inductive Action where
  | appendError (collName : Bytes) (error : IndexingError)
  | publishCheckpoint (collName checkid : Bytes)
  | setReached (collName checkid : Bytes)
  | idsToJson (collName : Bytes)
  | getState (collName checkid : Bytes)
  deriving DecidableEq

/-- A call and its time. -/
structure Call where
  now : ℚ
  action : Action

def run (manager : CheckPointManager) (call : Call) : CheckPointManager :=
  match call.action with
  | .appendError collName error => manager.appendError collName error
  | .publishCheckpoint collName checkid =>
      manager.publishCheckpoint call.now collName checkid
  | .setReached collName checkid => manager.setReached call.now collName checkid
  | .idsToJson collName => (manager.idsToJson call.now collName).1
  | .getState collName checkid => (manager.getState call.now collName checkid).1

end CheckPointManager

end Restpose
