import Restpose.Server.CheckPointManager

/-!
# Accounting of errors

What checkpoints are for, in terms of the calls alone: the errors of a
collection since the last checkpoint, and for each checkpoint whether it was
published and which errors it took over when it was reached.  The manager
agrees with this account as long as no checkpoint gets old, except that it
counts the errors modulo 2^32.
-/

namespace Restpose

open CheckPointManager List Option StdMap Call

/-- The account of the calls on a manager. -/
structure Accounting where
  /-- The errors of a collection since its last checkpoint. -/
  pending : Bytes → List IndexingError
  /-- What is known of a checkpoint: nothing, that it was published, or that it
  was reached, with its errors. -/
  points : Bytes → Bytes → Option (Option (List IndexingError))

namespace Accounting

def empty : Accounting :=
  ⟨fun _ => [], fun _ _ => none⟩

def setPoint (account : Accounting) (collName checkid : Bytes)
    (entry : Option (List IndexingError)) : Accounting :=
  { account with
    points := Function.update account.points collName
      (Function.update (account.points collName) checkid (some entry)) }

def setPending (account : Accounting) (collName : Bytes)
    (errors : List IndexingError) : Accounting :=
  { account with
    pending := Function.update account.pending collName errors }

/-- What a call adds to the account. -/
def step (account : Accounting) (call : CheckPointManager.Call) : Accounting :=
  match call.action with
  | .appendError collName error =>
      account.setPending collName (account.pending collName ++ [error])
  | .publishCheckpoint collName checkid =>
      account.setPoint collName checkid
        ((account.points collName checkid).getD none)
  | .setReached collName checkid =>
      (account.setPoint collName checkid
        (some (account.pending collName))).setPending collName []
  | _ => account

theorem points_setPoint (account : Accounting) (collName checkid other otherId : Bytes)
    (entry : Option (List IndexingError)) :
    (account.setPoint collName checkid entry).points other otherId =
      if other = collName ∧ otherId = checkid then some entry
      else account.points other otherId := by
  by_cases hother : other = collName
  · subst hother
    by_cases hid : otherId = checkid <;> simp [setPoint, hid]
  · simp [setPoint, hother]

theorem pending_setPending (account : Accounting) (collName other : Bytes)
    (errors : List IndexingError) :
    (account.setPending collName errors).pending other =
      if other = collName then errors else account.pending other := by
  by_cases hother : other = collName <;> simp [setPending, hother]

end Accounting

/-- The log of a list of errors; there is none if there are no errors. -/
def IndexingErrorLog.ofErrors (maxErrors : ℕ) (errors : List IndexingError) :
    Option IndexingErrorLog :=
  if errors = [] then none
  else some ⟨errors.take maxErrors, errors.length % 2 ^ 32, maxErrors⟩

theorem IndexingErrorLog.ofErrors_append (maxErrors : ℕ) (errors : List IndexingError)
    (error : IndexingError) :
    ofErrors maxErrors (errors ++ [error]) =
      some (((ofErrors maxErrors errors).getD (create maxErrors)).appendError error) := by
  rw [ofErrors, if_neg (by simp)]
  by_cases hempty : errors = []
  · subst hempty
    cases maxErrors <;> simp [ofErrors, create, appendError]
  · rw [ofErrors, if_neg hempty, getD_some, appendError]
    congr 2
    · simp only [length_take, take_append]
      by_cases hroom : errors.length < maxErrors
      · have hmin : min maxErrors errors.length = errors.length := by omega
        have hone : [error].length ≤ maxErrors - errors.length := by
          rw [length_singleton]
          omega
        rw [hmin, if_pos hroom, take_of_length_le hone]
      · have hmin : min maxErrors errors.length = maxErrors := by omega
        have hfull : maxErrors - errors.length = 0 := by omega
        rw [hmin, if_neg (lt_irrefl maxErrors), hfull, take_zero, append_nil]
    · rw [length_append, length_singleton, Nat.mod_add_mod]

/-- What a checkpoint says: nothing yet, or the errors it has. -/
def CheckPoint.outcome (point : CheckPoint) : Option (Option IndexingErrorLog) :=
  if point.reached then some point.errors else none

namespace CheckPoints

/-- No checkpoint is old. -/
def Young (points : CheckPoints) (now maxAge : ℚ) : Prop :=
  ∀ checkid point, StdMap.pointee points checkid = some point →
    now - point.lastTouched < maxAge

theorem Young.pointee_expire {points : CheckPoints} {now maxAge : ℚ}
    (hyoung : points.Young now maxAge) (checkid : Bytes) :
    pointee (points.expire now maxAge) checkid = pointee points checkid := by
  have hpoint := hyoung checkid
  rw [pointee] at hpoint
  rw [pointee, pointee, expire, Std.ExtTreeMap.getElem?_filter']
  generalize points[checkid]? = entry at hpoint
  rcases entry with _ | _ | point
  · rfl
  · rfl
  · simp [Option.filter, hpoint point rfl]

end CheckPoints

namespace CheckPointManager

/-- The checkpoint that a manager knows under an id. -/
def point (manager : CheckPointManager) (collName checkid : Bytes) :
    Option CheckPoint :=
  (StdMap.pointee manager.checkpoints collName).bind fun points =>
    StdMap.pointee points checkid

/-- No checkpoint is old at some time. -/
def Young (manager : CheckPointManager) (now : ℚ) : Prop :=
  ∀ collName checkid point, manager.point collName checkid = some point →
    now - point.lastTouched < manager.expiryTime

/-- No checkpoint gets old in a run of calls. -/
def YoungRun : CheckPointManager → List Call → Prop
  | _, [] => True
  | manager, call :: calls =>
      manager.Young call.now ∧ YoungRun (manager.run call) calls

/-- A manager agrees with an account. -/
structure Agrees (manager : CheckPointManager) (account : Accounting) :
    Prop where
  recent : ∀ collName, StdMap.pointee manager.recentErrors collName =
    IndexingErrorLog.ofErrors manager.maxRecentErrors (account.pending collName)
  points : ∀ collName checkid,
    (manager.point collName checkid).map CheckPoint.outcome =
      (account.points collName checkid).map
        (Option.map (IndexingErrorLog.ofErrors manager.maxRecentErrors))

section Steps

variable {manager : CheckPointManager} {account : Accounting}

theorem Young.points {now : ℚ} (hyoung : manager.Young now) {collName : Bytes}
    {points : CheckPoints} (hpoints : pointee manager.checkpoints collName =
      some points) :
    points.Young now manager.expiryTime := by
  intro checkid point hpoint
  refine hyoung collName checkid point ?_
  rw [CheckPointManager.point, hpoints]
  exact hpoint

theorem Young.pointee_current {now : ℚ} (hyoung : manager.Young now)
    (collName checkid : Bytes) :
    pointee (manager.current now collName) checkid = manager.point collName checkid := by
  rw [current, point]
  cases hpoints : pointee manager.checkpoints collName with
  | none => simp
  | some points => exact (hyoung.points hpoints).pointee_expire checkid

theorem point_insert (manager : CheckPointManager) (collName : Bytes)
    (points : CheckPoints) (recentErrors : StdMap (Option IndexingErrorLog))
    (other checkid : Bytes) :
    ({ manager with
        checkpoints := manager.checkpoints.insert collName (some points)
        recentErrors } : CheckPointManager).point other checkid =
      if other = collName then pointee points checkid
      else manager.point other checkid := by
  by_cases heq : other = collName
  · subst heq
    simp [point]
  · simp only [point, pointee_insert_of_ne _ heq, if_neg heq]

theorem Agrees.appendError (hagrees : Agrees manager account) (collName : Bytes)
    (error : IndexingError) :
    Agrees (manager.appendError collName error)
      (account.setPending collName (account.pending collName ++ [error])) where
  recent := by
    intro other
    rw [CheckPointManager.appendError, Accounting.pending_setPending]
    by_cases heq : other = collName
    · subst heq
      rw [if_pos rfl, pointee_insert_self, hagrees.recent,
        IndexingErrorLog.ofErrors_append]
    · rw [if_neg heq, pointee_insert_of_ne _ heq]
      exact hagrees.recent other
  points := hagrees.points

theorem Agrees.publishCheckpoint (hagrees : Agrees manager account) {now : ℚ}
    (hyoung : manager.Young now) (collName checkid : Bytes) :
    Agrees (manager.publishCheckpoint now collName checkid)
      (account.setPoint collName checkid
        ((account.points collName checkid).getD none)) where
  recent := hagrees.recent
  points := by
    intro other otherId
    have hknown := hagrees.points other otherId
    rw [CheckPointManager.publishCheckpoint, point_insert, Accounting.points_setPoint]
    by_cases heq : other = collName
    · subst heq
      rw [if_pos rfl, CheckPoints.publishCheckpoint]
      by_cases hid : otherId = checkid
      · subst hid
        rw [pointee_insert_self, CheckPoints.ensure, hyoung.pointee_current,
          if_pos ⟨rfl, rfl⟩]
        cases hentry : account.points other otherId with
        | none =>
          rw [hentry, map_none, map_eq_none_iff] at hknown
          rw [hknown]
          rfl
        | some entry =>
          rw [hentry] at hknown
          obtain ⟨found, hfound, _⟩ := map_eq_some_iff.mp hknown
          rw [hfound] at hknown ⊢
          exact hknown
      · rw [pointee_insert_of_ne _ hid, hyoung.pointee_current, if_neg (by simp [hid])]
        exact hknown
    · rw [if_neg heq, if_neg (by simp [heq])]
      exact hknown

theorem Agrees.setReached (hagrees : Agrees manager account) {now : ℚ}
    (hyoung : manager.Young now) (collName checkid : Bytes) :
    Agrees (manager.setReached now collName checkid) ((account.setPoint collName checkid
        (some (account.pending collName))).setPending collName []) where
  recent := by
    intro other
    rw [CheckPointManager.setReached, StdMap.pointee_erase, Accounting.pending_setPending]
    by_cases heq : other = collName
    · rw [if_pos heq, if_pos heq]
      rfl
    · rw [if_neg heq, if_neg heq]
      exact hagrees.recent other
  points := by
    intro other otherId
    change _ = ((account.setPoint collName checkid
      (some (account.pending collName))).points other otherId).map _
    rw [CheckPointManager.setReached, point_insert, Accounting.points_setPoint]
    by_cases heq : other = collName
    · subst heq
      rw [if_pos rfl, CheckPoints.setReached]
      by_cases hid : otherId = checkid
      · subst hid
        rw [pointee_insert_self, if_pos ⟨rfl, rfl⟩]
        simp only [map_some, CheckPoint.outcome, CheckPoint.setReached, if_true,
          hagrees.recent]
      · rw [pointee_insert_of_ne _ hid, hyoung.pointee_current, if_neg (by simp [hid])]
        exact hagrees.points other otherId
    · rw [if_neg heq, if_neg (by simp [heq])]
      exact hagrees.points other otherId

theorem Agrees.insert (hagrees : Agrees manager account)
    {collName : Bytes} {points : CheckPoints}
    (hpoints : ∀ checkid, (pointee points checkid).map CheckPoint.outcome =
      (manager.point collName checkid).map CheckPoint.outcome) :
    Agrees { manager with
      checkpoints := manager.checkpoints.insert collName (some points) }
      account where
  recent := hagrees.recent
  points := by
    intro other checkid
    rw [point_insert manager collName points manager.recentErrors]
    by_cases heq : other = collName
    · subst heq
      rw [if_pos rfl, hpoints]
      exact hagrees.points other checkid
    · rw [if_neg heq]
      exact hagrees.points other checkid

theorem Agrees.run (hagrees : Agrees manager account) {call : Call}
    (hyoung : manager.Young call.now) :
    Agrees (manager.run call) (account.step call) := by
  obtain ⟨now, action⟩ := call
  cases action with
  | appendError collName error => exact hagrees.appendError collName error
  | publishCheckpoint collName checkid =>
    exact hagrees.publishCheckpoint hyoung collName checkid
  | setReached collName checkid =>
    exact hagrees.setReached hyoung collName checkid
  | idsToJson collName =>
    simp only [CheckPointManager.run, idsToJson, Accounting.step]
    split
    next => exact hagrees
    next points hpoints =>
    refine hagrees.insert fun checkid => ?_
    rw [(hyoung.points hpoints).pointee_expire, point, hpoints]
    rfl
  | getState collName checkid =>
    simp only [CheckPointManager.run, getState, Accounting.step]
    split
    next => exact hagrees
    next points hpoints =>
    refine hagrees.insert fun otherId => ?_
    have hexpire := (hyoung.points hpoints).pointee_expire
    rw [point, hpoints, bind_some, ← hexpire otherId, CheckPoints.getState]
    split
    next => rfl
    next found hfound =>
      by_cases hid : otherId = checkid
      · subst hid
        rw [pointee_insert_self, hfound]
        rfl
      · rw [pointee_insert_of_ne _ hid]

theorem Agrees.foldl_run (hagrees : Agrees manager account) {calls : List Call}
    (hyoung : manager.YoungRun calls) :
    Agrees (calls.foldl CheckPointManager.run manager)
      (calls.foldl Accounting.step account) := by
  induction calls generalizing manager account with
  | nil => exact hagrees
  | cons call calls ih => exact ih (hagrees.run hyoung.1) hyoung.2

theorem maxRecentErrors_foldl_run (manager : CheckPointManager) (calls : List Call) :
    (calls.foldl run manager).maxRecentErrors = manager.maxRecentErrors := by
  induction calls generalizing manager with
  | nil => rfl
  | cons call calls ih =>
    rw [foldl_cons, ih]
    obtain ⟨now, action⟩ := call
    cases action with
    | appendError collName error | publishCheckpoint collName checkid
    | setReached collName checkid =>
      rfl
    | idsToJson collName =>
      simp only [run, idsToJson]
      split <;> rfl
    | getState collName checkid =>
      simp only [run, getState]
      split <;> rfl

end Steps

/-- The calls that matter to the errors of a collection. -/
def Call.concerns (collName : Bytes) (call : Call) : Bool :=
  match call.action with
  | .appendError other _ => other = collName
  | .setReached other _ => other = collName
  | _ => false

/-- The errors of a collection since a checkpoint was last reached there. -/
def errorsSince (collName : Bytes) (calls : List Call) :
    List IndexingError :=
  (calls.foldl Accounting.step Accounting.empty).pending collName

section Account

variable {account : Accounting} {collName checkid : Bytes}

theorem pending_step_concerns (account : Accounting) {call : Call}
    (hcall : call.concerns collName = false) :
    (account.step call).pending collName = account.pending collName := by
  obtain ⟨now, action⟩ := call
  cases action with
  | appendError other error =>
    have hne : collName ≠ other := by
      simpa [concerns, eq_comm] using hcall
    rw [Accounting.step, Accounting.pending_setPending, if_neg hne]
  | setReached other checkid =>
    have hne : collName ≠ other := by
      simpa [concerns, eq_comm] using hcall
    rw [Accounting.step, Accounting.pending_setPending, if_neg hne]
    rfl
  | publishCheckpoint other checkid | idsToJson other
  | getState other checkid =>
    rfl

theorem pending_step_congr {left right : Accounting} (call : Call)
    (hpending : left.pending collName = right.pending collName) :
    (left.step call).pending collName = (right.step call).pending collName := by
  by_cases hcall : call.concerns collName
  · obtain ⟨now, action⟩ := call
    cases action with
    | appendError other error =>
      have heq : other = collName := by simpa [concerns] using hcall
      subst heq
      simp only [Accounting.step, Accounting.pending_setPending, hpending]
    | setReached other checkid =>
      have heq : other = collName := by simpa [concerns] using hcall
      subst heq
      simp only [Accounting.step, Accounting.pending_setPending, if_true]
    | publishCheckpoint other checkid | idsToJson other
    | getState other checkid =>
      exact hpending
  · rw [Bool.not_eq_true] at hcall
    rw [pending_step_concerns left hcall, pending_step_concerns right hcall, hpending]

theorem errorsSince_filter (collName : Bytes) (calls : List Call) :
    errorsSince collName calls =
      errorsSince collName (calls.filter (concerns collName)) := by
  have hfold : ∀ left right : Accounting,
      left.pending collName = right.pending collName →
      (calls.foldl Accounting.step left).pending collName =
        ((calls.filter (concerns collName)).foldl Accounting.step
          right).pending collName := by
    induction calls with
    | nil => exact fun left right hpending => hpending
    | cons call calls ih =>
      intro left right hpending
      rw [foldl_cons, filter_cons]
      by_cases hcall : call.concerns collName
      · rw [if_pos hcall, foldl_cons]
        exact ih _ _ (pending_step_congr call hpending)
      · rw [if_neg hcall]
        rw [Bool.not_eq_true] at hcall
        exact ih _ _ ((pending_step_concerns left hcall).trans hpending)
  exact hfold _ _ rfl

/-- A checkpoint is only reached by the call that says so. -/
theorem points_step (account : Accounting) {call : Call}
    (hcall : call.action ≠ .setReached collName checkid) :
    (account.step call).points collName checkid =
      if call.action = .publishCheckpoint collName checkid then
        some ((account.points collName checkid).getD none)
      else account.points collName checkid := by
  obtain ⟨now, action⟩ := call
  cases action with
  | appendError other error | idsToJson other | getState other otherId => rfl
  | publishCheckpoint other otherId =>
    simp only [Accounting.step, Accounting.points_setPoint,
      Action.publishCheckpoint.injEq]
    by_cases heq : other = collName ∧ otherId = checkid
    · obtain ⟨rfl, rfl⟩ := heq
      simp
    · have hne : ¬(collName = other ∧ checkid = otherId) := fun hsame =>
        heq ⟨hsame.1.symm, hsame.2.symm⟩
      rw [if_neg heq, if_neg hne]
  | setReached other otherId =>
    have hne : ¬(collName = other ∧ checkid = otherId) := fun hsame =>
      hcall (by rw [hsame.1, hsame.2])
    change (account.setPoint other otherId
      (some (account.pending other))).points collName checkid = _
    rw [Accounting.points_setPoint, if_neg hne]
    rfl

variable {calls : List Call}

theorem points_foldl_of_known {entry : Option (List IndexingError)}
    (hpoint : account.points collName checkid = some entry)
    (hcalls : ∀ call ∈ calls, call.action ≠ .setReached collName checkid) :
    (calls.foldl Accounting.step account).points collName checkid = some entry := by
  induction calls generalizing account with
  | nil => exact hpoint
  | cons call calls ih =>
    refine ih ?_ fun other hother => hcalls other (mem_cons_of_mem _ hother)
    rw [points_step account (hcalls call mem_cons_self), hpoint]
    exact ite_self _

theorem points_foldl_of_unknown (hpoint : account.points collName checkid = none)
    (hcalls : ∀ call ∈ calls, call.action ≠ .setReached collName checkid) :
    (calls.foldl Accounting.step account).points collName checkid =
      if ∃ call ∈ calls, call.action = .publishCheckpoint collName checkid then
        some none
      else none := by
  induction calls generalizing account with
  | nil => simpa using hpoint
  | cons call calls ih =>
    have hrest := fun other hother => hcalls other (mem_cons_of_mem _ hother)
    have hstep := points_step account (hcalls call mem_cons_self)
    rw [hpoint] at hstep
    rw [foldl_cons]
    by_cases hpublish : call.action = .publishCheckpoint collName checkid
    · rw [if_pos hpublish] at hstep
      rw [if_pos ⟨call, mem_cons_self, hpublish⟩]
      exact points_foldl_of_known hstep hrest
    · rw [if_neg hpublish] at hstep
      rw [ih hstep hrest]
      simp [hpublish]

theorem points_foldl_setReached (account : Accounting) (before after : List Call)
    (time : ℚ) (hafter : ∀ call ∈ after, call.action ≠ .setReached collName checkid) :
    ((before ++ ⟨time, .setReached collName checkid⟩ :: after).foldl
        Accounting.step account).points collName checkid =
      some (some ((before.foldl Accounting.step account).pending collName)) := by
  rw [foldl_append, foldl_cons]
  refine points_foldl_of_known ?_ hafter
  change ((before.foldl Accounting.step account).setPoint collName checkid
    _).points collName checkid = _
  rw [Accounting.points_setPoint, if_pos ⟨rfl, rfl⟩]

end Account

/-- What `get_state` is to report of a checkpoint with some errors. -/
def reachedJson (maxErrors : ℕ) (errors : List IndexingError) : Json :=
  .object [
    (ascii "errors", .array ((errors.take maxErrors).map IndexingError.toJson)),
    (ascii "reached", .bool true),
    (ascii "total_errors",
      if errors.length = 0 then .int 0 else .uint errors.length)]

theorem youngRun_append (manager : CheckPointManager) (before after : List Call) :
    manager.YoungRun (before ++ after) ↔ manager.YoungRun before ∧
      (before.foldl run manager).YoungRun after := by
  induction before generalizing manager with
  | nil => simp [YoungRun]
  | cons call before ih =>
    rw [cons_append, YoungRun, YoungRun, ih, foldl_cons, and_assoc]

theorem agrees_create (maxRecentErrors : ℕ) (expiryTime : ℚ) :
    Agrees (create maxRecentErrors expiryTime) Accounting.empty where
  recent := by
    intro collName
    simp [create, Accounting.empty, IndexingErrorLog.ofErrors]
  points := by
    intro collName checkid
    simp [create, point, Accounting.empty]

section Report

variable {manager : CheckPointManager} {now : ℚ} {collName checkid : Bytes}

theorem Young.getState_eq (hyoung : manager.Young now) :
    (manager.getState now collName checkid).2 =
      ((manager.point collName checkid).map CheckPoint.stateJson).getD .null := by
  rw [getState, point]
  cases hpoints : pointee manager.checkpoints collName with
  | none => rfl
  | some points =>
    have hexpire := (hyoung.points hpoints).pointee_expire checkid
    rw [bind_some, ← hexpire]
    simp only [CheckPoints.getState]
    split
    next hfound => rw [hfound]; rfl
    next found hfound => rw [hfound]; rfl

theorem stateJson_of_unreached {point : CheckPoint} (houtcome : point.outcome = none) :
    point.stateJson = .object [(ascii "reached", .bool false)] := by
  cases hreached : point.reached with
  | false => simp [CheckPoint.stateJson, hreached]
  | true => simp [CheckPoint.outcome, hreached] at houtcome

/-- The count of a checkpoint is right as long as it fits. -/
theorem stateJson_of_reached {point : CheckPoint} {maxErrors : ℕ}
    {errors : List IndexingError}
    (houtcome : point.outcome = some (IndexingErrorLog.ofErrors maxErrors errors)) :
    point.stateJson = reachedJson maxErrors errors ↔ errors.length < 2 ^ 32 := by
  obtain ⟨log, lastTouched, reached⟩ := point
  cases reached with
  | false => simp [CheckPoint.outcome] at houtcome
  | true =>
    have hlog : log = IndexingErrorLog.ofErrors maxErrors errors := by
      simpa [CheckPoint.outcome] using houtcome
    subst hlog
    by_cases hempty : errors = []
    · subst hempty
      simp [CheckPoint.stateJson, reachedJson, IndexingErrorLog.ofErrors]
    · have hlength : errors.length ≠ 0 := by simpa using hempty
      have hmod : errors.length % 2 ^ 32 = errors.length ↔ errors.length < 2 ^ 32 := by
        omega
      rw [← hmod]
      simp [CheckPoint.stateJson, reachedJson, IndexingErrorLog.ofErrors, hempty]

variable {account : Accounting} (hagrees : Agrees manager account)
  (hyoung : manager.Young now)

include hagrees hyoung

theorem report_of_reached {errors : List IndexingError}
    (hpoint : account.points collName checkid = some (some errors)) :
    (manager.getState now collName checkid).2 =
      reachedJson manager.maxRecentErrors errors ↔
      errors.length < 2 ^ 32 := by
  have hknown := hagrees.points collName checkid
  rw [hpoint, map_some] at hknown
  obtain ⟨found, hfound, houtcome⟩ := map_eq_some_iff.mp hknown
  rw [hyoung.getState_eq, hfound]
  exact stateJson_of_reached houtcome

theorem report_of_published (hpoint : account.points collName checkid = some none) :
    (manager.getState now collName checkid).2 =
      .object [(ascii "reached", .bool false)] := by
  have hknown := hagrees.points collName checkid
  rw [hpoint, map_some] at hknown
  obtain ⟨found, hfound, houtcome⟩ := map_eq_some_iff.mp hknown
  rw [hyoung.getState_eq, hfound]
  exact stateJson_of_unreached houtcome

theorem report_of_unknown (hpoint : account.points collName checkid = none) :
    (manager.getState now collName checkid).2 = .null := by
  have hknown := hagrees.points collName checkid
  rw [hpoint, map_none, map_eq_none_iff] at hknown
  rw [hyoung.getState_eq, hknown]
  rfl

end Report

/-- A run of calls in which no checkpoint gets old, with a manager that agrees
with its account at the end. -/
theorem agrees_foldl {maxRecentErrors : ℕ} {expiryTime now : ℚ} {calls : List Call}
    {action : Action}
    (hyoung : (create maxRecentErrors expiryTime).YoungRun (calls ++ [⟨now, action⟩])) :
    Agrees (calls.foldl CheckPointManager.run (create maxRecentErrors expiryTime))
      (calls.foldl Accounting.step Accounting.empty) ∧
    (calls.foldl CheckPointManager.run (create maxRecentErrors expiryTime)).Young
      now := by
  obtain ⟨hcalls, hlast⟩ := (youngRun_append _ _ _).mp hyoung
  exact ⟨(agrees_create maxRecentErrors expiryTime).foldl_run hcalls, hlast.1⟩

/-- In a run in which no checkpoint gets old, a checkpoint that was reached
reports its errors if and only if they are fewer than 2^32; before that it is
not reached if it was published, and unknown otherwise.  The errors are those of
the calls that append errors to the collection or reach a checkpoint of it. -/
theorem get_state_accounts (maxRecentErrors : ℕ) (expiryTime now : ℚ)
    (calls : List Call) (collName checkid : Bytes)
    (hyoung : (create maxRecentErrors expiryTime).YoungRun
      (calls ++ [⟨now, .getState collName checkid⟩])) :
    let report := ((calls.foldl CheckPointManager.run
      (create maxRecentErrors expiryTime)).getState now collName checkid).2
    (∀ before time after,
      calls = before ++ ⟨time, .setReached collName checkid⟩ :: after →
      (∀ call ∈ after, call.action ≠ .setReached collName checkid) →
      (report = reachedJson maxRecentErrors (errorsSince collName before) ↔
        (errorsSince collName before).length < 2 ^ 32)) ∧
    ((∀ call ∈ calls, call.action ≠ .setReached collName checkid) →
      report =
        if ∃ call ∈ calls, call.action = .publishCheckpoint collName checkid
        then .object [(ascii "reached", .bool false)]
        else .null) ∧
    (∀ history, errorsSince collName history =
      errorsSince collName (history.filter (Call.concerns collName))) := by
  intro report
  obtain ⟨hagrees, hlast⟩ := agrees_foldl hyoung
  refine ⟨?_, ?_, errorsSince_filter collName⟩
  · rintro before time after hcalls hafter
    have hpoint := points_foldl_setReached Accounting.empty before after time
      hafter
    rw [← hcalls] at hpoint
    have hreport := report_of_reached hagrees hlast hpoint
    rw [maxRecentErrors_foldl_run] at hreport
    exact hreport
  · intro hcalls
    have hpoint := points_foldl_of_unknown
      (show Accounting.empty.points collName checkid = none from rfl) hcalls
    by_cases hpublished : ∃ call ∈ calls,
        call.action = .publishCheckpoint collName checkid
    · rw [if_pos hpublished] at hpoint ⊢
      exact report_of_published hagrees hlast hpoint
    · rw [if_neg hpublished] at hpoint ⊢
      exact report_of_unknown hagrees hlast hpoint

/-- Some errors of a collection and a checkpoint there, at one moment. -/
def failingCalls (count : ℕ) : List Call :=
  List.replicate count ⟨0, .appendError (ascii "c") ⟨ascii "m", [], []⟩⟩ ++
    [⟨0, .setReached (ascii "c") (ascii "i")⟩]

theorem foldl_replicate (manager : CheckPointManager) (count : ℕ) (now : ℚ)
    (collName : Bytes) (error : IndexingError) :
    ∃ recentErrors, (replicate count ⟨now, .appendError collName error⟩).foldl
        run manager = { manager with recentErrors } := by
  induction count generalizing manager with
  | zero => exact ⟨manager.recentErrors, rfl⟩
  | succ count ih => exact ih _

theorem young_of_none {manager : CheckPointManager} (now : ℚ)
    (hnone : manager.checkpoints = ∅) : manager.Young now := by
  intro collName checkid found hfound
  rw [point, hnone, pointee_empty] at hfound
  cases hfound

variable (count : ℕ)

theorem youngRun_replicate {manager : CheckPointManager} (now : ℚ) (collName : Bytes)
    (error : IndexingError) (hnone : manager.checkpoints = ∅) :
    manager.YoungRun (replicate count ⟨now, .appendError collName error⟩) := by
  induction count generalizing manager with
  | zero => trivial
  | succ count ih => exact ⟨young_of_none now hnone, ih hnone⟩

theorem youngRun_failingCalls (maxRecentErrors : ℕ) : (create maxRecentErrors 1).YoungRun
      (failingCalls count ++ [⟨0, .getState (ascii "c") (ascii "i")⟩]) := by
  rw [failingCalls, append_assoc, youngRun_append]
  refine ⟨youngRun_replicate _ _ _ _ rfl, ?_⟩
  obtain ⟨recentErrors, hfold⟩ := foldl_replicate (create maxRecentErrors 1)
    count 0 (ascii "c") ⟨ascii "m", [], []⟩
  rw [hfold]
  refine ⟨young_of_none 0 rfl, ?_, trivial⟩
  intro collName checkid found hfound
  -- the only checkpoint is the one that was reached just now
  have htouched : found.lastTouched = 0 := by
    simp only [run, setReached] at hfound
    rw [point_insert] at hfound
    by_cases hcoll : collName = ascii "c"
    · rw [if_pos hcoll, CheckPoints.setReached] at hfound
      by_cases hid : checkid = ascii "i"
      · rw [hid, pointee_insert_self, some.injEq] at hfound
        rw [← hfound]
        rfl
      · rw [pointee_insert_of_ne _ hid] at hfound
        simp [current, create] at hfound
    · rw [if_neg hcoll] at hfound
      simp [point, create] at hfound
  rw [htouched]
  norm_num [run, setReached, create]

theorem errorsSince_replicate (now : ℚ) (collName : Bytes) (error : IndexingError) :
    errorsSince collName (replicate count ⟨now, .appendError collName error⟩) =
      replicate count error := by
  induction count with
  | zero => rfl
  | succ count ih =>
    rw [errorsSince] at ih ⊢
    rw [replicate_succ', foldl_append, foldl_cons, foldl_nil, replicate_succ', ← ih]
    exact (Accounting.pending_setPending _ _ _ _).trans (if_pos rfl)

/-- Three errors are reported as such. -/
theorem get_state_accounts_three :
    (((failingCalls 3).foldl CheckPointManager.run (create 2 1)).getState 0
        (ascii "c") (ascii "i")).2 =
      reachedJson 2 (List.replicate 3 ⟨ascii "m", [], []⟩) := by
  have hreport := (get_state_accounts 2 1 0 (failingCalls 3) (ascii "c")
    (ascii "i") (youngRun_failingCalls 3 2)).1 _ 0 [] rfl (by simp)
  rw [errorsSince_replicate] at hreport
  exact hreport.mpr (by decide)

theorem report_failingCalls (maxRecentErrors : ℕ) : (((failingCalls count).foldl run
        (create maxRecentErrors 1)).getState 0 (ascii "c") (ascii "i")).2 =
      reachedJson maxRecentErrors (List.replicate count ⟨ascii "m", [], []⟩) ↔
    count < 2 ^ 32 := by
  obtain ⟨hagrees, hlast⟩ := agrees_foldl (youngRun_failingCalls count maxRecentErrors)
  have hnone : ∀ call ∈ ([] : List Call),
      call.action ≠ .setReached (ascii "c") (ascii "i") := by simp
  have hpoint := points_foldl_setReached Accounting.empty
    (List.replicate count ⟨0, .appendError (ascii "c") ⟨ascii "m", [], []⟩⟩)
    [] 0 hnone
  have hreport := report_of_reached hagrees hlast hpoint
  rw [maxRecentErrors_foldl_run] at hreport
  have herrors := errorsSince_replicate count 0 (ascii "c") ⟨ascii "m", [], []⟩
  rw [errorsSince] at herrors
  rw [herrors, length_replicate] at hreport
  exact hreport

/-- 2^32 errors are too many to be counted. -/
theorem count_wraps :
    (create 2 1).YoungRun (failingCalls (2 ^ 32) ++
        [⟨0, .getState (ascii "c") (ascii "i")⟩]) ∧
      (((failingCalls (2 ^ 32)).foldl CheckPointManager.run
          (create 2 1)).getState 0 (ascii "c") (ascii "i")).2 ≠
        reachedJson 2 (List.replicate (2 ^ 32) ⟨ascii "m", [], []⟩) := by
  refine ⟨youngRun_failingCalls (2 ^ 32) 2, fun hreport => ?_⟩
  exact lt_irrefl _ ((report_failingCalls (2 ^ 32) 2).mp hreport)

end CheckPointManager

end Restpose
