import Memplex.Worker.Repository

/-!
# The task store

`TaskStore` keeps the tasks in one JSON file. Every method takes the lock of the file, reads the tasks,
and replaces the file by the tasks that it leaves, or raises and leaves the file alone; what a method
does is a function of the tasks that it reads. `claim_due` is the exception: it looks up the due tasks
and claims them one by one, each claim at the reading of the clock from before, and other workers may
act in between. Its claims are then claims at an old reading, which any operation here may have.
-/

namespace Memplex

open Lib

namespace TaskInfo

/-- What `_dict_to_info` accepts and `_normalise_json_value` has a text for. -/
def Storable (info : TaskInfo) : Prop :=
  info.taskId ≠ "" ∧ 0 ≤ info.retryCount ∧ 0 ≤ info.maxRetries ∧
    info.payload.all areJsonMembers = true ∧ isJsonValue info.result = true

instance (info : TaskInfo) : Decidable info.Storable := by unfold Storable; infer_instance

/-- A claim may take the task: it waits or its lease has run out, and its next attempt is due. -/
def due (info : TaskInfo) (now : Instant) : Bool :=
  (match info.status with
    | .running => info.leaseUntil.all (· ≤ now)
    | .pending => true
    | _ => false) && info.nextAttemptAt.all (· ≤ now)

/-- The task with a new lease. -/
def leased (info : TaskInfo) (leaseId : String) (leaseUntil : Instant) : TaskInfo :=
  { info with status := .running, leaseId := some leaseId, leaseUntil := some leaseUntil
              nextAttemptAt := none }

/-- The task with its result. -/
def completed (info : TaskInfo) (result : Value) (now : Instant) : TaskInfo :=
  { info with status := .completed, completedAt := some now, result, error := none
              lastErrorCode := none, nextAttemptAt := none, leaseUntil := none, leaseId := none }

/-- The task with one more attempt charged to it. -/
def charged (info : TaskInfo) (errorCode : String) : TaskInfo :=
  { info with retryCount := info.retryCount + 1, result := .null, error := some errorCode
              lastErrorCode := some errorCode, leaseUntil := none, leaseId := none }

/-- The task after an attempt that failed: it waits for the next one, if there is one. -/
def attemptFailed (info : TaskInfo) (errorCode : String) (retryDelaySeconds : ℤ) (now : Instant) :
    TaskInfo :=
  if (info.charged errorCode).retryCount ≤ info.maxRetries then
    { info.charged errorCode with
      status := .pending, nextAttemptAt := some (now + retryDelaySeconds * second) }
  else { info.charged errorCode with status := .failed, nextAttemptAt := none }

/-- The task, cancelled. -/
def cancelled (info : TaskInfo) : TaskInfo :=
  { info with status := .cancelled, nextAttemptAt := none }

/-- The failed task, to be attempted anew. -/
def replayed (info : TaskInfo) (now : Instant) : TaskInfo :=
  { info with status := .pending, retryCount := 0, completedAt := none, error := none
              lastErrorCode := none, leaseUntil := none, leaseId := none
              nextAttemptAt := some now }

variable {info : TaskInfo}

/-- A due task is one that may be taken up. -/
theorem due_phase {now : Instant} (h : info.due now = true) : info.phase.Due now := by
  unfold due at h
  cases hstatus : info.status <;> rw [hstatus, Bool.and_eq_true] at h
  · exact Or.inl (phase_pending hstatus)
  · refine Or.inr ⟨_, _, phase_running hstatus, fun t ht => ?_⟩
    simpa [Option.mem_def.mp ht] using h.1
  all_goals exact absurd h.1 Bool.false_ne_true

/-- An attempt that failed is charged, and the task waits or has failed. -/
theorem attemptFailed_spec (info : TaskInfo) (errorCode : String) (delay : ℤ) (now : Instant) :
    (info.attemptFailed errorCode delay now).taskId = info.taskId ∧
      (info.attemptFailed errorCode delay now).retryCount = info.retryCount + 1 ∧
      (info.attemptFailed errorCode delay now).maxRetries = info.maxRetries ∧
      ((info.attemptFailed errorCode delay now).status = .pending ∧
          info.retryCount + 1 ≤ info.maxRetries ∨
        (info.attemptFailed errorCode delay now).status = .failed) := by
  unfold attemptFailed
  split_ifs with hretry
  · exact ⟨rfl, rfl, rfl, Or.inl ⟨rfl, hretry⟩⟩
  · exact ⟨rfl, rfl, rfl, Or.inr rfl⟩

end TaskInfo

namespace TaskStore

/-- `_save_candidate`: nothing is written where a task cannot be stored. -/
def saveCandidate (candidate : Tasks) : Except PyError Tasks := do
  require (∀ info ∈ candidate.rows, info.Storable)
    ⟨.taskStoreIntegrityError, "worker task state is invalid"⟩
  .ok candidate

/-- `admit_pending`. -/
def admitPending (tasks : Tasks) (info : TaskInfo) (capacity : ℤ) :
    Except PyError (TaskInfo × Tasks) := do
  require (0 < capacity) (valueError "capacity must be positive")
  require (tasks.get? info.taskId = none)
    ⟨.taskStoreIntegrityError, "worker task identity already exists"⟩
  require (tasks.activeCount < capacity) ⟨.workerQueueFull, "worker_queue_full"⟩
  let saved ← saveCandidate (tasks.set info)
  .ok (info, saved)

/-- `replay_failed_atomic`. -/
def replayFailedAtomic (tasks : Tasks) (taskId : String) (capacity : ℤ) (now : Instant) :
    Except PyError (Option TaskInfo × Tasks) := do
  require (0 < capacity) (valueError "capacity must be positive")
  match tasks.get? taskId with
  | none => .ok (none, tasks)
  | some data =>
    if data.status = .failed then do
      require (tasks.activeCount < capacity) ⟨.workerQueueFull, "worker_queue_full"⟩
      let info := data.replayed now
      let saved ← saveCandidate (tasks.set info)
      .ok (some info, saved)
    else .ok (none, tasks)

/-- `cancel_pending`. -/
def cancelPending (tasks : Tasks) (taskId : String) : Except PyError (Bool × Tasks) :=
  match tasks.get? taskId with
  | none => .ok (false, tasks)
  | some data =>
    if data.status = .pending then do
      let saved ← saveCandidate (tasks.set data.cancelled)
      .ok (true, saved)
    else .ok (false, tasks)

/-- `due_task_ids`: the due tasks by the time they became due, then by id. -/
def dueTaskIds (tasks : Tasks) (now : Instant) (limit : ℤ) : List String :=
  let due := tasks.rows.filterMap fun info =>
    if info.due now then some (info.nextAttemptAt.getD now, info.taskId) else none
  let sorted := due.mergeSort fun a b => a.1 < b.1 || (a.1 = b.1 && decide (a.2 ≤ b.2))
  (sorted.take limit.toNat).map Prod.snd

/-- `claim`, with the lease id that is generated for it. -/
def claim (tasks : Tasks) (taskId : String) (now : Instant) (leaseId : String)
    (leaseSeconds : ℤ) : Except PyError (Option TaskInfo × Tasks) := do
  require (0 < leaseSeconds) (valueError "lease_seconds must be a positive exact int")
  match tasks.get? taskId with
  | none => .ok (none, tasks)
  | some data =>
    if data.due now then do
      let info := data.leased leaseId (now + leaseSeconds * second)
      let saved ← saveCandidate (tasks.set info)
      .ok (some info, saved)
    else .ok (none, tasks)

/-- The loop of `claim_due`. -/
def claimEach (now : Instant) (leaseId : ℕ → String) (leaseSeconds : ℤ) :
    List String → ℕ → Tasks → Except PyError (List TaskInfo × Tasks)
  | [], _, tasks => .ok ([], tasks)
  | taskId :: taskIds, i, tasks => do
    let (info, tasks') ← claim tasks taskId now (leaseId i) leaseSeconds
    let (claimed, tasks'') ← claimEach now leaseId leaseSeconds taskIds (i + 1) tasks'
    .ok (info.toList ++ claimed, tasks'')

/-- `claim_due`, undisturbed. -/
def claimDue (tasks : Tasks) (limit leaseSeconds : ℤ) (now : Instant) (leaseId : ℕ → String) :
    Except PyError (List TaskInfo × Tasks) := do
  require (0 < limit) (valueError "limit must be a positive exact int")
  claimEach now leaseId leaseSeconds (dueTaskIds tasks now limit) 0 tasks

/-- `_lease_matches`. -/
def leaseMatches (data : TaskInfo) (leaseId : String) (now : Instant) : Bool :=
  data.status = .running && data.leaseId = some leaseId && data.leaseUntil.any (now < ·)

/-- `complete`. The result is what `_normalise_json_value` makes of it, if it knows its type. -/
def complete (tasks : Tasks) (taskId leaseId : String) (result : Option Value) (now : Instant) :
    Except PyError (Option TaskInfo × Tasks) := do
  require (leaseId ≠ "") (valueError "lease_id must be a non-empty exact str")
  match tasks.get? taskId with
  | none => .ok (none, tasks)
  | some data =>
    if leaseMatches data leaseId now then
      match result with
      | none => .error ⟨.taskStoreIntegrityError, "worker task state is not serializable"⟩
      | some value => do
        let info := data.completed value now
        let saved ← saveCandidate (tasks.set info)
        .ok (some info, saved)
    else .ok (none, tasks)

/-- `fail`. -/
def fail (tasks : Tasks) (taskId leaseId errorCode : String) (retryDelaySeconds : ℤ)
    (now : Instant) : Except PyError (Option TaskInfo × Tasks) := do
  require (leaseId ≠ "") (valueError "lease_id must be a non-empty exact str")
  require (errorCode ≠ "") (valueError "error_code must be a non-empty exact str")
  require (0 ≤ retryDelaySeconds)
    (valueError "retry_delay_seconds must be a non-negative exact int")
  match tasks.get? taskId with
  | none => .ok (none, tasks)
  | some data =>
    if leaseMatches data leaseId now then do
      let info := data.attemptFailed errorCode retryDelaySeconds now
      let saved ← saveCandidate (tasks.set info)
      .ok (some info, saved)
    else .ok (none, tasks)

/-! ## What the methods leave -/

variable {tasks tasks' : Tasks} {taskId leaseId errorCode : String} {capacity : ℤ} {now : Instant}
  {info i : TaskInfo} {out : Option TaskInfo}

theorem saveCandidate_ok {candidate : Tasks} (h : saveCandidate candidate = .ok tasks') :
    tasks' = candidate ∧ ∀ info ∈ candidate.rows, info.Storable := by
  obtain ⟨_, hstorable, h⟩ := Except.bind_ok.mp h
  exact ⟨(Except.ok.inj h).symm, require_ok.mp hstorable⟩

theorem admitPending_ok (h : admitPending tasks info capacity = .ok (i, tasks')) :
    tasks.get? info.taskId = none ∧ tasks.activeCount < capacity ∧ tasks' = tasks.set info ∧
      info.Storable := by
  obtain ⟨_, -, h⟩ := Except.bind_ok.mp h
  obtain ⟨_, hnew, h⟩ := Except.bind_ok.mp h
  obtain ⟨_, hroom, h⟩ := Except.bind_ok.mp h
  obtain ⟨saved, hsaved, h⟩ := Except.bind_ok.mp h
  cases h
  obtain ⟨rfl, hstorable⟩ := saveCandidate_ok hsaved
  exact ⟨require_ok.mp hnew, require_ok.mp hroom, rfl,
    hstorable info (Lib.mem_upsertRow.mpr (Or.inl rfl))⟩

/-- A method that saved a task, or left everything as it was. -/
theorem saved_or_same {p : Prop} [Decidable p] {data : TaskInfo}
    (h : (if p then (do
        let saved ← saveCandidate (tasks.set data)
        .ok (some data, saved)) else .ok (none, tasks) : Except PyError (Option TaskInfo × Tasks)) =
      .ok (out, tasks')) :
    out = none ∧ tasks' = tasks ∨ p ∧ out = some data ∧ tasks' = tasks.set data := by
  split_ifs at h with hp
  · obtain ⟨saved, hsaved, h⟩ := Except.bind_ok.mp h
    cases h
    exact Or.inr ⟨hp, rfl, (saveCandidate_ok hsaved).1⟩
  · cases h
    exact Or.inl ⟨rfl, rfl⟩

theorem replayFailedAtomic_ok
    (h : replayFailedAtomic tasks taskId capacity now = .ok (out, tasks')) :
    out = none ∧ tasks' = tasks ∨ ∃ data, tasks.get? taskId = some data ∧ data.status = .failed ∧
      tasks.activeCount < capacity ∧ out = some (data.replayed now) ∧
      tasks' = tasks.set (data.replayed now) := by
  obtain ⟨_, -, h⟩ := Except.bind_ok.mp h
  cases hget : tasks.get? taskId with
  | none =>
    rw [hget] at h
    cases h
    exact Or.inl ⟨rfl, rfl⟩
  | some data =>
    simp only [hget] at h
    split_ifs at h with hfailed
    · obtain ⟨_, hroom, h⟩ := Except.bind_ok.mp h
      obtain ⟨saved, hsaved, h⟩ := Except.bind_ok.mp h
      cases h
      exact Or.inr ⟨data, rfl, hfailed, require_ok.mp hroom, rfl, (saveCandidate_ok hsaved).1⟩
    · cases h
      exact Or.inl ⟨rfl, rfl⟩

theorem cancelPending_ok {b : Bool} (h : cancelPending tasks taskId = .ok (b, tasks')) :
    tasks' = tasks ∨ ∃ data, tasks.get? taskId = some data ∧ data.status = .pending ∧
      tasks' = tasks.set data.cancelled := by
  unfold cancelPending at h
  cases hget : tasks.get? taskId with
  | none =>
    rw [hget] at h
    cases h
    exact Or.inl rfl
  | some data =>
    simp only [hget] at h
    split_ifs at h with hpending
    · obtain ⟨saved, hsaved, h⟩ := Except.bind_ok.mp h
      cases h
      exact Or.inr ⟨data, rfl, hpending, (saveCandidate_ok hsaved).1⟩
    · cases h
      exact Or.inl rfl

theorem claim_ok {leaseSeconds : ℤ}
    (h : claim tasks taskId now leaseId leaseSeconds = .ok (out, tasks')) :
    out = none ∧ tasks' = tasks ∨ ∃ data, tasks.get? taskId = some data ∧ data.due now = true ∧
      0 < leaseSeconds ∧ out = some (data.leased leaseId (now + leaseSeconds * second)) ∧
      tasks' = tasks.set (data.leased leaseId (now + leaseSeconds * second)) := by
  obtain ⟨_, hpos, h⟩ := Except.bind_ok.mp h
  cases hget : tasks.get? taskId with
  | none =>
    rw [hget] at h
    cases h
    exact Or.inl ⟨rfl, rfl⟩
  | some data =>
    simp only [hget] at h
    rcases saved_or_same h with hsame | ⟨hdue, hout, htasks⟩
    · exact Or.inl hsame
    · exact Or.inr ⟨data, rfl, hdue, require_ok.mp hpos, hout, htasks⟩

theorem leaseMatches_iff {data : TaskInfo} : leaseMatches data leaseId now = true ↔
    data.status = .running ∧ data.leaseId = some leaseId ∧
      ∃ expiry, data.leaseUntil = some expiry ∧ now < expiry := by
  rw [leaseMatches, Bool.and_eq_true, Bool.and_eq_true, decide_eq_true_iff, decide_eq_true_iff,
    Option.any_eq_true, and_assoc]
  simp only [decide_eq_true_eq]

theorem complete_ok {result : Option Value}
    (h : complete tasks taskId leaseId result now = .ok (out, tasks')) :
    out = none ∧ tasks' = tasks ∨ ∃ data value, tasks.get? taskId = some data ∧
      leaseMatches data leaseId now = true ∧ result = some value ∧
      out = some (data.completed value now) ∧ tasks' = tasks.set (data.completed value now) := by
  obtain ⟨_, -, h⟩ := Except.bind_ok.mp h
  cases hget : tasks.get? taskId with
  | none =>
    rw [hget] at h
    cases h
    exact Or.inl ⟨rfl, rfl⟩
  | some data =>
    simp only [hget] at h
    cases result with
    | none =>
      split_ifs at h with hmatch
      cases h
      exact Or.inl ⟨rfl, rfl⟩
    | some value =>
      rcases saved_or_same h with hsame | ⟨hmatch, hout, htasks⟩
      · exact Or.inl hsame
      · exact Or.inr ⟨data, value, rfl, hmatch, rfl, hout, htasks⟩

theorem fail_ok {delay : ℤ} (h : fail tasks taskId leaseId errorCode delay now = .ok (out, tasks')) :
    out = none ∧ tasks' = tasks ∨ ∃ data, tasks.get? taskId = some data ∧
      leaseMatches data leaseId now = true ∧ out = some (data.attemptFailed errorCode delay now) ∧
      tasks' = tasks.set (data.attemptFailed errorCode delay now) := by
  obtain ⟨_, -, h⟩ := Except.bind_ok.mp h
  obtain ⟨_, -, h⟩ := Except.bind_ok.mp h
  obtain ⟨_, -, h⟩ := Except.bind_ok.mp h
  cases hget : tasks.get? taskId with
  | none =>
    rw [hget] at h
    cases h
    exact Or.inl ⟨rfl, rfl⟩
  | some data =>
    simp only [hget] at h
    rcases saved_or_same h with hsame | ⟨hmatch, hout, htasks⟩
    · exact Or.inl hsame
    · exact Or.inr ⟨data, rfl, hmatch, hout, htasks⟩

end TaskStore

end Memplex
