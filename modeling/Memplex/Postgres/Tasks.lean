import Memplex.Worker.Attempts

/-!
# The task repository in PostgreSQL

`PostgresTaskRepository` runs every method as a transaction of a few statements, at readings of the clock
of the database. What others may do between two statements depends on what is locked: the capacity, by
an advisory lock, and the rows that `FOR UPDATE` selected. `TaskCall` says where a session is in its
transaction, and so what it has locked. Nobody sees what a transaction has written before it commits,
and it only writes rows that it holds or that nobody can touch, so the writes of a transaction are made
when it commits.

What a session has read stays true until it commits (`Known`), since all who could change it would need
its locks. So every commit does what may be done to a board of leases, as the file store does.
-/

namespace Memplex

open Lib

/-- Where a session is in a transaction. -/
inductive TaskCall where
  | idle
  | admitLocked (info : TaskInfo)
  | admitCounted (info : TaskInfo)
  | replayLocked (taskId : String)
  | replaySelected (taskId : String)
  | replayCounted (taskId : String)
  | claiming (taskIds : List String) (leaseSeconds : ℤ)

namespace TaskCall

/-- The session holds the advisory lock of the capacity. -/
def HoldsCapacity : TaskCall → Prop
  | .admitLocked _ | .admitCounted _ | .replayLocked _ | .replaySelected _ | .replayCounted _ => True
  | .idle | .claiming .. => False

/-- The session holds the lock of a row. -/
def HoldsRow (taskId : String) : TaskCall → Prop
  | .replaySelected key | .replayCounted key => key = taskId
  | .claiming taskIds _ => taskId ∈ taskIds
  | _ => False

end TaskCall

/-- The table of tasks, its sessions, and the history of the leases. -/
structure TaskDatabase where
  tasks : Tasks
  calls : String → TaskCall
  grants : List TaskGrant
  returned : List String
  clock : Instant

namespace TaskDatabase

/-- A session gets on with its transaction. -/
def goto (s : TaskDatabase) (session : String) (call : TaskCall) : TaskDatabase :=
  { s with calls := Function.update s.calls session call }

theorem goto_calls (s : TaskDatabase) (session : String) (call : TaskCall) :
    (s.goto session call).calls session = call := by
  simp [goto]

/-- Nobody holds the lock of a row. -/
def RowFree (s : TaskDatabase) (taskId : String) : Prop :=
  ∀ session, ¬ (s.calls session).HoldsRow taskId

end TaskDatabase

/-- A statement of a session, or the passing of time. -/
inductive TaskStatement where
  | tick (now : Instant)
  | lockAdmission (session : String) (info : TaskInfo)
  | countAdmission (session : String)
  | insert (session : String) (now : Instant)
  | lockReplay (session taskId : String)
  | selectReplay (session : String)
  | countReplay (session : String)
  | updateReplay (session taskId : String) (now : Instant)
  | selectClaim (session taskId : String) (leaseSeconds : ℤ) (now : Instant)
  | selectDue (session : String) (limit leaseSeconds : ℤ) (now : Instant)
  | updateClaims (session : String) (leases : List (Instant × String))
  | cancelPending (session taskId : String)
  | complete (session taskId leaseId : String) (result : Option Value) (now : Instant)
  | fail (session taskId leaseId errorCode : String) (retryDelaySeconds : ℤ) (now : Instant)
  | rollback (session : String)

namespace PostgresTasks

/-! ## Statements -/

/-- What `admit_pending` accepts. -/
def Admissible (info : TaskInfo) : Prop :=
  info.status = .pending ∧ info.taskId ≠ "" ∧ 0 ≤ info.maxRetries ∧
    info.payload.all areJsonMembers = true

/-- The row that `admit_pending` inserts. -/
def inserted (info : TaskInfo) (now : Instant) : TaskInfo where
  taskId := info.taskId
  taskType := info.taskType
  status := .pending
  createdAt := now
  payload := some (info.payload.getD [])
  maxRetries := info.maxRetries
  nextAttemptAt := some now

/-- The row that `replay_failed_atomic` leaves: without a result, too. -/
def replayed (row : TaskInfo) (now : Instant) : TaskInfo :=
  { row.replayed now with result := .null }

/-- The condition under which a claim selects a row. -/
def due (now : Instant) (row : TaskInfo) : Bool :=
  row.status = .pending && row.nextAttemptAt.any (· ≤ now) ||
    row.status = .running && row.leaseUntil.any (· ≤ now)

/-- `ORDER BY COALESCE(next_attempt_at, lease_until), created_at, task_id`, with the order of texts in
the database. -/
def rowLe (collate : String → String → Bool) (a b : TaskInfo) : Bool :=
  let dueAt := fun row : TaskInfo => (row.nextAttemptAt <|> row.leaseUntil).getD 0
  dueAt a < dueAt b || dueAt a = dueAt b &&
    (a.createdAt < b.createdAt || a.createdAt = b.createdAt && collate a.taskId b.taskId)

/-- The rows of `claim_due`: the first due rows that nobody holds the lock of. -/
def dueRows (collate : String → String → Bool) (tasks : Tasks) (free : String → Bool)
    (limit : ℤ) (now : Instant) : List String :=
  let sorted := (tasks.rows.filter (due now)).mergeSort (rowLe collate)
  ((sorted.filter fun row => free row.taskId).take limit.toNat).map TaskInfo.taskId

/-- `_claim_locked` on the rows that were selected, each at a reading of the clock and with the lease id
that is generated for it. -/
def claimLocked (leaseSeconds : ℤ) : Tasks → List (String × Instant × String) →
    List TaskInfo × Tasks
  | tasks, [] => ([], tasks)
  | tasks, (taskId, now, leaseId) :: rest =>
    match tasks.get? taskId with
    | none => claimLocked leaseSeconds tasks rest
    | some row =>
      let info := row.leased leaseId (now + leaseSeconds * second)
      let claimed := claimLocked leaseSeconds (tasks.set info) rest
      (info :: claimed.1, claimed.2)

/-- The `UPDATE` of `cancel_pending`. -/
def cancelPending (tasks : Tasks) (taskId : String) : Option TaskInfo := do
  let row ← tasks.get? taskId
  if row.status = .pending then some row.cancelled else none

/-- The `UPDATE` of `complete`, which is not sent for a result that has no JSON text. -/
def complete (tasks : Tasks) (taskId leaseId : String) (result : Option Value) (now : Instant) :
    Option TaskInfo := do
  let value ← result
  let row ← tasks.get? taskId
  if leaseId ≠ "" ∧ isJsonValue value = true ∧ TaskStore.leaseMatches row leaseId now = true then
    some (row.completed value now) else none

/-- The `UPDATE` of `fail`. -/
def fail (tasks : Tasks) (taskId leaseId errorCode : String) (retryDelaySeconds : ℤ)
    (now : Instant) : Option TaskInfo := do
  let row ← tasks.get? taskId
  if leaseId ≠ "" ∧ errorCode ≠ "" ∧ 0 ≤ retryDelaySeconds ∧
      TaskStore.leaseMatches row leaseId now = true then
    some (row.attemptFailed errorCode retryDelaySeconds now) else none

/-- The row that an `UPDATE` returns is written. -/
def write (tasks : Tasks) : Option TaskInfo → Tasks
  | some row => tasks.set row
  | none => tasks

/-! ## Transactions -/

open Classical in
/-- What the statements of the sessions do. -/
inductive Step (collate : String → String → Bool) (capacity : ℕ) (s : TaskDatabase) :
    TaskStatement → TaskDatabase → Prop
  | tick {now : Instant} (hnow : s.clock ≤ now) :
    Step collate capacity s (.tick now) { s with clock := now }
  | lockAdmission {session : String} {info : TaskInfo} (hcall : s.calls session = .idle)
      (hfree : ∀ other, ¬ (s.calls other).HoldsCapacity) (hinfo : Admissible info) :
    Step collate capacity s (.lockAdmission session info) (s.goto session (.admitLocked info))
  | countAdmission {session : String} {info : TaskInfo}
      (hcall : s.calls session = .admitLocked info) :
    Step collate capacity s (.countAdmission session)
      (s.goto session (if s.tasks.activeCount < capacity then .admitCounted info else .idle))
  | insert {session : String} {info : TaskInfo} {now : Instant}
      (hcall : s.calls session = .admitCounted info) (hnow : now ≤ s.clock)
      (hnew : s.tasks.get? info.taskId = none) :
    Step collate capacity s (.insert session now)
      { s.goto session .idle with tasks := s.tasks.set (inserted info now) }
  | lockReplay {session taskId : String} (hcall : s.calls session = .idle)
      (hfree : ∀ other, ¬ (s.calls other).HoldsCapacity) :
    Step collate capacity s (.lockReplay session taskId) (s.goto session (.replayLocked taskId))
  | selectReplay {session taskId : String} (hcall : s.calls session = .replayLocked taskId)
      (hfree : s.RowFree taskId) :
    Step collate capacity s (.selectReplay session)
      (s.goto session (if (s.tasks.get? taskId).any (·.status = .failed) then
        .replaySelected taskId else .idle))
  | countReplay {session taskId : String} (hcall : s.calls session = .replaySelected taskId) :
    Step collate capacity s (.countReplay session)
      (s.goto session (if s.tasks.activeCount < capacity then .replayCounted taskId else .idle))
  | updateReplay {session taskId : String} {row : TaskInfo} {now : Instant}
      (hcall : s.calls session = .replayCounted taskId) (hnow : now ≤ s.clock)
      (hrow : s.tasks.get? taskId = some row) (hfailed : row.status = .failed) :
    Step collate capacity s (.updateReplay session taskId now)
      { s.goto session .idle with tasks := s.tasks.set (replayed row now) }
  | selectClaim {session taskId : String} {leaseSeconds : ℤ} {now : Instant}
      (hcall : s.calls session = .idle) (hnow : now ≤ s.clock) (hpos : 0 < leaseSeconds) :
    Step collate capacity s (.selectClaim session taskId leaseSeconds now)
      (s.goto session (if (s.tasks.get? taskId).any (due now) ∧ s.RowFree taskId then
        .claiming [taskId] leaseSeconds else .idle))
  | selectDue {session : String} {limit leaseSeconds : ℤ} {now : Instant}
      (hcall : s.calls session = .idle) (hnow : now ≤ s.clock) (hlimit : 0 < limit)
      (hpos : 0 < leaseSeconds) :
    Step collate capacity s (.selectDue session limit leaseSeconds now)
      (s.goto session (.claiming
        (dueRows collate s.tasks (fun taskId => decide (s.RowFree taskId)) limit now)
        leaseSeconds))
  | updateClaims {session : String} {taskIds : List String} {leaseSeconds : ℤ}
      {leases : List (Instant × String)} (hcall : s.calls session = .claiming taskIds leaseSeconds)
      (hlength : leases.length = taskIds.length) (hnow : ∀ l ∈ leases, l.1 ≤ s.clock)
      (hdistinct : (leases.map Prod.snd).Nodup)
      (hfresh : ∀ l ∈ leases, ∀ g ∈ s.grants, g.lease ≠ l.2) :
    Step collate capacity s (.updateClaims session leases)
      { s.goto session .idle with
        tasks := (claimLocked leaseSeconds s.tasks (taskIds.zip leases)).2
        grants := ((claimLocked leaseSeconds s.tasks (taskIds.zip leases)).1.filterMap
          (TaskStore.grantOf session)).reverse ++ s.grants }
  | cancelPending {session taskId : String} (hcall : s.calls session = .idle)
      (hfree : s.RowFree taskId) :
    Step collate capacity s (.cancelPending session taskId)
      { s with tasks := write s.tasks (cancelPending s.tasks taskId) }
  | complete {session taskId leaseId : String} {result : Option Value} {now : Instant}
      (hcall : s.calls session = .idle) (hfree : s.RowFree taskId) (hnow : now ≤ s.clock) :
    Step collate capacity s (.complete session taskId leaseId result now)
      { s with
        tasks := write s.tasks (complete s.tasks taskId leaseId result now)
        returned := if (complete s.tasks taskId leaseId result now).isSome then
          leaseId :: s.returned else s.returned }
  | fail {session taskId leaseId errorCode : String} {retryDelaySeconds : ℤ} {now : Instant}
      (hcall : s.calls session = .idle) (hfree : s.RowFree taskId) (hnow : now ≤ s.clock) :
    Step collate capacity s (.fail session taskId leaseId errorCode retryDelaySeconds now)
      { s with
        tasks := write s.tasks
          (fail s.tasks taskId leaseId errorCode retryDelaySeconds now)
        returned := if (fail s.tasks taskId leaseId errorCode retryDelaySeconds now).isSome then
          leaseId :: s.returned else s.returned }
  | rollback {session : String} : Step collate capacity s (.rollback session) (s.goto session .idle)

/-- The repository in PostgreSQL, as a task repository. -/
def repository (collate : String → String → Bool) (capacity : ℕ) : TaskRepository where
  State := TaskDatabase
  Op := TaskStatement
  tasks := TaskDatabase.tasks
  grants := TaskDatabase.grants
  returned := TaskDatabase.returned
  clock := TaskDatabase.clock
  Starts := fun s => s.tasks = .empty ∧ s.grants = [] ∧ s.calls = fun _ => .idle
  Step := Step collate capacity
  settling
    | .complete _ taskId leaseId _ now | .fail _ taskId leaseId _ _ now =>
      some (taskId, leaseId, now)
    | _ => none
  replaying
    | .updateReplay _ taskId _ => some taskId
    | _ => none

/-! ## What a session knows -/

variable {collate : String → String → Bool} {capacity : ℕ} {s s' : TaskDatabase}

/-- What a session has read, and relies on. -/
def Known (capacity : ℕ) (s : TaskDatabase) : TaskCall → Prop
  | .idle | .replayLocked _ => True
  | .admitLocked info => Admissible info
  | .admitCounted info => Admissible info ∧ s.tasks.activeCount < capacity
  | .replaySelected taskId => ∃ row, s.tasks.get? taskId = some row ∧ row.status = .failed
  | .replayCounted taskId =>
    (∃ row, s.tasks.get? taskId = some row ∧ row.status = .failed) ∧ s.tasks.activeCount < capacity
  | .claiming taskIds _ => taskIds.Nodup ∧
    ∀ taskId ∈ taskIds, ∃ row, s.tasks.get? taskId = some row ∧ row.phase.Due s.clock

/-- The locks exclude each other, and every session knows what it has read. -/
structure Inv (capacity : ℕ) (s : TaskDatabase) : Prop where
  capacity_excl : ∀ p q, (s.calls p).HoldsCapacity → (s.calls q).HoldsCapacity → p = q
  row_excl : ∀ p q taskId, (s.calls p).HoldsRow taskId → (s.calls q).HoldsRow taskId → p = q
  known : ∀ p, Known capacity s (s.calls p)

/-- What a session knows stays true if its rows stay as they are, and no more tasks are open. -/
theorem Known.stable {call : TaskCall} (h : Known capacity s call) (hclock : s.clock ≤ s'.clock)
    (hrows : ∀ taskId, call.HoldsRow taskId → s'.tasks.get? taskId = s.tasks.get? taskId)
    (hcount : call.HoldsCapacity → s'.tasks.activeCount ≤ s.tasks.activeCount) :
    Known capacity s' call := by
  cases call with
  | idle => trivial
  | replayLocked taskId => trivial
  | admitLocked info => exact h
  | admitCounted info => exact ⟨h.1, (hcount trivial).trans_lt h.2⟩
  | replaySelected taskId =>
    obtain ⟨row, hrow, hfailed⟩ := h
    exact ⟨row, (hrows taskId rfl).trans hrow, hfailed⟩
  | replayCounted taskId =>
    obtain ⟨⟨row, hrow, hfailed⟩, hroom⟩ := h
    exact ⟨⟨row, (hrows taskId rfl).trans hrow, hfailed⟩, (hcount trivial).trans_lt hroom⟩
  | claiming taskIds leaseSeconds =>
    refine ⟨h.1, fun taskId hmem => ?_⟩
    obtain ⟨row, hrow, hdue⟩ := h.2 taskId hmem
    exact ⟨row, (hrows taskId hmem).trans hrow, hdue.mono hclock⟩

/-- A row that a session holds the lock of is there. -/
theorem Known.exists_row {call : TaskCall} {taskId : String} (h : Known capacity s call)
    (hrow : call.HoldsRow taskId) : ∃ row, s.tasks.get? taskId = some row := by
  cases call with
  | replaySelected key =>
    obtain ⟨row, hget, -⟩ := h
    exact ⟨row, hrow ▸ hget⟩
  | replayCounted key =>
    obtain ⟨⟨row, hget, -⟩, -⟩ := h
    exact ⟨row, hrow ▸ hget⟩
  | claiming taskIds leaseSeconds =>
    obtain ⟨row, hget, -⟩ := h.2 taskId hrow
    exact ⟨row, hget⟩
  | _ => exact hrow.elim

/-- A statement of one session keeps the invariant if it takes only free locks, leaves the rows of the
others alone, and opens no task while another session holds the capacity. -/
theorem Inv.session (h : Inv capacity s) {p : String} {call : TaskCall}
    (hcalls : s'.calls = Function.update s.calls p call) (hclock : s.clock ≤ s'.clock)
    (hcapacity : call.HoldsCapacity →
      (s.calls p).HoldsCapacity ∨ ∀ q, ¬ (s.calls q).HoldsCapacity)
    (hrow : ∀ taskId, call.HoldsRow taskId → (s.calls p).HoldsRow taskId ∨ s.RowFree taskId)
    (hknown : Known capacity s' call)
    (hrows : ∀ q, q ≠ p → ∀ taskId, (s.calls q).HoldsRow taskId →
      s'.tasks.get? taskId = s.tasks.get? taskId)
    (hcount : ∀ q, q ≠ p → (s.calls q).HoldsCapacity →
      s'.tasks.activeCount ≤ s.tasks.activeCount) : Inv capacity s' := by
  have hself : s'.calls p = call := by rw [hcalls, Function.update_self]
  have hother : ∀ q, q ≠ p → s'.calls q = s.calls q := fun q hq => by
    rw [hcalls, Function.update_of_ne hq]
  have hcapacity' : ∀ q, q ≠ p → call.HoldsCapacity → ¬ (s.calls q).HoldsCapacity :=
    fun q hq hc hc' => (hcapacity hc).elim (fun hp => hq (h.capacity_excl q p hc' hp))
      fun hfree => hfree q hc'
  have hrow' : ∀ q, q ≠ p → ∀ taskId, call.HoldsRow taskId → ¬ (s.calls q).HoldsRow taskId :=
    fun q hq taskId hc hc' => (hrow taskId hc).elim
      (fun hp => hq (h.row_excl q p taskId hc' hp)) fun hfree => hfree q hc'
  refine ⟨fun a b ha hb => ?_, fun a b taskId ha hb => ?_, fun q => ?_⟩
  · by_cases hap : a = p <;> by_cases hbp : b = p
    · rw [hap, hbp]
    · rw [hap, hself] at ha
      exact absurd (hother b hbp ▸ hb) (hcapacity' b hbp ha)
    · rw [hbp, hself] at hb
      exact absurd (hother a hap ▸ ha) (hcapacity' a hap hb)
    · exact h.capacity_excl a b (hother a hap ▸ ha) (hother b hbp ▸ hb)
  · by_cases hap : a = p <;> by_cases hbp : b = p
    · rw [hap, hbp]
    · rw [hap, hself] at ha
      exact absurd (hother b hbp ▸ hb) (hrow' b hbp taskId ha)
    · rw [hbp, hself] at hb
      exact absurd (hother a hap ▸ ha) (hrow' a hap taskId hb)
    · exact h.row_excl a b taskId (hother a hap ▸ ha) (hother b hbp ▸ hb)
  · by_cases hq : q = p
    · rw [hq, hself]
      exact hknown
    · rw [hother q hq]
      exact (h.known q).stable hclock (hrows q hq) (hcount q hq)

/-- A statement that only gets a session on. -/
theorem Inv.goto (h : Inv capacity s) {p : String} {call : TaskCall}
    (hcapacity : call.HoldsCapacity →
      (s.calls p).HoldsCapacity ∨ ∀ q, ¬ (s.calls q).HoldsCapacity)
    (hrow : ∀ taskId, call.HoldsRow taskId → (s.calls p).HoldsRow taskId ∨ s.RowFree taskId)
    (hknown : Known capacity s call) : Inv capacity (s.goto p call) :=
  h.session rfl le_rfl hcapacity hrow (hknown.stable le_rfl (fun _ _ => rfl) fun _ => le_rfl)
    (fun _ _ _ _ => rfl) fun _ _ _ => le_rfl

/-- A statement that ends a transaction. -/
theorem Inv.commit (h : Inv capacity s) {p : String}
    (hcalls : s'.calls = Function.update s.calls p .idle) (hclock : s.clock ≤ s'.clock)
    (hrows : ∀ q, q ≠ p → ∀ taskId, (s.calls q).HoldsRow taskId →
      s'.tasks.get? taskId = s.tasks.get? taskId)
    (hcount : ∀ q, q ≠ p → (s.calls q).HoldsCapacity →
      s'.tasks.activeCount ≤ s.tasks.activeCount) : Inv capacity s' :=
  h.session hcalls hclock False.elim (fun _ => False.elim) trivial hrows hcount

/-- What `claim_due` selects is due, and nobody holds it. -/
theorem mem_dueRows {tasks : Tasks} {free : String → Bool} {limit : ℤ} {now : Instant}
    {taskId : String} (h : taskId ∈ dueRows collate tasks free limit now) :
    free taskId = true ∧ ∃ row, tasks.get? taskId = some row ∧ due now row = true := by
  obtain ⟨row, hmem, rfl⟩ := List.mem_map.mp h
  obtain ⟨hsorted, hfree⟩ := List.mem_filter.mp (List.mem_of_mem_take hmem)
  obtain ⟨hrow, hdue⟩ := List.mem_filter.mp ((List.mergeSort_perm _ _).mem_iff.mp hsorted)
  exact ⟨hfree, row, (tasks.mem_rows_iff row).mp hrow, hdue⟩

theorem nodup_dueRows {tasks : Tasks} {free : String → Bool} {limit : ℤ} {now : Instant} :
    (dueRows collate tasks free limit now).Nodup := by
  have hsorted : ((((tasks.rows.filter (due now)).mergeSort (rowLe collate))).map
      TaskInfo.taskId).Nodup :=
    ((List.mergeSort_perm _ _).map _).nodup_iff.mpr
      (tasks.nodup.sublist (List.filter_sublist.map _))
  exact hsorted.sublist (((List.take_sublist _ _).trans List.filter_sublist).map _)

/-- A row that a claim selects may be taken up. -/
theorem due_phase {row : TaskInfo} {now : Instant} (h : due now row = true) : row.phase.Due now := by
  rw [due, Bool.or_eq_true, Bool.and_eq_true, Bool.and_eq_true, decide_eq_true_iff,
    decide_eq_true_iff] at h
  rcases h with ⟨hpending, -⟩ | ⟨hrunning, huntil⟩
  · exact Or.inl (TaskInfo.phase_pending hpending)
  · rw [Option.any_eq_true] at huntil
    obtain ⟨t, ht, hle⟩ := huntil
    refine Or.inr ⟨_, _, TaskInfo.phase_running hrunning, fun t' ht' => ?_⟩
    rw [Option.mem_def, ht, Option.some.injEq] at ht'
    exact ht' ▸ of_decide_eq_true hle

/-! ## Commits -/

/-- The claims leave the other rows alone, and open no task. -/
theorem claimLocked_frame {leaseSeconds : ℤ} {tasks : Tasks}
    {items : List (String × Instant × String)}
    (hdue : ∀ item ∈ items, ∃ row, tasks.get? item.1 = some row ∧ row.phase.Active)
    (hnodup : (items.map Prod.fst).Nodup) :
    (∀ taskId, taskId ∉ items.map Prod.fst →
        (claimLocked leaseSeconds tasks items).2.get? taskId = tasks.get? taskId) ∧
      (claimLocked leaseSeconds tasks items).2.activeCount ≤ tasks.activeCount := by
  induction items generalizing tasks with
  | nil => exact ⟨fun _ _ => rfl, le_rfl⟩
  | cons item items ih =>
    obtain ⟨taskId, now, leaseId⟩ := item
    obtain ⟨⟨row, hrow, hactive⟩, hrest⟩ := List.forall_mem_cons.mp hdue
    obtain ⟨hnew, hnodup'⟩ := List.nodup_cons.mp hnodup
    have hother : ∀ x ∈ items, x.1 ≠ taskId := fun x hx heq =>
      hnew (List.mem_map.mpr ⟨x, hx, heq⟩)
    have hkey : row.taskId = taskId := Table.get?_key hrow
    have hget : ∀ k, k ≠ taskId →
        (tasks.set (row.leased leaseId (now + leaseSeconds * second))).get? k = tasks.get? k :=
      fun k hk => by
        rw [Table.get?_set, if_neg fun heq => hk (heq.symm.trans hkey)]
    have hdue' : ∀ x ∈ items, ∃ row', (tasks.set (row.leased leaseId
        (now + leaseSeconds * second))).get? x.1 = some row' ∧ row'.phase.Active :=
      fun x hx => by
        rw [hget x.1 (hother x hx)]
        exact hrest x hx
    obtain ⟨hframe, hcount⟩ := ih hdue' hnodup'
    simp only [claimLocked, hrow]
    refine ⟨fun k hk => ?_, hcount.trans (Tasks.activeCount_set_le hrow hkey fun _ => hactive)⟩
    rw [List.map_cons, List.mem_cons, not_or] at hk
    rw [hframe k hk.2, hget k hk.1]

/-- The claims are grants on the board. -/
theorem claimLocked_grants (capacity : ℕ) (leaseSeconds : ℤ) (session : String)
    {tasks : Tasks} {grants : List TaskGrant} (returned : List String) {clock : Instant}
    {items : List (String × Instant × String)}
    (hdue : ∀ item ∈ items, ∃ row, tasks.get? item.1 = some row ∧ row.phase.Due clock)
    (hnodup : (items.map Prod.fst).Nodup) (hdistinct : (items.map fun item => item.2.2).Nodup)
    (hfresh : ∀ item ∈ items, ∀ g ∈ grants, g.lease ≠ item.2.2) :
    ∃ acts, Leases.Run TaskInfo.phase capacity (tasks.board grants returned clock) acts
        ((claimLocked leaseSeconds tasks items).2.board
          (((claimLocked leaseSeconds tasks items).1.filterMap
            (TaskStore.grantOf session)).reverse ++ grants) returned clock) ∧
      ∀ act ∈ acts, ∃ g, act = .grant g clock := by
  induction items generalizing tasks grants with
  | nil => exact ⟨[], .nil _, fun _ h => absurd h List.not_mem_nil⟩
  | cons item items ih =>
    obtain ⟨taskId, now, leaseId⟩ := item
    obtain ⟨⟨row, hrow, hdue₁⟩, hrest⟩ := List.forall_mem_cons.mp hdue
    obtain ⟨hnew, hnodup'⟩ := List.nodup_cons.mp hnodup
    have hother : ∀ x ∈ items, x.1 ≠ taskId := fun x hx heq =>
      hnew (List.mem_map.mpr ⟨x, hx, heq⟩)
    obtain ⟨hlease, hdistinct'⟩ := List.nodup_cons.mp hdistinct
    obtain ⟨hfresh₁, hfresh'⟩ := List.forall_mem_cons.mp hfresh
    have hkey : row.taskId = taskId := Table.get?_key hrow
    obtain ⟨info, hinfo⟩ : ∃ info, info = row.leased leaseId (now + leaseSeconds * second) :=
      ⟨_, rfl⟩
    obtain ⟨g, hg⟩ : ∃ g : TaskGrant, g = ⟨session, taskId, leaseId, now + leaseSeconds * second⟩ :=
      ⟨_, rfl⟩
    have hboard : Tasks.board (tasks.set info) (g :: grants) returned clock =
        { (tasks.board grants returned clock).put g.key info with grants := g :: grants } := by
      rw [← Tasks.board_set (by rw [hinfo, hg]; exact hkey)]
      rfl
    have hstep : Leases.Step TaskInfo.phase capacity (tasks.board grants returned clock)
        (.grant g clock) (Tasks.board (tasks.set info) (g :: grants) returned clock) := by
      rw [hboard]
      exact .grant (by rw [hg]; exact hrow) hdue₁ le_rfl (by rw [hg]; exact hfresh₁)
        (by rw [hg, hinfo]; rfl)
    have hrest' : ∀ x ∈ items, ∃ row', (tasks.set info).get? x.1 = some row' ∧
        row'.phase.Due clock := fun x hx => by
      have hne : info.taskId ≠ x.1 := by
        rw [hinfo]
        exact fun heq => hother x hx (heq.symm.trans hkey)
      rw [Table.get?_set, if_neg hne]
      exact hrest x hx
    have hfresh₂ : ∀ x ∈ items, ∀ g' ∈ g :: grants, g'.lease ≠ x.2.2 := fun x hx => by
      refine List.forall_mem_cons.mpr ⟨fun heq => hlease ?_, hfresh' x hx⟩
      rw [hg] at heq
      exact List.mem_map.mpr ⟨x, hx, heq.symm⟩
    obtain ⟨acts, hrun, hacts⟩ := ih hrest' hnodup' hdistinct' hfresh₂
    refine ⟨.grant g clock :: acts, .cons hstep ?_, List.forall_mem_cons.mpr ⟨⟨g, rfl⟩, hacts⟩⟩
    have hgrant : TaskStore.grantOf session info = some g := by
      rw [hinfo, hg, ← hkey]
      rfl
    simp only [claimLocked, hrow, ← hinfo]
    rwa [List.filterMap_cons_some hgrant, List.reverse_cons, List.append_assoc]

theorem cancelPending_some {tasks : Tasks} {taskId : String} {row' : TaskInfo}
    (h : cancelPending tasks taskId = some row') :
    ∃ row, tasks.get? taskId = some row ∧ row.status = .pending ∧ row' = row.cancelled := by
  obtain ⟨row, hrow, h⟩ := Option.bind_eq_some_iff.mp h
  obtain ⟨hpending, h⟩ := Option.ite_none_right_eq_some.mp h
  exact ⟨row, hrow, hpending, (Option.some.inj h).symm⟩

theorem complete_some {tasks : Tasks} {taskId leaseId : String} {result : Option Value}
    {now : Instant} {row' : TaskInfo} (h : complete tasks taskId leaseId result now = some row') :
    ∃ row value, tasks.get? taskId = some row ∧ TaskStore.leaseMatches row leaseId now = true ∧
      row' = row.completed value now := by
  obtain ⟨value, -, h⟩ := Option.bind_eq_some_iff.mp h
  obtain ⟨row, hrow, h⟩ := Option.bind_eq_some_iff.mp h
  obtain ⟨⟨-, -, hmatch⟩, h⟩ := Option.ite_none_right_eq_some.mp h
  exact ⟨row, value, hrow, hmatch, (Option.some.inj h).symm⟩

theorem fail_some {tasks : Tasks} {taskId leaseId errorCode : String} {delay : ℤ} {now : Instant}
    {row' : TaskInfo} (h : fail tasks taskId leaseId errorCode delay now = some row') :
    ∃ row, tasks.get? taskId = some row ∧ TaskStore.leaseMatches row leaseId now = true ∧
      row' = row.attemptFailed errorCode delay now := by
  obtain ⟨row, hrow, h⟩ := Option.bind_eq_some_iff.mp h
  obtain ⟨⟨-, -, -, hmatch⟩, h⟩ := Option.ite_none_right_eq_some.mp h
  exact ⟨row, hrow, hmatch, (Option.some.inj h).symm⟩

/-- The `UPDATE` of a free row by a session that holds nothing. -/
theorem Inv.update (h : Inv capacity s) {taskId : String} (hfree : s.RowFree taskId)
    {row? : Option TaskInfo} (htasks : s'.tasks = write s.tasks row?) (hcalls : s'.calls = s.calls)
    (hclock : s'.clock = s.clock)
    (hrow : ∀ row', row? = some row' → row'.taskId = taskId ∧
      ∃ row, s.tasks.get? taskId = some row ∧ row.phase.Active) : Inv capacity s' := by
  refine ⟨hcalls ▸ h.capacity_excl, hcalls ▸ h.row_excl, fun p => ?_⟩
  rw [hcalls]
  cases row? with
  | none =>
    have hsame : s'.tasks = s.tasks := htasks
    exact (h.known p).stable hclock.ge (fun _ _ => by rw [hsame]) fun _ => by rw [hsame]
  | some row' =>
    obtain ⟨hkey, row, hget, hactive⟩ := hrow row' rfl
    have hset : s'.tasks = s.tasks.set row' := htasks
    refine (h.known p).stable hclock.ge (fun k hk => ?_) fun _ => ?_
    · -- The row of another session is another one.
      have hne : row'.taskId ≠ k := by
        rintro rfl
        exact hfree p (hkey ▸ hk)
      rw [hset, Table.get?_set, if_neg hne]
    · rw [hset]
      exact Tasks.activeCount_set_le hget hkey fun _ => hactive

theorem active_of_leaseMatches {row : TaskInfo} {leaseId : String} {now : Instant}
    (h : TaskStore.leaseMatches row leaseId now = true) : row.phase.Active :=
  Or.inr ⟨_, _, TaskInfo.phase_running (TaskStore.leaseMatches_iff.mp h).1⟩

/-- Every statement keeps the invariant. -/
theorem Step.keeps {op : TaskStatement} (hstep : Step collate capacity s op s')
    (h : Inv capacity s) : Inv capacity s' := by
  cases hstep with
  | tick hnow =>
    exact ⟨h.capacity_excl, h.row_excl, fun p =>
      (h.known p).stable hnow (fun _ _ => rfl) fun _ => le_rfl⟩
  | lockAdmission hcall hfree hinfo =>
    exact h.goto (fun _ => Or.inr hfree) (fun _ => False.elim) hinfo
  | @countAdmission p info hcall =>
    have hknown : Admissible info := by
      have hp := h.known p
      rwa [hcall] at hp
    split_ifs with hroom
    · exact h.goto (fun _ => Or.inl (by rw [hcall]; trivial)) (fun _ => False.elim) ⟨hknown, hroom⟩
    · exact h.goto False.elim (fun _ => False.elim) trivial
  | @insert p info now hcall hnow hnew =>
    have hholds : (s.calls p).HoldsCapacity := by rw [hcall]; trivial
    refine h.commit rfl le_rfl (fun q _ k hk => ?_) fun q hq hc =>
      absurd (h.capacity_excl q p hc hholds) hq
    obtain ⟨row, hrow⟩ := (h.known q).exists_row hk
    have hne : (inserted info now).taskId ≠ k := fun heq => by
      rw [← heq] at hrow
      exact Option.some_ne_none row (hrow.symm.trans hnew)
    exact (Table.get?_set ..).trans (if_neg hne)
  | lockReplay hcall hfree =>
    exact h.goto (fun _ => Or.inr hfree) (fun _ => False.elim) trivial
  | @selectReplay p taskId hcall hfree =>
    split_ifs with hfailed
    · rw [Option.any_eq_true] at hfailed
      obtain ⟨row, hrow, hstatus⟩ := hfailed
      exact h.goto (fun _ => Or.inl (by rw [hcall]; trivial))
        (fun k hk => Or.inr (hk ▸ hfree)) ⟨row, hrow, of_decide_eq_true hstatus⟩
    · exact h.goto False.elim (fun _ => False.elim) trivial
  | @countReplay p taskId hcall =>
    have hknown := h.known p
    rw [hcall] at hknown
    split_ifs with hroom
    · exact h.goto (fun _ => Or.inl (by rw [hcall]; trivial))
        (fun k hk => Or.inl (by rw [hcall]; exact hk)) ⟨hknown, hroom⟩
    · exact h.goto False.elim (fun _ => False.elim) trivial
  | @updateReplay p taskId row now hcall hnow hrow hfailed =>
    have hholds : (s.calls p).HoldsCapacity := by rw [hcall]; trivial
    have hrowHeld : (s.calls p).HoldsRow taskId := by rw [hcall]; rfl
    refine h.commit rfl le_rfl (fun q hq k hk => ?_) fun q hq hc =>
      absurd (h.capacity_excl q p hc hholds) hq
    have hkey : row.taskId = taskId := Table.get?_key hrow
    have hne : (replayed row now).taskId ≠ k := by
      rintro rfl
      exact hq (h.row_excl q p taskId (hkey ▸ hk) hrowHeld)
    exact (Table.get?_set ..).trans (if_neg hne)
  | @selectClaim p taskId leaseSeconds now hcall hnow hpos =>
    split_ifs with hsel
    · have hdue := hsel.1
      rw [Option.any_eq_true] at hdue
      obtain ⟨row, hrow, hdue⟩ := hdue
      refine h.goto False.elim (fun k hk => Or.inr ?_) ⟨List.nodup_singleton _, ?_⟩
      · rw [List.mem_singleton.mp hk]
        exact hsel.2
      · exact List.forall_mem_singleton.mpr ⟨row, hrow, (due_phase hdue).mono hnow⟩
    · exact h.goto False.elim (fun _ => False.elim) trivial
  | @selectDue p limit leaseSeconds now hcall hnow hlimit hpos =>
    refine h.goto False.elim (fun k hk => Or.inr ?_) ⟨nodup_dueRows, fun k hk => ?_⟩
    · simpa using (mem_dueRows hk).1
    · obtain ⟨-, row, hrow, hdue⟩ := mem_dueRows hk
      exact ⟨row, hrow, (due_phase hdue).mono hnow⟩
  | @updateClaims p taskIds leaseSeconds leases hcall hlength hnow hdistinct hfresh =>
    have hknown := h.known p
    rw [hcall] at hknown
    have hids : (taskIds.zip leases).map Prod.fst = taskIds :=
      List.map_fst_zip hlength.ge
    have hdue : ∀ item ∈ taskIds.zip leases, ∃ row, s.tasks.get? item.1 = some row ∧
        row.phase.Active := fun item hitem => by
      obtain ⟨row, hrow, hdue⟩ := hknown.2 item.1 (hids ▸ List.mem_map_of_mem hitem)
      exact ⟨row, hrow, hdue.active⟩
    obtain ⟨hframe, hcount⟩ := claimLocked_frame hdue (hids.symm ▸ hknown.1)
    refine h.commit rfl le_rfl (fun q hq k hk => hframe k ?_) fun _ _ _ => hcount
    rw [hids]
    exact fun hmem => hq (h.row_excl q p k hk (by rw [hcall]; exact hmem))
  | @cancelPending p taskId hcall hfree =>
    refine h.update hfree rfl rfl rfl fun row' hrow' => ?_
    obtain ⟨row, hrow, hpending, rfl⟩ := cancelPending_some hrow'
    have hkey : row.taskId = taskId := Table.get?_key hrow
    exact ⟨hkey, row, hrow, Or.inl (TaskInfo.phase_pending hpending)⟩
  | @complete p taskId leaseId result now hcall hfree hnow =>
    refine h.update hfree rfl rfl rfl fun row' hrow' => ?_
    obtain ⟨row, value, hrow, hmatch, rfl⟩ := complete_some hrow'
    have hkey : row.taskId = taskId := Table.get?_key hrow
    exact ⟨hkey, row, hrow, active_of_leaseMatches hmatch⟩
  | @fail p taskId leaseId errorCode delay now hcall hfree hnow =>
    refine h.update hfree rfl rfl rfl fun row' hrow' => ?_
    obtain ⟨row, hrow, hmatch, rfl⟩ := fail_some hrow'
    exact ⟨(row.attemptFailed_spec errorCode delay now).1.trans (Table.get?_key hrow), row, hrow,
      active_of_leaseMatches hmatch⟩
  | rollback => exact h.goto False.elim (fun _ => False.elim) trivial

/-! ## Statements as steps of a board -/

/-- A statement is done to the board act by act. -/
def Carried (collate : String → String → Bool) (capacity : ℕ) (s : TaskDatabase)
    (op : TaskStatement) (s' : TaskDatabase) : Prop :=
  ∃ acts, Leases.Run TaskInfo.phase capacity (s.tasks.board s.grants s.returned s.clock) acts
      (s'.tasks.board s'.grants s'.returned s'.clock) ∧
    ∀ act ∈ acts, (repository collate capacity).Allows op act

theorem Carried.none {op : TaskStatement} (htasks : s'.tasks = s.tasks)
    (hgrants : s'.grants = s.grants) (hreturned : s'.returned = s.returned)
    (hclock : s'.clock = s.clock) : Carried collate capacity s op s' := by
  refine ⟨[], ?_, fun _ h => absurd h List.not_mem_nil⟩
  rw [htasks, hgrants, hreturned, hclock]
  exact .nil _

theorem Carried.one {op : TaskStatement} (act : TaskAct)
    (hstep : Leases.Step TaskInfo.phase capacity (s.tasks.board s.grants s.returned s.clock) act
      (s'.tasks.board s'.grants s'.returned s'.clock))
    (hact : (repository collate capacity).Allows op act) : Carried collate capacity s op s' :=
  ⟨[act], .cons hstep (.nil _), List.forall_mem_singleton.mpr hact⟩

/-- What neither settles nor replays a task may be done by every other statement. -/
theorem allows_of_not {op : TaskStatement} {act : TaskAct}
    (hop : (repository collate capacity).settling op = none) (hact : ∀ k, act ≠ .replay k) :
    (repository collate capacity).Allows op act where
  settle := fun x hx => by
    rw [hop] at hx
    cases hx
  replay := fun k hk => absurd hk (hact k)

/-- There is room for a task where fewer are open than the capacity. -/
theorem openAtMost_self (s : TaskDatabase) : Leases.OpenAtMost TaskInfo.phase
    (s.tasks.board s.grants s.returned s.clock).records s.tasks.activeCount :=
  Tasks.openAtMost_iff.mpr le_rfl

/-- An `UPDATE` with the lease that is on the row settles the task. -/
theorem settle_step {taskId leaseId : String} {row row' : TaskInfo} {now : Instant}
    (hrow : s.tasks.get? taskId = some row)
    (hmatch : TaskStore.leaseMatches row leaseId now = true) (hkey : row'.taskId = row.taskId)
    (hphase : row'.phase = .completed ∨ row'.phase = .pending ∨ row'.phase = .failed) :
    Leases.Step TaskInfo.phase capacity (s.tasks.board s.grants s.returned s.clock)
      (.settle taskId leaseId now)
      (Tasks.board (s.tasks.set row') s.grants (leaseId :: s.returned) s.clock) := by
  obtain ⟨hrunning, hlease, expiry, huntil, hnow⟩ := TaskStore.leaseMatches_iff.mp hmatch
  have hboard : Tasks.board (s.tasks.set row') s.grants (leaseId :: s.returned) s.clock =
      { (s.tasks.board s.grants s.returned s.clock).put taskId row' with
        returned := leaseId :: s.returned } := by
    rw [← Tasks.board_set (hkey.trans (Table.get?_key hrow))]
    rfl
  rw [hboard]
  exact .settle hrow (by rw [TaskInfo.phase_running hrunning, hlease, huntil]) hnow hphase

/-- Every statement does to the tasks what may be done to a board, where the sessions know what they
have read. -/
theorem Step.carried {op : TaskStatement} (hstep : Step collate capacity s op s')
    (h : Inv capacity s) : Carried collate capacity s op s' := by
  cases hstep with
  | tick hnow => exact .one _ (.tick hnow) (allows_of_not rfl fun _ => by simp)
  | @insert p info now hcall hnow hnew =>
    have hroom := h.known p
    rw [hcall] at hroom
    refine .one (.submit info.taskId) ?_ (allows_of_not rfl fun _ => by simp)
    have hput : Leases.Step TaskInfo.phase capacity (s.tasks.board s.grants s.returned s.clock)
        (.submit info.taskId)
        ((s.tasks.board s.grants s.returned s.clock).put info.taskId (inserted info now)) :=
      .submit hnew (openAtMost_self s) hroom.2 rfl
    rw [← Tasks.board_set (show (inserted info now).taskId = info.taskId from rfl)] at hput
    exact hput
  | @updateReplay p taskId row now hcall hnow hrow hfailed =>
    have hroom := h.known p
    rw [hcall] at hroom
    refine .one (.replay taskId) ?_ ⟨fun x hx => (by cases hx), fun k hk => by cases hk; rfl⟩
    have hkey : row.taskId = taskId := Table.get?_key hrow
    have hput : Leases.Step TaskInfo.phase capacity (s.tasks.board s.grants s.returned s.clock)
        (.replay taskId)
        ((s.tasks.board s.grants s.returned s.clock).put taskId (replayed row now)) :=
      .replay hrow (TaskInfo.phase_failed hfailed) (openAtMost_self s) hroom.2 rfl
    rw [← Tasks.board_set (show (replayed row now).taskId = taskId from hkey)] at hput
    exact hput
  | @updateClaims p taskIds leaseSeconds leases hcall hlength hnow hdistinct hfresh =>
    have hknown := h.known p
    rw [hcall] at hknown
    have hids : (taskIds.zip leases).map Prod.fst = taskIds := List.map_fst_zip hlength.ge
    have hleases : (taskIds.zip leases).map (fun item => item.2.2) = leases.map Prod.snd := by
      have hzip := congrArg (List.map Prod.snd) (List.map_snd_zip hlength.le)
      rwa [List.map_map] at hzip
    obtain ⟨acts, hrun, hacts⟩ := claimLocked_grants capacity leaseSeconds p s.returned
      (fun item hitem => hknown.2 item.1 (hids ▸ List.mem_map_of_mem hitem))
      (hids.symm ▸ hknown.1) (hleases.symm ▸ hdistinct)
      (fun item hitem => hfresh item.2 (List.of_mem_zip hitem).2)
    refine ⟨acts, hrun, fun act hact => allows_of_not rfl fun k => ?_⟩
    obtain ⟨g, rfl⟩ := hacts act hact
    simp
  | @cancelPending p taskId hcall hfree =>
    cases hcancel : PostgresTasks.cancelPending s.tasks taskId with
    | none => exact .none rfl rfl rfl rfl
    | some row' =>
      obtain ⟨row, hrow, hpending, rfl⟩ := cancelPending_some hcancel
      refine .one (.cancel taskId) ?_ (allows_of_not rfl fun _ => by simp)
      have hkey : row.taskId = taskId := Table.get?_key hrow
      have hput : Leases.Step TaskInfo.phase capacity (s.tasks.board s.grants s.returned s.clock)
          (.cancel taskId)
          ((s.tasks.board s.grants s.returned s.clock).put taskId row.cancelled) :=
        .cancel hrow (TaskInfo.phase_pending hpending) rfl
      rw [← Tasks.board_set (show row.cancelled.taskId = taskId from hkey)] at hput
      exact hput
  | @complete p taskId leaseId result now hcall hfree hnow =>
    cases hcomplete : PostgresTasks.complete s.tasks taskId leaseId result now with
    | none => exact .none rfl rfl rfl rfl
    | some row' =>
      obtain ⟨row, value, hrow, hmatch, rfl⟩ := complete_some hcomplete
      exact .one _ (settle_step hrow hmatch rfl (Or.inl rfl))
        ⟨fun x hx => by cases hx; rfl, fun k hk => by cases hk⟩
  | @fail p taskId leaseId errorCode delay now hcall hfree hnow =>
    cases hfail : PostgresTasks.fail s.tasks taskId leaseId errorCode delay now with
    | none => exact .none rfl rfl rfl rfl
    | some row' =>
      obtain ⟨row, hrow, hmatch, rfl⟩ := fail_some hfail
      obtain ⟨hkey, -, -, hstatus⟩ := row.attemptFailed_spec errorCode delay now
      refine .one _ (settle_step hrow hmatch hkey (Or.inr ?_))
        ⟨fun x hx => by cases hx; rfl, fun k hk => by cases hk⟩
      exact hstatus.imp (fun h => TaskInfo.phase_pending h.1) TaskInfo.phase_failed
  | _ => exact .none rfl rfl rfl rfl

theorem inv_start (h : s.calls = fun _ => .idle) : Inv capacity s where
  capacity_excl := fun p _ hp => by
    rw [h] at hp
    exact hp.elim
  row_excl := fun p _ _ hp => by
    rw [h] at hp
    exact hp.elim
  known := fun p => by
    rw [h]
    trivial

theorem refines (collate : String → String → Bool) (capacity : ℕ) :
    (repository collate capacity).Refines capacity (Inv capacity) where
  starts := fun _ hs => ⟨inv_start hs.2.2, hs.1, hs.2.1⟩
  keeps := fun _ _ _ h hstep => Step.keeps hstep h
  acts := fun _ _ _ h hstep => Step.carried hstep h

end PostgresTasks

namespace PostgresTasks

/-- A database before its first task. -/
def unused : TaskDatabase where
  tasks := .empty
  calls := fun _ => .idle
  grants := []
  returned := []
  clock := 0

/-- A session submits a task to the database. -/
theorem exists_submitted (collate : String → String → Bool) :
    ∃ s, (repository collate 1).Reachable s ∧ s.tasks.get? "t" ≠ none := by
  have hstart : (repository collate 1).Reachable unused := ⟨_, [], ⟨rfl, rfl, rfl⟩, .nil _⟩
  have hlock : Step collate 1 unused (.lockAdmission "w" TaskStore.onceTask)
      (unused.goto "w" (.admitLocked TaskStore.onceTask)) :=
    .lockAdmission rfl (fun _ => id) ⟨rfl, by decide, by decide, rfl⟩
  obtain ⟨locked, hlocked⟩ : ∃ s, s = unused.goto "w" (.admitLocked TaskStore.onceTask) := ⟨_, rfl⟩
  have hcount : Step collate 1 locked (.countAdmission "w")
      (locked.goto "w" (.admitCounted TaskStore.onceTask)) := by
    have hroom : locked.tasks.activeCount < 1 := by rw [hlocked]; decide
    have hcall : locked.calls "w" = .admitLocked TaskStore.onceTask := by
      rw [hlocked, TaskDatabase.goto_calls]
    have hstep : Step collate 1 locked (.countAdmission "w") (locked.goto "w"
        (if locked.tasks.activeCount < 1 then .admitCounted TaskStore.onceTask else .idle)) :=
      .countAdmission hcall
    rwa [if_pos hroom] at hstep
  obtain ⟨counted, hcounted⟩ : ∃ s, s = locked.goto "w" (.admitCounted TaskStore.onceTask) :=
    ⟨_, rfl⟩
  have hinsert : Step collate 1 counted (.insert "w" 0) { counted.goto "w" .idle with
      tasks := counted.tasks.set (inserted TaskStore.onceTask 0) } :=
    .insert (by rw [hcounted, TaskDatabase.goto_calls]) (by rw [hcounted, hlocked]; exact le_rfl)
      (by rw [hcounted, hlocked]; rfl)
  rw [← hlocked] at hlock
  rw [← hcounted] at hcount
  refine ⟨_, ((hstart.step hlock).step hcount).step hinsert, ?_⟩
  have hget : (counted.tasks.set (inserted TaskStore.onceTask 0)).get? "t" =
      some (inserted TaskStore.onceTask 0) := by
    rw [Table.get?_set, if_pos (show (inserted TaskStore.onceTask 0).taskId = "t" from rfl)]
  exact fun hnone => Option.some_ne_none _ (hget.symm.trans hnone)

end PostgresTasks

/-- The task store and the repository in PostgreSQL are fenced in every state that they get into. -/
theorem task_repositories_fenced (collate : String → String → Bool) (capacity : ℕ) :
    (∀ s, (TaskStore.repository capacity).Reachable s →
      (TaskStore.repository capacity).Fenced capacity s) ∧
    ∀ s, (PostgresTasks.repository collate capacity).Reachable s →
      (PostgresTasks.repository collate capacity).Fenced capacity s :=
  ⟨fun _ hs => (TaskStore.refines capacity).fenced hs,
    fun _ hs => (PostgresTasks.refines collate capacity).fenced hs⟩

/-- Two repositories with a task. -/
theorem task_repositories_fenced_submitted :
    (TaskStore.repository 1).Fenced 1 TaskStore.submitted ∧
      ∃ s : TaskDatabase, s.tasks.get? "t" ≠ none ∧
        (PostgresTasks.repository (fun a b => decide (a ≤ b)) 1).Fenced 1 s := by
  obtain ⟨hstore, hdatabase⟩ := task_repositories_fenced (fun a b => decide (a ≤ b)) 1
  obtain ⟨s, hs, hget⟩ := PostgresTasks.exists_submitted fun a b => decide (a ≤ b)
  exact ⟨hstore _ TaskStore.claimed_submitted.reachable, s, hget, hdatabase s hs⟩

end Memplex
