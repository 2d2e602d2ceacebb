import Memplex.Worker.TaskStore

/-!
# Runs of the task store

Any number of workers call the methods of a task store at readings of a clock that only goes forward; a
call may act at a reading from before, as the claims of `claim_due` do and a call that waits for the
file. A worker that crashes makes no more calls. The history keeps the leases that were given out and
taken back, and how often each task was claimed since it was last submitted or replayed.

Every call does to the tasks what may be done to a board of leases (`refines`), so a store is fenced in
every state that it gets into (`taskStore_fenced`).
-/

namespace Memplex

open Lib

/-- The tasks of a store, with the history of its workers. -/
structure WorkerState where
  tasks : Tasks
  grants : List TaskGrant
  returned : List String
  clock : Instant
  /-- How often a task was claimed since it was submitted or replayed. -/
  claims : String → ℕ

/-- A call of a worker, or the passing of time. -/
inductive TaskOp where
  | tick (now : Instant)
  | admitPending (info : TaskInfo)
  | claim (worker taskId : String) (now : Instant) (leaseId : String) (leaseSeconds : ℤ)
  | claimDue (worker : String) (limit leaseSeconds : ℤ) (now : Instant) (leaseId : ℕ → String)
  | complete (taskId leaseId : String) (result : Option Value) (now : Instant)
  | fail (taskId leaseId errorCode : String) (retryDelaySeconds : ℤ) (now : Instant)
  | cancelPending (taskId : String)
  | replayFailedAtomic (taskId : String) (now : Instant)

namespace TaskStore

/-- What a call returns and leaves. -/
def exec (capacity : ℤ) (tasks : Tasks) : TaskOp → Except PyError (List TaskInfo × Tasks)
  | .tick _ => .ok ([], tasks)
  | .admitPending info => (admitPending tasks info capacity).map fun r => ([r.1], r.2)
  | .claim _ taskId now leaseId leaseSeconds =>
    (claim tasks taskId now leaseId leaseSeconds).map fun r => (r.1.toList, r.2)
  | .claimDue _ limit leaseSeconds now leaseId => claimDue tasks limit leaseSeconds now leaseId
  | .complete taskId leaseId result now =>
    (complete tasks taskId leaseId result now).map fun r => (r.1.toList, r.2)
  | .fail taskId leaseId errorCode retryDelaySeconds now =>
    (fail tasks taskId leaseId errorCode retryDelaySeconds now).map fun r => (r.1.toList, r.2)
  | .cancelPending taskId => (cancelPending tasks taskId).map fun r => ([], r.2)
  | .replayFailedAtomic taskId now =>
    (replayFailedAtomic tasks taskId capacity now).map fun r => (r.1.toList, r.2)

/-- The lease that a claim returns to a worker. -/
def grantOf (worker : String) (info : TaskInfo) : Option TaskGrant := do
  let lease ← info.leaseId
  let expiry ← info.leaseUntil
  some { worker, key := info.taskId, lease, expiry }

/-- A worker has got a task. -/
def granted (worker : String) (s : WorkerState) (info : TaskInfo) : WorkerState :=
  { s with
    grants := (grantOf worker info).toList ++ s.grants
    claims := Function.update s.claims info.taskId (s.claims info.taskId + 1) }

/-- The state after a call that returned. -/
def after (s : WorkerState) (infos : List TaskInfo) (tasks : Tasks) : TaskOp → WorkerState
  | .tick now => { s with clock := now }
  | .admitPending info => { s with tasks, claims := Function.update s.claims info.taskId 0 }
  | .claim worker .. | .claimDue worker .. => infos.foldl (granted worker) { s with tasks }
  | .complete _ leaseId .. | .fail _ leaseId .. =>
    { s with tasks, returned := if infos = [] then s.returned else leaseId :: s.returned }
  | .cancelPending _ => { s with tasks }
  | .replayFailedAtomic taskId _ =>
    { s with tasks, claims := if infos = [] then s.claims else Function.update s.claims taskId 0 }

/-- A call that can be made: a submitted task is pending, nobody reads a time to come, and the leases
that are generated are new. -/
def Callable (s : WorkerState) : TaskOp → Prop
  | .tick now => s.clock ≤ now
  | .admitPending info => info.status = .pending
  | .claim _ _ now leaseId _ => now ≤ s.clock ∧ ∀ g ∈ s.grants, g.lease ≠ leaseId
  | .claimDue _ _ _ now leaseId =>
    now ≤ s.clock ∧ Function.Injective leaseId ∧ ∀ i, ∀ g ∈ s.grants, g.lease ≠ leaseId i
  | .complete _ _ _ now | .fail _ _ _ _ now | .replayFailedAtomic _ now => now ≤ s.clock
  | .cancelPending _ => True

/-- A call returns, or raises and leaves everything as it was. -/
inductive Step (capacity : ℕ) (s : WorkerState) : TaskOp → WorkerState → Prop
  | returns {op : TaskOp} {infos : List TaskInfo} {tasks : Tasks} (hop : Callable s op)
      (h : exec capacity s.tasks op = .ok (infos, tasks)) : Step capacity s op (after s infos tasks op)
  | raises {op : TaskOp} {e : PyError} (hop : Callable s op)
      (h : exec capacity s.tasks op = .error e) : Step capacity s op s

/-- The task store as a task repository. -/
def repository (capacity : ℕ) : TaskRepository where
  State := WorkerState
  Op := TaskOp
  tasks := WorkerState.tasks
  grants := WorkerState.grants
  returned := WorkerState.returned
  clock := WorkerState.clock
  Starts := fun s => s.tasks = .empty ∧ s.grants = [] ∧ s.claims = fun _ => 0
  Step := Step capacity
  settling
    | .complete taskId leaseId _ now | .fail taskId leaseId _ _ now => some (taskId, leaseId, now)
    | _ => none
  replaying
    | .replayFailedAtomic taskId _ => some taskId
    | _ => none

/-! ## Calls as steps of a board -/

variable {capacity : ℕ} {s s' : WorkerState} {key : String}

/-- The tasks of a state, as a board of leases. -/
def board (s : WorkerState) : TaskBoard := s.tasks.board s.grants s.returned s.clock

theorem board_set {info : TaskInfo} (hkey : info.taskId = key) :
    board { s with tasks := s.tasks.set info } = (board s).put key info :=
  Tasks.board_set hkey

/-- There is room for a task that passed the check of the capacity. -/
theorem openAtMost_of_lt (h : (s.tasks.activeCount : ℤ) < capacity) :
    Leases.OpenAtMost TaskInfo.phase (board s).records s.tasks.activeCount ∧
      s.tasks.activeCount < capacity :=
  ⟨Tasks.openAtMost_iff.mpr le_rfl, by omega⟩

/-- The state after a claim that stored a task with a new lease. -/
def claimed (worker : String) (s : WorkerState) (info : TaskInfo) : WorkerState :=
  granted worker { s with tasks := s.tasks.set info } info

theorem claimed_claims (worker : String) (s : WorkerState) (info : TaskInfo) (k : String) :
    (claimed worker s info).claims k =
      if k = info.taskId then s.claims info.taskId + 1 else s.claims k :=
  Function.update_apply _ _ _ _

/-- A claim that returned a task is a grant on the board. -/
theorem claim_grants (capacity : ℕ) (worker : String) {leaseId : String} {now : Instant}
    (expiry : Instant) {data : TaskInfo} (hget : s.tasks.get? key = some data)
    (hdue : data.due now = true) (hnow : now ≤ s.clock)
    (hfresh : ∀ g ∈ s.grants, g.lease ≠ leaseId) :
    Leases.Step TaskInfo.phase capacity (board s) (.grant ⟨worker, key, leaseId, expiry⟩ now)
      (board (claimed worker s (data.leased leaseId expiry))) := by
  have hkey : data.taskId = key := Table.get?_key hget
  have hboard : board (claimed worker s (data.leased leaseId expiry)) =
      { (board s).put key (data.leased leaseId expiry) with
        grants := ⟨worker, key, leaseId, expiry⟩ :: s.grants } := by
    rw [← board_set (show (data.leased _ _).taskId = key from hkey), ← hkey]
    rfl
  rw [hboard]
  exact .grant hget (TaskInfo.due_phase hdue) hnow hfresh rfl

/-- The claims of `claim_due`, one after the other, are grants on the board. -/
theorem claimEach_grants (capacity : ℕ) (worker : String) {leaseId : ℕ → String} {now : Instant}
    {leaseSeconds : ℤ} {taskIds : List String} {i : ℕ} {infos : List TaskInfo} {tasks : Tasks}
    (hinj : Function.Injective leaseId) (hnow : now ≤ s.clock)
    (hfresh : ∀ j, i ≤ j → ∀ g ∈ s.grants, g.lease ≠ leaseId j)
    (h : claimEach now leaseId leaseSeconds taskIds i s.tasks = .ok (infos, tasks)) :
    ∃ acts, Leases.Run TaskInfo.phase capacity (board s) acts
        (board (infos.foldl (granted worker) { s with tasks })) ∧
      ∀ act ∈ acts, ∃ g, act = .grant g now := by
  induction taskIds generalizing s i infos with
  | nil =>
    cases h
    exact ⟨[], .nil _, fun _ h => absurd h List.not_mem_nil⟩
  | cons taskId taskIds ih =>
    obtain ⟨⟨out, tasks₁⟩, hclaim, h⟩ := Except.bind_ok.mp h
    obtain ⟨⟨more, tasks₂⟩, hrest, h⟩ := Except.bind_ok.mp h
    cases h
    rcases claim_ok hclaim with ⟨rfl, rfl⟩ | ⟨data, hget, hdue, -, rfl, rfl⟩
    · exact ih hnow (fun j hj => hfresh j (by omega)) hrest
    · -- The lease of this claim is not the lease of a later one.
      have hfresh' : ∀ j, i + 1 ≤ j → ∀ g ∈ (claimed worker s
          (data.leased (leaseId i) (now + leaseSeconds * second))).grants, g.lease ≠ leaseId j :=
        fun j hj g hg => by
          rcases List.mem_cons.mp hg with rfl | hmem
          · exact fun heq => absurd (hinj heq) (by omega)
          · exact hfresh j (by omega) g hmem
      have hstep := claim_grants capacity worker (now + leaseSeconds * second) hget hdue hnow
        (hfresh i le_rfl)
      obtain ⟨acts, hrun, hacts⟩ := ih (s := claimed worker s _) hnow hfresh' hrest
      exact ⟨_, .cons hstep hrun, List.forall_mem_cons.mpr ⟨⟨_, rfl⟩, hacts⟩⟩

/-- A call is done to the board act by act. -/
def Carried (capacity : ℕ) (s : WorkerState) (op : TaskOp) (s' : WorkerState) : Prop :=
  ∃ acts, Leases.Run TaskInfo.phase capacity (board s) acts (board s') ∧
    ∀ act ∈ acts, (repository capacity).Allows op act

theorem Carried.none (op : TaskOp) : Carried capacity s op s :=
  ⟨[], .nil _, fun _ h => absurd h List.not_mem_nil⟩

theorem Carried.one {op : TaskOp} (act : TaskAct)
    (hstep : Leases.Step TaskInfo.phase capacity (board s) act (board s'))
    (hact : (repository capacity).Allows op act) : Carried capacity s op s' :=
  ⟨[act], .cons hstep (.nil _), List.forall_mem_singleton.mpr hact⟩

/-- What neither settles nor replays a task may be done by every other call. -/
theorem allows_of_not {op : TaskOp} {act : TaskAct} (hop : (repository capacity).settling op = none)
    (hact : ∀ k, act ≠ .replay k) : (repository capacity).Allows op act where
  settle := fun x hx => by
    rw [hop] at hx
    cases hx
  replay := fun k hk => absurd hk (hact k)

theorem carried_admitPending {info : TaskInfo} {infos : List TaskInfo} {tasks : Tasks}
    (hop : Callable s (.admitPending info))
    (h : exec capacity s.tasks (.admitPending info) = .ok (infos, tasks)) :
    Carried capacity s (.admitPending info) (after s infos tasks (.admitPending info)) := by
  obtain ⟨r, hr, heq⟩ := Except.map_ok h
  cases heq
  obtain ⟨hnew, hroom, htasks, -⟩ := admitPending_ok hr
  obtain ⟨hopen, hlt⟩ := openAtMost_of_lt hroom
  refine .one (.submit info.taskId) ?_ (allows_of_not rfl fun _ => by simp)
  have hstep : Leases.Step TaskInfo.phase capacity (board s) (.submit info.taskId)
      ((board s).put info.taskId info) :=
    .submit hnew hopen hlt (TaskInfo.phase_pending hop)
  rwa [← board_set rfl, ← htasks] at hstep

theorem carried_claim {worker taskId leaseId : String} {now : Instant} {leaseSeconds : ℤ}
    {infos : List TaskInfo} {tasks : Tasks}
    (hop : Callable s (.claim worker taskId now leaseId leaseSeconds))
    (h : exec capacity s.tasks (.claim worker taskId now leaseId leaseSeconds) = .ok (infos, tasks)) :
    Carried capacity s (.claim worker taskId now leaseId leaseSeconds)
      (after s infos tasks (.claim worker taskId now leaseId leaseSeconds)) := by
  obtain ⟨⟨out, tasks'⟩, hr, heq⟩ := Except.map_ok h
  cases heq
  rcases claim_ok hr with ⟨rfl, rfl⟩ | ⟨data, hget, hdue, -, rfl, rfl⟩
  · exact .none _
  · exact .one _ (claim_grants capacity worker _ hget hdue hop.1 hop.2)
      (allows_of_not rfl fun _ => by simp)

theorem carried_claimDue {worker : String} {limit leaseSeconds : ℤ} {now : Instant}
    {leaseId : ℕ → String} {infos : List TaskInfo} {tasks : Tasks}
    (hop : Callable s (.claimDue worker limit leaseSeconds now leaseId))
    (h : exec capacity s.tasks (.claimDue worker limit leaseSeconds now leaseId) =
      .ok (infos, tasks)) :
    Carried capacity s (.claimDue worker limit leaseSeconds now leaseId)
      (after s infos tasks (.claimDue worker limit leaseSeconds now leaseId)) := by
  obtain ⟨_, -, h⟩ := Except.bind_ok.mp h
  obtain ⟨acts, hrun, hacts⟩ :=
    claimEach_grants capacity worker hop.2.1 hop.1 (fun j _ => hop.2.2 j) h
  refine ⟨acts, hrun, fun act hact => allows_of_not rfl fun k => ?_⟩
  obtain ⟨g, rfl⟩ := hacts act hact
  simp

/-- The lease that a settling call was made with is on the task. -/
theorem settle_step {data info : TaskInfo} {leaseId : String} {now : Instant}
    (hget : s.tasks.get? key = some data) (hmatch : leaseMatches data leaseId now = true)
    (hkey : info.taskId = data.taskId)
    (hphase : info.phase = .completed ∨ info.phase = .pending ∨ info.phase = .failed) :
    Leases.Step TaskInfo.phase capacity (board s) (.settle key leaseId now)
      (board { s with tasks := s.tasks.set info, returned := leaseId :: s.returned }) := by
  obtain ⟨hrunning, hlease, expiry, huntil, hnow⟩ := leaseMatches_iff.mp hmatch
  have hboard : board { s with tasks := s.tasks.set info, returned := leaseId :: s.returned } =
      { (board s).put key info with returned := leaseId :: s.returned } := by
    rw [← board_set (hkey.trans (Table.get?_key hget))]
    rfl
  rw [hboard]
  exact .settle hget (by rw [TaskInfo.phase_running hrunning, hlease, huntil]) hnow hphase

theorem carried_complete {taskId leaseId : String} {result : Option Value} {now : Instant}
    {infos : List TaskInfo} {tasks : Tasks}
    (h : exec capacity s.tasks (.complete taskId leaseId result now) = .ok (infos, tasks)) :
    Carried capacity s (.complete taskId leaseId result now)
      (after s infos tasks (.complete taskId leaseId result now)) := by
  obtain ⟨⟨out, tasks'⟩, hr, heq⟩ := Except.map_ok h
  cases heq
  rcases complete_ok hr with ⟨rfl, rfl⟩ | ⟨data, value, hget, hmatch, -, rfl, rfl⟩
  · exact .none _
  · exact .one _ (settle_step hget hmatch rfl (Or.inl rfl))
      ⟨fun x hx => by cases hx; rfl, fun k hk => by cases hk⟩

theorem carried_fail {taskId leaseId errorCode : String} {delay : ℤ} {now : Instant}
    {infos : List TaskInfo} {tasks : Tasks}
    (h : exec capacity s.tasks (.fail taskId leaseId errorCode delay now) = .ok (infos, tasks)) :
    Carried capacity s (.fail taskId leaseId errorCode delay now)
      (after s infos tasks (.fail taskId leaseId errorCode delay now)) := by
  obtain ⟨⟨out, tasks'⟩, hr, heq⟩ := Except.map_ok h
  cases heq
  rcases fail_ok hr with ⟨rfl, rfl⟩ | ⟨data, hget, hmatch, rfl, rfl⟩
  · exact .none _
  · obtain ⟨hkey, -, -, hstatus⟩ := data.attemptFailed_spec errorCode delay now
    refine .one _ (settle_step hget hmatch hkey (Or.inr ?_))
      ⟨fun x hx => by cases hx; rfl, fun k hk => by cases hk⟩
    exact hstatus.imp (fun h => TaskInfo.phase_pending h.1) TaskInfo.phase_failed

theorem carried_cancelPending {taskId : String} {infos : List TaskInfo} {tasks : Tasks}
    (h : exec capacity s.tasks (.cancelPending taskId) = .ok (infos, tasks)) :
    Carried capacity s (.cancelPending taskId) (after s infos tasks (.cancelPending taskId)) := by
  obtain ⟨⟨b, tasks'⟩, hr, heq⟩ := Except.map_ok h
  cases heq
  rcases cancelPending_ok hr with rfl | ⟨data, hget, hpending, rfl⟩
  · exact .none _
  · refine .one (.cancel taskId) ?_ (allows_of_not rfl fun _ => by simp)
    have hkey : data.taskId = taskId := Table.get?_key hget
    rw [after, board_set (show data.cancelled.taskId = taskId from hkey)]
    exact .cancel hget (TaskInfo.phase_pending hpending) rfl

theorem carried_replayFailedAtomic {taskId : String} {now : Instant} {infos : List TaskInfo}
    {tasks : Tasks}
    (h : exec capacity s.tasks (.replayFailedAtomic taskId now) = .ok (infos, tasks)) :
    Carried capacity s (.replayFailedAtomic taskId now)
      (after s infos tasks (.replayFailedAtomic taskId now)) := by
  obtain ⟨⟨out, tasks'⟩, hr, heq⟩ := Except.map_ok h
  cases heq
  rcases replayFailedAtomic_ok hr with ⟨rfl, rfl⟩ | ⟨data, hget, hfailed, hroom, rfl, rfl⟩
  · exact .none _
  · obtain ⟨hopen, hlt⟩ := openAtMost_of_lt hroom
    refine .one (.replay taskId) ?_
      ⟨fun x hx => (by cases hx), fun k hk => by cases hk; rfl⟩
    have hstep : Leases.Step TaskInfo.phase capacity (board s) (.replay taskId)
        ((board s).put taskId (data.replayed now)) :=
      .replay hget (TaskInfo.phase_failed hfailed) hopen hlt rfl
    have hkey : data.taskId = taskId := Table.get?_key hget
    rwa [← board_set (show (data.replayed now).taskId = taskId from hkey)] at hstep

/-- Every call does to the tasks what may be done to a board. -/
theorem Step.carried {op : TaskOp} (hstep : Step capacity s op s') : Carried capacity s op s' := by
  cases hstep with
  | raises hop h => exact .none _
  | returns hop h =>
    cases op with
    | tick now =>
      cases h
      exact .one _ (.tick hop) (allows_of_not rfl fun _ => by simp)
    | admitPending info => exact carried_admitPending hop h
    | claim worker taskId now leaseId leaseSeconds => exact carried_claim hop h
    | claimDue worker limit leaseSeconds now leaseId => exact carried_claimDue hop h
    | complete taskId leaseId result now => exact carried_complete h
    | fail taskId leaseId errorCode delay now => exact carried_fail h
    | cancelPending taskId => exact carried_cancelPending h
    | replayFailedAtomic taskId now => exact carried_replayFailedAtomic h

theorem refines (capacity : ℕ) : (repository capacity).Refines capacity fun _ => True where
  starts := fun _ hs => ⟨trivial, hs.1, hs.2.1⟩
  keeps := fun _ _ _ _ _ => trivial
  acts := fun _ _ _ _ hstep => hstep.carried

end TaskStore

end Memplex
