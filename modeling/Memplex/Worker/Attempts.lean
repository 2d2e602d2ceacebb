import Memplex.Worker.Runs

/-!
# Attempts at a task

A task should be executed at most `max_retries + 1` times before it ends. `fail` is what charges an
attempt: it counts a retry and ends the task when there are none left. An attempt may end otherwise. A
worker may crash, and a result that has no JSON text makes `complete` raise; then the lease runs out, and
the task is claimed again with nothing charged. So a task is executed without end if no attempt at it
gets as far as `fail` or `complete` (`exists_claimed`). In a run in which no claim takes a task over
from a lease that has run out, every attempt is charged and the bound holds (`claims_le`).
-/

namespace Memplex

open Lib

/-- How the handler of a task ends: with a result, which may have no JSON value, or by raising. -/
inductive HandlerOutcome where
  | returned (result : Option Value)
  | raised

namespace TaskStore

/-- `_execute_claimed`: the call that a worker makes when the handler has ended. A worker that crashes
makes none. -/
def executeClaimed (info : TaskInfo) (leaseId : String) (now : Instant) : HandlerOutcome → TaskOp
  | .returned result => .complete info.taskId leaseId result now
  | .raised =>
    .fail info.taskId leaseId "task_failed" (min (2 ^ (info.retryCount + 1).toNat) 30) now

/-- The call claims the task although a lease was given out on it before, and has run out. -/
def TakesOver (s : WorkerState) (key : String) : TaskOp → Prop
  | .claim _ taskId now _ _ => taskId = key ∧
    ∃ info, s.tasks.get? key = some info ∧ info.status = .running ∧ info.due now = true
  | .claimDue _ limit _ now _ => key ∈ dueTaskIds s.tasks now limit ∧
    ∃ info, s.tasks.get? key = some info ∧ info.status = .running ∧ info.due now = true
  | _ => False

/-- The task store, where no claim takes a task over. -/
def withoutTakeover (capacity : ℕ) (key : String) : TaskRepository :=
  { repository capacity with
    Step := fun s op s' => Step capacity s op s' ∧ ¬ TakesOver s key op }

/-- Every attempt at the task, of `n` ones, is charged or goes on. -/
structure Charged (info : TaskInfo) (n : ℕ) : Prop where
  limit : 0 ≤ info.maxRetries
  bound : n ≤ info.maxRetries + 1
  pending : info.status = .pending → n ≤ info.retryCount ∧ n ≤ info.maxRetries
  running : info.status = .running → n ≤ info.retryCount + 1

/-- Every attempt at a task that is stored is charged or goes on. -/
def ChargedAt (key : String) (s : WorkerState) : Prop :=
  ∀ info, s.tasks.get? key = some info → Charged info (s.claims key)

variable {capacity : ℕ} {key : String} {s s' : WorkerState} {info data : TaskInfo} {n : ℕ}

/-- A due task waits, unless its lease has run out. -/
theorem pending_of_due {now : Instant} (hdue : info.due now = true)
    (hnot : info.status ≠ .running) : info.status = .pending := by
  rcases TaskInfo.due_phase hdue with hphase | ⟨lease, expiry, hphase, -⟩
  · cases hstatus : info.status <;> rw [TaskInfo.phase, hstatus] at hphase <;> cases hphase
  · exact absurd (TaskInfo.running_of_phase hphase).1 hnot

/-- A claim of a task that waits begins an attempt. -/
theorem Charged.leased (h : Charged info n) (hpending : info.status = .pending) (leaseId : String)
    (leaseUntil : Instant) : Charged (info.leased leaseId leaseUntil) (n + 1) := by
  obtain ⟨hretry, hmax⟩ := h.pending hpending
  exact ⟨h.limit, by push_cast; exact add_le_add_left hmax 1,
    fun h => (by cases h), fun _ => by push_cast; exact add_le_add_left hretry 1⟩

/-- An attempt that failed is charged. -/
theorem Charged.attemptFailed (h : Charged info n) (hrunning : info.status = .running)
    (errorCode : String) (delay : ℤ) (now : Instant) :
    Charged (info.attemptFailed errorCode delay now) n := by
  obtain ⟨-, hretry, hmax, hstatus⟩ := info.attemptFailed_spec errorCode delay now
  have hcharged := h.running hrunning
  refine ⟨hmax ▸ h.limit, hmax ▸ h.bound, fun hpending => ?_, fun hrun => ?_⟩
  · rcases hstatus with ⟨-, hleft⟩ | hfailed
    · rw [hretry, hmax]
      omega
    · rw [hpending] at hfailed
      cases hfailed
  · rcases hstatus with ⟨hpending, -⟩ | hfailed
    · rw [hrun] at hpending
      cases hpending
    · rw [hrun] at hfailed
      cases hfailed

/-- A task that has ended is charged with what it was. -/
theorem Charged.ended (h : Charged info n) (hmax : data.maxRetries = info.maxRetries)
    (hstatus : data.status = .completed ∨ data.status = .cancelled) : Charged data n := by
  refine ⟨hmax ▸ h.limit, hmax ▸ h.bound, fun hp => ?_, fun hp => ?_⟩ <;>
    rcases hstatus with h' | h' <;> rw [hp] at h' <;> cases h'

/-- Another task under a key, with the attempts at it. -/
theorem ChargedAt.set (h : ChargedAt key s) (htasks : s'.tasks = s.tasks.set info)
    (hclaims : info.taskId ≠ key → s'.claims key = s.claims key)
    (hinfo : info.taskId = key → Charged info (s'.claims key)) : ChargedAt key s' := by
  intro x hx
  rw [htasks, Table.get?_set] at hx
  split_ifs at hx with hkey
  · rw [← Option.some.inj hx]
    exact hinfo hkey
  · rw [hclaims hkey]
    exact h x hx

/-- A claim that takes nothing over. -/
theorem ChargedAt.claimed {taskId worker leaseId : String} {leaseUntil : Instant}
    (h : ChargedAt key s) (hget : s.tasks.get? taskId = some data)
    (hpending : taskId = key → data.status = .pending) :
    ChargedAt key (claimed worker s (data.leased leaseId leaseUntil)) := by
  have hid : data.taskId = taskId := Table.get?_key hget
  refine h.set rfl (fun hne => ?_) fun hkey => ?_
  · rw [claimed_claims, if_neg fun heq => hne heq.symm]
  · have hkey' : taskId = key := hid.symm.trans hkey
    rw [claimed_claims, if_pos hkey.symm, hkey]
    exact (h data (hkey' ▸ hget)).leased (hpending hkey') leaseId leaseUntil

/-- The claims of `claim_due`, if none of them takes the task over. -/
theorem ChargedAt.claimEach {worker : String} {leaseId : ℕ → String} {now : Instant}
    {leaseSeconds : ℤ} {taskIds : List String} {i : ℕ} {infos : List TaskInfo} {tasks : Tasks}
    (hinv : ChargedAt key s)
    (hno : key ∈ taskIds → ∀ info, s.tasks.get? key = some info → info.due now = true →
      info.status = .pending)
    (h : claimEach now leaseId leaseSeconds taskIds i s.tasks = .ok (infos, tasks)) :
    ChargedAt key (infos.foldl (granted worker) { s with tasks }) := by
  induction taskIds generalizing s i infos with
  | nil =>
    cases h
    exact hinv
  | cons taskId taskIds ih =>
    obtain ⟨⟨out, tasks₁⟩, hclaim, h⟩ := Except.bind_ok.mp h
    obtain ⟨⟨more, tasks₂⟩, hrest, h⟩ := Except.bind_ok.mp h
    cases h
    rcases claim_ok hclaim with ⟨rfl, rfl⟩ | ⟨data, hget, hdue, hpos, rfl, rfl⟩
    · exact ih hinv (fun hmem => hno (List.mem_cons_of_mem _ hmem)) hrest
    · have hpending : taskId = key → data.status = .pending := by
        rintro rfl
        exact hno List.mem_cons_self data hget hdue
      refine ih (s := TaskStore.claimed worker s _) (hinv.claimed hget hpending) ?_ hrest
      intro hmem info hinfo hdue'
      have hset : (s.tasks.set (data.leased (leaseId i) (now + leaseSeconds * second))).get? key =
          some info := hinfo
      rw [Table.get?_set] at hset
      split_ifs at hset with hkey
      · -- A task that was just claimed is not due.
        rw [← Option.some.inj hset] at hdue'
        exact absurd hdue' (by simp [TaskInfo.due, TaskInfo.leased, second]; omega)
      · exact hno (List.mem_cons_of_mem _ hmem) info hset hdue'

/-- A settled task is charged for its attempts. -/
theorem ChargedAt.settle {taskId : String} {returned : List String} (h : ChargedAt key s)
    (hget : s.tasks.get? taskId = some data) (hid : info.taskId = data.taskId)
    (hinfo : ∀ n, Charged data n → Charged info n) :
    ChargedAt key { s with tasks := s.tasks.set info, returned } := by
  refine h.set rfl (fun _ => rfl) fun hkey => hinfo _ (h data ?_)
  rw [← hkey, hid, Table.get?_key hget, hget]

/-- Every call keeps the attempts charged, unless it takes the task over. -/
theorem ChargedAt.step {op : TaskOp} (h : ChargedAt key s) (hstep : Step capacity s op s')
    (hno : ¬ TakesOver s key op) : ChargedAt key s' := by
  cases hstep with
  | raises hop hexec => exact h
  | returns hop hexec =>
    cases op with
    | tick now =>
      cases hexec
      exact h
    | admitPending info =>
      obtain ⟨r, hr, heq⟩ := Except.map_ok hexec
      cases heq
      obtain ⟨-, -, htasks, hstorable⟩ := admitPending_ok hr
      have hstatus : info.status = .pending := hop
      refine h.set htasks (fun hne => Function.update_of_ne hne.symm _ _) fun hkey => ?_
      have hzero : (after s [r.1] r.2 (.admitPending info)).claims key = 0 := by
        rw [← hkey]
        exact Function.update_self _ _ _
      rw [hzero]
      obtain ⟨-, hretry, hmax, -⟩ := hstorable
      exact ⟨hmax, by push_cast; omega, fun _ => ⟨hretry, hmax⟩,
        fun hrun => by rw [hstatus] at hrun; cases hrun⟩
    | claim worker taskId now leaseId leaseSeconds =>
      obtain ⟨⟨out, tasks'⟩, hr, heq⟩ := Except.map_ok hexec
      cases heq
      rcases claim_ok hr with ⟨rfl, rfl⟩ | ⟨data, hget, hdue, -, rfl, rfl⟩
      · exact h
      · exact h.claimed hget fun hkey => pending_of_due hdue fun hrunning =>
          hno ⟨hkey, data, hkey ▸ hget, hrunning, hdue⟩
    | claimDue worker limit leaseSeconds now leaseId =>
      obtain ⟨_, -, hexec⟩ := Except.bind_ok.mp hexec
      exact h.claimEach (fun hmem info hget hdue => pending_of_due hdue fun hrunning =>
        hno ⟨hmem, info, hget, hrunning, hdue⟩) hexec
    | complete taskId leaseId result now =>
      obtain ⟨⟨out, tasks'⟩, hr, heq⟩ := Except.map_ok hexec
      cases heq
      rcases complete_ok hr with ⟨rfl, rfl⟩ | ⟨data, value, hget, hmatch, -, rfl, rfl⟩
      · exact h
      · exact h.settle hget rfl fun n hn => hn.ended rfl (Or.inl rfl)
    | fail taskId leaseId errorCode delay now =>
      obtain ⟨⟨out, tasks'⟩, hr, heq⟩ := Except.map_ok hexec
      cases heq
      rcases fail_ok hr with ⟨rfl, rfl⟩ | ⟨data, hget, hmatch, rfl, rfl⟩
      · exact h
      · exact h.settle hget (data.attemptFailed_spec errorCode delay now).1 fun n hn =>
          hn.attemptFailed (leaseMatches_iff.mp hmatch).1 errorCode delay now
    | cancelPending taskId =>
      obtain ⟨⟨b, tasks'⟩, hr, heq⟩ := Except.map_ok hexec
      cases heq
      rcases cancelPending_ok hr with rfl | ⟨data, hget, hpending, rfl⟩
      · exact h
      · exact h.settle hget rfl fun n hn => hn.ended rfl (Or.inr rfl)
    | replayFailedAtomic taskId now =>
      obtain ⟨⟨out, tasks'⟩, hr, heq⟩ := Except.map_ok hexec
      cases heq
      rcases replayFailedAtomic_ok hr with ⟨rfl, rfl⟩ | ⟨data, hget, hfailed, hroom, rfl, rfl⟩
      · exact h
      · have hid : data.taskId = taskId := Table.get?_key hget
        have hclaims : ∀ k, (after s [data.replayed now] (s.tasks.set (data.replayed now))
            (.replayFailedAtomic taskId now)).claims k = if k = taskId then 0 else s.claims k :=
          fun k => Function.update_apply _ _ _ _
        refine h.set rfl (fun hne => ?_) fun hkey => ?_
        · exact (hclaims key).trans (if_neg fun heq => hne (hid.trans heq.symm))
        · have hkey' : key = taskId := hkey.symm.trans hid
          have hmax : 0 ≤ data.maxRetries := (h data (hkey' ▸ hget)).limit
          refine (hclaims key).trans (if_pos hkey') ▸ ?_
          exact ⟨hmax, by push_cast; exact add_nonneg hmax zero_le_one, fun _ => ⟨le_rfl, hmax⟩,
            fun hrun => by cases hrun⟩

/-- In a run in which no claim takes a task over, the task is claimed at most `max_retries + 1` times
between its submission or replay and its end. -/
theorem claims_le {key : String} (h : (withoutTakeover capacity key).Reachable s) {info : TaskInfo}
    (hget : s.tasks.get? key = some info) : s.claims key ≤ info.maxRetries + 1 := by
  obtain ⟨s₀, ops, ⟨htasks, -, -⟩, hrun⟩ := h
  have hstart : ChargedAt key s₀ := fun x hx => by
    rw [show s₀.tasks = .empty from htasks] at hx
    cases hx
  have hkeep : ∀ s op s', ChargedAt key s → (withoutTakeover capacity key).Step s op s' →
      ChargedAt key s' := fun _ _ _ h hstep => h.step hstep.1 hstep.2
  exact (hrun.keeps hkeep hstart info hget).bound

/-! ## Attempts without end -/

/-- A claim of a due task, where everything can be stored. -/
theorem claim_eq {tasks : Tasks} {now : Instant} {leaseId : String} {leaseSeconds : ℤ}
    (hpos : 0 < leaseSeconds) (hget : tasks.get? key = some data) (hdue : data.due now = true)
    (hstorable : ∀ info ∈ tasks.rows, info.Storable) :
    claim tasks key now leaseId leaseSeconds =
      .ok (some (data.leased leaseId (now + leaseSeconds * second)),
        tasks.set (data.leased leaseId (now + leaseSeconds * second))) := by
  have hdata : data.Storable :=
    hstorable data ((tasks.mem_rows_iff data).mpr (Table.get?_key hget ▸ hget))
  have hrows : ∀ info ∈ (tasks.set (data.leased leaseId (now + leaseSeconds * second))).rows,
      info.Storable := fun info hinfo => by
    rcases Lib.mem_upsertRow.mp hinfo with rfl | ⟨hmem, -⟩
    · exact hdata
    · exact hstorable info hmem
  simp only [claim, require, if_pos hpos, hget, if_pos hdue, saveCandidate, if_pos hrows]
  rfl

/-- The task cannot be completed with a result that has no JSON text. -/
theorem complete_raises {tasks : Tasks} {now : Instant} {leaseId : String} (hne : leaseId ≠ "")
    (hget : tasks.get? key = some data) (hmatch : leaseMatches data leaseId now = true) :
    complete tasks key leaseId none now =
      .error ⟨.taskStoreIntegrityError, "worker task state is not serializable"⟩ := by
  simp only [complete, require, if_pos hne, hget, if_pos hmatch]
  rfl

/-- A task that may be executed once. -/
def onceTask : TaskInfo where
  taskId := "t"
  taskType := .compileWiki
  status := .pending
  createdAt := 0
  maxRetries := 0

/-- The lease of an attempt. -/
def leaseOf (n : ℕ) : String := String.ofList (List.replicate (n + 1) 'x')

theorem leaseOf_injective : Function.Injective leaseOf := fun m n h => by
  have hlen := congrArg (fun s => s.toList.length) h
  simpa [leaseOf] using hlen

theorem leaseOf_ne_empty (n : ℕ) : leaseOf n ≠ "" := fun h => by
  have hlen := congrArg (fun s => s.toList.length) h
  simp [leaseOf] at hlen

/-- The task was claimed `n` times, and is due again. -/
structure Claimed (n : ℕ) (s : WorkerState) : Prop where
  reachable : (repository 1).Reachable s
  claims : s.claims "t" = n
  leases : ∀ g ∈ s.grants, ∃ i < n, g.lease = leaseOf i
  storable : ∀ info ∈ s.tasks.rows, info.Storable
  due : ∃ info, s.tasks.get? "t" = some info ∧ info.maxRetries = 0 ∧ info.due s.clock = true

/-- The task is claimed, its handler returns what has no JSON text, and the lease runs out. -/
theorem Claimed.again {n : ℕ} {s : WorkerState} (h : Claimed n s) : ∃ s', Claimed (n + 1) s' := by
  obtain ⟨data, hget, hmax, hdue⟩ := h.due
  have hid : data.taskId = "t" := Table.get?_key hget
  obtain ⟨info, hleased⟩ : ∃ info, info = data.leased (leaseOf n) (s.clock + 60 * second) :=
    ⟨_, rfl⟩
  have hkey : info.taskId = "t" := by rw [hleased]; exact hid
  have hstored : ∀ x ∈ (s.tasks.set info).rows, x.Storable := fun x hx => by
    rcases Lib.mem_upsertRow.mp hx with rfl | ⟨hmem, -⟩
    · rw [hleased]
      exact h.storable data ((s.tasks.mem_rows_iff data).mpr (hid ▸ hget))
    · exact h.storable x hmem
  have hinfo : (s.tasks.set info).get? "t" = some info := by
    rw [Table.get?_set, if_pos hkey]
  have hlater : s.clock < s.clock + 60 * second := by norm_num [second]
  -- The claim.
  have hclaim : exec ((1 : ℕ) : ℤ) s.tasks (.claim "w" "t" s.clock (leaseOf n) 60) =
      .ok ([info], s.tasks.set info) := by
    rw [exec, claim_eq (by decide) hget hdue h.storable, hleased]
    rfl
  have hfresh : ∀ g ∈ s.grants, g.lease ≠ leaseOf n := fun g hg heq => by
    obtain ⟨i, hi, hlease⟩ := h.leases g hg
    exact absurd (leaseOf_injective (hlease.symm.trans heq)) (by omega)
  have hcallable : Callable s (.claim "w" "t" s.clock (leaseOf n) 60) := ⟨le_rfl, hfresh⟩
  have hclaimed : (repository 1).Reachable (claimed "w" s info) :=
    h.reachable.step (Step.returns hcallable hclaim)
  -- The result is refused, and the task stays with its lease.
  have hmatch : leaseMatches info (leaseOf n) s.clock = true :=
    leaseMatches_iff.mpr ⟨by rw [hleased]; rfl, by rw [hleased]; rfl, _, by rw [hleased]; rfl, hlater⟩
  have hcomplete : exec ((1 : ℕ) : ℤ) (claimed "w" s info).tasks
      (executeClaimed info (leaseOf n) s.clock (.returned none)) =
      .error ⟨.taskStoreIntegrityError, "worker task state is not serializable"⟩ := by
    rw [executeClaimed, exec, hkey]
    exact congrArg (Except.map _) (complete_raises (leaseOf_ne_empty n) hinfo hmatch)
  have hcalled : Callable (claimed "w" s info)
      (executeClaimed info (leaseOf n) s.clock (.returned none)) := le_refl s.clock
  have hrefused : (repository 1).Reachable (claimed "w" s info) :=
    hclaimed.step (Step.raises hcalled hcomplete)
  -- The lease runs out.
  have htick : Callable (claimed "w" s info) (.tick (s.clock + 60 * second)) := hlater.le
  have hexpired : (repository 1).Reachable
      { claimed "w" s info with clock := s.clock + 60 * second } :=
    hrefused.step (Step.returns htick rfl)
  refine ⟨_, hexpired, ?_, fun g hg => ?_, hstored, info, hinfo, ?_, ?_⟩
  · exact (claimed_claims "w" s info "t").trans (by rw [if_pos hkey.symm, hkey, h.claims])
  · rw [hleased] at hg
    rcases List.mem_cons.mp hg with rfl | hmem
    · exact ⟨n, by omega, rfl⟩
    · obtain ⟨i, hi, hlease⟩ := h.leases g hmem
      exact ⟨i, by omega, hlease⟩
  · rw [hleased]
    exact hmax
  · rw [hleased]
    simp [TaskInfo.due, TaskInfo.leased]

/-- The store after the task was submitted. -/
def submitted : WorkerState where
  tasks := (.empty : Tasks).set onceTask
  grants := []
  returned := []
  clock := 0
  claims := Function.update (fun _ => 0) "t" 0

/-- A store before its first task. -/
def unused : WorkerState where
  tasks := .empty
  grants := []
  returned := []
  clock := 0
  claims := fun _ => 0

/-- The submission of the task. -/
theorem submitted_step : Step 1 unused (.admitPending onceTask) submitted := by
  have hadmit : exec ((1 : ℕ) : ℤ) unused.tasks (.admitPending onceTask) =
      .ok ([onceTask], (.empty : Tasks).set onceTask) := by decide
  have hcallable : Callable unused (.admitPending onceTask) := rfl
  exact .returns hcallable hadmit

theorem claimed_submitted : Claimed 0 submitted where
  reachable :=
    have hstart : (repository 1).Reachable unused := ⟨_, [], ⟨rfl, rfl, rfl⟩, .nil _⟩
    hstart.step submitted_step
  claims := rfl
  leases := fun _ hg => absurd hg List.not_mem_nil
  storable := by decide
  due := ⟨onceTask, by decide, rfl, by decide⟩

/-- The task, which may be executed once, is claimed any number of times. -/
theorem exists_claimed (n : ℕ) : ∃ s, Claimed n s := by
  induction n with
  | zero => exact ⟨submitted, claimed_submitted⟩
  | succ n ih =>
    obtain ⟨s, hs⟩ := ih
    exact hs.again

/-- The bound on a task that was submitted. -/
theorem claims_le_submitted : submitted.claims "t" ≤ onceTask.maxRetries + 1 := by
  have hstart : (withoutTakeover 1 "t").Reachable unused := ⟨_, [], ⟨rfl, rfl, rfl⟩, .nil _⟩
  have hreach : (withoutTakeover 1 "t").Reachable submitted :=
    hstart.step ⟨submitted_step, id⟩
  exact claims_le hreach (by decide)

/-- A task is claimed more often than it may be, by workers whose results cannot be stored. -/
theorem claimed_without_end : ∃ (s : WorkerState) (info : TaskInfo), (repository 1).Reachable s ∧
    s.tasks.get? "t" = some info ∧ info.maxRetries + 1 < s.claims "t" := by
  obtain ⟨s, hs⟩ := exists_claimed 2
  obtain ⟨info, hget, hmax, -⟩ := hs.due
  exact ⟨s, info, hs.reachable, hget, by rw [hmax, hs.claims]; decide⟩

end TaskStore

end Memplex
