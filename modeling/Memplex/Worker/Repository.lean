import Memplex.Lib.Leases
import Memplex.Sync.Deliveries

/-!
# The contract of a task repository

A task repository keeps background tasks for workers that run in any number of processes. A worker
that claims a task gets a lease on it; only with this lease, and before it runs out, may the worker
complete or fail the task. A `TaskRepository` is such a repository as a system of states and
operations, with a history of the leases that it gave out and took back. `Fenced` is what it promises
in a state: no two workers have a lease on one task, stale workers change nothing, ended tasks stay as
they are, and the open tasks fit the capacity.

A repository keeps the promise in every reachable state if each of its operations does nothing but what
may be done to a board of leases (`Refines.fenced`).
-/

namespace Memplex

open Lib

/-! ## Tasks -/

/-- What is to be done. -/
inductive BackgroundTask where
  | extractDocument
  | buildIndex
  | compileWiki
  | refreshVector
  | compaction
deriving DecidableEq

/-- Where a task stands. -/
inductive TaskStatus where
  | pending
  | running
  | completed
  | failed
  | cancelled
deriving DecidableEq

/-- A background task. -/
structure TaskInfo where
  taskId : String
  taskType : BackgroundTask
  status : TaskStatus
  createdAt : Instant
  completedAt : Option Instant := none
  payload : Option Members := none
  result : Value := .null
  error : Option String := none
  retryCount : ℤ := 0
  maxRetries : ℤ := 3
  nextAttemptAt : Option Instant := none
  leaseUntil : Option Instant := none
  leaseId : Option String := none
  lastErrorCode : Option String := none
deriving DecidableEq

/-- The tasks of a repository, by id. -/
abbrev Tasks := Table TaskInfo.taskId

namespace TaskInfo

/-- The task counts against the capacity. -/
def active (info : TaskInfo) : Bool := info.status = .pending ∨ info.status = .running

/-- The task as a record of a board of leases. -/
def phase (info : TaskInfo) : Leases.Phase String Instant :=
  match info.status with
  | .pending => .pending
  | .running => .running info.leaseId info.leaseUntil
  | .completed => .completed
  | .failed => .failed
  | .cancelled => .cancelled

variable {info : TaskInfo}

theorem phase_pending (h : info.status = .pending) : info.phase = .pending := by rw [phase, h]

theorem phase_running (h : info.status = .running) :
    info.phase = .running info.leaseId info.leaseUntil := by rw [phase, h]

theorem phase_completed (h : info.status = .completed) : info.phase = .completed := by
  rw [phase, h]

theorem phase_failed (h : info.status = .failed) : info.phase = .failed := by rw [phase, h]

theorem phase_cancelled (h : info.status = .cancelled) : info.phase = .cancelled := by
  rw [phase, h]

/-- A lease on the board is on a task that is being worked on. -/
theorem running_of_phase {lease : Option String} {expiry : Option Instant}
    (h : info.phase = .running lease expiry) :
    info.status = .running ∧ info.leaseId = lease ∧ info.leaseUntil = expiry := by
  cases hstatus : info.status <;> rw [phase, hstatus] at h <;> cases h
  exact ⟨rfl, rfl, rfl⟩

theorem active_iff_phase : info.active = true ↔ info.phase.Active := by
  unfold active phase Leases.Phase.Active
  cases info.status <;> simp

end TaskInfo

namespace Tasks

/-- The number of tasks that count against the capacity. -/
def activeCount (tasks : Tasks) : ℕ := tasks.rows.countP TaskInfo.active

theorem activeCount_eq_card (tasks : Tasks) : tasks.activeCount =
    ((tasks.rows.filter TaskInfo.active).map TaskInfo.taskId).toFinset.card := by
  have hnodup : ((tasks.rows.filter TaskInfo.active).map TaskInfo.taskId).Nodup :=
    tasks.nodup.sublist (List.filter_sublist.map TaskInfo.taskId)
  rw [List.toFinset_card_of_nodup hnodup, List.length_map, activeCount, List.countP_eq_length_filter]

/-- The open records of the board are the active tasks. -/
theorem openAtMost_iff {tasks : Tasks} {n : ℕ} :
    Leases.OpenAtMost TaskInfo.phase tasks.get? n ↔ tasks.activeCount ≤ n := by
  have hmem : ∀ k, k ∈ ((tasks.rows.filter TaskInfo.active).map TaskInfo.taskId).toFinset ↔
      ∃ info, tasks.get? k = some info ∧ info.phase.Active := fun k => by
    rw [List.mem_toFinset, List.mem_map]
    constructor
    · rintro ⟨info, hinfo, rfl⟩
      obtain ⟨hrow, hactive⟩ := List.mem_filter.mp hinfo
      exact ⟨info, (tasks.mem_rows_iff info).mp hrow, TaskInfo.active_iff_phase.mp hactive⟩
    · rintro ⟨info, hget, hactive⟩
      exact ⟨info, List.mem_filter.mpr ⟨(tasks.mem_rows_iff info).mpr (Table.get?_key hget ▸ hget),
        TaskInfo.active_iff_phase.mpr hactive⟩, Table.get?_key hget⟩
  rw [activeCount_eq_card]
  constructor
  · rintro ⟨F, hF, hcard⟩
    refine (Finset.card_le_card fun k hk => ?_).trans hcard
    obtain ⟨info, hget, hactive⟩ := (hmem k).mp hk
    exact hF k info hget hactive
  · exact fun h => ⟨_, fun k info hget hactive => (hmem k).mpr ⟨info, hget, hactive⟩, h⟩

end Tasks

/-! ## Boards -/

/-- A lease that a claim gave to a worker. -/
abbrev TaskGrant := Leases.Grant String String String Instant

/-- What is done to the board of a repository. -/
abbrev TaskAct := Leases.Act String String String Instant

/-- The board of leases of a repository. -/
abbrev TaskBoard := Leases.State String String TaskInfo String Instant

namespace Tasks

/-- The tasks as a board, with the history of the leases. -/
def board (tasks : Tasks) (grants : List TaskGrant) (returned : List String) (clock : Instant) :
    TaskBoard where
  records := tasks.get?
  grants := grants
  returned := returned
  clock := clock

variable {tasks : Tasks} {grants : List TaskGrant} {returned : List String} {clock : Instant}
  {info data : TaskInfo} {key : String}

theorem board_set (hkey : info.taskId = key) :
    board (tasks.set info) grants returned clock =
      (tasks.board grants returned clock).put key info := by
  have hrecords : (tasks.set info).get? = Function.update tasks.get? key (some info) := by
    funext k
    rw [Table.get?_set, Function.update_apply, hkey]
    exact ite_congr (propext eq_comm) (fun _ => rfl) fun _ => rfl
  rw [board, hrecords]
  rfl

/-- No more tasks are open after a change that opens none. -/
theorem activeCount_set_le (hget : tasks.get? key = some data) (hkey : info.taskId = key)
    (hactive : info.phase.Active → data.phase.Active) :
    activeCount (tasks.set info) ≤ tasks.activeCount := by
  have hopen : Leases.OpenAtMost TaskInfo.phase (tasks.board [] [] 0).records tasks.activeCount :=
    openAtMost_iff.mpr le_rfl
  have hput := hopen.put_of_active hget hactive
  rw [← board_set hkey] at hput
  exact openAtMost_iff.mp hput

end Tasks

/-! ## Repositories -/

/-- A task repository, as a system of states and operations. -/
structure TaskRepository where
  State : Type
  Op : Type
  tasks : State → Tasks
  /-- The leases that claims have given out. -/
  grants : State → List TaskGrant
  /-- The leases of the calls that completed or failed a task. -/
  returned : State → List String
  clock : State → Instant
  Starts : State → Prop
  Step : State → Op → State → Prop
  /-- A call of `complete` or `fail`: the task, the lease and the reading of the clock. -/
  settling : Op → Option (String × String × Instant)
  /-- A call of `replay_failed_atomic`: the task. -/
  replaying : Op → Option String

namespace TaskRepository

variable (R : TaskRepository)

/-- A number of operations. -/
inductive Run : R.State → List R.Op → R.State → Prop
  | nil (s : R.State) : Run s [] s
  | cons {s s' s'' : R.State} {op : R.Op} {ops : List R.Op} (hstep : R.Step s op s')
      (hrun : Run s' ops s'') : Run s (op :: ops) s''

/-- What every operation keeps holds after a number of them. -/
theorem Run.keeps {R : TaskRepository} {P : R.State → Prop}
    (hstep : ∀ s op s', P s → R.Step s op s' → P s') {s s' : R.State} {ops : List R.Op}
    (hrun : R.Run s ops s') (h : P s) : P s' := by
  induction hrun with
  | nil s => exact h
  | cons hop _ ih => exact ih (hstep _ _ _ h hop)

/-- The states that a repository gets into. -/
def Reachable (s : R.State) : Prop := ∃ s₀ ops, R.Starts s₀ ∧ R.Run s₀ ops s

/-- A worker has got the lease, has not settled the task with it, and the lease lasts. -/
def Holds (s : R.State) (g : TaskGrant) : Prop :=
  g ∈ R.grants s ∧ g.lease ∉ R.returned s ∧ R.clock s < g.expiry

/-- The lease is the one on the task, and lasts beyond a reading of the clock. -/
def Current (s : R.State) (taskId lease : String) (now : Instant) : Prop :=
  ∃ info expiry, (R.tasks s).get? taskId = some info ∧ info.status = .running ∧
    info.leaseId = some lease ∧ info.leaseUntil = some expiry ∧ now < expiry

/-- What a repository promises in a state. -/
structure Fenced (capacity : ℕ) (s : R.State) : Prop where
  /-- Two leases that workers have on one task are one. -/
  exclusive : ∀ g g', R.Holds s g → R.Holds s g' → g.key = g'.key → g = g'
  /-- `complete` and `fail` change nothing but the task that the current lease is on. -/
  settles : ∀ op s' taskId lease now, R.Step s op s' → R.settling op = some (taskId, lease, now) →
    (∀ k, (R.tasks s').get? k = (R.tasks s).get? k) ∨
      R.Current s taskId lease now ∧ ∀ k, k ≠ taskId → (R.tasks s').get? k = (R.tasks s).get? k
  /-- Completed and cancelled tasks never change again. -/
  final : ∀ ops s', R.Run s ops s' → ∀ taskId info, (R.tasks s).get? taskId = some info →
    info.status = .completed ∨ info.status = .cancelled → (R.tasks s').get? taskId = some info
  /-- A failed task leaves that state only by replay. -/
  failed : ∀ ops s', R.Run s ops s' → ∀ taskId info, (R.tasks s).get? taskId = some info →
    info.status = .failed → (∀ op ∈ ops, R.replaying op ≠ some taskId) →
      (R.tasks s').get? taskId = some info
  /-- The pending and running tasks fit the capacity. -/
  room : (R.tasks s).activeCount ≤ capacity

/-- The board of leases of a repository. -/
def board (s : R.State) : TaskBoard :=
  (R.tasks s).board (R.grants s) (R.returned s) (R.clock s)

/-- An operation is what settles or replays, if it is done to the board. -/
structure Allows (op : R.Op) (act : TaskAct) : Prop where
  settle : ∀ x, R.settling op = some x → act = .settle x.1 x.2.1 x.2.2
  replay : ∀ k, act = .replay k → R.replaying op = some k

/-- In the states that satisfy an invariant, operations do only what may be done to a board. -/
structure Refines (capacity : ℕ) (Inv : R.State → Prop) : Prop where
  starts : ∀ s, R.Starts s → Inv s ∧ R.tasks s = .empty ∧ R.grants s = []
  keeps : ∀ s op s', Inv s → R.Step s op s' → Inv s'
  acts : ∀ s op s', Inv s → R.Step s op s' →
    ∃ acts, Leases.Run TaskInfo.phase capacity (R.board s) acts (R.board s') ∧
      ∀ act ∈ acts, R.Allows op act

variable {R}

theorem Run.snoc {s s' s'' : R.State} {ops : List R.Op} {op : R.Op} (hrun : R.Run s ops s')
    (hstep : R.Step s' op s'') : R.Run s (ops ++ [op]) s'' := by
  induction hrun with
  | nil s => exact .cons hstep (.nil _)
  | cons hop _ ih => exact .cons hop (ih hstep)

theorem Reachable.step {s s' : R.State} {op : R.Op} (h : R.Reachable s) (hstep : R.Step s op s') :
    R.Reachable s' := by
  obtain ⟨s₀, ops, hstarts, hrun⟩ := h
  exact ⟨s₀, ops ++ [op], hstarts, hrun.snoc hstep⟩

variable {capacity : ℕ} {Inv : R.State → Prop} {s s' : R.State} {ops : List R.Op} {op : R.Op}

theorem Refines.run (h : R.Refines capacity Inv) (hinv : Inv s) (hrun : R.Run s ops s') :
    Inv s' ∧ ∃ acts, Leases.Run TaskInfo.phase capacity (R.board s) acts (R.board s') ∧
      ∀ act ∈ acts, ∃ op ∈ ops, R.Allows op act := by
  induction hrun with
  | nil s => exact ⟨hinv, [], .nil _, fun _ h => absurd h List.not_mem_nil⟩
  | cons hstep _ ih =>
    obtain ⟨acts, hacts, hallows⟩ := h.acts _ _ _ hinv hstep
    obtain ⟨hinv', acts', hacts', hallows'⟩ := ih (h.keeps _ _ _ hinv hstep)
    refine ⟨hinv', acts ++ acts', hacts.append hacts', fun act hact => ?_⟩
    rcases List.mem_append.mp hact with hmem | hmem
    · exact ⟨_, List.mem_cons_self, hallows act hmem⟩
    · obtain ⟨op, hop, hallow⟩ := hallows' act hmem
      exact ⟨op, List.mem_cons_of_mem _ hop, hallow⟩

/-- Settling one task with one lease, however often, takes that lease. -/
theorem settles_of_run {a a' : TaskBoard}
    {acts : List TaskAct} {taskId lease : String} {now : Instant}
    (hrun : Leases.Run TaskInfo.phase capacity a acts a')
    (hacts : ∀ act ∈ acts, act = .settle taskId lease now) :
    a'.records = a.records ∨
      (∃ info expiry, a.records taskId = some info ∧
        info.phase = .running (some lease) (some expiry) ∧ now < expiry) ∧
      ∀ k, k ≠ taskId → a'.records k = a.records k := by
  induction hrun with
  | nil s => exact Or.inl rfl
  | cons hstep hrest ih =>
    obtain rfl := hacts _ List.mem_cons_self
    obtain ⟨hlease, hframe⟩ := hstep.settles
    refine Or.inr ⟨hlease, fun k hk => ?_⟩
    rcases ih fun act hact => hacts act (List.mem_cons_of_mem _ hact) with hsame | ⟨-, hframe'⟩
    · rw [hsame, hframe k hk]
    · rw [hframe' k hk, hframe k hk]

/-- A repository that does only what may be done to a board of leases keeps its promise. -/
theorem Refines.fenced (h : R.Refines capacity Inv) (hs : R.Reachable s) : R.Fenced capacity s := by
  obtain ⟨s₀, before, hstarts, hbefore⟩ := hs
  obtain ⟨hinv₀, htasks, hgrants⟩ := h.starts s₀ hstarts
  obtain ⟨hinv, acts₀, hacts₀, -⟩ := h.run hinv₀ hbefore
  have hempty : Leases.Inv TaskInfo.phase capacity (R.board s₀) := by
    refine ⟨?_, fun g hg => ?_, Tasks.openAtMost_iff.mpr ?_⟩
    · rw [board, hgrants]
      exact List.nodup_nil
    · exact absurd hg.1 (by rw [board, hgrants]; exact List.not_mem_nil)
    · rw [htasks]
      exact Nat.zero_le _
  have hboard := hempty.run hacts₀
  refine ⟨fun g g' hg hg' hkey => hboard.exclusive hg hg' hkey, ?_, ?_, ?_, ?_⟩
  · intro op s' taskId lease now hstep hop
    obtain ⟨acts, hacts, hallows⟩ := h.acts _ _ _ hinv hstep
    rcases settles_of_run hacts fun act hact => (hallows act hact).settle _ hop with hsame | hlease
    · exact Or.inl fun k => congrFun hsame k
    · obtain ⟨⟨info, expiry, hget, hphase, hnow⟩, hframe⟩ := hlease
      obtain ⟨hstatus, hid, huntil⟩ := TaskInfo.running_of_phase hphase
      exact Or.inr ⟨⟨info, expiry, hget, hstatus, hid, huntil, hnow⟩, hframe⟩
  · intro ops s' hrun taskId info hget hstatus
    obtain ⟨-, acts, hacts, -⟩ := h.run hinv hrun
    exact hacts.final hget (hstatus.imp TaskInfo.phase_completed TaskInfo.phase_cancelled)
  · intro ops s' hrun taskId info hget hstatus hreplay
    obtain ⟨-, acts, hacts, hallows⟩ := h.run hinv hrun
    refine hacts.failed hget (TaskInfo.phase_failed hstatus) fun act hact heq => ?_
    obtain ⟨op, hop, hallow⟩ := hallows act hact
    exact hreplay op hop (hallow.replay taskId heq)
  · exact Tasks.openAtMost_iff.mp hboard.room

end TaskRepository

end Memplex
