import Mathlib.Data.List.Nodup
import Mathlib.Data.List.ReduceOption
import Mathlib.Logic.Function.Basic
import Mathlib.Order.Basic
import Memplex.Lib.Runs

/-!
# The queue of the single writer

The mutations of a store go through `SingleWriterQueue`: `submit` puts a job into a queue, one
thread takes the jobs out of it and runs them one after the other, and the caller waits for the
result of its own. Any number of callers are under way at once, and `close` puts an end to the
thread with a sentinel in the queue. A job is a function of the store; what it submits itself runs
inline and is a part of it.

What callers see is one sequential run of the jobs (`single_writer_linearizable`): in the order in
which they were put, each of them once, so that a call that began after another one had returned
comes later in it. When the queue is empty all jobs that were put have run; when the thread has
taken its sentinel, none runs any more, and what was put behind the sentinel waits forever
(`single_writer_ended`).
-/

namespace Memplex

open Lib

/-! ## The queue -/

/-- How far a call of `submit` is. -/
inductive SubmitPhase where
  | absent
  /-- The queue was closed. -/
  | refused
  /-- Through `_ensure_thread`, with its job not yet in the queue. -/
  | passed
  | waiting
  | returned
deriving DecidableEq

/-- What the writer thread does. -/
inductive WriterThread (ι : Type*) where
  | absent
  | idle
  | running (job : ι)
  | ended
deriving DecidableEq

/-- The job that a thread runs. -/
def WriterThread.jobs {ι : Type*} : WriterThread ι → List ι
  | running job => [job]
  | _ => []

/-- The sentinels that a thread has taken. -/
def WriterThread.sentinels {ι : Type*} : WriterThread ι → ℕ
  | ended => 1
  | _ => 0

/-- How far `close` is. -/
inductive ClosePhase where
  | open_
  | closing
  | sentinelPut
deriving DecidableEq

/-- The sentinels that were put. -/
def ClosePhase.sentinels : ClosePhase → ℕ
  | sentinelPut => 1
  | _ => 0

/-- A `SingleWriterQueue` with its callers, for jobs `ι` on a store `σ` with results `ρ`. -/
structure SingleWriterQueue (ι σ ρ : Type*) where
  store : σ
  /-- The jobs, and `none` for the sentinel. -/
  queue : List (Option ι)
  unfinishedTasks : ℕ
  thread : WriterThread ι
  closed : Bool
  closePhase : ClosePhase
  phase : ι → SubmitPhase
  result : ι → Option ρ
  /-- The jobs in the order in which they were put. -/
  puts : List ι
  /-- The jobs in the order in which they have run. -/
  order : List ι

namespace SingleWriterQueue

variable {ι σ ρ : Type*}

/-- A new queue on a store. -/
def Starts (s₀ : σ) (Q : SingleWriterQueue ι σ ρ) : Prop :=
  Q = ⟨s₀, [], 0, .absent, false, .open_, fun _ => .absent, fun _ => none, [], []⟩

variable [DecidableEq ι] (fn : ι → σ → σ × ρ) (Q : SingleWriterQueue ι σ ρ)

/-- `_ensure_thread`. -/
def ensureThread : Option (SingleWriterQueue ι σ ρ) :=
  if Q.closed = true then none
  else
    match Q.thread with
    | .absent => some { Q with thread := .idle }
    | .ended => some { Q with thread := .idle }
    | _ => some Q

/-- The first section of `submit`. -/
def submit (i : ι) : SingleWriterQueue ι σ ρ :=
  match Q.ensureThread with
  | none => { Q with phase := Function.update Q.phase i .refused }
  | some Q => { Q with phase := Function.update Q.phase i .passed }

/-- The job is put. -/
def put (i : ι) : SingleWriterQueue ι σ ρ :=
  { Q with
    queue := Q.queue ++ [some i]
    unfinishedTasks := Q.unfinishedTasks + 1
    phase := Function.update Q.phase i .waiting
    puts := Q.puts ++ [i] }

/-- The thread runs its job, and hands the result over. -/
def run (i : ι) : SingleWriterQueue ι σ ρ :=
  { Q with
    store := (fn i Q.store).1
    result := Function.update Q.result i (some (fn i Q.store).2)
    unfinishedTasks := Q.unfinishedTasks - 1
    thread := .idle
    order := Q.order ++ [i] }

/-- A step of a caller, of the thread, or of `close`. -/
inductive Step : SingleWriterQueue ι σ ρ → SingleWriterQueue ι σ ρ → Prop
  | submit {Q : SingleWriterQueue ι σ ρ} {i : ι} (hphase : Q.phase i = .absent) :
    Step Q (Q.submit i)
  | put {Q : SingleWriterQueue ι σ ρ} {i : ι} (hphase : Q.phase i = .passed) : Step Q (Q.put i)
  | get {Q : SingleWriterQueue ι σ ρ} {i : ι} {rest : List (Option ι)} (hidle : Q.thread = .idle)
      (hqueue : Q.queue = some i :: rest) : Step Q { Q with queue := rest, thread := .running i }
  | getSentinel {Q : SingleWriterQueue ι σ ρ} {rest : List (Option ι)} (hidle : Q.thread = .idle)
      (hqueue : Q.queue = none :: rest) :
    Step Q { Q with
      queue := rest
      unfinishedTasks := Q.unfinishedTasks - 1
      thread := .ended }
  | run {Q : SingleWriterQueue ι σ ρ} {i : ι} (hrunning : Q.thread = .running i) :
    Step Q (Q.run fn i)
  | wake {Q : SingleWriterQueue ι σ ρ} {i : ι} (hphase : Q.phase i = .waiting)
      (hdone : Q.result i ≠ none) :
    Step Q { Q with phase := Function.update Q.phase i .returned }
  | close {Q : SingleWriterQueue ι σ ρ} (hopen : Q.closePhase = .open_) :
    Step Q { Q with closed := true, closePhase := .closing }
  /-- With or without waiting for the queue to run empty. -/
  | putSentinel {Q : SingleWriterQueue ι σ ρ} (hclosing : Q.closePhase = .closing) :
    Step Q { Q with
      queue := Q.queue ++ [none]
      unfinishedTasks := Q.unfinishedTasks + 1
      closePhase := .sentinelPut }

/-- The queue with its callers. -/
def system (s₀ : σ) : System (SingleWriterQueue ι σ ρ) where
  start := Starts s₀
  step := Step fn

end SingleWriterQueue

/-! ## Running jobs one after the other -/

section Replay

variable {ι σ ρ : Type*} (fn : ι → σ → σ × ρ)

/-- The store after some jobs. -/
def replay (s : σ) (jobs : List ι) : σ := jobs.foldl (fun s i => (fn i s).1) s

theorem replay_append (s : σ) (jobs : List ι) (i : ι) :
    replay fn s (jobs ++ [i]) = (fn i (replay fn s jobs)).1 := by
  unfold replay
  rw [List.foldl_append]
  rfl

/-- A result is that of the job at its place in the order. -/
def JobAnswers (s : σ) (order : List ι) (i : ι) (r : ρ) : Prop :=
  ∃ before after, order = before ++ i :: after ∧ r = (fn i (replay fn s before)).2

/-- More jobs behind change no answer. -/
theorem JobAnswers.append {fn : ι → σ → σ × ρ} {s : σ} {order : List ι} {i : ι} {r : ρ}
    (h : JobAnswers fn s order i r) (more : List ι) : JobAnswers fn s (order ++ more) i r := by
  obtain ⟨before, after, horder, hr⟩ := h
  refine ⟨before, after ++ more, ?_, hr⟩
  rw [horder, List.append_assoc, List.cons_append]

end Replay

namespace SingleWriterQueue

variable {ι σ ρ : Type*} {fn : ι → σ → σ × ρ} {s₀ : σ}

/-- What holds in every state. -/
structure Inv (fn : ι → σ → σ × ρ) (s₀ : σ) (Q : SingleWriterQueue ι σ ρ) : Prop where
  store : Q.store = replay fn s₀ Q.order
  result : ∀ i r, Q.result i = some r → JobAnswers fn s₀ Q.order i r
  /-- What has run, what runs and what waits, in the order in which it was put. -/
  fifo : Q.order ++ Q.thread.jobs ++ Q.queue.reduceOption = Q.puts
  once : Q.puts.Nodup
  phases : ∀ i, i ∈ Q.puts ↔ Q.phase i = .waiting ∨ Q.phase i = .returned
  returned : ∀ i, Q.phase i = .returned → Q.result i ≠ none
  unfinished : Q.unfinishedTasks = Q.thread.jobs.length + Q.queue.length
  closed : Q.closed = false ↔ Q.closePhase = .open_
  sentinels : Q.thread.sentinels + Q.queue.countP Option.isNone = Q.closePhase.sentinels

variable {Q Q' : SingleWriterQueue ι σ ρ}

theorem Inv.start (hQ : Starts s₀ Q) : Inv fn s₀ Q := by
  obtain rfl := hQ
  constructor <;>
    simp [replay, WriterThread.jobs, WriterThread.sentinels, ClosePhase.sentinels,
      List.reduceOption_nil]

/-- The thread of a queue that is not closed has not ended. -/
theorem Inv.not_ended (h : Inv fn s₀ Q) (hopen : Q.closed = false) : Q.thread ≠ .ended := by
  intro hended
  have hcount := h.sentinels
  rw [hended, h.closed.mp hopen] at hcount
  exact absurd hcount (by simp [WriterThread.sentinels, ClosePhase.sentinels])

variable [DecidableEq ι]

/-- The first section of `submit` refuses the job, or starts the thread where there is none yet. -/
theorem Inv.submit_eq (h : Inv fn s₀ Q) (i : ι) :
    Q.submit i = { Q with phase := Function.update Q.phase i .refused } ∨
      ∃ thread : WriterThread ι, thread.jobs = Q.thread.jobs ∧
        thread.sentinels = Q.thread.sentinels ∧
        Q.submit i = { Q with thread := thread, phase := Function.update Q.phase i .passed } := by
  unfold submit ensureThread
  split_ifs with hclosed
  · exact .inl rfl
  · right
    have hnot := h.not_ended (by simpa using hclosed)
    obtain ⟨store, queue, unfinished, thread, closed, close, phase, result, puts, order⟩ := Q
    cases thread with
    | absent => exact ⟨.idle, rfl, rfl, rfl⟩
    | idle => exact ⟨.idle, rfl, rfl, rfl⟩
    | running job => exact ⟨.running job, rfl, rfl, rfl⟩
    | ended => exact absurd rfl hnot

/-- A step that moves one call, with its job not in the queue before nor after. -/
theorem Inv.move (h : Inv fn s₀ Q) {i : ι} {x : SubmitPhase} {thread : WriterThread ι}
    (hjobs : thread.jobs = Q.thread.jobs) (hsentinels : thread.sentinels = Q.thread.sentinels)
    (hx : (x = .waiting ∨ x = .returned) ↔ (Q.phase i = .waiting ∨ Q.phase i = .returned))
    (hreturned : x = .returned → Q.result i ≠ none) :
    Inv fn s₀ { Q with thread := thread, phase := Function.update Q.phase i x } where
  store := h.store
  result := h.result
  fifo := by
    dsimp only
    rw [hjobs]
    exact h.fifo
  once := h.once
  phases j := by
    dsimp only
    rw [h.phases]
    by_cases hj : j = i
    · rw [hj, Function.update_self, hx]
    · rw [Function.update_of_ne hj]
  returned j hj := by
    dsimp only at hj
    by_cases heq : j = i
    · rw [heq, Function.update_self] at hj
      exact heq ▸ hreturned hj
    · rw [Function.update_of_ne heq] at hj
      exact h.returned j hj
  unfinished := by
    dsimp only
    rw [hjobs]
    exact h.unfinished
  closed := h.closed
  sentinels := by
    dsimp only
    rw [hsentinels]
    exact h.sentinels

/-- A job is put. -/
theorem Inv.put (h : Inv fn s₀ Q) {i : ι} (hphase : Q.phase i = .passed) : Inv fn s₀ (Q.put i) where
  store := h.store
  result := h.result
  fifo := by
    change Q.order ++ Q.thread.jobs ++ (Q.queue ++ [some i]).reduceOption = Q.puts ++ [i]
    rw [List.reduceOption_append, ← List.append_assoc, h.fifo]
    rfl
  once := by
    have hnew : i ∉ Q.puts := by
      rw [h.phases, hphase]
      simp
    exact List.nodup_append'.mpr ⟨h.once, List.nodup_singleton i, by simpa using hnew⟩
  phases j := by
    change j ∈ Q.puts ++ [i] ↔ _
    rw [List.mem_append, h.phases, List.mem_singleton]
    dsimp only [SingleWriterQueue.put]
    by_cases hj : j = i
    · rw [hj, Function.update_self]
      simp
    · rw [Function.update_of_ne hj]
      simp [hj]
  returned j hj := by
    dsimp only [SingleWriterQueue.put] at hj
    by_cases heq : j = i
    · rw [heq, Function.update_self] at hj
      cases hj
    · rw [Function.update_of_ne heq] at hj
      exact h.returned j hj
  unfinished := by
    change Q.unfinishedTasks + 1 = Q.thread.jobs.length + (Q.queue ++ [some i]).length
    rw [h.unfinished, List.length_append, List.length_singleton, Nat.add_assoc]
  closed := h.closed
  sentinels := by
    change Q.thread.sentinels + (Q.queue ++ [some i]).countP Option.isNone = _
    rw [List.countP_append]
    exact h.sentinels

omit [DecidableEq ι] in
/-- The thread takes a job. -/
theorem Inv.get (h : Inv fn s₀ Q) {i : ι} {rest : List (Option ι)} (hidle : Q.thread = .idle)
    (hqueue : Q.queue = some i :: rest) :
    Inv fn s₀ { Q with queue := rest, thread := .running i } where
  store := h.store
  result := h.result
  fifo := by
    have hfifo := h.fifo
    rw [hidle, hqueue] at hfifo
    rw [← hfifo]
    simp [WriterThread.jobs]
  once := h.once
  phases := h.phases
  returned := h.returned
  unfinished := by
    have hunfinished := h.unfinished
    rw [hidle, hqueue] at hunfinished
    dsimp only
    rw [hunfinished]
    simp [WriterThread.jobs, Nat.add_comm]
  closed := h.closed
  sentinels := by
    have hsentinels := h.sentinels
    rw [hidle, hqueue] at hsentinels
    simpa [WriterThread.sentinels] using hsentinels

omit [DecidableEq ι] in
/-- The thread takes the sentinel. -/
theorem Inv.getSentinel (h : Inv fn s₀ Q) {rest : List (Option ι)} (hidle : Q.thread = .idle)
    (hqueue : Q.queue = none :: rest) :
    Inv fn s₀ { Q with
      queue := rest
      unfinishedTasks := Q.unfinishedTasks - 1
      thread := .ended } where
  store := h.store
  result := h.result
  fifo := by
    have hfifo := h.fifo
    rw [hidle, hqueue] at hfifo
    rw [← hfifo]
    simp [WriterThread.jobs]
  once := h.once
  phases := h.phases
  returned := h.returned
  unfinished := by
    have hunfinished := h.unfinished
    rw [hidle, hqueue] at hunfinished
    dsimp only
    rw [hunfinished]
    simp [WriterThread.jobs]
  closed := h.closed
  sentinels := by
    have hsentinels := h.sentinels
    rw [hidle, hqueue] at hsentinels
    rw [← hsentinels]
    simp [WriterThread.sentinels, Nat.add_comm]

/-- The thread runs its job. -/
theorem Inv.run (h : Inv fn s₀ Q) {i : ι} (hrunning : Q.thread = .running i) :
    Inv fn s₀ (Q.run fn i) where
  store := by
    change (fn i Q.store).1 = replay fn s₀ (Q.order ++ [i])
    rw [replay_append, h.store]
  result j r hr := by
    change JobAnswers fn s₀ (Q.order ++ [i]) j r
    dsimp only [SingleWriterQueue.run] at hr
    by_cases hj : j = i
    · rw [hj, Function.update_self, Option.some.injEq] at hr
      exact ⟨Q.order, [], by rw [hj], by rw [hj, ← hr, h.store]⟩
    · rw [Function.update_of_ne hj] at hr
      exact (h.result j r hr).append [i]
  fifo := by
    have hfifo := h.fifo
    rw [hrunning] at hfifo
    change Q.order ++ [i] ++ [] ++ Q.queue.reduceOption = Q.puts
    rw [← hfifo, List.append_nil]
    rfl
  once := h.once
  phases := h.phases
  returned j hj := by
    dsimp only [SingleWriterQueue.run] at hj ⊢
    by_cases heq : j = i
    · rw [heq, Function.update_self]
      exact Option.some_ne_none _
    · rw [Function.update_of_ne heq]
      exact h.returned j hj
  unfinished := by
    have hunfinished := h.unfinished
    rw [hrunning] at hunfinished
    change Q.unfinishedTasks - 1 = 0 + Q.queue.length
    rw [hunfinished]
    simp [WriterThread.jobs]
  closed := h.closed
  sentinels := by
    have hsentinels := h.sentinels
    rw [hrunning] at hsentinels
    exact hsentinels

/-- Every step keeps the invariant. -/
theorem Inv.step (h : Inv fn s₀ Q) (hstep : Step fn Q Q') : Inv fn s₀ Q' := by
  cases hstep with
  | @submit i hphase =>
    rcases h.submit_eq i with heq | ⟨thread, hjobs, hsentinels, heq⟩
    · rw [heq]
      exact h.move rfl rfl (by simp [hphase]) nofun
    · rw [heq]
      exact h.move hjobs hsentinels (by simp [hphase]) nofun
  | put hphase => exact h.put hphase
  | get hidle hqueue => exact h.get hidle hqueue
  | getSentinel hidle hqueue => exact h.getSentinel hidle hqueue
  | run hrunning => exact h.run hrunning
  | wake hphase hdone => exact h.move rfl rfl (by simp [hphase]) fun _ => hdone
  | close hopen =>
    have hsentinels := h.sentinels
    rw [hopen] at hsentinels
    exact { h with closed := by simp, sentinels := hsentinels }
  | putSentinel hclosing =>
    have hsentinels := h.sentinels
    have hclosed := h.closed
    rw [hclosing] at hsentinels hclosed
    exact { h with
      fifo := by
        rw [← h.fifo]
        simp [List.reduceOption_append]
      unfinished := by
        dsimp only
        rw [h.unfinished, List.length_append, List.length_singleton, Nat.add_assoc]
      closed := by simpa using hclosed
      sentinels := by
        rw [List.countP_append, ← Nat.add_assoc, hsentinels]
        rfl }

/-- The invariant holds at the start, and every step keeps it. -/
theorem inductive_inv (fn : ι → σ → σ × ρ) (s₀ : σ) : (system fn s₀).Inductive (Inv fn s₀) where
  start _ hQ := .start hQ
  step _ _ h hstep := h.step hstep

theorem inv_of_reachable (h : (system fn s₀).Reachable Q) : Inv fn s₀ Q :=
  (inductive_inv fn s₀).holds h

/-- The jobs that have run stay at the front of the order. -/
theorem Step.order_extends (hstep : Step fn Q Q') : Q.order <+: Q'.order := by
  cases hstep with
  | @submit i hphase =>
    unfold SingleWriterQueue.submit
    split
    · exact List.prefix_refl _
    · rename_i Q₁ hQ₁
      unfold ensureThread at hQ₁
      split_ifs at hQ₁
      split at hQ₁ <;> cases hQ₁ <;> exact List.prefix_refl _
  | @run i hrunning => exact List.prefix_append _ _
  | put | get | getSentinel | wake | close | putSentinel => exact List.prefix_refl _

/-- When the thread has ended, no job runs and none returns that has not run. -/
theorem Step.ended (h : Inv fn s₀ Q) (hstep : Step fn Q Q') (hended : Q.thread = .ended) :
    Q'.thread = .ended ∧ Q'.store = Q.store ∧ Q'.order = Q.order := by
  cases hstep with
  | @submit i hphase =>
    have hclosed : Q.closed = true := by
      by_contra hopen
      exact h.not_ended (by simpa using hopen) hended
    unfold SingleWriterQueue.submit ensureThread
    rw [if_pos hclosed]
    exact ⟨hended, rfl, rfl⟩
  | put hphase => exact ⟨hended, rfl, rfl⟩
  | get hidle hqueue =>
    rw [hended] at hidle
    cases hidle
  | getSentinel hidle hqueue =>
    rw [hended] at hidle
    cases hidle
  | run hrunning =>
    rw [hended] at hrunning
    cases hrunning
  | wake hphase hdone => exact ⟨hended, rfl, rfl⟩
  | close hopen => exact ⟨hended, rfl, rfl⟩
  | putSentinel hclosing => exact ⟨hended, rfl, rfl⟩

end SingleWriterQueue

/-! ## The results -/

section Results

open SingleWriterQueue

variable {ι σ ρ : Type*} [DecidableEq ι] {fn : ι → σ → σ × ρ} {s₀ : σ}
  {Q Q' : SingleWriterQueue ι σ ρ}

/-- The store is what the jobs make of it one after the other, in an order in which each is once,
and a call that has returned got the result of its job at its place in the order. The order respects
time: a call that has not begun when another one has returned comes after it, in every
continuation. -/
theorem single_writer_linearizable (h : (system fn s₀).Reachable Q) :
    Q.store = replay fn s₀ Q.order ∧ Q.order <+: Q.puts ∧ Q.order.Nodup ∧
      (∀ i, Q.phase i = .returned → ∃ r, Q.result i = some r ∧ JobAnswers fn s₀ Q.order i r) ∧
      ∀ Q', (system fn s₀).Run Q Q' → ∀ i j, Q.phase i = .returned → Q.phase j = .absent →
        j ∈ Q'.order → [i, j].Sublist Q'.order := by
  have hinv := inv_of_reachable h
  have hfront : Q.order <+: Q.puts := by
    rw [← hinv.fifo, List.append_assoc]
    exact List.prefix_append _ _
  have hran : ∀ i, Q.phase i = .returned →
      ∃ r, Q.result i = some r ∧ JobAnswers fn s₀ Q.order i r := by
    intro i hi
    obtain ⟨r, hr⟩ := Option.ne_none_iff_exists'.mp (hinv.returned i hi)
    exact ⟨r, hr, hinv.result i r hr⟩
  refine ⟨hinv.store, hfront, hinv.once.sublist hfront.sublist, hran,
    fun Q' hrun i j hi hj hmem => ?_⟩
  -- What has run stays at the front, so only what was appended matters for `j`.
  have hmore : Q.order <+: Q'.order := by
    have hstable : (system fn s₀).Stable fun T => Q.order <+: T.order := by
      intro T T' _ hT hstep
      exact hT.trans hstep.order_extends
    exact hstable.later h (List.prefix_refl _) hrun
  obtain ⟨more, hsplit⟩ := hmore
  obtain ⟨r, -, before, after, horder, -⟩ := hran i hi
  have hi' : [i].Sublist Q.order := by
    rw [horder]
    exact List.singleton_sublist.mpr (List.mem_append_right _ List.mem_cons_self)
  have hj' : [j].Sublist more := by
    rw [← hsplit, List.mem_append] at hmem
    refine List.singleton_sublist.mpr (hmem.resolve_left fun hold => ?_)
    have hput := (hinv.phases j).mp (hfront.subset hold)
    rw [hj] at hput
    simp at hput
  rw [← hsplit]
  exact hi'.append hj'

/-- When no task is unfinished, as `drain` waits for, every job that was put has run. When the
thread has taken its sentinel, the store stays as it is and no further job runs in any continuation:
who waits with a job that has not run waits forever. -/
theorem single_writer_ended (h : (system fn s₀).Reachable Q) :
    (Q.unfinishedTasks = 0 → Q.order = Q.puts) ∧
      (Q.thread = .ended → ∀ Q', (system fn s₀).Run Q Q' → Q'.store = Q.store ∧
        Q'.order = Q.order ∧ ∀ i, i ∉ Q.order → Q'.phase i ≠ .returned) := by
  have hinv := inv_of_reachable h
  refine ⟨fun hzero => ?_, fun hended Q' hrun => ?_⟩
  · have hunfinished := hinv.unfinished
    rw [hzero] at hunfinished
    have hjobs : Q.thread.jobs = [] := List.length_eq_zero_iff.mp (by omega)
    have hqueue : Q.queue = [] := List.length_eq_zero_iff.mp (by omega)
    rw [← hinv.fifo, hjobs, hqueue]
    simp [List.reduceOption_nil]
  · have hkept : Q'.thread = .ended ∧ Q'.store = Q.store ∧ Q'.order = Q.order := by
      refine System.Stable.later (P := fun T => T.thread = .ended ∧ T.store = Q.store ∧
        T.order = Q.order) ?_ h ⟨hended, rfl, rfl⟩ hrun
      intro T T' hreach ⟨hT, hstore, horder⟩ hstep
      obtain ⟨hT', hstore', horder'⟩ := hstep.ended (inv_of_reachable hreach) hT
      exact ⟨hT', hstore'.trans hstore, horder'.trans horder⟩
    refine ⟨hkept.2.1, hkept.2.2, fun i hi hreturned => hi ?_⟩
    -- A call returns with an answer, and only a job that has run is answered.
    have hinv' := inv_of_reachable (h.run hrun)
    obtain ⟨r, hr⟩ := Option.ne_none_iff_exists'.mp (hinv'.returned i hreturned)
    obtain ⟨before, after, horder, -⟩ := hinv'.result i r hr
    rw [← hkept.2.2, horder]
    exact List.mem_append_right _ List.mem_cons_self

/-- A job comes through `_ensure_thread`, the queue is closed and its thread ended, and the job is
put behind the sentinel. Another one has returned before. -/
theorem single_writer_run : ∃ Q Q' : SingleWriterQueue ℕ ℕ ℕ,
    (system (fun i n => (n + i, n)) 5).Reachable Q ∧ Q.phase 1 = .returned ∧ Q.order = [1] ∧
      Q.thread = .ended ∧ (system (fun i n => (n + i, n)) 5).Run Q Q' ∧ Q'.phase 2 = .waiting := by
  have h₀ : (system (fun i n => (n + i, n)) 5).Reachable (⟨5, [], 0, .absent, false, .open_,
    fun _ => .absent, fun _ => none, [], []⟩ : SingleWriterQueue ℕ ℕ ℕ) := .of_start rfl
  have h₁ := h₀.next (.submit (i := 1) rfl)
  have h₂ := h₁.next (.put (i := 1) rfl)
  have h₃ := h₂.next (.get rfl rfl)
  have h₄ := h₃.next (.run rfl)
  have h₅ := h₄.next (.wake (i := 1) rfl (Option.some_ne_none 5))
  have h₆ := h₅.next (.submit (i := 2) rfl)
  have h₇ := h₆.next (.close rfl)
  have h₈ := h₇.next (.putSentinel rfl)
  have h₉ := h₈.next (.getSentinel rfl rfl)
  exact ⟨_, _, h₉, rfl, rfl, rfl, .single (.put (i := 2) rfl), rfl⟩

/-- The first job has returned what was in the store before it. -/
theorem single_writer_linearizable_run : ∃ Q : SingleWriterQueue ℕ ℕ ℕ,
    (system (fun i n => (n + i, n)) 5).Reachable Q ∧ Q.store = 6 := by
  obtain ⟨Q, -, hreach, -, horder, -⟩ := single_writer_run
  refine ⟨Q, hreach, ?_⟩
  rw [(single_writer_linearizable hreach).1, horder]
  rfl

/-- The second job is never answered. -/
theorem single_writer_ended_run : ∃ Q Q' : SingleWriterQueue ℕ ℕ ℕ,
    (system (fun i n => (n + i, n)) 5).Reachable Q ∧ Q'.phase 2 = .waiting ∧
      ∀ Q'', (system (fun i n => (n + i, n)) 5).Run Q' Q'' → Q''.phase 2 ≠ .returned := by
  obtain ⟨Q, Q', hreach, -, horder, hended, hrun, hwaiting⟩ := single_writer_run
  refine ⟨Q, Q', hreach, hwaiting, fun Q'' hrun' => ?_⟩
  exact ((single_writer_ended hreach).2 hended Q'' (hrun.trans hrun')).2.2 2 (by simp [horder])

end Results

end Memplex
