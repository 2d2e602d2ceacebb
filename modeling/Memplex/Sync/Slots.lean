import Memplex.Lib.Tickets
import Memplex.Sync.Dispatch

/-!
# The slots of the dispatcher

The background threads of a `SyncDispatcher`. A scheduler reserves a slot for a target, claims
deliveries for it and puts them into a queue, from which the workers take them; a call of `stop`
takes what is left. Whoever holds a slot gives it back: the scheduler where there is nothing to
claim, where it stops or where a call raises, and the worker or the call of `stop` in the end, in
whatever way its calls end.

A thread here goes from one access of what the threads share to the next, in one step each, and a
run is any interleaving of these (`run`), with any answers of the repository and the peers. That a
slot is a `Ticket` with a number is not in the source: it only says which release belongs to which
reservation. A step reserves, or releases one slot that is held, or passes slots on
(`step_change`), and from this follows all that the slots are for (`slots_accounted`).
-/

namespace Memplex

open Lib

namespace SyncDispatcher

/-- The constructor arguments that bound what is in flight. -/
structure Config where
  targets : Table (Prod.fst : String × String → String)
  maxInFlight : ℕ
  perTargetInFlight : ℕ
  per_target_pos : 0 < perTargetInFlight
  per_target_le : perTargetInFlight ≤ maxInFlight

/-- A reserved slot: the how manyth it is, and its target. -/
structure Ticket where
  number : ℕ
  targetId : String
deriving DecidableEq

/-- An entry of the work queue, with the slot that is reserved for it. -/
structure Work where
  ticket : Ticket
  targetUrl : String
  deliveries : List SyncDelivery
  now : Instant

/-- How a call of the repository or of a peer ends: it returns, raises an `Exception`, or raises
another `BaseException`. -/
inductive CallEnd (α : Type) where
  | returns (a : α)
  | raises
  | cancelled

/-- Where `_run` and `_schedule_once` stand. -/
inductive SchedulerAt where
  /-- Before the next tick. -/
  | idles
  /-- Before the next target of a tick. -/
  | visits (rest : List (String × String)) (now : Instant)
  /-- In `sync_claim`. -/
  | claims (ticket : Ticket) (targetUrl : String) (rest : List (String × String)) (now : Instant)
  /-- Before the decision whether what was claimed is put into the queue. -/
  | decides (work : Work) (rest : List (String × String))
  /-- In `_fail`. -/
  | defers (work : Work) (rest : List (String × String))
  /-- Before `_release_target`, with the next target after it. -/
  | releases (ticket : Ticket) (rest : List (String × String)) (now : Instant)
  /-- Before `_release_target` in the handler, which raises again. -/
  | unwinds (ticket : Ticket) (dies : Bool)

/-- Where `_run_worker` or `_release_queued_work` stands. -/
inductive ConsumerAt where
  /-- Before it takes an entry of the queue. -/
  | fetches
  /-- Before it looks at the stop event. -/
  | tests (work : Work)
  /-- In `_fail` or `_send`. -/
  | calls (work : Work) (deferred : Bool)
  /-- Before `_release_target`, and the end of the thread if it dies of an exception. -/
  | finishes (ticket : Ticket) (dies : Bool)

/-- A thread: the scheduler, a worker, or a caller of `stop` or `start`. -/
inductive Thread where
  | scheduler (pos : SchedulerAt)
  | worker (pos : ConsumerAt)
  | stopper (pos : ConsumerAt)
  /-- In `start`, with some workers and the scheduler still to start. -/
  | starter (left : ℕ)
  | ended

/-- What the threads share, the threads, and the slots that were reserved and released so far. -/
structure State where
  stopEvent : Bool
  activeBatches : ℤ
  activeTargets : Tally String
  workQueue : List Work
  threads : List Thread
  reserved : ℕ
  released : List Ticket

/-- A dispatcher that has just been constructed. -/
def State.init : State := ⟨false, 0, .empty, [], [], 0, []⟩

section Steps

variable (cfg : Config)

namespace State

variable (s : State)

/-- `_reserve_target`. -/
def reserveTarget (targetId : String) : State × Bool :=
  if cfg.maxInFlight ≤ s.activeBatches then (s, false)
  else if cfg.perTargetInFlight ≤ s.activeTargets.countOf targetId then (s, false)
  else
    ({ s with
        activeBatches := s.activeBatches + 1
        activeTargets := s.activeTargets.add targetId
        reserved := s.reserved + 1 }, true)

/-- `_release_target`. -/
def releaseTarget (ticket : Ticket) : State :=
  { s with
    activeTargets := s.activeTargets.drop ticket.targetId
    activeBatches := s.activeBatches - 1
    released := s.released ++ [ticket] }

/-- `put_nowait`, which raises where the queue is full. -/
def putNowait (work : Work) : Option State :=
  if s.workQueue.length < cfg.maxInFlight then some { s with workQueue := s.workQueue ++ [work] }
  else none

end State

/-- One step of the scheduler, with the reading of the clock and the answer of the repository where
it needs one. -/
def SchedulerAt.step (s : State) (now : Instant) (answer : CallEnd (List SyncDelivery)) :
    SchedulerAt → State × Thread
  | .idles => (s, if s.stopEvent then .ended else .scheduler (.visits cfg.targets.rows now))
  | .visits [] _ => (s, .scheduler .idles)
  | .visits ((targetId, targetUrl) :: rest) now =>
    if s.stopEvent then (s, .scheduler (.visits rest now))
    else
      match s.reserveTarget cfg targetId with
      | (s', true) => (s', .scheduler (.claims ⟨s.reserved, targetId⟩ targetUrl rest now))
      | (s', false) => (s', .scheduler (.visits rest now))
  | .claims ticket targetUrl rest now =>
    match answer with
    | .returns [] => (s, .scheduler (.releases ticket rest now))
    | .returns (d :: ds) => (s, .scheduler (.decides ⟨ticket, targetUrl, d :: ds, now⟩ rest))
    | .raises => (s, .scheduler (.unwinds ticket false))
    | .cancelled => (s, .scheduler (.unwinds ticket true))
  | .decides work rest =>
    if s.stopEvent then (s, .scheduler (.defers work rest))
    else
      match s.putNowait cfg work with
      | some s' => (s', .scheduler (.visits rest work.now))
      | none => (s, .scheduler (.unwinds work.ticket false))
  | .defers work rest =>
    match answer with
    | .returns _ => (s, .scheduler (.releases work.ticket rest work.now))
    | .raises => (s, .scheduler (.unwinds work.ticket false))
    | .cancelled => (s, .scheduler (.unwinds work.ticket true))
  | .releases ticket rest now => (s.releaseTarget ticket, .scheduler (.visits rest now))
  | .unwinds ticket dies => (s.releaseTarget ticket, if dies then .ended else .scheduler .idles)

/-- One step of a worker, or of a caller of `stop`: this one does not wait for an entry, and puts
every one off. -/
def ConsumerAt.step (thread : ConsumerAt → Thread) (waits : Bool) (s : State)
    (answer : CallEnd (List SyncDelivery)) : ConsumerAt → State × Thread
  | .fetches =>
    match s.workQueue with
    | [] => (s, if waits && !s.stopEvent then thread .fetches else .ended)
    | work :: rest => ({ s with workQueue := rest }, thread (.tests work))
  | .tests work => (s, thread (.calls work (s.stopEvent || !waits)))
  | .calls work _ =>
    match answer with
    | .cancelled => (s, thread (.finishes work.ticket true))
    | _ => (s, thread (.finishes work.ticket false))
  | .finishes ticket dies =>
    (s.releaseTarget ticket, if dies then .ended else thread .fetches)

/-- One step of a thread. -/
def Thread.step (s : State) (now : Instant) (answer : CallEnd (List SyncDelivery)) :
    Thread → State × Thread
  | .scheduler pos => pos.step cfg s now answer
  | .worker pos => pos.step .worker true s answer
  | .stopper pos => pos.step .stopper false s answer
  | .starter 0 => ({ s with threads := s.threads ++ [.scheduler .idles] }, .ended)
  | .starter (left + 1) => ({ s with threads := s.threads ++ [.worker .fetches] }, .starter left)
  | .ended => (s, .ended)

/-- A thread that keeps a call of `start` from starting others: a scheduler that is alive, or
another caller, who has the lock. -/
def Thread.bars : Thread → Bool
  | .scheduler _ => true
  | .starter _ => true
  | _ => false

/-- What happens next: somebody calls `start` or `stop`, or a thread goes on. -/
inductive Step where
  | start
  | stop
  | go (i : ℕ) (now : Instant) (answer : CallEnd (List SyncDelivery))

/-- One step. -/
def State.step (s : State) : Step → State
  | .start =>
    if s.threads.any Thread.bars then s
    else { s with stopEvent := false, threads := s.threads ++ [.starter cfg.maxInFlight] }
  | .stop => { s with stopEvent := true, threads := s.threads ++ [.stopper .fetches] }
  | .go i now answer =>
    match s.threads[i]? with
    | none => s
    | some thread =>
      let (s', thread') := thread.step cfg s now answer
      { s' with threads := s'.threads.set i thread' }

/-- Some steps. -/
def State.run (s : State) (steps : List Step) : State := steps.foldl (State.step cfg) s

end Steps

/-! ## Who holds a slot -/

/-- The slot that the scheduler holds. -/
def SchedulerAt.held : SchedulerAt → List Ticket
  | .idles | .visits _ _ => []
  | .claims ticket _ _ _ | .releases ticket _ _ | .unwinds ticket _ => [ticket]
  | .decides work _ | .defers work _ => [work.ticket]

/-- The slot that goes with the entry that was taken. -/
def ConsumerAt.held : ConsumerAt → List Ticket
  | .fetches => []
  | .tests work | .calls work _ => [work.ticket]
  | .finishes ticket _ => [ticket]

/-- The slot that a thread holds. -/
def Thread.held : Thread → List Ticket
  | .scheduler pos => pos.held
  | .worker pos | .stopper pos => pos.held
  | .starter _ | .ended => []

@[simp] theorem Thread.held_ended : Thread.ended.held = [] := rfl

/-- The slots that are held, by entries of the queue and by threads. -/
def State.held (s : State) : List Ticket :=
  s.workQueue.map Work.ticket ++ s.threads.flatMap Thread.held

/-! ## What a step does to the slots -/

section Change

variable {cfg : Config}

/-- What happens to the slots between two states, where some are held before and some after: they are
passed on, one is reserved, or one is released. -/
inductive Change (cfg : Config) (s s' : State) (before after : List Ticket) : Prop where
  | passes (hheld : ∀ t, after.count t = before.count t)
      (hbatches : s'.activeBatches = s.activeBatches)
      (htargets : s'.activeTargets = s.activeTargets)
      (hreserved : s'.reserved = s.reserved) (hreleased : s'.released = s.released)
  | reserves (targetId : String) (hfree : s.activeBatches < cfg.maxInFlight)
      (hcap : s.activeTargets.countOf targetId < cfg.perTargetInFlight)
      (hheld : ∀ t, after.count t = (⟨s.reserved, targetId⟩ :: before).count t)
      (hbatches : s'.activeBatches = s.activeBatches + 1)
      (htargets : s'.activeTargets = s.activeTargets.add targetId)
      (hreserved : s'.reserved = s.reserved + 1) (hreleased : s'.released = s.released)
  | releases (ticket : Ticket) (hheld : ∀ t, before.count t = (ticket :: after).count t)
      (hbatches : s'.activeBatches = s.activeBatches - 1)
      (htargets : s'.activeTargets = s.activeTargets.drop ticket.targetId)
      (hreserved : s'.reserved = s.reserved) (hreleased : s'.released = s.released ++ [ticket])

/-- The slots of the queue and of one thread. -/
def State.heldWith (s : State) (thread : Thread) : List Ticket :=
  s.workQueue.map Work.ticket ++ thread.held

variable {s s₁ : State} {before after : List Ticket}

/-- Where nothing happens to the slots. -/
theorem Change.same (s : State) {before after : List Ticket}
    (h : ∀ t, after.count t = before.count t) : Change cfg s s before after :=
  .passes h rfl rfl rfl rfl

/-- What is seen of the queue and one thread is seen of all. -/
theorem Change.lift (h : Change cfg s s₁ before after) {threads : List Thread}
    {before' after' : List Ticket}
    (hcount : ∀ t, after'.count t + before.count t = before'.count t + after.count t) :
    Change cfg s { s₁ with threads := threads } before' after' := by
  cases h with
  | passes hheld hbatches htargets hreserved hreleased =>
    refine .passes (fun t => ?_) hbatches htargets hreserved hreleased
    have := hcount t
    have := hheld t
    omega
  | reserves targetId hfree hcap hheld hbatches htargets hreserved hreleased =>
    refine .reserves targetId hfree hcap (fun t => ?_) hbatches htargets hreserved hreleased
    have := hcount t
    have := hheld t
    rw [List.count_cons] at this ⊢
    omega
  | releases ticket hheld hbatches htargets hreserved hreleased =>
    refine .releases ticket (fun t => ?_) hbatches htargets hreserved hreleased
    have := hcount t
    have := hheld t
    rw [List.count_cons] at this ⊢
    omega

/-- A release by whoever holds the slot. -/
theorem Change.release (s : State) (ticket : Ticket) {before after : List Ticket}
    (h : ∀ t, before.count t = (ticket :: after).count t) :
    Change cfg s (s.releaseTarget ticket) before after :=
  .releases ticket h rfl rfl rfl rfl

variable (cfg)

/-- The scheduler. -/
theorem SchedulerAt.step_change (s : State) (now : Instant) (answer : CallEnd (List SyncDelivery))
    (pos : SchedulerAt) :
    Change cfg s (pos.step cfg s now answer).1 (s.heldWith (.scheduler pos))
        ((pos.step cfg s now answer).1.heldWith (pos.step cfg s now answer).2) ∧
      (pos.step cfg s now answer).1.threads = s.threads := by
  cases pos with
  | idles =>
    simp only [SchedulerAt.step]
    split <;> exact ⟨.same s fun _ => rfl, trivial⟩
  | visits rest now =>
    cases rest with
    | nil => exact ⟨.same s fun _ => rfl, rfl⟩
    | cons target rest =>
      obtain ⟨targetId, targetUrl⟩ := target
      simp only [SchedulerAt.step, State.reserveTarget]
      split_ifs with hstop hfull hcapped
      · exact ⟨.same s fun _ => rfl, rfl⟩
      · exact ⟨.same s fun _ => rfl, rfl⟩
      · exact ⟨.same s fun _ => rfl, rfl⟩
      · refine ⟨.reserves targetId (not_le.mp hfull) (not_le.mp hcapped) (fun t => ?_) rfl rfl rfl
          rfl, rfl⟩
        simp [State.heldWith, Thread.held, SchedulerAt.held, List.count_cons]
  | claims ticket targetUrl rest now =>
    simp only [SchedulerAt.step]
    split <;> exact ⟨.same s fun _ => rfl, rfl⟩
  | decides work rest =>
    simp only [SchedulerAt.step, State.putNowait]
    split_ifs with hstop hroom
    · exact ⟨.same s fun _ => rfl, rfl⟩
    · refine ⟨.passes (fun t => ?_) rfl rfl rfl rfl, rfl⟩
      simp [State.heldWith, Thread.held, SchedulerAt.held]
    · exact ⟨.same s fun _ => rfl, rfl⟩
  | defers work rest =>
    simp only [SchedulerAt.step]
    split <;> exact ⟨.same s fun _ => rfl, rfl⟩
  | releases ticket rest now =>
    refine ⟨.release s ticket fun t => ?_, rfl⟩
    simp [State.heldWith, State.releaseTarget, SchedulerAt.step, Thread.held, SchedulerAt.held,
      List.count_cons]
  | unwinds ticket dies =>
    refine ⟨.release s ticket fun t => ?_, rfl⟩
    cases dies <;> simp [State.heldWith, State.releaseTarget, SchedulerAt.step, Thread.held,
      SchedulerAt.held, List.count_cons]

/-- A worker, or a caller of `stop`. -/
theorem ConsumerAt.step_change (thread : ConsumerAt → Thread)
    (hthread : ∀ pos, (thread pos).held = pos.held) (waits : Bool) (s : State)
    (answer : CallEnd (List SyncDelivery)) (pos : ConsumerAt) :
    Change cfg s (pos.step thread waits s answer).1 (s.heldWith (thread pos))
        ((pos.step thread waits s answer).1.heldWith (pos.step thread waits s answer).2) ∧
      (pos.step thread waits s answer).1.threads = s.threads := by
  cases pos with
  | fetches =>
    simp only [ConsumerAt.step]
    split
    next hempty =>
      refine ⟨.same s fun t => ?_, rfl⟩
      split_ifs <;> simp [State.heldWith, hthread, ConsumerAt.held]
    next work rest hqueue =>
      refine ⟨.passes (fun t => ?_) rfl rfl rfl rfl, rfl⟩
      simp [State.heldWith, hthread, ConsumerAt.held, hqueue, List.count_cons]
  | tests work =>
    refine ⟨.same s fun t => ?_, rfl⟩
    simp [State.heldWith, hthread, ConsumerAt.held, ConsumerAt.step]
  | calls work deferred =>
    simp only [ConsumerAt.step]
    split <;> exact ⟨.same s fun t => by simp [State.heldWith, hthread, ConsumerAt.held], rfl⟩
  | finishes ticket dies =>
    refine ⟨.release s ticket fun t => ?_, rfl⟩
    cases dies <;> simp [State.heldWith, State.releaseTarget, ConsumerAt.step, hthread,
      ConsumerAt.held, List.count_cons]

/-- A thread changes the slots of the queue and its own, and may start others, which hold none. -/
theorem Thread.step_change (s : State) (now : Instant) (answer : CallEnd (List SyncDelivery))
    (thread : Thread) :
    Change cfg s (thread.step cfg s now answer).1 (s.heldWith thread)
        ((thread.step cfg s now answer).1.heldWith (thread.step cfg s now answer).2) ∧
      ∃ more, (thread.step cfg s now answer).1.threads = s.threads ++ more ∧
        more.flatMap Thread.held = [] := by
  cases thread with
  | scheduler pos =>
    obtain ⟨h, hthreads⟩ := pos.step_change cfg s now answer
    exact ⟨h, [], by rw [List.append_nil]; exact hthreads, rfl⟩
  | worker pos =>
    obtain ⟨h, hthreads⟩ :=
      pos.step_change cfg .worker (fun _ => rfl) true s answer
    exact ⟨h, [], by rw [List.append_nil]; exact hthreads, rfl⟩
  | stopper pos =>
    obtain ⟨h, hthreads⟩ :=
      pos.step_change cfg .stopper (fun _ => rfl) false s answer
    exact ⟨h, [], by rw [List.append_nil]; exact hthreads, rfl⟩
  | starter left =>
    cases left with
    | zero => exact ⟨.passes (fun _ => rfl) rfl rfl rfl rfl, _, rfl, rfl⟩
    | succ left => exact ⟨.passes (fun _ => rfl) rfl rfl rfl rfl, _, rfl, rfl⟩
  | ended => exact ⟨.same s fun _ => rfl, [], (List.append_nil _).symm, rfl⟩

variable {cfg} in
/-- The step of the thread at a place. -/
theorem State.step_go {s : State} {i : ℕ} {thread : Thread} (h : s.threads[i]? = some thread)
    (now : Instant) (answer : CallEnd (List SyncDelivery)) :
    s.step cfg (.go i now answer) =
      { (thread.step cfg s now answer).1 with
        threads := (thread.step cfg s now answer).1.threads.set i
          (thread.step cfg s now answer).2 } := by
  simp only [State.step, h]

/-- A step passes slots on, or reserves one, or releases one. -/
theorem State.step_change (s : State) (x : Step) : Change cfg s (s.step cfg x) s.held
    (s.step cfg x).held := by
  cases x with
  | start =>
    unfold State.step
    split_ifs
    · exact .same s fun _ => rfl
    · exact .passes (fun t => by simp [State.held, Thread.held]) rfl rfl rfl rfl
  | stop =>
    refine .passes (fun t => ?_) rfl rfl rfl rfl
    simp [State.step, State.held, Thread.held, ConsumerAt.held]
  | go i now answer =>
    cases hthread : s.threads[i]? with
    | none =>
      simp only [State.step, hthread]
      exact .same s fun _ => rfl
    | some thread =>
      rw [State.step_go hthread]
      obtain ⟨hchange, more, hthreads, hmore⟩ := thread.step_change cfg s now answer
      refine hchange.lift fun t => ?_
      have hget : (thread.step cfg s now answer).1.threads[i]? = some thread := by
        rw [hthreads, List.getElem?_append_left (List.getElem?_eq_some_iff.mp hthread).1, hthread]
      have hset := count_flatMap_set Thread.held hget (thread.step cfg s now answer).2 t
      rw [hthreads, List.flatMap_append, hmore, List.append_nil] at hset
      simp only [State.held, State.heldWith, List.count_append]
      rw [hthreads]
      omega

end Change

/-! ## What the slots are for -/

section Accounts

variable {cfg : Config}

/-- The counters count the slots that are held, which are within the bounds, and no slot is lost or
released twice. -/
structure State.Sound (cfg : Config) (s : State) : Prop where
  batches : s.activeBatches = s.held.length
  targets : Tallies s.activeTargets (s.held.map Ticket.targetId)
  le : s.held.length ≤ cfg.maxInFlight
  capped : ∀ k, (s.held.map Ticket.targetId).count k ≤ cfg.perTargetInFlight
  numbers : ∀ n, ((s.held ++ s.released).map Ticket.number).count n =
    if n < s.reserved then 1 else 0

theorem State.sound_init : State.init.Sound cfg where
  batches := rfl
  targets := tallies_empty
  le := Nat.zero_le _
  capped _ := Nat.zero_le _
  numbers _ := rfl

/-- What happens to the slots keeps them sound. -/
theorem State.Sound.change {s s' : State} (hs : s.Sound cfg)
    (h : Change cfg s s' s.held s'.held) : s'.Sound cfg := by
  cases h with
  | passes hheld hbatches htargets hreserved hreleased =>
    have hperm : s'.held.Perm s.held := List.perm_iff_count.mpr hheld
    refine ⟨?_, ?_, ?_, fun k => ?_, fun n => ?_⟩
    · rw [hbatches, hs.batches, hperm.length_eq]
    · rw [htargets]
      exact hs.targets.congr fun k => (hperm.map _).count_eq k
    · rw [hperm.length_eq]
      exact hs.le
    · rw [(hperm.map _).count_eq]
      exact hs.capped k
    · rw [hreleased, hreserved, ((hperm.append_right _).map _).count_eq]
      exact hs.numbers n
  | reserves targetId hfree hcap hheld hbatches htargets hreserved hreleased =>
    have hperm : s'.held.Perm (⟨s.reserved, targetId⟩ :: s.held) := List.perm_iff_count.mpr hheld
    refine ⟨?_, ?_, ?_, fun k => ?_, fun n => ?_⟩
    · rw [hbatches, hs.batches, hperm.length_eq, List.length_cons]
      push_cast
      rfl
    · rw [htargets]
      exact (hs.targets.cons targetId).congr fun k => (hperm.map _).count_eq k
    · -- There was a slot left.
      rw [hperm.length_eq, List.length_cons]
      rw [hs.batches] at hfree
      exact_mod_cast hfree
    · rw [(hperm.map _).count_eq, List.map_cons, List.count_cons]
      rw [hs.targets.countOf] at hcap
      have hk := hs.capped k
      by_cases hsame : targetId = k
      · subst hsame
        simp only [beq_self_eq_true, if_true]
        exact hcap
      · simpa [hsame] using hk
    · have hn := hs.numbers n
      rw [hreleased, hreserved, ((hperm.append_right _).map _).count_eq, List.cons_append,
        List.map_cons, List.count_cons, hn]
      by_cases hnew : s.reserved = n
      · subst hnew
        simp
      · have hlt : n < s.reserved + 1 ↔ n < s.reserved := by omega
        simp [hnew, hlt]
  | releases ticket hheld hbatches htargets hreserved hreleased =>
    have hperm : s.held.Perm (ticket :: s'.held) := List.perm_iff_count.mpr hheld
    refine ⟨?_, ?_, ?_, fun k => ?_, fun n => ?_⟩
    · rw [hbatches, hs.batches, hperm.length_eq, List.length_cons]
      push_cast
      omega
    · rw [htargets]
      exact hs.targets.erase fun k => (hperm.map _).count_eq k
    · have hle := hs.le
      rw [hperm.length_eq, List.length_cons] at hle
      omega
    · have hk := hs.capped k
      rw [(hperm.map _).count_eq, List.map_cons, List.count_cons] at hk
      omega
    · -- The slot is among the released ones now.
      have hn := hs.numbers n
      rw [((hperm.append_right _).map _).count_eq] at hn
      rw [hreleased, hreserved, ← hn]
      simp only [List.map_append, List.map_cons, List.count_append, List.count_cons, List.cons_append,
        List.map_nil, List.count_nil]
      omega

/-- Whatever a run does keeps the slots sound. -/
theorem State.Sound.run {s : State} (hs : s.Sound cfg) (steps : List Step) :
    (s.run cfg steps).Sound cfg := by
  induction steps generalizing s with
  | nil => exact hs
  | cons x steps ih => exact ih (hs.change (State.step_change cfg s x))

/-- The slots are accounted for: the number of active batches is the sum over the targets, and for
each target the number of slots that are held for it; both are within their bounds; an entry that is
to be put into the queue finds room; and of the slots that were reserved so far, each is either held
once or was released once. -/
structure State.Accounted (cfg : Config) (s : State) : Prop where
  sum : s.activeBatches = ((s.activeTargets.rows.map Prod.snd).sum : ℕ)
  active : ∀ targetId, s.activeTargets.countOf targetId =
    s.held.countP fun ticket => ticket.targetId = targetId
  nonneg : 0 ≤ s.activeBatches
  le : s.activeBatches ≤ cfg.maxInFlight
  capped : ∀ targetId, s.activeTargets.countOf targetId ≤ cfg.perTargetInFlight
  room : ∀ work rest, Thread.scheduler (.decides work rest) ∈ s.threads →
    (s.putNowait cfg work).isSome
  once : ∀ n, ((s.held ++ s.released).map Ticket.number).count n = if n < s.reserved then 1 else 0

theorem State.Sound.accounted {s : State} (hs : s.Sound cfg) : s.Accounted cfg where
  sum := by rw [hs.batches, hs.targets.sum_eq, List.length_map]
  active targetId := by
    rw [hs.targets.countOf, List.count_eq_countP, List.countP_map]
    exact List.countP_congr fun ticket _ => by simp
  nonneg := by
    rw [hs.batches]
    exact Int.natCast_nonneg _
  le := by
    rw [hs.batches]
    exact_mod_cast hs.le
  capped targetId := by
    rw [hs.targets.countOf]
    exact hs.capped targetId
  room work rest hmem := by
    -- The scheduler holds a slot that no entry of the queue has.
    have hone : 1 ≤ (s.threads.flatMap Thread.held).length :=
      List.length_pos_of_mem (List.mem_flatMap.mpr ⟨_, hmem, List.mem_singleton_self work.ticket⟩)
    have hle := hs.le
    rw [State.held, List.length_append, List.length_map] at hle
    rw [State.putNowait, if_pos (by omega)]
    rfl
  once := hs.numbers

end Accounts

/-! ## Slots come back -/

section Progress

variable {cfg : Config}

/-- How far the slot of the scheduler is from its release. -/
def SchedulerAt.todo : SchedulerAt → ℕ
  | .idles | .visits _ _ => 0
  | .claims _ _ _ _ => 6
  | .decides _ _ => 5
  | .defers _ _ => 2
  | .releases _ _ _ | .unwinds _ _ => 1

/-- How far the slot of an entry that was taken is from its release. -/
def ConsumerAt.todo : ConsumerAt → ℕ
  | .fetches => 0
  | .tests _ => 3
  | .calls _ _ => 2
  | .finishes _ _ => 1

/-- How far the slot of a thread is from its release. -/
def Thread.todo : Thread → ℕ
  | .scheduler pos => pos.todo
  | .worker pos | .stopper pos => pos.todo
  | .starter _ | .ended => 0

@[simp] theorem Thread.todo_ended : Thread.ended.todo = 0 := rfl

/-- How far the slots of the queue and of some threads are from their release. -/
def State.todoWith (s : State) (threads : List Thread) : ℕ :=
  4 * s.workQueue.length + (threads.map Thread.todo).sum

/-- How far the slots are from their release. -/
def State.todo (s : State) : ℕ := s.todoWith s.threads

/-- A worker, or a caller of `stop`, that has taken an entry. -/
theorem ConsumerAt.step_todo (thread : ConsumerAt → Thread) (waits : Bool) {pos : ConsumerAt}
    (hthread : ∀ pos, (thread pos).todo = pos.todo) (s : State)
    (answer : CallEnd (List SyncDelivery)) (h : pos.held ≠ []) :
    (pos.step thread waits s answer).1.todoWith [(pos.step thread waits s answer).2] <
        s.todoWith [thread pos] ∧
      (pos.step thread waits s answer).1.threads = s.threads ∧
      (pos.step thread waits s answer).1.reserved = s.reserved := by
  cases pos with
  | fetches => exact absurd rfl h
  | tests work => simp [ConsumerAt.step, State.todoWith, hthread, ConsumerAt.todo]
  | calls work deferred =>
    simp only [ConsumerAt.step]
    split <;> simp [State.todoWith, hthread, ConsumerAt.todo]
  | finishes ticket dies =>
    cases dies <;> simp [ConsumerAt.step, State.releaseTarget, State.todoWith, hthread,
      ConsumerAt.todo]

variable (cfg)

/-- A thread that holds a slot brings it nearer to its release, whatever it is answered, and
reserves no other. -/
theorem Thread.step_todo (s : State) (now : Instant) (answer : CallEnd (List SyncDelivery))
    {thread : Thread} (h : thread.held ≠ []) :
    (thread.step cfg s now answer).1.todoWith [(thread.step cfg s now answer).2] <
        s.todoWith [thread] ∧
      (thread.step cfg s now answer).1.threads = s.threads ∧
      (thread.step cfg s now answer).1.reserved = s.reserved := by
  cases thread with
  | scheduler pos =>
    simp only [Thread.step]
    cases pos with
    | idles => exact absurd rfl h
    | visits rest now => exact absurd rfl h
    | claims ticket targetUrl rest now =>
      simp only [SchedulerAt.step]
      split <;> simp [State.todoWith, Thread.todo, SchedulerAt.todo]
    | decides work rest =>
      simp only [SchedulerAt.step, State.putNowait]
      split_ifs
      · simp [State.todoWith, Thread.todo, SchedulerAt.todo]
      · simp [State.todoWith, Thread.todo, SchedulerAt.todo]
        omega
      · simp [State.todoWith, Thread.todo, SchedulerAt.todo]
    | defers work rest =>
      simp only [SchedulerAt.step]
      split <;> simp [State.todoWith, Thread.todo, SchedulerAt.todo]
    | releases ticket rest now =>
      simp [SchedulerAt.step, State.releaseTarget, State.todoWith, Thread.todo, SchedulerAt.todo]
    | unwinds ticket dies =>
      cases dies <;> simp [SchedulerAt.step, State.releaseTarget, State.todoWith, Thread.todo,
        SchedulerAt.todo]
  | worker pos => exact ConsumerAt.step_todo .worker true (fun _ => rfl) s answer h
  | stopper pos => exact ConsumerAt.step_todo .stopper false (fun _ => rfl) s answer h
  | starter left => exact absurd rfl h
  | ended => exact absurd rfl h

/-- Where a slot is held, some steps bring it nearer to its release, and reserve no other. -/
theorem State.exists_less_todo {s : State} (h : s.held ≠ []) :
    ∃ steps, (s.run cfg steps).todo < s.todo ∧ (s.run cfg steps).reserved = s.reserved := by
  cases hqueue : s.workQueue with
  | nil =>
    -- The slot is with a thread, which goes on.
    rw [State.held, hqueue, List.map_nil, List.nil_append, Ne, List.flatMap_eq_nil_iff] at h
    push Not at h
    obtain ⟨thread, hmem, hheld⟩ := h
    obtain ⟨i, hi, hthread⟩ := List.mem_iff_getElem.mp hmem
    have hget : s.threads[i]? = some thread := List.getElem?_eq_some_iff.mpr ⟨hi, hthread⟩
    obtain ⟨hless, hthreads, hreserved⟩ := Thread.step_todo cfg s 0 .raises hheld
    refine ⟨[.go i 0 .raises], ?_, ?_⟩
    · have hsum := sum_map_set Thread.todo hget (thread.step cfg s 0 .raises).2
      change (s.step cfg (.go i 0 .raises)).todo < s.todo
      rw [State.step_go hget]
      simp only [State.todo, State.todoWith, List.map_cons, List.map_nil, List.sum_cons,
        List.sum_nil, hthreads] at hless ⊢
      omega
    · change (s.step cfg (.go i 0 .raises)).reserved = s.reserved
      rw [State.step_go hget]
      exact hreserved
  | cons work rest =>
    -- A call of `stop` takes the entry.
    have hget : (s.step cfg .stop).threads[s.threads.length]? = some (.stopper .fetches) := by
      simp [State.step]
    have hstep : (s.run cfg [.stop, .go s.threads.length 0 .raises]) =
        { s.step cfg .stop with
          workQueue := rest
          threads := (s.step cfg .stop).threads.set s.threads.length (.stopper (.tests work)) } := by
      change (s.step cfg .stop).step cfg (.go s.threads.length 0 .raises) = _
      rw [State.step_go hget]
      simp [Thread.step, ConsumerAt.step, State.step, hqueue]
    refine ⟨[.stop, .go s.threads.length 0 .raises], ?_, ?_⟩
    · rw [hstep]
      have hsum := sum_map_set Thread.todo hget (.stopper (.tests work))
      simp only [State.step, List.map_append, List.sum_append, List.map_cons, List.map_nil,
        List.sum_cons, List.sum_nil, Thread.todo, ConsumerAt.todo] at hsum
      simp only [State.todo, State.todoWith, State.step, hqueue, List.length_cons]
      omega
    · rw [hstep]
      rfl

/-- From any state all slots can come back before another is reserved. -/
theorem State.exists_run_held_nil (s : State) :
    ∃ steps, (s.run cfg steps).held = [] ∧ (s.run cfg steps).reserved = s.reserved := by
  induction hn : s.todo using Nat.strong_induction_on generalizing s with
  | _ n ih =>
    by_cases h : s.held = []
    · exact ⟨[], h, rfl⟩
    · obtain ⟨steps, hless, hreserved⟩ := State.exists_less_todo cfg h
      obtain ⟨more, hheld, hmore⟩ := ih _ (hn ▸ hless) (s.run cfg steps) rfl
      refine ⟨steps ++ more, ?_, ?_⟩
      · rw [State.run, List.foldl_append]
        exact hheld
      · rw [State.run, List.foldl_append]
        exact hmore.trans hreserved

end Progress

/-- The slots are accounted for after every run of the threads of a dispatcher, and there are steps
after which all that were reserved in it have been released, once each. -/
theorem slots_accounted (cfg : Config) (steps : List Step) :
    (State.init.run cfg steps).Accounted cfg ∧
      ∃ more, (∀ n, (((State.init.run cfg (steps ++ more)).released.map Ticket.number).count n =
        if n < (State.init.run cfg steps).reserved then 1 else 0)) := by
  have hsound : ∀ steps, (State.init.run cfg steps).Sound cfg :=
    State.sound_init.run
  refine ⟨(hsound steps).accounted, ?_⟩
  obtain ⟨more, hheld, hreserved⟩ := (State.init.run cfg steps).exists_run_held_nil cfg
  have hrun : State.init.run cfg (steps ++ more) = (State.init.run cfg steps).run cfg more := by
    rw [State.run, List.foldl_append]
    rfl
  refine ⟨more, fun n => ?_⟩
  have hn := (hsound (steps ++ more)).numbers n
  rw [hrun, hheld, List.nil_append, hreserved] at hn
  rw [hrun]
  exact hn

end SyncDispatcher

end Memplex
