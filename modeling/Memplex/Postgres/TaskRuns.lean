import Memplex.Postgres.TaskCalls

/-!
# Runs of two task repositories

`Agree` is kept by every call that is `Alike`: the store and the table hold the same tasks, and
every task of the store is `Sound`, so that a claim finds it due in both. A call is carried from one
repository to the other method by method; the two ways of claiming several tasks leave every task
that they claim with its lease, in whatever order they go about it.
-/

namespace Memplex

open Lib

/-! ## Tasks without their times of creation -/

namespace TaskInfo

/-- Tasks that are the same differ in the time at which they were created. -/
theorem timeless_eq {a b : TaskInfo} (h : a.timeless = b.timeless) :
    b = { a with createdAt := b.createdAt } := by
  cases a
  cases b
  simp only [timeless, mk.injEq] at h ⊢
  obtain ⟨h1, h2, h3, -, h5, h6, h7, h8, h9, h10, h11, h12, h13, h14⟩ := h
  exact ⟨h1.symm, h2.symm, h3.symm, trivial, h5.symm, h6.symm, h7.symm, h8.symm, h9.symm, h10.symm,
    h11.symm, h12.symm, h13.symm, h14.symm⟩

/-- A task that both repositories treat alike. -/
structure Sound (info : TaskInfo) : Prop where
  storable : info.Storable
  pending : info.status = .pending → ∃ t, info.nextAttemptAt = some t
  running : info.status = .running → (∃ t, info.leaseUntil = some t) ∧ info.nextAttemptAt = none
  failed : info.status = .failed → info.result = .null

variable {info : TaskInfo}

/-- A sound task is due in both repositories or in none. -/
theorem Sound.due (h : info.Sound) (now : Instant) : PostgresTasks.due now info = info.due now := by
  unfold PostgresTasks.due TaskInfo.due
  cases hstatus : info.status with
  | pending =>
    obtain ⟨t, ht⟩ := h.pending hstatus
    simp [ht]
  | running =>
    obtain ⟨⟨t, ht⟩, hnext⟩ := h.running hstatus
    simp [ht, hnext]
  | completed => simp
  | failed => simp
  | cancelled => simp

theorem Sound.leased (h : info.Sound) (leaseId : String) (leaseUntil : Instant) :
    (info.leased leaseId leaseUntil).Sound where
  storable := h.storable
  pending := fun hstatus => by cases hstatus
  running := fun _ => ⟨⟨leaseUntil, rfl⟩, rfl⟩
  failed := fun hstatus => by cases hstatus

theorem Sound.completed (h : info.Sound) {result : Value} (hresult : isJsonValue result = true)
    (now : Instant) : (info.completed result now).Sound where
  storable := ⟨h.storable.1, h.storable.2.1, h.storable.2.2.1, h.storable.2.2.2.1, hresult⟩
  pending := fun hstatus => by cases hstatus
  running := fun hstatus => by cases hstatus
  failed := fun hstatus => by cases hstatus

theorem Sound.cancelled (h : info.Sound) : info.cancelled.Sound where
  storable := h.storable
  pending := fun hstatus => by cases hstatus
  running := fun hstatus => by cases hstatus
  failed := fun hstatus => by cases hstatus

theorem Sound.replayed (h : info.Sound) (now : Instant) : (info.replayed now).Sound where
  storable := ⟨h.storable.1, le_rfl, h.storable.2.2⟩
  pending := fun _ => ⟨now, rfl⟩
  running := fun hstatus => by cases hstatus
  failed := fun hstatus => by cases hstatus

theorem Sound.attemptFailed (h : info.Sound) (errorCode : String) (delay : ℤ) (now : Instant) :
    (info.attemptFailed errorCode delay now).Sound := by
  have hcount : 0 ≤ info.retryCount + 1 := by
    have := h.storable.2.1
    omega
  have hstorable : (info.charged errorCode).Storable :=
    ⟨h.storable.1, hcount, h.storable.2.2.1, h.storable.2.2.2.1, rfl⟩
  unfold TaskInfo.attemptFailed
  split_ifs
  · exact { storable := hstorable
            pending := fun _ => ⟨_, rfl⟩
            running := fun hstatus => by cases hstatus
            failed := fun hstatus => by cases hstatus }
  · exact { storable := hstorable
            pending := fun hstatus => by cases hstatus
            running := fun hstatus => by cases hstatus
            failed := fun _ => rfl }

/-- A failed attempt is charged in the same way whenever the task was created. -/
theorem attemptFailed_createdAt (t : Instant) (errorCode : String) (delay : ℤ) (now : Instant) :
    ({ info with createdAt := t } : TaskInfo).attemptFailed errorCode delay now =
      { info.attemptFailed errorCode delay now with createdAt := t } := by
  by_cases hretry : info.retryCount + 1 ≤ info.maxRetries
  · have hinfo : info.attemptFailed errorCode delay now = { info.charged errorCode with
        status := .pending, nextAttemptAt := some (now + delay * second) } := if_pos hretry
    rw [hinfo]
    exact if_pos hretry
  · have hinfo : info.attemptFailed errorCode delay now = { info.charged errorCode with
        status := .failed, nextAttemptAt := none } := if_neg hretry
    rw [hinfo]
    exact if_neg hretry

end TaskInfo

/-! ## Agreement -/

/-- The store and the table hold the same tasks, and these are sound. -/
structure Agree (store table : Tasks) : Prop where
  same : SameTasks store table
  sound : ∀ info ∈ store.rows, info.Sound

namespace Agree

variable {store table : Tasks} {taskId : String} {info : TaskInfo}

theorem get?_none (h : Agree store table) (hget : store.get? taskId = none) :
    table.get? taskId = none := by
  have hsame := h.same taskId
  rw [hget] at hsame
  exact Option.map_eq_none_iff.mp hsame.symm

theorem get?_some (h : Agree store table) (hget : store.get? taskId = some info) :
    ∃ t, table.get? taskId = some { info with createdAt := t } := by
  have hsame := h.same taskId
  rw [hget] at hsame
  obtain ⟨row, hrow, heq⟩ := Option.map_eq_some_iff.mp hsame.symm
  exact ⟨row.createdAt, by rw [hrow, ← TaskInfo.timeless_eq heq.symm]⟩

theorem sound_get? (h : Agree store table) (hget : store.get? taskId = some info) : info.Sound :=
  h.sound info (Table.mem_of_get? hget)

/-- A task of the table is one of the store. -/
theorem get?_table (h : Agree store table) {row : TaskInfo} (hrow : table.get? taskId = some row) :
    ∃ info, store.get? taskId = some info ∧ row = { info with createdAt := row.createdAt } := by
  have hsame := h.same taskId
  rw [hrow] at hsame
  obtain ⟨info, hget, heq⟩ := Option.map_eq_some_iff.mp hsame
  exact ⟨info, hget, TaskInfo.timeless_eq heq⟩

/-- The same tasks are open in both. -/
theorem activeCount_eq (h : Agree store table) : store.activeCount = table.activeCount := by
  have hopen : ∀ n, store.activeCount ≤ n ↔ table.activeCount ≤ n := by
    intro n
    rw [← Tasks.openAtMost_iff, ← Tasks.openAtMost_iff]
    constructor
    · rintro ⟨F, hF, hcard⟩
      refine ⟨F, fun k row hrow hactive => ?_, hcard⟩
      obtain ⟨info, hget, heq⟩ := h.get?_table hrow
      rw [heq] at hactive
      exact hF k info hget hactive
    · rintro ⟨F, hF, hcard⟩
      refine ⟨F, fun k info hget hactive => ?_, hcard⟩
      obtain ⟨t, hrow⟩ := h.get?_some hget
      exact hF k _ hrow hactive
  exact le_antisymm ((hopen _).mpr le_rfl) ((hopen _).mp le_rfl)

/-- One task is written in both. -/
theorem set (h : Agree store table) {a : TaskInfo} (hsound : a.Sound) (t : Instant) :
    Agree (store.set a) (table.set { a with createdAt := t }) where
  same := fun k => by
    rw [Table.get?_set, Table.get?_set]
    change _ = Option.map _ (if a.taskId = k then _ else _)
    split_ifs
    · rfl
    · exact h.same k
  sound := fun info hinfo => by
    rcases mem_upsertRow.mp hinfo with rfl | ⟨hinfo, -⟩
    · exact hsound
    · exact h.sound info hinfo

/-- Sound tasks can be saved. -/
theorem saveCandidate (h : Agree store table) {a : TaskInfo} (hsound : a.Sound) :
    TaskStore.saveCandidate (store.set a) = .ok (store.set a) := by
  have hall : ∀ info ∈ Table.rows (store.set a), info.Storable := fun info hinfo => by
    rcases mem_upsertRow.mp hinfo with rfl | ⟨hinfo, -⟩
    · exact hsound.storable
    · exact (h.sound info hinfo).storable
  exact Except.bind_ok.mpr ⟨(), require_ok.mpr hall, rfl⟩

end Agree

/-- A call is answered in the same way in both repositories, and leaves them in agreement. -/
def Carries (D : TaskTypes) (store table : Tasks) (c : TimedCall) : Prop :=
  SameAnswer (TaskStore.call store c) (PostgresTasks.call D table c) ∧
    Agree (tasksAfter store (TaskStore.call store c))
      (tasksAfter table (PostgresTasks.call D table c))

variable {D : TaskTypes} {store table : Tasks} {c : TimedCall}

/-- Both raise. -/
theorem Carries.raises (h : Agree store table) (hstore : ∀ r, TaskStore.call store c ≠ .ok r)
    (htable : ∀ r, PostgresTasks.call D table c ≠ .ok r) : Carries D store table c := by
  unfold Carries
  cases hs : TaskStore.call store c with
  | ok r => exact absurd hs (hstore r)
  | error e =>
    cases ht : PostgresTasks.call D table c with
    | ok r => exact absurd ht (htable r)
    | error e' => exact ⟨trivial, h⟩

/-- Both return. -/
theorem Carries.returns {r r' : CallResult} {store' table' : Tasks}
    (h : Agree store' table') (hstore : TaskStore.call store c = .ok (r, store'))
    (htable : PostgresTasks.call D table c = .ok (r', table')) (hsame : r.Same r') :
    Carries D store table c := by
  rw [Carries, hstore, htable]
  exact ⟨⟨hsame, h.same⟩, h⟩

/-! ## The methods -/

variable {taskId : String} {now : Instant} {gen : String → String}

/-- A condition that is met is passed over. -/
theorem require_bind {p : Prop} [Decidable p] {e : PyError} {β : Type} (h : p)
    (f : Unit → Except PyError β) : (require p e >>= f) = f () := by
  rw [require, if_pos h]
  rfl

theorem carries_claim (h : Agree store table) {leaseSeconds : ℤ}
    (hc : Alike D store table ⟨.claim taskId leaseSeconds, now, gen⟩) :
    Carries D store table ⟨.claim taskId leaseSeconds, now, gen⟩ := by
  by_cases hpos : 0 < leaseSeconds
  · obtain ⟨hid, htext⟩ := hc.resolve_left (not_le.mpr hpos)
    cases hget : store.get? taskId with
    | none =>
      have hstore : TaskStore.claim store taskId now (gen taskId) leaseSeconds =
          .ok (none, store) := by
        rw [TaskStore.claim, require_bind hpos, hget]
      have htable : PostgresTasks.claimCall table taskId leaseSeconds now (gen taskId) =
          .ok (none, table) := by
        rw [PostgresTasks.claimCall, PostgresTasks.requireTaskId, PostgresTasks.requirePositive,
          require_bind hid, require_bind hpos, require_bind htext, h.get?_none hget]
        rfl
      exact .returns h (congrArg (Except.map _) hstore) (congrArg (Except.map _) htable) rfl
    | some info =>
      obtain ⟨t, hrow⟩ := h.get?_some hget
      have hsound := h.sound_get? hget
      have hdue : PostgresTasks.due now { info with createdAt := t } = info.due now :=
        hsound.due now
      cases hnow : info.due now with
      | false =>
        have hstore : TaskStore.claim store taskId now (gen taskId) leaseSeconds =
            .ok (none, store) := by
          rw [TaskStore.claim, require_bind hpos, hget]
          simp only [hnow]
          rfl
        have htable : PostgresTasks.claimCall table taskId leaseSeconds now (gen taskId) =
            .ok (none, table) := by
          rw [PostgresTasks.claimCall, PostgresTasks.requireTaskId, PostgresTasks.requirePositive,
            require_bind hid, require_bind hpos, require_bind htext, hrow, Option.any_some, hdue,
            hnow]
          rfl
        exact .returns h (congrArg (Except.map _) hstore) (congrArg (Except.map _) htable) rfl
      | true =>
        have hleased := hsound.leased (gen taskId) (now + leaseSeconds * second)
        have hstore : TaskStore.claim store taskId now (gen taskId) leaseSeconds =
            .ok (some (info.leased (gen taskId) (now + leaseSeconds * second)),
              store.set (info.leased (gen taskId) (now + leaseSeconds * second))) := by
          rw [TaskStore.claim, require_bind hpos, hget]
          simp only [hnow, h.saveCandidate hleased]
          rfl
        have htable : PostgresTasks.claimCall table taskId leaseSeconds now (gen taskId) =
            .ok (some { info.leased (gen taskId) (now + leaseSeconds * second) with
                createdAt := t },
              table.set { info.leased (gen taskId) (now + leaseSeconds * second) with
                createdAt := t }) := by
          rw [PostgresTasks.claimCall, PostgresTasks.requireTaskId, PostgresTasks.requirePositive,
            require_bind hid, require_bind hpos, require_bind htext, hrow, Option.any_some, hdue,
            hnow, if_pos rfl, PostgresTasks.claimLocked, hrow]
          rfl
        exact .returns (h.set hleased t) (congrArg (Except.map _) hstore)
          (congrArg (Except.map _) htable) rfl
  · refine .raises h (fun r hr => ?_) fun r hr => ?_
    · obtain ⟨_, hr, -⟩ := Except.map_ok hr
      obtain ⟨_, hrequire, -⟩ := Except.bind_ok.mp hr
      exact hpos (require_ok.mp hrequire)
    · obtain ⟨_, hr, -⟩ := Except.map_ok hr
      obtain ⟨_, -, hr⟩ := Except.bind_ok.mp hr
      obtain ⟨_, hrequire, -⟩ := Except.bind_ok.mp hr
      exact hpos (require_ok.mp hrequire)

theorem carries_cancelPending (h : Agree store table)
    (hc : Alike D store table ⟨.cancelPending taskId, now, gen⟩) :
    Carries D store table ⟨.cancelPending taskId, now, gen⟩ := by
  obtain ⟨hid, htext⟩ := hc
  have htable : PostgresTasks.cancelPendingCall table taskId =
      .ok ((PostgresTasks.cancelPending table taskId).isSome,
        PostgresTasks.write table (PostgresTasks.cancelPending table taskId)) := by
    rw [PostgresTasks.cancelPendingCall, PostgresTasks.requireTaskId, require_bind hid,
      require_bind htext]
  cases hget : store.get? taskId with
  | none =>
    have hstore : TaskStore.cancelPending store taskId = .ok (false, store) := by
      rw [TaskStore.cancelPending, hget]
    have hnone : PostgresTasks.cancelPending table taskId = none := by
      rw [PostgresTasks.cancelPending, h.get?_none hget]
      rfl
    rw [hnone] at htable
    exact .returns h (congrArg (Except.map _) hstore) (congrArg (Except.map _) htable) rfl
  | some info =>
    obtain ⟨t, hrow⟩ := h.get?_some hget
    by_cases hpending : info.status = .pending
    · have hcancelled := (h.sound_get? hget).cancelled
      have hstore : TaskStore.cancelPending store taskId =
          .ok (true, store.set info.cancelled) := by
        rw [TaskStore.cancelPending, hget]
        simp only [hpending, if_true, h.saveCandidate hcancelled]
        rfl
      have hsome : PostgresTasks.cancelPending table taskId =
          some { info.cancelled with createdAt := t } := by
        rw [PostgresTasks.cancelPending, hrow]
        exact if_pos hpending
      rw [hsome] at htable
      exact .returns (h.set hcancelled t) (congrArg (Except.map _) hstore)
        (congrArg (Except.map _) htable) rfl
    · have hstore : TaskStore.cancelPending store taskId = .ok (false, store) := by
        rw [TaskStore.cancelPending, hget]
        exact if_neg hpending
      have hnone : PostgresTasks.cancelPending table taskId = none := by
        rw [PostgresTasks.cancelPending, hrow]
        exact if_neg hpending
      rw [hnone] at htable
      exact .returns h (congrArg (Except.map _) hstore) (congrArg (Except.map _) htable) rfl

/-- What the database leaves of a failed task is what the store does. -/
theorem replayed_createdAt {info : TaskInfo} (h : info.Sound) (hfailed : info.status = .failed)
    (t : Instant) : PostgresTasks.replayed { info with createdAt := t } now =
      { info.replayed now with createdAt := t } := by
  have hresult := h.failed hfailed
  rw [PostgresTasks.replayed, ← hresult]
  rfl

theorem carries_replayFailedAtomic (h : Agree store table) {capacity : ℤ}
    (hc : Alike D store table ⟨.replayFailedAtomic taskId capacity, now, gen⟩) :
    Carries D store table ⟨.replayFailedAtomic taskId capacity, now, gen⟩ := by
  by_cases hpos : 0 < capacity
  · obtain ⟨hid, htext⟩ := hc.resolve_left (not_le.mpr hpos)
    cases hget : store.get? taskId with
    | none =>
      have hstore : TaskStore.replayFailedAtomic store taskId capacity now = .ok (none, store) := by
        rw [TaskStore.replayFailedAtomic, require_bind hpos, hget]
      have htable : PostgresTasks.replayFailedAtomicCall table taskId capacity now =
          .ok (none, table) := by
        rw [PostgresTasks.replayFailedAtomicCall, PostgresTasks.requireTaskId,
          PostgresTasks.requirePositive, require_bind hid, require_bind hpos, require_bind htext,
          h.get?_none hget]
      exact .returns h (congrArg (Except.map _) hstore) (congrArg (Except.map _) htable) rfl
    | some info =>
      obtain ⟨t, hrow⟩ := h.get?_some hget
      by_cases hfailed : info.status = .failed
      · by_cases hroom : (store.activeCount : ℤ) < capacity
        · have hreplayed := (h.sound_get? hget).replayed now
          have hstore : TaskStore.replayFailedAtomic store taskId capacity now =
              .ok (some (info.replayed now), store.set (info.replayed now)) := by
            rw [TaskStore.replayFailedAtomic, require_bind hpos, hget]
            simp only [hfailed, if_true, require_bind hroom, h.saveCandidate hreplayed]
            rfl
          have htable : PostgresTasks.replayFailedAtomicCall table taskId capacity now =
              .ok (some { info.replayed now with createdAt := t },
                table.set { info.replayed now with createdAt := t }) := by
            rw [PostgresTasks.replayFailedAtomicCall, PostgresTasks.requireTaskId,
              PostgresTasks.requirePositive, require_bind hid, require_bind hpos,
              require_bind htext, hrow]
            simp only [hfailed, if_true]
            rw [require_bind (h.activeCount_eq ▸ hroom),
              ← replayed_createdAt (h.sound_get? hget) hfailed, ← hfailed]
          exact .returns (h.set hreplayed t) (congrArg (Except.map _) hstore)
            (congrArg (Except.map _) htable) rfl
        · refine .raises h (fun r hr => ?_) fun r hr => ?_
          · obtain ⟨_, hr, -⟩ := Except.map_ok hr
            rw [TaskStore.replayFailedAtomic, require_bind hpos, hget] at hr
            simp only [hfailed, if_true] at hr
            obtain ⟨_, hrequire, -⟩ := Except.bind_ok.mp hr
            exact hroom (require_ok.mp hrequire)
          · obtain ⟨_, hr, -⟩ := Except.map_ok hr
            rw [PostgresTasks.replayFailedAtomicCall, PostgresTasks.requireTaskId,
              PostgresTasks.requirePositive, require_bind hid, require_bind hpos,
              require_bind htext, hrow] at hr
            simp only [hfailed, if_true] at hr
            obtain ⟨_, hrequire, -⟩ := Except.bind_ok.mp hr
            exact hroom (h.activeCount_eq ▸ require_ok.mp hrequire)
      · have hstore : TaskStore.replayFailedAtomic store taskId capacity now =
            .ok (none, store) := by
          rw [TaskStore.replayFailedAtomic, require_bind hpos, hget]
          exact if_neg hfailed
        have htable : PostgresTasks.replayFailedAtomicCall table taskId capacity now =
            .ok (none, table) := by
          rw [PostgresTasks.replayFailedAtomicCall, PostgresTasks.requireTaskId,
            PostgresTasks.requirePositive, require_bind hid, require_bind hpos, require_bind htext,
            hrow]
          exact if_neg hfailed
        exact .returns h (congrArg (Except.map _) hstore) (congrArg (Except.map _) htable) rfl
  · refine .raises h (fun r hr => ?_) fun r hr => ?_
    · obtain ⟨_, hr, -⟩ := Except.map_ok hr
      obtain ⟨_, hrequire, -⟩ := Except.bind_ok.mp hr
      exact hpos (require_ok.mp hrequire)
    · obtain ⟨_, hr, -⟩ := Except.map_ok hr
      obtain ⟨_, -, hr⟩ := Except.bind_ok.mp hr
      obtain ⟨_, hrequire, -⟩ := Except.bind_ok.mp hr
      exact hpos (require_ok.mp hrequire)

/-- A task as it is submitted is what the database inserts. -/
theorem Submitted.inserted_eq {info : TaskInfo} (hsub : Submitted D now info) {payload : Members}
    (hpayload : info.payload = some payload) :
    PostgresTasks.inserted { info with payload := some payload } now =
      { info with createdAt := now } := by
  obtain ⟨hstatus, -, -, -, hnext, hcount, hcompleted, hresult, herror, huntil, hlease, hcode⟩ :=
    hsub
  cases info
  simp only at hstatus hnext hcount hcompleted hresult herror huntil hlease hcode hpayload
  subst hstatus hnext hcount hcompleted hresult herror huntil hlease hcode hpayload
  rfl

theorem Submitted.sound {info : TaskInfo} (hsub : Submitted D now info) : info.Sound where
  storable := by
    obtain ⟨payload, hpayload, hjson, -⟩ := hsub.payload
    refine ⟨hsub.taskId.1, hsub.retryCount ▸ le_rfl, hsub.maxRetries.1, ?_, hsub.result ▸ rfl⟩
    rw [hpayload]
    exact hjson
  pending := fun _ => ⟨now, hsub.nextAttemptAt⟩
  running := fun hstatus => by rw [hsub.status] at hstatus; cases hstatus
  failed := fun _ => hsub.result

/-- A task that both refuse is not admitted. -/
theorem Refused.not_ok (h : Agree store table) {info : TaskInfo} {capacity : ℤ}
    (hrefused : Refused store info capacity) :
    (∀ r, TaskStore.admitPending store info capacity ≠ .ok r) ∧
      ∀ r, PostgresTasks.admitPendingCall D table info capacity now ≠ .ok r := by
  constructor
  · intro r hr
    obtain ⟨hnew, hroom, -, hid, -, hretries, hjson, -⟩ := TaskStore.admitPending_ok hr
    obtain ⟨_, hcapacity, -⟩ := Except.bind_ok.mp hr
    have hpos := require_ok.mp hcapacity
    rcases hrefused with h0 | h0 | h0 | h0 | h0 | h0
    · omega
    · omega
    · exact h0 hnew
    · exact hid h0
    · omega
    · rw [hjson] at h0
      exact Bool.noConfusion h0
  · intro r hr
    obtain ⟨_, hcapacity, hr⟩ := Except.bind_ok.mp hr
    obtain ⟨_, -, hr⟩ := Except.bind_ok.mp hr
    obtain ⟨_, hid, hr⟩ := Except.bind_ok.mp hr
    obtain ⟨_, hretries, hr⟩ := Except.bind_ok.mp hr
    obtain ⟨_, hroom, hr⟩ := Except.bind_ok.mp hr
    obtain ⟨_, hpayload, hr⟩ := Except.bind_ok.mp hr
    obtain ⟨_, -, hr⟩ := Except.bind_ok.mp hr
    obtain ⟨_, hnew, -⟩ := Except.bind_ok.mp hr
    obtain ⟨_, hcast, -⟩ := Except.bind_ok.mp hpayload
    obtain ⟨_, hjson, -⟩ := Except.bind_ok.mp hcast
    have hpos := require_ok.mp hcapacity
    have hretries := require_ok.mp hretries
    have hroom := require_ok.mp hroom
    rw [← h.activeCount_eq] at hroom
    rcases hrefused with h0 | h0 | h0 | h0 | h0 | h0
    · omega
    · omega
    · cases hget : store.get? info.taskId with
      | none => exact h0 hget
      | some data =>
        obtain ⟨t, hrow⟩ := h.get?_some hget
        rw [require_ok.mp hnew] at hrow
        cases hrow
    · exact require_ok.mp hid h0
    · omega
    · cases hp : info.payload with
      | none =>
        rw [hp] at h0
        exact Bool.noConfusion h0
      | some payload =>
        rw [hp] at h0 hjson
        have hjson : areJsonMembers payload = true := require_ok.mp hjson
        exact Bool.noConfusion (hjson.symm.trans h0)

theorem carries_admitPending (h : Agree store table) {info : TaskInfo} {capacity : ℤ}
    (hc : Alike D store table ⟨.admitPending info capacity, now, gen⟩) :
    Carries D store table ⟨.admitPending info capacity, now, gen⟩ := by
  by_cases hrefused : Refused store info capacity
  · obtain ⟨hstore, htable⟩ := hrefused.not_ok h
    refine .raises h (fun r hr => ?_) fun r hr => ?_
    · obtain ⟨r', hr', -⟩ := Except.map_ok hr
      exact hstore r' hr'
    · obtain ⟨r', hr', -⟩ := Except.map_ok hr
      exact htable r' hr'
  · have hsub : Submitted D now info := Or.resolve_right hc hrefused
    simp only [Refused, not_or, not_le, Bool.not_eq_false, ne_eq, not_not] at hrefused
    obtain ⟨hpos, hroom, hnew, hid, hretries, -⟩ := hrefused
    obtain ⟨payload, hpayload, hjson, hkept⟩ := hsub.payload
    have hstore : TaskStore.admitPending store info capacity = .ok (info, store.set info) := by
      rw [TaskStore.admitPending, require_bind hpos, require_bind hnew, require_bind hroom,
        h.saveCandidate hsub.sound]
      rfl
    have hcast : PostgresTasks.castPayload D (info.payload.getD []) = .ok payload := by
      have hobj : isJsonValue (.obj payload) = true := hjson
      rw [hpayload, Option.getD_some, PostgresTasks.castPayload, PostgresTasks.castJsonb,
        require_bind hobj]
      simp only [hkept]
      rfl
    have htable : PostgresTasks.admitPendingCall D table info capacity now =
        .ok ({ info with createdAt := now }, table.set { info with createdAt := now }) := by
      rw [PostgresTasks.admitPendingCall, PostgresTasks.requireTaskId,
        PostgresTasks.requirePositive, require_bind hpos, require_bind hsub.status,
        require_bind hid, require_bind (not_lt.mp hretries),
        require_bind (h.activeCount_eq ▸ hroom), hcast]
      change (require _ _ >>= fun _ => require _ _ >>= fun _ => _) = _
      rw [require_bind ⟨hsub.taskId.2, hsub.maxRetries.2⟩, require_bind (h.get?_none hnew),
        hsub.inserted_eq hpayload]
    exact .returns (h.set hsub.sound now) (congrArg (Except.map _) hstore)
      (congrArg (Except.map _) htable) rfl

/-- A lease is on a task in both repositories or in none. -/
theorem complete_row {leaseId : String} {value : Value} (hid : leaseId ≠ "")
    (hjson : isJsonValue value = true) {row : TaskInfo} (hrow : table.get? taskId = some row) :
    PostgresTasks.complete table taskId leaseId (some value) now =
      if TaskStore.leaseMatches row leaseId now = true then some (row.completed value now)
      else none := by
  rw [PostgresTasks.complete, hrow]
  simp [hid, hjson]

theorem carries_complete (h : Agree store table) {leaseId : String} {result : Option Value}
    (hc : Alike D store table ⟨.complete taskId leaseId result, now, gen⟩) :
    Carries D store table ⟨.complete taskId leaseId result, now, gen⟩ := by
  by_cases hid : leaseId = ""
  · refine .raises h (fun r hr => ?_) fun r hr => ?_
    · obtain ⟨_, hr, -⟩ := Except.map_ok hr
      obtain ⟨_, hrequire, -⟩ := Except.bind_ok.mp hr
      exact require_ok.mp hrequire hid
    · obtain ⟨_, hr, -⟩ := Except.map_ok hr
      obtain ⟨_, -, hr⟩ := Except.bind_ok.mp hr
      obtain ⟨_, hrequire, -⟩ := Except.bind_ok.mp hr
      exact require_ok.mp hrequire hid
  obtain ⟨⟨htask, htext⟩, hlease, hvalue⟩ := Or.resolve_left hc hid
  rcases hvalue with ⟨value, rfl, hjson, hkept⟩ | ⟨hbad, info, hget, hmatch⟩
  · have htable : ∀ row, PostgresTasks.complete table taskId leaseId (some value) now = row →
        PostgresTasks.completeCall D table taskId leaseId (some value) now =
          .ok (row, PostgresTasks.write table row) := by
      intro row hrow
      rw [PostgresTasks.completeCall, PostgresTasks.requireTaskId, require_bind htask,
        require_bind hid]
      simp only [PostgresTasks.castJsonb, require_bind hjson, hkept]
      change (require _ _ >>= fun _ => _) = _
      rw [require_bind ⟨htext, hlease⟩, hrow]
    cases hget : store.get? taskId with
    | none =>
      have hstore : TaskStore.complete store taskId leaseId (some value) now =
          .ok (none, store) := by
        rw [TaskStore.complete, require_bind hid, hget]
      have hnone : PostgresTasks.complete table taskId leaseId (some value) now = none := by
        rw [PostgresTasks.complete, h.get?_none hget]
        rfl
      exact .returns h (congrArg (Except.map _) hstore)
        (congrArg (Except.map _) (htable none hnone)) rfl
    | some info =>
      obtain ⟨t, hrow⟩ := h.get?_some hget
      have hcomplete := @complete_row table taskId now leaseId value hid hjson _ hrow
      by_cases hmatch : TaskStore.leaseMatches info leaseId now = true
      · have hcompleted := (h.sound_get? hget).completed hjson now
        have hstore : TaskStore.complete store taskId leaseId (some value) now =
            .ok (some (info.completed value now), store.set (info.completed value now)) := by
          rw [TaskStore.complete, require_bind hid, hget]
          simp only [hmatch, if_true, h.saveCandidate hcompleted]
          rfl
        have hsome : PostgresTasks.complete table taskId leaseId (some value) now =
            some { info.completed value now with createdAt := t } :=
          hcomplete.trans (if_pos hmatch)
        exact .returns (h.set hcompleted t) (congrArg (Except.map _) hstore)
          (congrArg (Except.map _) (htable _ hsome)) rfl
      · have hstore : TaskStore.complete store taskId leaseId (some value) now =
            .ok (none, store) := by
          rw [TaskStore.complete, require_bind hid, hget]
          exact if_neg hmatch
        exact .returns h (congrArg (Except.map _) hstore)
          (congrArg (Except.map _) (htable none (hcomplete.trans (if_neg hmatch)))) rfl
  · -- What is no JSON is saved by neither.
    refine .raises h (fun r hr => ?_) fun r hr => ?_
    · obtain ⟨_, hr, -⟩ := Except.map_ok hr
      rw [TaskStore.complete, require_bind hid, hget] at hr
      simp only [hmatch, if_true] at hr
      cases result with
      | none => cases hr
      | some value =>
        obtain ⟨saved, hsaved, -⟩ := Except.bind_ok.mp hr
        have hstorable := (TaskStore.saveCandidate_ok hsaved).2 (info.completed value now)
          (mem_upsertRow.mpr (.inl rfl))
        exact Bool.noConfusion (hstorable.2.2.2.2.symm.trans (hbad value rfl))
    · obtain ⟨_, hr, -⟩ := Except.map_ok hr
      obtain ⟨_, -, hr⟩ := Except.bind_ok.mp hr
      obtain ⟨_, -, hr⟩ := Except.bind_ok.mp hr
      cases result with
      | none => cases hr
      | some value =>
        obtain ⟨kept, hcast, -⟩ := Except.bind_ok.mp hr
        obtain ⟨_, hjson, -⟩ := Except.bind_ok.mp hcast
        exact Bool.noConfusion ((require_ok.mp hjson).symm.trans (hbad value rfl))

theorem carries_fail (h : Agree store table) {leaseId errorCode : String} {delay : ℤ}
    (hc : Alike D store table ⟨.fail taskId leaseId errorCode delay, now, gen⟩) :
    Carries D store table ⟨.fail taskId leaseId errorCode delay, now, gen⟩ := by
  by_cases harguments : leaseId ≠ "" ∧ errorCode ≠ "" ∧ 0 ≤ delay
  · obtain ⟨hid, hcode, hdelay⟩ := harguments
    obtain ⟨⟨htask, htext⟩, hlease, herror, hroom⟩ :=
      ((hc.resolve_left hid).resolve_left hcode).resolve_left (not_lt.mpr hdelay)
    have htable : ∀ row, PostgresTasks.fail table taskId leaseId errorCode delay now = row →
        (row.all fun info => info.retryCount ≤ maxInteger) = true →
        PostgresTasks.failCall table taskId leaseId errorCode delay now =
          .ok (row, PostgresTasks.write table row) := by
      intro row hrow hmax
      rw [PostgresTasks.failCall, PostgresTasks.requireTaskId, require_bind htask,
        require_bind hid, require_bind hcode, require_bind hdelay,
        require_bind ⟨htext, hlease, herror⟩]
      simp only [hrow]
      rw [require_bind hmax]
    cases hget : store.get? taskId with
    | none =>
      have hstore : TaskStore.fail store taskId leaseId errorCode delay now =
          .ok (none, store) := by
        rw [TaskStore.fail, require_bind hid, require_bind hcode, require_bind hdelay, hget]
      have hnone : PostgresTasks.fail table taskId leaseId errorCode delay now = none := by
        rw [PostgresTasks.fail, h.get?_none hget]
        rfl
      exact .returns h (congrArg (Except.map _) hstore)
        (congrArg (Except.map _) (htable none hnone rfl)) rfl
    | some info =>
      obtain ⟨t, hrow⟩ := h.get?_some hget
      have hfail : PostgresTasks.fail table taskId leaseId errorCode delay now =
          if TaskStore.leaseMatches info leaseId now = true then
            some { info.attemptFailed errorCode delay now with createdAt := t } else none := by
        rw [PostgresTasks.fail, hrow, ← TaskInfo.attemptFailed_createdAt]
        simp [hid, hcode, hdelay, TaskStore.leaseMatches]
      by_cases hmatch : TaskStore.leaseMatches info leaseId now = true
      · have hfailed := (h.sound_get? hget).attemptFailed errorCode delay now
        have hcount := (info.attemptFailed_spec errorCode delay now).2.1
        have hmax : (info.attemptFailed errorCode delay now).retryCount ≤ maxInteger := by
          have := hroom info hget hmatch
          omega
        have hstore : TaskStore.fail store taskId leaseId errorCode delay now =
            .ok (some (info.attemptFailed errorCode delay now),
              store.set (info.attemptFailed errorCode delay now)) := by
          rw [TaskStore.fail, require_bind hid, require_bind hcode, require_bind hdelay, hget]
          simp only [hmatch, if_true, h.saveCandidate hfailed]
          rfl
        exact .returns (h.set hfailed t) (congrArg (Except.map _) hstore)
          (congrArg (Except.map _)
            (htable _ (hfail.trans (if_pos hmatch)) (decide_eq_true hmax))) rfl
      · have hstore : TaskStore.fail store taskId leaseId errorCode delay now =
            .ok (none, store) := by
          rw [TaskStore.fail, require_bind hid, require_bind hcode, require_bind hdelay, hget]
          exact if_neg hmatch
        exact .returns h (congrArg (Except.map _) hstore)
          (congrArg (Except.map _) (htable none (hfail.trans (if_neg hmatch)) rfl)) rfl
  · refine .raises h (fun r hr => ?_) fun r hr => ?_
    · obtain ⟨_, hr, -⟩ := Except.map_ok hr
      obtain ⟨_, hid, hr⟩ := Except.bind_ok.mp hr
      obtain ⟨_, hcode, hr⟩ := Except.bind_ok.mp hr
      obtain ⟨_, hdelay, -⟩ := Except.bind_ok.mp hr
      exact harguments ⟨require_ok.mp hid, require_ok.mp hcode, require_ok.mp hdelay⟩
    · obtain ⟨_, hr, -⟩ := Except.map_ok hr
      obtain ⟨_, -, hr⟩ := Except.bind_ok.mp hr
      obtain ⟨_, hid, hr⟩ := Except.bind_ok.mp hr
      obtain ⟨_, hcode, hr⟩ := Except.bind_ok.mp hr
      obtain ⟨_, hdelay, -⟩ := Except.bind_ok.mp hr
      exact harguments ⟨require_ok.mp hid, require_ok.mp hcode, require_ok.mp hdelay⟩

/-! ## Claims of several tasks -/

theorem timeLe_eq : TaskStore.timeLe = lexLe Prod.fst fun a b => decide (a.2 ≤ b.2) := rfl

/-- `COALESCE(next_attempt_at, lease_until)`. -/
def dueAt (row : TaskInfo) : Instant := (row.nextAttemptAt <|> row.leaseUntil).getD 0

theorem rowLe_eq (D : TaskTypes) : PostgresTasks.rowLe D.collate = lexLe dueAt
    (lexLe TaskInfo.createdAt fun a b => D.collate a.taskId b.taskId) := rfl

/-- No two due times are of one task. -/
theorem nodup_dueTimes {tasks : Tasks} :
    ((TaskStore.dueTimes tasks now).map Prod.snd).Nodup := by
  have hsnd : (TaskStore.dueTimes tasks now).map Prod.snd =
      (tasks.rows.filter fun info => info.due now).map TaskInfo.taskId := by
    rw [TaskStore.dueTimes, List.map_filterMap, ← List.filterMap_eq_filter, List.map_filterMap]
    refine List.filterMap_congr fun info _ => ?_
    by_cases hdue : info.due now = true <;> simp [hdue, Option.guard]
  rw [hsnd]
  exact tasks.nodup.sublist (List.filter_sublist.map _)

/-- The first of the due times, when they are sorted. -/
theorem mem_take_dueTimes {tasks : Tasks} {n : ℕ} {p : Instant × String} :
    p ∈ ((TaskStore.dueTimes tasks now).mergeSort TaskStore.timeLe).take n ↔
      p ∈ TaskStore.dueTimes tasks now ∧
        rank TaskStore.timeLe (TaskStore.dueTimes tasks now) p < n := by
  have hnodup : (TaskStore.dueTimes tasks now).Nodup := List.Nodup.of_map Prod.snd nodup_dueTimes
  rw [timeLe_eq]
  refine mem_take_mergeSort (fun a b c => lexLe_trans fun a b c hab hbc => ?_)
    (lexLe_total fun a b => ?_) (fun a _ b _ hab hba => ?_) hnodup _
  · exact decide_eq_true (le_trans (of_decide_eq_true hab) (of_decide_eq_true hbc))
  · rw [Bool.or_eq_true, decide_eq_true_eq, decide_eq_true_eq]
    exact le_total a.2 b.2
  · obtain ⟨htime, hle, hle'⟩ := lexLe_antisymm hab hba
    exact Prod.ext htime (le_antisymm (of_decide_eq_true hle) (of_decide_eq_true hle'))

/-- The first due tasks of the store. -/
theorem mem_dueTaskIds {tasks : Tasks} {limit : ℤ} :
    taskId ∈ TaskStore.dueTaskIds tasks now limit ↔ ∃ info, tasks.get? taskId = some info ∧
      info.due now = true ∧ TaskStore.place tasks now info < limit.toNat := by
  have hmem : ∀ p, p ∈ TaskStore.dueTimes tasks now ↔ ∃ info ∈ tasks.rows, info.due now = true ∧
      (info.nextAttemptAt.getD now, info.taskId) = p := by
    intro p
    rw [TaskStore.dueTimes, List.mem_filterMap]
    refine exists_congr fun info => and_congr_right fun _ => ?_
    split_ifs with hdue
    · rw [Option.some.injEq]
      exact ⟨fun h => ⟨hdue, h⟩, And.right⟩
    · refine ⟨fun h => ?_, fun h => absurd h.1 hdue⟩
      cases h
  change taskId ∈ (((TaskStore.dueTimes tasks now).mergeSort TaskStore.timeLe).take
    limit.toNat).map Prod.snd ↔ _
  rw [List.mem_map]
  constructor
  · rintro ⟨p, hp, rfl⟩
    obtain ⟨hp, hrank⟩ := mem_take_dueTimes.mp hp
    obtain ⟨info, hinfo, hdue, rfl⟩ := (hmem p).mp hp
    exact ⟨info, (tasks.mem_rows_iff info).mp hinfo, hdue, hrank⟩
  · rintro ⟨info, hget, hdue, hrank⟩
    have hkey : info.taskId = taskId := Table.get?_key hget
    refine ⟨(info.nextAttemptAt.getD now, info.taskId), ?_, hkey⟩
    exact mem_take_dueTimes.mpr ⟨(hmem _).mpr ⟨info, Table.mem_of_get? hget, hdue, rfl⟩, hrank⟩

theorem nodup_dueTaskIds {tasks : Tasks} {limit : ℤ} :
    (TaskStore.dueTaskIds tasks now limit).Nodup := by
  have hsorted : (((TaskStore.dueTimes tasks now).mergeSort TaskStore.timeLe).map
      Prod.snd).Nodup := ((List.mergeSort_perm _ _).map _).nodup_iff.mpr nodup_dueTimes
  exact hsorted.sublist ((List.take_sublist _ _).map _)

/-- Where a task is due, one is found. -/
theorem dueTaskIds_ne_nil {tasks : Tasks} {limit : ℤ} (hlimit : 0 < limit)
    (h : ∃ info ∈ tasks.rows, info.due now = true) :
    TaskStore.dueTaskIds tasks now limit ≠ [] := by
  obtain ⟨info, hinfo, hdue⟩ := h
  intro hnil
  have htake : ((TaskStore.dueTimes tasks now).mergeSort TaskStore.timeLe).take limit.toNat = [] :=
    List.map_eq_nil_iff.mp hnil
  rcases List.take_eq_nil_iff.mp htake with h0 | hsorted
  · omega
  · have hmem : (info.nextAttemptAt.getD now, info.taskId) ∈ TaskStore.dueTimes tasks now :=
      List.mem_filterMap.mpr ⟨info, hinfo, if_pos hdue⟩
    rw [← @List.mem_mergeSort _ TaskStore.timeLe, hsorted] at hmem
    exact absurd hmem List.not_mem_nil

/-- The first due rows of the table. -/
theorem mem_dueRows_iff {tasks : Tasks} {limit : ℤ} :
    taskId ∈ PostgresTasks.dueRows D.collate tasks (fun _ => true) limit now ↔
      ∃ row, tasks.get? taskId = some row ∧ PostgresTasks.due now row = true ∧
        PostgresTasks.place D tasks now row < limit.toNat := by
  have hfirst : ∀ row, row ∈ ((tasks.rows.filter (PostgresTasks.due now)).mergeSort
      (PostgresTasks.rowLe D.collate)).take limit.toNat ↔
      row ∈ tasks.rows.filter (PostgresTasks.due now) ∧
        PostgresTasks.place D tasks now row < limit.toNat := by
    intro row
    rw [PostgresTasks.place, rowLe_eq]
    refine mem_take_mergeSort
      (fun a b c => lexLe_trans fun a b c => lexLe_trans
        fun a b c => D.collate_trans a.taskId b.taskId c.taskId)
      (lexLe_total (lexLe_total fun a b => D.collate_total a.taskId b.taskId))
      (fun a ha b hb hab hba => ?_) (tasks.nodup.of_map.sublist List.filter_sublist) _
    obtain ⟨-, hab, hba⟩ := lexLe_antisymm hab hba
    obtain ⟨-, hab, hba⟩ := lexLe_antisymm hab hba
    have hkey : a.taskId = b.taskId := D.collate_antisymm _ _ hab hba
    have ha := (tasks.mem_rows_iff a).mp (List.mem_of_mem_filter ha)
    have hb := (tasks.mem_rows_iff b).mp (List.mem_of_mem_filter hb)
    rw [hkey, hb] at ha
    exact (Option.some.inj ha).symm
  rw [PostgresTasks.dueRows]
  simp only [List.filter_true, List.mem_map, hfirst, List.mem_filter, and_assoc]
  constructor
  · rintro ⟨row, hrow, hdue, hplace, rfl⟩
    exact ⟨row, (tasks.mem_rows_iff row).mp hrow, hdue, hplace⟩
  · rintro ⟨row, hget, hdue, hplace⟩
    exact ⟨row, Table.mem_of_get? hget, hdue, hplace, Table.get?_key hget⟩

/-- A task after a claim. -/
def claimedAt (leaseSeconds : ℤ) (now : Instant) (gen : String → String) (taskId : String)
    (info : TaskInfo) : TaskInfo := info.leased (gen taskId) (now + leaseSeconds * second)

theorem claimedAt_taskId {leaseSeconds : ℤ} {tasks : Tasks} {info : TaskInfo}
    (hget : tasks.get? taskId = some info) :
    (claimedAt leaseSeconds now gen taskId info).taskId = taskId := by
  have hkey : info.taskId = taskId := Table.get?_key hget
  exact hkey

/-- The tasks with these ids are claimed, and the others stay as they are. -/
def ClaimedIn (leaseSeconds : ℤ) (now : Instant) (gen : String → String) (taskIds : List String)
    (tasks tasks' : Tasks) : Prop :=
  ∀ k, tasks'.get? k =
    if k ∈ taskIds then (tasks.get? k).map (claimedAt leaseSeconds now gen k) else tasks.get? k

/-- A claim of one task, before those of others. -/
theorem ClaimedIn.cons {leaseSeconds : ℤ} {taskIds : List String} {tasks tasks' : Tasks}
    {info : TaskInfo} (hget : tasks.get? taskId = some info) (hnew : taskId ∉ taskIds)
    (h : ClaimedIn leaseSeconds now gen taskIds
      (tasks.set (claimedAt leaseSeconds now gen taskId info)) tasks') :
    ClaimedIn leaseSeconds now gen (taskId :: taskIds) tasks tasks' ∧
      tasks'.get? taskId = some (claimedAt leaseSeconds now gen taskId info) := by
  have hkey := @claimedAt_taskId taskId now gen leaseSeconds _ _ hget
  have hself : tasks'.get? taskId = some (claimedAt leaseSeconds now gen taskId info) := by
    rw [h taskId, if_neg hnew, Table.get?_set, if_pos hkey]
  refine ⟨fun k => ?_, hself⟩
  by_cases hk : k = taskId
  · rw [hk, hself, if_pos List.mem_cons_self, hget, Option.map_some]
  · have hother : Table.get? (tasks.set (claimedAt leaseSeconds now gen taskId info)) k =
        tasks.get? k := by
      rw [Table.get?_set, if_neg fun heq => hk (heq.symm.trans hkey)]
    rw [h k, hother]
    simp only [List.mem_cons, hk, false_or]

/-- The claims of the store, one after the other. -/
theorem claimEach_spec {leaseSeconds : ℤ} (hpos : 0 < leaseSeconds) {lease : ℕ → String}
    {taskIds : List String} (hnodup : taskIds.Nodup) :
    ∀ {tasks : Tasks} {i : ℕ}, (∀ info ∈ tasks.rows, info.Sound) →
      (∀ k ∈ taskIds, ∃ info, tasks.get? k = some info ∧ info.due now = true) →
      (∀ j, j < taskIds.length → lease (i + j) = gen (taskIds.getD j "")) →
      ∃ tasks', TaskStore.claimEach now lease leaseSeconds taskIds i tasks =
          .ok (taskIds.filterMap tasks'.get?, tasks') ∧
        ClaimedIn leaseSeconds now gen taskIds tasks tasks' ∧ ∀ info ∈ tasks'.rows, info.Sound := by
  induction taskIds with
  | nil =>
    intro tasks i hsound _ _
    exact ⟨tasks, rfl, fun k => (if_neg List.not_mem_nil).symm, hsound⟩
  | cons taskId taskIds ih =>
    intro tasks i hsound hdue hlease
    obtain ⟨hnew, hnodup⟩ := List.nodup_cons.mp hnodup
    obtain ⟨info, hget, hnow⟩ := hdue taskId List.mem_cons_self
    have hkey := @claimedAt_taskId taskId now gen leaseSeconds _ _ hget
    have hclaimed : (claimedAt leaseSeconds now gen taskId info).Sound :=
      (hsound info (Table.mem_of_get? hget)).leased _ _
    have hagree : Agree tasks tasks := ⟨fun _ => rfl, hsound⟩
    have hclaim : TaskStore.claim tasks taskId now (lease i) leaseSeconds =
        .ok (some (claimedAt leaseSeconds now gen taskId info),
          tasks.set (claimedAt leaseSeconds now gen taskId info)) := by
      have hid : lease i = gen taskId := hlease 0 (Nat.succ_pos _)
      rw [TaskStore.claim, require_bind hpos, hget, hid]
      simp only [hnow, if_true]
      exact Except.bind_ok.mpr ⟨_, hagree.saveCandidate hclaimed, rfl⟩
    have hrest : ∀ k ∈ taskIds, ∃ info', Table.get? (tasks.set
        (claimedAt leaseSeconds now gen taskId info)) k = some info' ∧ info'.due now = true := by
      intro k hk
      have hne : ¬ (claimedAt leaseSeconds now gen taskId info).taskId = k :=
        fun heq => hnew (hkey.symm.trans heq ▸ hk)
      rw [Table.get?_set, if_neg hne]
      exact hdue k (List.mem_cons_of_mem _ hk)
    obtain ⟨tasks', heach, hin, hsound'⟩ := @ih hnodup _ (i + 1) (hagree.set hclaimed 0).sound hrest
      fun j hj => by
        rw [Nat.add_assoc, Nat.add_comm 1 j]
        exact hlease (j + 1) (Nat.succ_lt_succ hj)
    obtain ⟨hin, hself⟩ := hin.cons hget hnew
    refine ⟨tasks', ?_, hin, hsound'⟩
    rw [TaskStore.claimEach, hclaim, List.filterMap_cons_some hself]
    change (TaskStore.claimEach now lease leaseSeconds taskIds (i + 1) _ >>= fun r => _) = _
    rw [heach]
    rfl

/-- The claims of the table. -/
theorem claimLocked_spec {leaseSeconds : ℤ} {taskIds : List String} (hnodup : taskIds.Nodup) :
    ∀ {tasks : Tasks}, (∀ k ∈ taskIds, ∃ row, tasks.get? k = some row) →
      ∃ tasks', PostgresTasks.claimLocked leaseSeconds tasks
          (taskIds.map fun taskId => (taskId, now, gen taskId)) =
            (taskIds.filterMap tasks'.get?, tasks') ∧
        ClaimedIn leaseSeconds now gen taskIds tasks tasks' := by
  induction taskIds with
  | nil => exact fun _ => ⟨_, rfl, fun k => (if_neg List.not_mem_nil).symm⟩
  | cons taskId taskIds ih =>
    intro tasks hrows
    obtain ⟨hnew, hnodup⟩ := List.nodup_cons.mp hnodup
    obtain ⟨row, hget⟩ := hrows taskId List.mem_cons_self
    have hkey := @claimedAt_taskId taskId now gen leaseSeconds _ _ hget
    have hrest : ∀ k ∈ taskIds, ∃ row', Table.get? (tasks.set
        (claimedAt leaseSeconds now gen taskId row)) k = some row' := by
      intro k hk
      have hne : ¬ (claimedAt leaseSeconds now gen taskId row).taskId = k :=
        fun heq => hnew (hkey.symm.trans heq ▸ hk)
      rw [Table.get?_set, if_neg hne]
      exact hrows k (List.mem_cons_of_mem _ hk)
    obtain ⟨tasks', heach, hin⟩ := ih hnodup hrest
    obtain ⟨hin, hself⟩ := hin.cons hget hnew
    refine ⟨tasks', ?_, hin⟩
    rw [List.map_cons, PostgresTasks.claimLocked, hget, List.filterMap_cons_some hself]
    change (_ :: (PostgresTasks.claimLocked leaseSeconds
      (tasks.set (claimedAt leaseSeconds now gen taskId row)) _).1,
      (PostgresTasks.claimLocked leaseSeconds
        (tasks.set (claimedAt leaseSeconds now gen taskId row)) _).2) = _
    rw [heach]
    rfl

theorem carries_claimDue (h : Agree store table) {limit leaseSeconds : ℤ}
    (hc : Alike D store table ⟨.claimDue limit leaseSeconds, now, gen⟩) :
    Carries D store table ⟨.claimDue limit leaseSeconds, now, gen⟩ := by
  by_cases hlimit : 0 < limit
  swap
  · refine .raises h (fun r hr => ?_) fun r hr => ?_
    · obtain ⟨_, hr, -⟩ := Except.map_ok hr
      obtain ⟨_, hrequire, -⟩ := Except.bind_ok.mp hr
      exact hlimit (require_ok.mp hrequire)
    · obtain ⟨_, hr, -⟩ := Except.map_ok hr
      obtain ⟨_, hrequire, -⟩ := Except.bind_ok.mp hr
      exact hlimit (require_ok.mp hrequire)
  rcases hc.resolve_left (not_le.mpr hlimit) with ⟨hpos, hfirst⟩ | ⟨hpos, info, hinfo, hdue⟩
  · -- The same tasks are claimed.
    have hids : ∀ k, k ∈ TaskStore.dueTaskIds store now limit ↔
        k ∈ PostgresTasks.dueRows D.collate table (fun _ => true) limit now := by
      intro k
      rw [mem_dueTaskIds, mem_dueRows_iff]
      constructor
      · rintro ⟨info, hget, hdue, hplace⟩
        obtain ⟨t, hrow⟩ := h.get?_some hget
        exact ⟨_, hrow, ((h.sound_get? hget).due now).trans hdue,
          (hfirst k info _ hget hrow hdue).mp hplace⟩
      · rintro ⟨row, hrow, hdue, hplace⟩
        obtain ⟨info, hget, heq⟩ := h.get?_table hrow
        have hdue' : info.due now = true := by
          rw [← (h.sound_get? hget).due now, ← hdue, heq]
          rfl
        exact ⟨info, hget, hdue', (hfirst k info row hget hrow hdue').mpr hplace⟩
    have hnodup : (TaskStore.dueTaskIds store now limit).Nodup := nodup_dueTaskIds
    obtain ⟨store', hstore, hin, hsound⟩ := @claimEach_spec now gen leaseSeconds hpos
      (fun i => gen ((TaskStore.dueTaskIds store now limit).getD i "")) _ hnodup store 0 h.sound
      (fun k hk => by
        obtain ⟨info, hget, hdue, -⟩ := mem_dueTaskIds.mp hk
        exact ⟨info, hget, hdue⟩)
      fun j _ => by rw [Nat.zero_add]
    obtain ⟨table', htable, hin'⟩ := @claimLocked_spec now gen leaseSeconds _
      (@PostgresTasks.nodup_dueRows D.collate table (fun _ => true) limit now) table fun k hk => by
        obtain ⟨row, hrow, -⟩ := mem_dueRows_iff.mp hk
        exact ⟨row, hrow⟩
    have hsame : SameTasks store' table' := by
      intro k
      rw [hin k, hin' k]
      by_cases hk : k ∈ TaskStore.dueTaskIds store now limit
      · rw [if_pos hk, if_pos ((hids k).mp hk)]
        have hk' := h.same k
        cases hget : store.get? k with
        | none => rw [h.get?_none hget]
        | some info =>
          obtain ⟨t, hrow⟩ := h.get?_some hget
          rw [hrow]
          rfl
      · rw [if_neg hk, if_neg fun hk' => hk ((hids k).mpr hk')]
        exact h.same k
    have hstore' : TaskStore.claimDue store limit leaseSeconds now
        (fun i => gen ((TaskStore.dueTaskIds store now limit).getD i "")) =
          .ok ((TaskStore.dueTaskIds store now limit).filterMap store'.get?, store') := by
      rw [TaskStore.claimDue, require_bind hlimit, hstore]
    have htable' : PostgresTasks.claimDueCall D table limit leaseSeconds now gen =
        .ok ((PostgresTasks.dueRows D.collate table (fun _ => true) limit now).filterMap
          table'.get?, table') := by
      rw [PostgresTasks.claimDueCall, PostgresTasks.requirePositive, PostgresTasks.requirePositive,
        require_bind hlimit, require_bind hpos]
      exact congrArg Except.ok htable
    refine .returns ⟨hsame, hsound⟩ (congrArg (Except.map _) hstore')
      (congrArg (Except.map _) htable') fun info => ?_
    rw [List.map_filterMap, List.map_filterMap, List.mem_filterMap, List.mem_filterMap]
    refine exists_congr fun k => and_congr (hids k) ?_
    rw [hsame k]
  · -- The first claim of the store raises.
    refine .raises h (fun r hr => ?_) fun r hr => ?_
    · obtain ⟨_, hr, -⟩ := Except.map_ok hr
      rw [TaskStore.claimDue, require_bind hlimit] at hr
      cases hdueIds : TaskStore.dueTaskIds store now limit with
      | nil =>
        refine absurd hdueIds (dueTaskIds_ne_nil hlimit ⟨info, hinfo, hdue⟩)
      | cons k ks =>
        rw [hdueIds] at hr
        obtain ⟨_, hclaim, -⟩ := Except.bind_ok.mp hr
        obtain ⟨_, hrequire, -⟩ := Except.bind_ok.mp hclaim
        exact absurd (require_ok.mp hrequire) (not_lt.mpr hpos)
    · obtain ⟨_, hr, -⟩ := Except.map_ok hr
      obtain ⟨_, -, hr⟩ := Except.bind_ok.mp hr
      obtain ⟨_, hrequire, -⟩ := Except.bind_ok.mp hr
      exact absurd (require_ok.mp hrequire) (not_lt.mpr hpos)

/-! ## Runs -/

/-- Every call that is alike keeps the repositories in agreement. -/
theorem Agree.carries (h : Agree store table) (hc : Alike D store table c) :
    Carries D store table c := by
  obtain ⟨call, now, gen⟩ := c
  cases call with
  | admitPending info capacity => exact carries_admitPending h hc
  | claim taskId leaseSeconds => exact carries_claim h hc
  | claimDue limit leaseSeconds => exact carries_claimDue h hc
  | complete taskId leaseId result => exact carries_complete h hc
  | fail taskId leaseId errorCode delay => exact carries_fail h hc
  | cancelPending taskId => exact carries_cancelPending h hc
  | replayFailedAtomic taskId capacity => exact carries_replayFailedAtomic h hc

theorem Agree.runsAlike (cs : List TimedCall) : ∀ {store table : Tasks}, Agree store table →
    AllAlike D store table cs → RunsAlike D store table cs := by
  induction cs with
  | nil => exact fun _ _ => trivial
  | cons c cs ih =>
    intro store table h hcs
    obtain ⟨houtcome, hagree⟩ := h.carries hcs.1
    exact ⟨houtcome, hagree.same, ih hagree hcs.2⟩

/-- In every run from empty repositories in which all calls are alike, each call returns the same
from both and leaves the same tasks in both, up to the times at which these were created. -/
theorem alike_runs (D : TaskTypes) (cs : List TimedCall)
    (hcs : AllAlike D Table.empty Table.empty cs) : RunsAlike D Table.empty Table.empty cs :=
  Agree.runsAlike cs ⟨fun _ => rfl, fun _ h => absurd h List.not_mem_nil⟩ hcs

/-! ## Two runs -/

/-- Texts in the order of their characters, and values that are kept as they are. -/
def plainTypes : TaskTypes where
  collate a b := decide (a ≤ b)
  jsonb := some
  collate_trans := fun _ _ _ hab hbc =>
    decide_eq_true (le_trans (of_decide_eq_true hab) (of_decide_eq_true hbc))
  collate_total := fun a b => by
    rw [Bool.or_eq_true, decide_eq_true_eq, decide_eq_true_eq]
    exact le_total a b
  collate_antisymm := fun _ _ hab hba =>
    le_antisymm (of_decide_eq_true hab) (of_decide_eq_true hba)

/-- A task as it is submitted. -/
def compactionTask (taskId : String) (now : Instant) : TaskInfo where
  taskId := taskId
  taskType := .compaction
  status := .pending
  createdAt := now
  payload := some []
  nextAttemptAt := some now

theorem submitted_compactionTask {taskId : String} (hid : IsTaskId taskId) (now : Instant) :
    Submitted plainTypes now (compactionTask taskId now) where
  status := rfl
  taskId := hid
  maxRetries := ⟨by change (0 : ℤ) ≤ 3; decide, by change (3 : ℤ) ≤ maxInteger; decide⟩
  payload := ⟨[], rfl, rfl, rfl⟩
  nextAttemptAt := rfl
  retryCount := rfl
  completedAt := rfl
  result := rfl
  error := rfl
  leaseUntil := rfl
  leaseId := rfl
  lastErrorCode := rfl

/-- A task is submitted, claimed and completed. -/
def completedRun : List TimedCall :=
  [⟨.admitPending (compactionTask "a" 0) 5, 0, id⟩, ⟨.claim "a" 60, second, id⟩,
    ⟨.complete "a" "a" (some .null), 2 * second, id⟩]

theorem completedRun_alike :
    RunsAlike plainTypes Table.empty Table.empty completedRun := by
  have hid : IsTaskId "a" := ⟨by decide, by decide⟩
  refine alike_runs plainTypes completedRun ⟨.inl (submitted_compactionTask hid 0), .inr hid, ?_,
    trivial⟩
  exact .inr ⟨hid, hid.2, .inl ⟨.null, rfl, rfl, rfl⟩⟩

/-- A lease has run out for a while when another task becomes due. -/
def overtakenRun : List TimedCall :=
  [⟨.admitPending (compactionTask "a" 0) 5, 0, id⟩, ⟨.claim "a" 1, 0, id⟩,
    ⟨.admitPending (compactionTask "b" (2 * second)) 5, 2 * second, id⟩,
    ⟨.claimDue 1 1, 3 * second, id⟩]

/-- The tasks before the last call, in both repositories. -/
def overtakenTasks : Tasks :=
  (Table.set Table.empty ((compactionTask "a" 0).leased "a" second)).set
    (compactionTask "b" (2 * second))

/-- The store claims the task that waits, and the table the one whose lease has run out first. -/
theorem overtakenRun_differs :
    ¬ RunsAlike plainTypes Table.empty Table.empty overtakenRun := by
  rintro ⟨-, -, -, -, -, -, houtcome, -⟩
  generalize hstore : tasksAfter (tasksAfter (tasksAfter Table.empty _) _) (TaskStore.call _ _) =
    store at houtcome
  generalize htable : tasksAfter (tasksAfter (tasksAfter Table.empty _) _)
    (PostgresTasks.call _ _ _) = table at houtcome
  have hstore' : overtakenTasks = store := by rw [← hstore]; decide +kernel
  have htable' : overtakenTasks = table := by rw [← htable]; decide +kernel
  subst hstore' htable'
  have hids : TaskStore.dueTaskIds overtakenTasks (3 * second) 1 = ["b"] := by
    have htimes : TaskStore.dueTimes overtakenTasks (3 * second) =
        [(3 * second, "a"), (2 * second, "b")] := by decide +kernel
    change (((TaskStore.dueTimes overtakenTasks (3 * second)).mergeSort TaskStore.timeLe).take
      1).map Prod.snd = _
    rw [htimes, mergeSort_pair]
    decide +kernel
  have hrows : PostgresTasks.dueRows plainTypes.collate overtakenTasks (fun _ => true) 1
      (3 * second) = ["a"] := by
    have hdue : overtakenTasks.rows.filter (PostgresTasks.due (3 * second)) =
        [(compactionTask "a" 0).leased "a" second, compactionTask "b" (2 * second)] := by
      decide +kernel
    rw [PostgresTasks.dueRows]
    simp only [hdue, mergeSort_pair]
    decide +kernel
  have hstore : TaskStore.call overtakenTasks ⟨.claimDue 1 1, 3 * second, id⟩ =
      .ok (.tasks [(compactionTask "b" (2 * second)).leased "b" (4 * second)],
        overtakenTasks.set ((compactionTask "b" (2 * second)).leased "b" (4 * second))) := by
    simp only [TaskStore.call, TaskStore.claimDue, hids]
    exact Except.ok_of_toOption (by decide +kernel)
  have htable : PostgresTasks.call plainTypes overtakenTasks ⟨.claimDue 1 1, 3 * second, id⟩ =
      .ok (.tasks [(compactionTask "a" 0).leased "a" (4 * second)],
        overtakenTasks.set ((compactionTask "a" 0).leased "a" (4 * second))) := by
    simp only [PostgresTasks.call, PostgresTasks.claimDueCall, hrows]
    exact Except.ok_of_toOption (by decide +kernel)
  rw [hstore, htable] at houtcome
  have hmem := (houtcome.1 _).mp (List.mem_singleton.mpr rfl)
  exact absurd (List.mem_singleton.mp hmem) (by decide +kernel)

end Memplex
