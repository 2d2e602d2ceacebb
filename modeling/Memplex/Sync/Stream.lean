import Memplex.Sync.Snapshots
import Memplex.Lib.Window

/-!
# The stream over a run

A repository keeps the end of its stream: the outbox. `streamOf` is all of it, the events that a run
appended in their order, those that have been compacted since included. `Recorded` relates the two:
the stream has taken the sequences from 1 on without a gap, and the outbox is what lies above the
retention floor. Every operation keeps it, where the stream grows by what the operation appends
(`step_recorded`), and so does every run (`runRepo_recorded`).
-/

namespace Memplex

open Lib

/-- The rows that were appended between two states. -/
def grown (s s' : SyncState) : List OutboxRow :=
  s'.outbox.filter fun r => s.nextStreamSeq ≤ r.streamSeq

/-- The rows that a run appends. -/
def streamOf (cfg : SyncConfig) (env : Env) (sha256 : ByteArray → String) (s : LiteStore) :
    List RepoOp → List OutboxRow
  | [] => []
  | op :: ops => grown s.sync (op.step cfg env sha256 s).sync ++
      streamOf cfg env sha256 (op.step cfg env sha256 s) ops

/-- The rows of a stream, of which a state retains the end. -/
structure Recorded (s : SyncState) (stream : List OutboxRow) : Prop where
  /-- The sequences of the stream are taken one after the other. -/
  seqs : stream.map OutboxRow.streamSeq = List.range' 1 (s.nextStreamSeq - 1)
  /-- What lies above the retention floor is retained. -/
  retained : s.outbox = stream.filter fun r => s.retentionFloor < r.streamSeq
  /-- The retention floor is within the stream. -/
  floor_lt : s.retentionFloor < s.nextStreamSeq

namespace Recorded

variable {s s' : SyncState} {stream : List OutboxRow}

theorem ascending (h : Recorded s stream) : Ascending OutboxRow.streamSeq stream := by
  apply Ascending.of_map
  rw [h.seqs]
  exact List.pairwise_lt_range' 1

theorem outbox_ascending (h : Recorded s stream) : Ascending OutboxRow.streamSeq s.outbox := by
  rw [h.retained]
  exact h.ascending.filter _

theorem mem_outbox (h : Recorded s stream) {r : OutboxRow} :
    r ∈ s.outbox ↔ r ∈ stream ∧ s.retentionFloor < r.streamSeq := by
  rw [h.retained, List.mem_filter, decide_eq_true_eq]

/-- The sequences of the stream are below the next one. -/
theorem seq_lt (h : Recorded s stream) {r : OutboxRow} (hr : r ∈ stream) :
    r.streamSeq < s.nextStreamSeq := by
  have hmem : r.streamSeq ∈ stream.map OutboxRow.streamSeq := List.mem_map_of_mem hr
  rw [h.seqs, List.mem_range'_1] at hmem
  have hpos := h.floor_lt
  omega

/-- Every sequence that was taken is one of the stream. -/
theorem exists_seq (h : Recorded s stream) {q : ℕ} (hq : 1 ≤ q) (hlt : q < s.nextStreamSeq) :
    ∃ r ∈ stream, r.streamSeq = q := by
  have hmem : q ∈ stream.map OutboxRow.streamSeq := by
    rw [h.seqs, List.mem_range'_1]
    omega
  obtain ⟨r, hr, hrq⟩ := List.mem_map.mp hmem
  exact ⟨r, hr, hrq⟩

theorem congr (h : Recorded s stream) (houtbox : s'.outbox = s.outbox)
    (hnext : s'.nextStreamSeq = s.nextStreamSeq) (hfloor : s'.retentionFloor = s.retentionFloor) :
    Recorded s' stream := by
  constructor
  · rw [hnext]; exact h.seqs
  · rw [houtbox, hfloor]; exact h.retained
  · rw [hfloor, hnext]; exact h.floor_lt

theorem appended (h : Recorded s stream) (e : SyncEvent) :
    Recorded (s.appended e) (stream ++ [⟨s.nextStreamSeq, e⟩]) where
  seqs := by
    have hnext : (s.appended e).nextStreamSeq = s.nextStreamSeq + 1 := rfl
    have hpos := h.floor_lt
    rw [List.map_append, h.seqs, hnext, show s.nextStreamSeq + 1 - 1 = (s.nextStreamSeq - 1) + 1 by
      omega, List.range'_concat]
    simp only [List.map_cons, List.map_nil]
    congr 2
    omega
  retained := by
    have hkeep : ([⟨s.nextStreamSeq, e⟩] : List OutboxRow).filter
        (fun r => s.retentionFloor < r.streamSeq) = [⟨s.nextStreamSeq, e⟩] := by
      rw [List.filter_eq_self]
      intro r hr
      rw [List.mem_singleton.mp hr]
      exact decide_eq_true h.floor_lt
    show s.outbox ++ _ = _
    rw [List.filter_append]
    exact congrArg₂ (· ++ ·) h.retained hkeep.symm
  floor_lt := Nat.lt_succ_of_lt h.floor_lt

/-- Arrivals append rows at the sequences that were not yet taken. -/
theorem exists_appends (h : Recorded s stream) (happ : Appends s s') :
    ∃ rows, s'.outbox = s.outbox ++ rows ∧ (∀ r ∈ rows, s.nextStreamSeq ≤ r.streamSeq) ∧
      s'.retentionFloor = s.retentionFloor ∧ Recorded s' (stream ++ rows) := by
  induction happ with
  | refl => exact ⟨[], by simp, by simp, rfl, by simpa using h⟩
  | quiet _ hq ih =>
    obtain ⟨rows, hout, hge, hfloor, hrec⟩ := ih
    exact ⟨rows, hq.outbox.trans hout, hge, hq.floor.trans hfloor,
      hrec.congr hq.outbox hq.next hq.floor⟩
  | @append s₁ e happ ih =>
    obtain ⟨rows, hout, hge, hfloor, hrec⟩ := ih
    refine ⟨rows ++ [⟨s₁.nextStreamSeq, e⟩], ?_, ?_, hfloor, ?_⟩
    · show s₁.outbox ++ _ = _
      rw [hout, List.append_assoc]
    · intro r hr
      rcases List.mem_append.mp hr with hr | hr
      · exact hge r hr
      · rw [List.mem_singleton.mp hr]
        exact happ.targets_next.2
    · rw [← List.append_assoc]
      exact hrec.appended e

theorem grown_eq (h : Recorded s stream) {rows : List OutboxRow}
    (hout : s'.outbox = s.outbox ++ rows) (hge : ∀ r ∈ rows, s.nextStreamSeq ≤ r.streamSeq) :
    grown s s' = rows := by
  have hold : s.outbox.filter (fun r => s.nextStreamSeq ≤ r.streamSeq) = [] := by
    rw [List.filter_eq_nil_iff]
    intro r hr
    have hlt := h.seq_lt (h.mem_outbox.mp hr).1
    simpa using hlt
  have hnew : rows.filter (fun r => s.nextStreamSeq ≤ r.streamSeq) = rows := by
    rw [List.filter_eq_self]
    exact fun r hr => decide_eq_true (hge r hr)
  rw [grown, hout, List.filter_append, hold, hnew, List.nil_append]

/-- Nothing is appended where no row is new. -/
theorem grown_eq_nil (h : Recorded s stream) (hsub : ∀ r ∈ s'.outbox, r ∈ s.outbox) :
    grown s s' = [] := by
  rw [grown, List.filter_eq_nil_iff]
  intro r hr
  have hlt := h.seq_lt (h.mem_outbox.mp (hsub r hr)).1
  simpa using hlt

theorem appends (h : Recorded s stream) (happ : Appends s s') :
    Recorded s' (stream ++ grown s s') := by
  obtain ⟨rows, hout, hge, -, hrec⟩ := h.exists_appends happ
  rwa [h.grown_eq hout hge]

/-- A change that leaves the stream as it is. -/
theorem still (h : Recorded s stream) (houtbox : s'.outbox = s.outbox)
    (hnext : s'.nextStreamSeq = s.nextStreamSeq) (hfloor : s'.retentionFloor = s.retentionFloor) :
    Recorded s' (stream ++ grown s s') := by
  rw [h.grown_eq_nil fun r hr => houtbox ▸ hr, List.append_nil]
  exact h.congr houtbox hnext hfloor

end Recorded

/-! ## Compaction -/

/-- The test that a compaction applies to one row after the other. -/
def SyncState.dropsRow (s : SyncState) (cfg : SyncConfig) (now : Instant) (r : OutboxRow) : Bool :=
  r.streamSeq ≤ s.unpinned ∧ r.createdAt ≤ now - cfg.retentionMinSeconds * second ∧ s.settled r

/-- The state in which a compaction looks for what it drops. -/
def SyncState.expire (s : SyncState) (cfg : SyncConfig) (now : Instant) : SyncState :=
  (s.cleanupExpiredSnapshots now).forgetConsumers cfg now

/-- The rows that a compaction drops. -/
def SyncState.droppedRows (s : SyncState) (cfg : SyncConfig) (now : Instant) (limit : ℕ) :
    List OutboxRow :=
  (s.outbox.takeWhile ((s.expire cfg now).dropsRow cfg now)).take limit

/-- A compaction takes rows off the front of the outbox, with their deliveries, and moves the
retention floor to the last of them. -/
theorem compact_ok {s s' : SyncState} {cfg : SyncConfig} {now : Instant} {limit n : ℕ}
    {stream : List OutboxRow} (hrec : Recorded s stream)
    (h : s.compact cfg now limit = .ok (s', n)) :
    s.outbox = s.droppedRows cfg now limit ++ s'.outbox ∧
      n = (s.droppedRows cfg now limit).length ∧
      s'.nextStreamSeq = s.nextStreamSeq ∧ s'.targets = s.targets ∧
      s'.deliveries = s.deliveries.filter (fun d =>
        d.streamSeq ∉ (s.droppedRows cfg now limit).map OutboxRow.streamSeq) ∧
      s'.retentionFloor = ((s.droppedRows cfg now limit).getLast?.map
        OutboxRow.streamSeq).getD s.retentionFloor := by
  obtain ⟨-, -, heq⟩ := Except.bind_ok.mp h
  cases Except.ok.inj heq
  have hall : (s.outbox.filter fun r => s.retentionFloor < r.streamSeq) = s.outbox := by
    rw [List.filter_eq_self]
    exact fun r hr => decide_eq_true (hrec.mem_outbox.mp hr).2
  have hsel : (s.expire cfg now).compactable cfg now limit =
      (s.droppedRows cfg now limit).map OutboxRow.streamSeq := by
    have hout : (s.expire cfg now).outbox = s.outbox := rfl
    have hfloor : (s.expire cfg now).retentionFloor = s.retentionFloor := rfl
    rw [SyncState.compactable, hout, hfloor, hall]
    rfl
  have hinit : s.droppedRows cfg now limit <+: s.outbox :=
    (List.take_prefix _ _).trans (List.takeWhile_prefix _)
  obtain ⟨rest, hrest⟩ := hinit
  show _ ∧ _ = _ ∧ ((s.expire cfg now).dropEvents _).nextStreamSeq = _ ∧
    ((s.expire cfg now).dropEvents _).targets = _ ∧ _ = _ ∧ _ = _
  rw [show (s.cleanupExpiredSnapshots now).forgetConsumers cfg now = s.expire cfg now from rfl, hsel]
  generalize hdropped : s.droppedRows cfg now limit = dropped at *
  unfold SyncState.dropEvents
  cases hlast : dropped.getLast? with
  | none =>
    have hnil : dropped = [] := List.getLast?_eq_none_iff.mp hlast
    subst hnil
    refine ⟨rfl, rfl, rfl, rfl, ?_, rfl⟩
    simp [SyncState.expire, SyncState.forgetConsumers, SyncState.cleanupExpiredSnapshots]
  | some r =>
    have hmap : (dropped.map OutboxRow.streamSeq).getLast? = some r.streamSeq := by
      rw [List.getLast?_map, hlast]
      rfl
    have hasc : Ascending OutboxRow.streamSeq (dropped ++ rest) := by
      rw [hrest]; exact hrec.outbox_ascending
    have hkeep := (append_eq_above hasc hlast).2
    rw [hrest] at hkeep
    have hout : (s.expire cfg now).outbox = s.outbox := rfl
    rw [hmap]
    refine ⟨?_, by rw [List.length_map], rfl, rfl, rfl, rfl⟩
    rw [hout, hkeep, hrest]

theorem compact_recorded {s s' : SyncState} {cfg : SyncConfig} {now : Instant} {limit n : ℕ}
    {stream : List OutboxRow} (hrec : Recorded s stream)
    (h : s.compact cfg now limit = .ok (s', n)) : Recorded s' stream := by
  obtain ⟨hout, -, hnext, -, -, hfloor⟩ := compact_ok hrec h
  generalize s.droppedRows cfg now limit = dropped at *
  cases hlast : dropped.getLast? with
  | none =>
    have hnil : dropped = [] := List.getLast?_eq_none_iff.mp hlast
    rw [hlast] at hfloor
    rw [hnil, List.nil_append] at hout
    exact hrec.congr hout.symm hnext hfloor
  | some r =>
    rw [hlast] at hfloor
    have hfloor : s'.retentionFloor = r.streamSeq := hfloor
    have hr : r ∈ s.outbox := by
      rw [hout]
      exact List.mem_append_left _ (List.mem_of_getLast? hlast)
    have hr' := hrec.mem_outbox.mp hr
    have hasc : Ascending OutboxRow.streamSeq (dropped ++ s'.outbox) := by
      rw [← hout]; exact hrec.outbox_ascending
    constructor
    · rw [hnext]; exact hrec.seqs
    · -- What lies above the new floor lay above the old one.
      have habove := (append_eq_above hasc hlast).1
      rw [← hout, hrec.retained, List.filter_filter] at habove
      rw [← habove, hfloor]
      refine List.filter_congr fun x _ => ?_
      rw [Bool.eq_iff_iff]
      simp only [Bool.and_eq_true, decide_eq_true_eq]
      exact ⟨fun hx => hx.1, fun hx => ⟨hx, hr'.2.trans hx⟩⟩
    · rw [hfloor, hnext]
      exact hrec.seq_lt hr'.1

/-! ## Runs -/

/-- A registration leaves the stream as it is. -/
theorem registerTarget_stream {s s' : SyncState} {cfg : SyncConfig} {now : Instant}
    {targetId : String} {bootstrap : SyncState.Bootstrap}
    (h : s.registerTarget cfg now targetId bootstrap = .ok s') :
    s'.outbox = s.outbox ∧ s'.nextStreamSeq = s.nextStreamSeq ∧
      s'.retentionFloor = s.retentionFloor := by
  obtain ⟨-, -, h⟩ := Except.bind_ok.mp h
  obtain ⟨-, -, h⟩ := Except.bind_ok.mp h
  split at h
  · cases Except.ok.inj h
    exact ⟨rfl, rfl, rfl⟩
  · obtain ⟨-, -, heq⟩ := Except.bind_ok.mp h
    cases Except.ok.inj heq
    exact ⟨rfl, rfl, rfl⟩

theorem setTargetEnabled_stream {s s' : SyncState} {targetId : String} {enabled : Bool}
    (h : s.setTargetEnabled targetId enabled = .ok s') :
    s'.outbox = s.outbox ∧ s'.nextStreamSeq = s.nextStreamSeq ∧
      s'.retentionFloor = s.retentionFloor := by
  obtain ⟨-, -, h⟩ := Except.bind_ok.mp h
  split at h
  · exact absurd h (by simp)
  · cases Except.ok.inj h
    exact ⟨rfl, rfl, rfl⟩

/-- The step: the stream grows by what the operation appends. -/
theorem step_recorded (cfg : SyncConfig) (env : Env) (sha256 : ByteArray → String) {s : LiteStore}
    {stream : List OutboxRow} (h : Recorded s.sync stream) (op : RepoOp) :
    Recorded (op.step cfg env sha256 s).sync
      (stream ++ grown s.sync (op.step cfg env sha256 s).sync) := by
  cases step_streamStep cfg env sha256 s op with
  | appends happ => exact h.appends happ
  | register hreg =>
    obtain ⟨hout, hnext, hfloor⟩ := registerTarget_stream hreg
    exact h.still hout hnext hfloor
  | toggle htog =>
    obtain ⟨hout, hnext, hfloor⟩ := setTargetEnabled_stream htog
    exact h.still hout hnext hfloor
  | compact hcomp =>
    have hout := (compact_ok h hcomp).1
    rw [h.grown_eq_nil fun r hr => hout ▸ List.mem_append_right _ hr, List.append_nil]
    exact compact_recorded h hcomp

theorem recorded_empty : Recorded .empty [] where
  seqs := rfl
  retained := rfl
  floor_lt := by decide

/-- The run: a repository retains the end of its stream. -/
theorem runRepo_recorded (cfg : SyncConfig) (env : Env) (sha256 : ByteArray → String)
    (ops : List RepoOp) {s : LiteStore} {stream : List OutboxRow} (h : Recorded s.sync stream) :
    Recorded (runRepo cfg env sha256 s ops).sync
      (stream ++ streamOf cfg env sha256 s ops) := by
  induction ops generalizing s stream with
  | nil => rwa [streamOf, List.append_nil]
  | cons op ops ih =>
    have hstep := step_recorded cfg env sha256 h op
    rw [streamOf, ← List.append_assoc]
    exact ih hstep

end Memplex
