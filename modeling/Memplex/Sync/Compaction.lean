import Memplex.Sync.Stream

/-!
# Compaction

What a compaction may drop, and what it drops. An event may go once it is old enough, every consumer
and every snapshot has passed it, and no enabled target still waits for its delivery (`mayDrop`); a
compaction should take the events that may go off the front of the stream, and only those
(`CompactsRight`). It never takes another: what it takes is a contiguous front of the stream that
every enabled target has received. But it stops at the first event that has no delivery for an
enabled target at all, though then none is outstanding: an event that was appended on behalf of the
target itself, or while the target was disabled. `compact_right_iff` says that this is the one
way in which it falls short.
-/

namespace Memplex

open Lib

namespace SyncState

/-- An event that nothing holds back: it is old enough, no live consumer and no active snapshot lies
before it, and no enabled target has an outstanding delivery of it. -/
def mayDrop (s : SyncState) (cfg : SyncConfig) (now : Instant) (r : OutboxRow) : Prop :=
  r.createdAt ≤ now - cfg.retentionMinSeconds * second ∧
    (∀ c ∈ s.cursors, now - cfg.consumerTtlSeconds * second < c.updatedAt →
      r.streamSeq ≤ c.afterSeq) ∧
    (∀ x ∈ s.snapshots, now < x.expiresAt → r.streamSeq ≤ x.resumeSeq) ∧
    ∀ t ∈ s.targets.rows, t.enabled = true → ∀ d ∈ s.deliveries,
      d.key = (t.targetId, r.streamSeq) → d.state = .delivered

instance (s : SyncState) (cfg : SyncConfig) (now : Instant) (r : OutboxRow) :
    Decidable (s.mayDrop cfg now r) := by
  unfold mayDrop; infer_instance

/-- The front of the stream that a compaction should take. -/
def front (s : SyncState) (cfg : SyncConfig) (now : Instant) (limit : ℕ) : List OutboxRow :=
  (s.outbox.takeWhile fun r => s.mayDrop cfg now r).take limit

/-- Every enabled target that was registered before an event has received it. -/
def Received (s : SyncState) (r : OutboxRow) : Prop :=
  ∀ t ∈ s.targets.rows, t.enabled = true → t.bootstrapSeq < r.streamSeq →
    ∃ d ∈ s.deliveries, d.key = (t.targetId, r.streamSeq) ∧ d.state = .delivered

instance (s : SyncState) (r : OutboxRow) : Decidable (s.Received r) := by
  unfold Received; infer_instance

/-- Every enabled target that was registered before an event has a delivery of it. -/
def FannedOut (s : SyncState) (r : OutboxRow) : Prop :=
  ∀ t ∈ s.targets.rows, t.enabled = true → t.bootstrapSeq < r.streamSeq →
    (t.targetId, r.streamSeq) ∈ s.deliveryKeys

instance (s : SyncState) (r : OutboxRow) : Decidable (s.FannedOut r) := by
  unfold FannedOut; infer_instance

/-- The rows that are missing at the front of the outbox of a later state. -/
def taken (s s' : SyncState) : List OutboxRow := s.outbox.take (s.outbox.length - s'.outbox.length)

/-- What is dropped is the front of the stream, without a gap, and nobody needs it any more. -/
def DropsSafely (s s' : SyncState) (cfg : SyncConfig) (now : Instant) : Prop :=
  s.outbox = s.taken s' ++ s'.outbox ∧
    (s.taken s').map OutboxRow.streamSeq =
      List.range' (s.retentionFloor + 1) (s.taken s').length ∧
    ∀ r ∈ s.taken s', s.mayDrop cfg now r ∧ s.Received r

instance (s s' : SyncState) (cfg : SyncConfig) (now : Instant) :
    Decidable (s.DropsSafely s' cfg now) := by
  unfold DropsSafely; infer_instance

/-- A compaction that drops safely, and all that it should. -/
def CompactsRight (s s' : SyncState) (cfg : SyncConfig) (now : Instant) (limit : ℕ) : Prop :=
  s.DropsSafely s' cfg now ∧ s.taken s' = s.front cfg now limit

instance (s s' : SyncState) (cfg : SyncConfig) (now : Instant) (limit : ℕ) :
    Decidable (s.CompactsRight s' cfg now limit) := by
  unfold CompactsRight; infer_instance

end SyncState

/-! ## Deliveries lie after the bootstrap of their target -/

/-- A target is offered nothing from before its bootstrap. -/
def Rooted (s : SyncState) : Prop :=
  ∀ k ∈ s.deliveryKeys, ∀ t ∈ s.targets.rows, t.targetId = k.1 → t.bootstrapSeq < k.2

theorem Rooted.quiet {s s' : SyncState} (h : Rooted s) (hq : Quiet s s') : Rooted s' := by
  unfold Rooted
  rw [hq.keys, hq.targets]
  exact h

theorem Rooted.appends {s s' : SyncState} (h : Rooted s)
    (hboot : ∀ t ∈ s.targets.rows, t.bootstrapSeq < s.nextStreamSeq) (happ : Appends s s') :
    Rooted s' := by
  induction happ with
  | refl => exact h
  | quiet _ hq ih => exact ih.quiet hq
  | @append s₁ e happ ih =>
    obtain ⟨htargets, hle⟩ := happ.targets_next
    intro k hk t ht hid
    have ht : t ∈ s₁.targets.rows := ht
    rw [s₁.deliveryKeys_appended e, List.mem_append] at hk
    rcases hk with hk | hk
    · exact ih k hk t ht hid
    · obtain ⟨t', -, rfl⟩ := List.mem_map.mp hk
      rw [htargets] at ht
      exact (hboot t ht).trans_le hle

theorem Rooted.register {s s' : SyncState} {cfg : SyncConfig} {now : Instant} {targetId : String}
    {bootstrap : SyncState.Bootstrap} {stream : List OutboxRow} {missed : Set (String × ℕ)}
    (h : Rooted s) (hrec : Recorded s stream) (hoff : Offered s missed)
    (hreg : s.registerTarget cfg now targetId bootstrap = .ok s') : Rooted s' := by
  obtain ⟨_, -, hreg⟩ := Except.bind_ok.mp hreg
  obtain ⟨_, -, hreg⟩ := Except.bind_ok.mp hreg
  split at hreg
  · cases Except.ok.inj hreg
    exact h
  next hnone =>
    obtain ⟨_, -, heq⟩ := Except.bind_ok.mp hreg
    have hnew : ∀ t ∈ s.targets.rows, t.targetId ≠ targetId := findRow_eq_none.mp hnone
    cases Except.ok.inj heq
    intro k hk t ht hid
    have hk : k ∈ (s.deliveries ++ (s.retainedFor targetId bootstrap
        (s.bootstrapSeq bootstrap)).map fun r => DeliveryRow.fresh targetId r.streamSeq now).map
          DeliveryRow.key := hk
    rw [List.map_append, List.mem_append] at hk
    rcases mem_upsertRow.mp ht with rfl | ⟨ht, -⟩
    · rcases hk with hk | hk
      · -- An old delivery is for an old target.
        obtain ⟨t', ht', hid'⟩ := List.mem_map.mp (hoff.keys_known k hk).1
        exact absurd (hid'.trans hid.symm) (hnew t' ht')
      · obtain ⟨d, hd, rfl⟩ := List.mem_map.mp hk
        obtain ⟨r, hr, rfl⟩ := List.mem_map.mp hd
        obtain ⟨hr, htest⟩ := List.mem_filter.mp hr
        have hboot : bootstrap = .retained := (decide_eq_true_eq.mp htest).1
        show s.bootstrapSeq bootstrap < r.streamSeq
        rw [hboot]
        exact (hrec.mem_outbox.mp hr).2
    · rcases hk with hk | hk
      · exact h k hk t ht hid
      · obtain ⟨d, hd, rfl⟩ := List.mem_map.mp hk
        obtain ⟨r, -, rfl⟩ := List.mem_map.mp hd
        exact absurd hid (hnew t ht)

theorem Rooted.toggle {s s' : SyncState} {targetId : String} {enabled : Bool} (h : Rooted s)
    (htog : s.setTargetEnabled targetId enabled = .ok s') : Rooted s' := by
  obtain ⟨_, -, htog⟩ := Except.bind_ok.mp htog
  split at htog
  · exact absurd htog (by simp)
  next target hsome =>
    obtain ⟨htarget, -⟩ := findRow_some hsome
    cases Except.ok.inj htog
    intro k hk t ht hid
    have hk : k ∈ s.deliveryKeys := hk
    rcases mem_upsertRow.mp ht with rfl | ⟨ht, -⟩
    · exact h k hk target htarget hid
    · exact h k hk t ht hid

theorem Rooted.compact {s s' : SyncState} {cfg : SyncConfig} {now : Instant} {limit n : ℕ}
    {stream : List OutboxRow} (h : Rooted s) (hrec : Recorded s stream)
    (hcomp : s.compact cfg now limit = .ok (s', n)) : Rooted s' := by
  obtain ⟨-, -, -, htargets, hdel, -⟩ := compact_ok hrec hcomp
  unfold Rooted SyncState.deliveryKeys
  rw [hdel, htargets]
  exact fun k hk => h k ((List.filter_sublist.map _).subset hk)

/-! ## The invariant of a repository -/

/-- What a run keeps: the stream, the deliveries of its events, and where they begin. -/
structure RepoInv (s : SyncState) (stream : List OutboxRow) : Prop where
  recorded : Recorded s stream
  offered : ∃ missed, Offered s missed
  rooted : Rooted s

theorem step_repoInv (cfg : SyncConfig) (env : Env) (sha256 : ByteArray → String) {s : LiteStore}
    {stream : List OutboxRow} (h : RepoInv s.sync stream) (op : RepoOp) :
    RepoInv (op.step cfg env sha256 s).sync
      (stream ++ grown s.sync (op.step cfg env sha256 s).sync) := by
  have hrec := step_recorded cfg env sha256 h.recorded op
  obtain ⟨missed, hoff⟩ := h.offered
  cases step_streamStep cfg env sha256 s op with
  | appends happ =>
    exact ⟨hrec, ⟨_, hoff.appends happ⟩,
      h.rooted.appends (fun t ht => (hoff.targets_ok t ht).2) happ⟩
  | register hreg =>
    exact ⟨hrec, ⟨_, (registerTarget_offered hoff hreg).1⟩,
      h.rooted.register h.recorded hoff hreg⟩
  | toggle htog =>
    exact ⟨hrec, ⟨_, (setTargetEnabled_offered hoff htog).1⟩, h.rooted.toggle htog⟩
  | compact hcomp =>
    exact ⟨hrec, ⟨_, (compact_offered hoff hcomp).1⟩, h.rooted.compact h.recorded hcomp⟩

theorem repoInv_empty : RepoInv .empty [] :=
  ⟨recorded_empty, ⟨∅, offered_empty⟩, by simp [Rooted, SyncState.deliveryKeys, SyncState.empty]⟩

theorem runRepo_repoInv (cfg : SyncConfig) (env : Env) (sha256 : ByteArray → String)
    (ops : List RepoOp) {s : LiteStore} {stream : List OutboxRow} (h : RepoInv s.sync stream) :
    RepoInv (runRepo cfg env sha256 s ops).sync (stream ++ streamOf cfg env sha256 s ops) := by
  induction ops generalizing s stream with
  | nil => rwa [streamOf, List.append_nil]
  | cons op ops ih =>
    have hstep := step_repoInv cfg env sha256 h op
    rw [streamOf, ← List.append_assoc]
    exact ih hstep

/-! ## What a compaction tests -/

/-- The outbox has the sequences above the retention floor, without a gap. -/
theorem Recorded.outbox_seqs {s : SyncState} {stream : List OutboxRow} (h : Recorded s stream) :
    s.outbox.map OutboxRow.streamSeq =
      List.range' (s.retentionFloor + 1) (s.nextStreamSeq - 1 - s.retentionFloor) := by
  have hlt := h.floor_lt
  have hsplit : List.range' 1 (s.nextStreamSeq - 1) = List.range' 1 s.retentionFloor ++
      List.range' (s.retentionFloor + 1) (s.nextStreamSeq - 1 - s.retentionFloor) := by
    rw [show s.retentionFloor + 1 = 1 + 1 * s.retentionFloor by omega, List.range'_append,
      show s.retentionFloor + (s.nextStreamSeq - 1 - s.retentionFloor) = s.nextStreamSeq - 1 by
        omega]
  have hmap : s.outbox.map OutboxRow.streamSeq =
      (stream.map OutboxRow.streamSeq).filter fun q => s.retentionFloor < q := by
    rw [h.retained, List.filter_map]
    rfl
  have hlow : (List.range' 1 s.retentionFloor).filter (fun q => s.retentionFloor < q) = [] := by
    rw [List.filter_eq_nil_iff]
    intro q hq
    rw [List.mem_range'_1] at hq
    simp only [decide_eq_true_eq]
    omega
  have hhigh : (List.range' (s.retentionFloor + 1)
      (s.nextStreamSeq - 1 - s.retentionFloor)).filter (fun q => s.retentionFloor < q) =
        List.range' (s.retentionFloor + 1) (s.nextStreamSeq - 1 - s.retentionFloor) := by
    rw [List.filter_eq_self]
    intro q hq
    rw [List.mem_range'_1] at hq
    simp only [decide_eq_true_eq]
    omega
  rw [hmap, h.seqs, hsplit, List.filter_append, hlow, hhigh, List.nil_append]

/-- The delivery test of a compaction. -/
theorem settled_iff {s : SyncState} {r : OutboxRow} : s.settled r = true ↔ s.Received r := by
  unfold SyncState.settled SyncState.Received
  simp only [List.all_eq_true, List.any_eq_true, Bool.or_eq_true, Bool.not_eq_true',
    decide_eq_true_eq]
  refine forall₂_congr fun t _ => ?_
  constructor
  · rintro ((hdis | hle) | hex) hen hlt
    · rw [hen] at hdis
      exact absurd hdis (by simp)
    · exact absurd hlt (not_lt.mpr hle)
    · exact hex
  · intro h
    cases hen : t.enabled with
    | false => exact .inl (.inl rfl)
    | true =>
      by_cases hlt : t.bootstrapSeq < r.streamSeq
      · exact .inr (h hen hlt)
      · exact .inl (.inr (not_lt.mp hlt))

/-- The pins of a compaction: live consumers and active snapshots. -/
theorem le_unpinned_iff {s : SyncState} {cfg : SyncConfig} {now : Instant} {q : ℕ}
    (hids : (s.snapshots.map SnapshotRow.snapshotId).Nodup) (hq : q < s.nextStreamSeq) :
    q ≤ (s.expire cfg now).unpinned ↔
      (∀ c ∈ s.cursors, now - cfg.consumerTtlSeconds * second < c.updatedAt → q ≤ c.afterSeq) ∧
        ∀ x ∈ s.snapshots, now < x.expiresAt → q ≤ x.resumeSeq := by
  have hcursors : ∀ c, c ∈ (s.expire cfg now).cursors ↔
      c ∈ s.cursors ∧ now - cfg.consumerTtlSeconds * second < c.updatedAt := fun c => by
    show c ∈ s.cursors.filter _ ↔ _
    rw [List.mem_filter, decide_eq_true_eq]
  -- The identifiers are distinct, so that no active snapshot goes with an expired one.
  have hsnapshots : ∀ x, x ∈ (s.expire cfg now).snapshots ↔
      x ∈ s.snapshots ∧ now < x.expiresAt := fun x => by
    show x ∈ s.snapshots.filter _ ↔ _
    rw [List.mem_filter, decide_eq_true_eq]
    refine and_congr_right fun hx => ?_
    rw [List.mem_map, ← not_le, not_iff_not]
    constructor
    · rintro ⟨y, hy, hid⟩
      obtain ⟨hy, hexp⟩ := List.mem_filter.mp hy
      have hsame : y = x := List.inj_on_of_nodup_map hids hy hx hid
      rw [← hsame]
      exact decide_eq_true_eq.mp hexp
    · intro hexp
      exact ⟨x, List.mem_filter.mpr ⟨hx, decide_eq_true hexp⟩, rfl⟩
  have hpins : ∀ n, n ∈ ((s.expire cfg now).cursors.map CursorRow.afterSeq ++
      (s.expire cfg now).snapshots.map SnapshotRow.resumeSeq) ↔
        (∃ c ∈ s.cursors, now - cfg.consumerTtlSeconds * second < c.updatedAt ∧ c.afterSeq = n) ∨
          ∃ x ∈ s.snapshots, now < x.expiresAt ∧ x.resumeSeq = n := fun n => by
    simp only [List.mem_append, List.mem_map, hcursors, hsnapshots, and_assoc]
  have hnext : (s.expire cfg now).nextStreamSeq = s.nextStreamSeq := rfl
  unfold SyncState.unpinned
  cases hmin : ((s.expire cfg now).cursors.map CursorRow.afterSeq ++
      (s.expire cfg now).snapshots.map SnapshotRow.resumeSeq).min? with
  | none =>
    have hnil := List.min?_eq_none_iff.mp hmin
    have hno : ∀ n, ¬ ((∃ c ∈ s.cursors,
        now - cfg.consumerTtlSeconds * second < c.updatedAt ∧ c.afterSeq = n) ∨
          ∃ x ∈ s.snapshots, now < x.expiresAt ∧ x.resumeSeq = n) := fun n => by
      rw [← hpins n, hnil]
      simp
    rw [Option.getD_none, hnext]
    refine iff_of_true (by omega) ⟨fun c hc hlive => ?_, fun x hx hact => ?_⟩
    · exact absurd (Or.inl ⟨c, hc, hlive, rfl⟩) (hno c.afterSeq)
    · exact absurd (Or.inr ⟨x, hx, hact, rfl⟩) (hno x.resumeSeq)
  | some m =>
    obtain ⟨hm, hle⟩ := List.min?_eq_some_iff.mp hmin
    rw [Option.getD_some]
    constructor
    · intro hqm
      exact ⟨fun c hc hlive => hqm.trans (hle _ ((hpins _).mpr (.inl ⟨c, hc, hlive, rfl⟩))),
        fun x hx hact => hqm.trans (hle _ ((hpins _).mpr (.inr ⟨x, hx, hact, rfl⟩)))⟩
    · rintro ⟨hcur, hsnap⟩
      rcases (hpins m).mp hm with ⟨c, hc, hlive, rfl⟩ | ⟨x, hx, hact, rfl⟩
      · exact hcur c hc hlive
      · exact hsnap x hx hact

/-- A delivery row is found by its key. -/
theorem mem_deliveryKeys {s : SyncState} {k : String × ℕ} :
    k ∈ s.deliveryKeys ↔ ∃ d ∈ s.deliveries, d.key = k := List.mem_map

/-- What every enabled target has received is outstanding nowhere. -/
theorem RepoInv.delivered_of_received {s : SyncState} {stream : List OutboxRow} {r : OutboxRow}
    (h : RepoInv s stream) (hr : s.Received r) :
    ∀ t ∈ s.targets.rows, t.enabled = true → ∀ d ∈ s.deliveries,
      d.key = (t.targetId, r.streamSeq) → d.state = .delivered := by
  intro t ht hen d hd hkey
  have hlt : t.bootstrapSeq < r.streamSeq :=
    h.rooted (t.targetId, r.streamSeq) (mem_deliveryKeys.mpr ⟨d, hd, hkey⟩) t ht rfl
  obtain ⟨d', hd', hkey', hstate⟩ := hr t ht hen hlt
  obtain ⟨missed, hoff⟩ := h.offered
  have hsame : d = d' := List.inj_on_of_nodup_map hoff.keys_nodup hd hd' (hkey.trans hkey'.symm)
  rw [hsame, hstate]

/-- A compaction takes the rows that may be dropped and that every enabled target has received. -/
theorem RepoInv.dropsRow_iff {s : SyncState} {stream : List OutboxRow} {cfg : SyncConfig}
    {now : Instant} {r : OutboxRow} (h : RepoInv s stream)
    (hids : (s.snapshots.map SnapshotRow.snapshotId).Nodup) (hr : r ∈ s.outbox) :
    (s.expire cfg now).dropsRow cfg now r = true ↔ s.mayDrop cfg now r ∧ s.Received r := by
  have hlt : r.streamSeq < s.nextStreamSeq := h.recorded.seq_lt (h.recorded.mem_outbox.mp hr).1
  have hreceived : (s.expire cfg now).Received r ↔ s.Received r := Iff.rfl
  rw [SyncState.dropsRow, decide_eq_true_eq, le_unpinned_iff hids hlt, settled_iff, hreceived]
  constructor
  · rintro ⟨⟨hcur, hsnap⟩, hold, hrec⟩
    exact ⟨⟨hold, hcur, hsnap, h.delivered_of_received hrec⟩, hrec⟩
  · rintro ⟨⟨hold, hcur, hsnap, -⟩, hrec⟩
    exact ⟨⟨hcur, hsnap⟩, hold, hrec⟩

/-- An event that nothing holds back has been received everywhere as far as it was fanned out. -/
theorem received_iff_fannedOut {s : SyncState} {cfg : SyncConfig} {now : Instant} {r : OutboxRow}
    (h : s.mayDrop cfg now r) : s.Received r ↔ s.FannedOut r := by
  constructor
  · intro hrec t ht hen hlt
    obtain ⟨d, hd, hkey, -⟩ := hrec t ht hen hlt
    exact mem_deliveryKeys.mpr ⟨d, hd, hkey⟩
  · intro hfan t ht hen hlt
    obtain ⟨d, hd, hkey⟩ := mem_deliveryKeys.mp (hfan t ht hen hlt)
    exact ⟨d, hd, hkey, h.2.2.2 t ht hen d hd hkey⟩

/-! ## What a compaction does -/

/-- What a compaction drops is what it takes off the outbox. -/
theorem taken_eq {s s' : SyncState} {cfg : SyncConfig} {now : Instant} {limit n : ℕ}
    {stream : List OutboxRow} (hrec : Recorded s stream)
    (h : s.compact cfg now limit = .ok (s', n)) :
    s.taken s' = s.droppedRows cfg now limit ∧ s.outbox = s.taken s' ++ s'.outbox := by
  have hout := (compact_ok hrec h).1
  have htaken : s.taken s' = s.droppedRows cfg now limit := by
    have hlen : s.outbox.length - s'.outbox.length = (s.droppedRows cfg now limit).length := by
      rw [hout, List.length_append, Nat.add_sub_cancel]
    rw [SyncState.taken, hlen]
    conv_lhs => rw [hout]
    exact List.take_left
  exact ⟨htaken, by rw [htaken]; exact hout⟩

/-- A compaction drops safely, whatever holds the rest of the stream back. -/
theorem RepoInv.dropsSafely {s s' : SyncState} {cfg : SyncConfig} {now : Instant} {limit n : ℕ}
    {stream : List OutboxRow} (h : RepoInv s stream)
    (hids : (s.snapshots.map SnapshotRow.snapshotId).Nodup)
    (hcomp : s.compact cfg now limit = .ok (s', n)) : s.DropsSafely s' cfg now := by
  obtain ⟨htaken, hout⟩ := taken_eq h.recorded hcomp
  refine ⟨hout, ?_, fun r hr => ?_⟩
  · have hseqs := h.recorded.outbox_seqs
    rw [hout, List.map_append] at hseqs
    have hinit : (s.taken s').map OutboxRow.streamSeq <+:
        List.range' (s.retentionFloor + 1) (s.nextStreamSeq - 1 - s.retentionFloor) :=
      ⟨_, hseqs⟩
    have hlen : (s.taken s').length ≤ s.nextStreamSeq - 1 - s.retentionFloor := by
      have hle := hinit.length_le
      rwa [List.length_map, List.length_range'] at hle
    have htake := List.prefix_iff_eq_take.mp hinit
    rwa [List.length_map, List.take_range'_of_length_ge hlen] at htake
  · have hmem : r ∈ s.outbox := by
      rw [hout]
      exact List.mem_append_left _ hr
    rw [htaken] at hr
    have htest := List.mem_takeWhile_imp (List.mem_of_mem_take hr)
    exact (h.dropsRow_iff hids hmem).mp htest

/-- A compaction of a repository that a run reaches drops safely, and it drops all that it should
exactly when everything that it should drop was fanned out to every enabled target. Snapshots are
told apart by fresh identifiers. -/
theorem compact_right_iff (cfg : SyncConfig) (env : Env) (sha256 : ByteArray → String)
    (ops : List RepoOp) (now : Instant) (limit n : ℕ) (s' : SyncState)
    (hids : ((runRepo cfg env sha256 .empty ops).sync.snapshots.map
      SnapshotRow.snapshotId).Nodup)
    (hcomp : (runRepo cfg env sha256 .empty ops).sync.compact cfg now limit = .ok (s', n)) :
    (runRepo cfg env sha256 .empty ops).sync.DropsSafely s' cfg now ∧
      ((runRepo cfg env sha256 .empty ops).sync.CompactsRight s' cfg now limit ↔
        ∀ r ∈ (runRepo cfg env sha256 .empty ops).sync.front cfg now limit,
          (runRepo cfg env sha256 .empty ops).sync.FannedOut r) := by
  have h := runRepo_repoInv cfg env sha256 ops (s := .empty) repoInv_empty
  generalize (runRepo cfg env sha256 .empty ops).sync = s at *
  have hsafe := h.dropsSafely hids hcomp
  refine ⟨hsafe, ?_⟩
  have htaken := (taken_eq h.recorded hcomp).1
  have hiff : s.taken s' = s.front cfg now limit ↔
      ∀ r ∈ s.front cfg now limit, (s.expire cfg now).dropsRow cfg now r = true := by
    rw [htaken]
    exact takeWhile_take_eq_iff fun r hr htest =>
      decide_eq_true ((h.dropsRow_iff hids hr).mp htest).1
  rw [SyncState.CompactsRight, and_iff_right hsafe, hiff]
  refine forall₂_congr fun r hr => ?_
  have hwhile : r ∈ s.outbox.takeWhile fun r => decide (s.mayDrop cfg now r) :=
    List.mem_of_mem_take hr
  have hmem : r ∈ s.outbox := List.takeWhile_subset _ hwhile
  have htest := List.mem_takeWhile_imp hwhile
  have hmay : s.mayDrop cfg now r := decide_eq_true_eq.mp htest
  rw [h.dropsRow_iff hids hmem, and_iff_right hmay, received_iff_fannedOut hmay]

/-- A target is registered, and sends an event of its own. -/
def sampleEcho : List RepoOp :=
  [.base (.registerTarget 0 "peer" .future),
    .base (.deliver (samplePageDelivery "peer" (samplePage sampleFactA) "2024"))]

/-- The event of a target itself is never compacted, though nothing holds it back. -/
theorem echo_blocks_compaction :
    ∃ r ∈ ((runRepo (sampleConfig "local") sampleEnv (fun _ => "") .empty sampleEcho).sync.compact
        (sampleConfig "local") (10 ^ 17) 5).toOption,
      ¬ (runRepo (sampleConfig "local") sampleEnv (fun _ => "") .empty
        sampleEcho).sync.CompactsRight r.1 (sampleConfig "local") (10 ^ 17) 5 := by
  decide +kernel

/-- A page arrives where no target is registered. -/
def sampleArrival : List RepoOp :=
  [.base (.deliver (samplePageDelivery "peer" (samplePage sampleFactA) "2024"))]

/-- Without a target the event is compacted. -/
theorem sampleArrival_compacts :
    ∃ r, (runRepo (sampleConfig "local") sampleEnv (fun _ => "") .empty sampleArrival).sync.compact
        (sampleConfig "local") (10 ^ 17) 5 = .ok r ∧
      (runRepo (sampleConfig "local") sampleEnv (fun _ => "") .empty
        sampleArrival).sync.CompactsRight r.1 (sampleConfig "local") (10 ^ 17) 5 := by
  obtain ⟨r, hr⟩ := Except.exists_ok (x := (runRepo (sampleConfig "local") sampleEnv (fun _ => "")
    .empty sampleArrival).sync.compact (sampleConfig "local") (10 ^ 17) 5) (by decide +kernel)
  refine ⟨r, hr, ?_⟩
  have hmain := compact_right_iff (sampleConfig "local") sampleEnv (fun _ => "") sampleArrival
    (10 ^ 17) 5 r.2 r.1 (by decide +kernel) hr
  exact hmain.2.mpr (by decide +kernel)

end Memplex
