import Memplex.Sync.Valid

/-!
# What is committed is accepted

The commit of an operation validates the sync state that the operation leaves, and a load validates
it again. `StoreOp` is every operation of a store, and `StoreOp.Keeps` says when the state that it
leaves is accepted: after every change of the deliveries and every compaction, and almost always else.
The exceptions are a page that is asked for with a cursor beyond the end of the stream, a page of a
peer that a node without a name applies, and a snapshot that copies one record twice; where the
stream has no room above its retention floor, which the validator does not ask for, everything that
takes a position of it is one too.
-/

namespace Memplex

open Lib SyncState

/-- An operation of a store. A mutator replaces the records and captures what it has changed. -/
inductive StoreOp where
  | mutate (business : BusinessState) (events : List SyncEvent)
  | repo (op : SyncOp)
  | createSnapshot (now : Instant) (remoteId consumerId requestId : String) (limit : ℕ)
      (snapshotId : String)
  | snapshotPage (now : Instant) (remoteId consumerId : String) (cursor : SnapshotCursorClaims)
      (limit : ℕ)

namespace StoreOp

section Run

variable (S : SnapshotEnv) (cfg : SyncConfig) (sha256 : ByteArray → String)

/-- What an operation leaves, or the error that it raises. -/
def apply (st : LiteStore) : StoreOp → Except PyError LiteStore
  | .mutate business events =>
    (events.foldlM (fun (s : SyncState) e => s.captureLocalEvent cfg e) st.sync).map fun sync => ⟨business, sync⟩
  | .repo op => op.apply cfg S.toEnv sha256 st
  | .createSnapshot now remoteId consumerId requestId limit snapshotId =>
    (syncCreateSnapshot S cfg st now remoteId consumerId requestId limit snapshotId).map Prod.fst
  | .snapshotPage now remoteId consumerId cursor limit =>
    (syncSnapshotPage st now remoteId consumerId cursor limit).map Prod.fst

end Run

/-- The identifier that a snapshot is given is a canonical one that no snapshot has. -/
def Minted (st : LiteStore) : StoreOp → Prop
  | .createSnapshot _ _ _ _ _ snapshotId =>
    CanonicalUuid snapshotId ∧ ∀ x ∈ st.sync.snapshots, x.snapshotId ≠ snapshotId
  | _ => True

/-- There is a position above the retention floor. -/
def HasRoom (s : SyncState) : Prop := s.retentionFloor < s.nextStreamSeq

/-- A page that is applied is applied under a name. -/
def Named (cfg : SyncConfig) (st : LiteStore) (d : Delivery) : Prop :=
  ∀ remoteId p, d.content = .page remoteId p →
    st.sync.confirmed cfg remoteId < p.nextAfterSeq → cfg.localNodeId ≠ ""

/-- The snapshot of a request that has not expired. -/
def Answered (s : SyncState) (now : Instant) (remoteId consumerId requestId : String) : Prop :=
  ∃ x ∈ (s.cleanupExpiredSnapshots now).snapshots, requestKey x = (remoteId, consumerId, requestId)

/-- When the state that an operation leaves is accepted. -/
def Keeps (S : SnapshotEnv) (cfg : SyncConfig) (st : LiteStore) : StoreOp → Prop
  | .mutate _ events => HasRoom st.sync ∨ cfg.captureRequired = false ∨ events = []
  | .repo (.capture _ _) => HasRoom st.sync ∨ cfg.captureRequired = false
  | .repo (.deliver d) => (HasRoom st.sync ∨ d.admitted cfg st = []) ∧ Named cfg st d
  | .repo (.registerTarget _ targetId bootstrap) =>
    HasRoom st.sync ∨ (st.sync.targets.get? targetId).isSome = true ∨ bootstrap = .future
  | .repo (.page _ _ _ cursor _) => ∀ c ∈ cursor, c.afterSeq < st.sync.nextStreamSeq
  | .createSnapshot now remoteId consumerId requestId _ _ =>
    Answered st.sync now remoteId consumerId requestId ∨
      (HasRoom st.sync ∧ (st.business.copied S).Nodup)
  | _ => True

end StoreOp

variable {S : SnapshotEnv} {cfg : SyncConfig} {sha256 : ByteArray → String}

/-! ## Captures -/

/-- One capture of a node that captures. -/
theorem captureLocalEvent_appends {s s' : SyncState} {e : SyncEvent}
    (hcapture : cfg.captureRequired = true) (h : s.captureLocalEvent cfg e = .ok s') :
    ∃ seq, s.appendEvent cfg e = .ok (s', seq) := by
  unfold captureLocalEvent at h
  rw [if_neg (by simp [hcapture])] at h
  split_ifs at h
  obtain ⟨⟨s₁, seq⟩, happend, rfl⟩ := Except.map_ok h
  exact ⟨seq, happend⟩

theorem captures_off {events : List SyncEvent} {s s' : SyncState}
    (hcapture : cfg.captureRequired = false)
    (h : events.foldlM (fun (s : SyncState) e => s.captureLocalEvent cfg e) s = .ok s') :
    s' = s := by
  induction events generalizing s with
  | nil => exact (Except.ok.inj h).symm
  | cons e events ih =>
    rw [List.foldlM_cons, captureLocalEvent, if_pos hcapture] at h
    exact ih h

/-- The captures of a mutator keep a state valid where the stream has room, and append an event
each. -/
theorem captures_valid {events : List SyncEvent} {s s' : SyncState}
    (hcapture : cfg.captureRequired = true) (hvalid : s.Valid)
    (hroom : StoreOp.HasRoom s ∨ events = [])
    (h : events.foldlM (fun (s : SyncState) e => s.captureLocalEvent cfg e) s = .ok s') :
    s'.Valid := by
  induction events generalizing s with
  | nil =>
    cases Except.ok.inj h
    exact hvalid
  | cons e events ih =>
    rw [List.foldlM_cons] at h
    obtain ⟨s₁, hstep, hrest⟩ := Except.bind_ok.mp h
    obtain ⟨seq, happend⟩ := captureLocalEvent_appends hcapture hstep
    have hfloor : s.retentionFloor < s.nextStreamSeq := hroom.resolve_right (List.cons_ne_nil _ _)
    have hentered := (appendEvent_entered happend).1
    refine ih (hvalid.appendEvent hfloor happend) (.inl ?_) hrest
    rw [StoreOp.HasRoom, hentered.floor, hentered.next]
    omega

theorem captures_entered {events : List SyncEvent} {s s' : SyncState}
    (hcapture : cfg.captureRequired = true)
    (h : events.foldlM (fun (s : SyncState) e => s.captureLocalEvent cfg e) s = .ok s') :
    Entered s s' events.length := by
  induction events generalizing s with
  | nil =>
    cases Except.ok.inj h
    exact .refl _
  | cons e events ih =>
    rw [List.foldlM_cons] at h
    obtain ⟨s₁, hstep, hrest⟩ := Except.bind_ok.mp h
    obtain ⟨seq, happend⟩ := captureLocalEvent_appends hcapture hstep
    rw [List.length_cons, Nat.add_comm]
    exact (appendEvent_entered happend).1.trans (ih hrest)

theorem captures_valid_iff {events : List SyncEvent} {s s' : SyncState} (hvalid : s.Valid)
    (h : events.foldlM (fun (s : SyncState) e => s.captureLocalEvent cfg e) s = .ok s') :
    s'.Valid ↔ StoreOp.HasRoom s ∨ cfg.captureRequired = false ∨ events = [] := by
  cases hcapture : cfg.captureRequired with
  | false =>
    rw [captures_off hcapture h]
    exact iff_of_true hvalid (.inr (.inl rfl))
  | true =>
    constructor
    · intro hvalid'
      exact ((captures_entered hcapture h).room hvalid hvalid').imp_right .inr
    · intro hroom
      exact captures_valid hcapture hvalid (hroom.imp_right fun hor => hor.resolve_left (by simp)) h

/-! ## The other operations -/

theorem deliver_valid_iff {st st' : LiteStore} {d : Delivery}
    (hsha : ∀ bytes, Digest (sha256 bytes)) (hvalid : st.sync.Valid)
    (h : deliver cfg S.toEnv sha256 st d = .ok st') :
    st'.sync.Valid ↔ (StoreOp.HasRoom st.sync ∨ d.admitted cfg st = []) ∧
      StoreOp.Named cfg st d := by
  obtain ⟨content, now, clock⟩ := d
  cases content with
  | batch b =>
    obtain ⟨⟨s₁, result⟩, hrun, rfl⟩ := Except.map_ok h
    constructor
    · intro hvalid'
      exact ⟨(syncApplyBatch_entered hrun).room hvalid hvalid',
        fun _ _ hpage => absurd hpage (by simp)⟩
    · exact fun hkeeps => syncApplyBatch_valid hsha hvalid hkeeps.1 hrun
  | page remoteId p =>
    obtain ⟨⟨s₁, result⟩, hrun, rfl⟩ := Except.map_ok h
    constructor
    · intro hvalid'
      refine ⟨(syncApplyPage_entered hrun).room hvalid hvalid', fun remoteId' p' hpage hnew => ?_⟩
      cases hpage
      exact syncApplyPage_named hvalid' hnew hrun
    · exact fun hkeeps => syncApplyPage_valid hvalid hkeeps.1 (hkeeps.2 remoteId p rfl) hrun

theorem registerTarget_valid_iff {s s' : SyncState} {now : Instant} {targetId : String}
    {bootstrap : Bootstrap} (hvalid : s.Valid)
    (h : s.registerTarget cfg now targetId bootstrap = .ok s') :
    s'.Valid ↔ StoreOp.HasRoom s ∨ (s.targets.get? targetId).isSome = true ∨
      bootstrap = .future := by
  refine ⟨fun hvalid' => ?_, fun hroom => hvalid.registerTarget hroom h⟩
  obtain ⟨_, -, h⟩ := Except.bind_ok.mp h
  obtain ⟨_, -, h⟩ := Except.bind_ok.mp h
  cases hfound : s.targets.get? targetId with
  | some t => exact .inr (.inl rfl)
  | none =>
    rw [hfound] at h
    obtain ⟨_, -, heq⟩ := Except.bind_ok.mp h
    cases Except.ok.inj heq
    cases bootstrap with
    | future => exact .inr (.inr rfl)
    | retained =>
      -- The target begins at the retention floor.
      exact .inl (hvalid'.targets _ (mem_upsertRow.mpr (.inl rfl))).bootstrap

theorem createSnapshot_valid_iff {st st' : LiteStore} {now : Instant} {limit : ℕ}
    {remoteId consumerId requestId snapshotId : String} {p : SyncSnapshotPage}
    (huuid : CanonicalUuid snapshotId)
    (hunused : ∀ x ∈ st.sync.snapshots, x.snapshotId ≠ snapshotId) (hvalid : st.sync.Valid)
    (h : syncCreateSnapshot S cfg st now remoteId consumerId requestId limit snapshotId =
      .ok (st', p)) :
    st'.sync.Valid ↔ StoreOp.Answered st.sync now remoteId consumerId requestId ∨
      (StoreOp.HasRoom st.sync ∧ (st.business.copied S).Nodup) := by
  obtain ⟨_, hremote, h⟩ := Except.bind_ok.mp h
  obtain ⟨_, hconsumer, h⟩ := Except.bind_ok.mp h
  obtain ⟨_, hrequest, h⟩ := Except.bind_ok.mp h
  obtain ⟨_, -, h⟩ := Except.bind_ok.mp h
  obtain ⟨⟨sync, row⟩, hopen, h⟩ := Except.bind_ok.mp h
  obtain ⟨_, -, heq⟩ := Except.bind_ok.mp h
  cases Except.ok.inj heq
  have hcleaned := hvalid.cleanupExpiredSnapshots now
  unfold LiteStore.openSnapshot at hopen
  split at hopen
  next found hfound =>
    obtain ⟨rfl, rfl⟩ := Prod.mk.inj (Except.ok.inj hopen)
    have htest := List.find?_some hfound
    have hkey : requestKey found = (remoteId, consumerId, requestId) := by
      obtain ⟨h₁, h₂, h₃⟩ := decide_eq_true_eq.mp htest
      rw [requestKey, h₁, h₂, h₃]
    exact iff_of_true hcleaned (.inl ⟨found, List.mem_of_find?_eq_some hfound, hkey⟩)
  next hnone =>
    have hnew : ∀ x ∈ (st.sync.cleanupExpiredSnapshots now).snapshots,
        requestKey x ≠ (remoteId, consumerId, requestId) := fun x hx hkey => by
      obtain ⟨h₁, hkey⟩ := Prod.mk.inj hkey
      obtain ⟨h₂, h₃⟩ := Prod.mk.inj hkey
      exact List.find?_eq_none.mp hnone x hx (decide_eq_true ⟨h₁, h₂, h₃⟩)
    have hfresh := Valid.newSnapshot_iff hcleaned (require_ok.mp hremote)
      (require_ok.mp hconsumer) (require_ok.mp hrequest) huuid
      (fun x hx => hunused x (List.mem_of_mem_filter hx)) hnew hopen
    refine hfresh.trans ⟨.inr, fun hor => hor.resolve_left ?_⟩
    rintro ⟨x, hx, hkey⟩
    exact hnew x hx hkey

theorem syncSnapshotPage_valid {st st' : LiteStore} {now : Instant} {remoteId consumerId : String}
    {cursor : SnapshotCursorClaims} {limit : ℕ} {p : Except PyError SyncSnapshotPage}
    (hvalid : st.sync.Valid)
    (h : syncSnapshotPage st now remoteId consumerId cursor limit = .ok (st', p)) :
    st'.sync.Valid := by
  have hcleaned := hvalid.cleanupExpiredSnapshots now
  obtain ⟨_, -, h⟩ := Except.bind_ok.mp h
  obtain ⟨_, -, h⟩ := Except.bind_ok.mp h
  obtain ⟨_, -, h⟩ := Except.bind_ok.mp h
  obtain ⟨_, -, h⟩ := Except.bind_ok.mp h
  split at h
  · cases Except.ok.inj h
    exact hcleaned
  · obtain ⟨_, -, h⟩ := Except.bind_ok.mp h
    obtain ⟨_, -, h⟩ := Except.bind_ok.mp h
    obtain ⟨_, -, heq⟩ := Except.bind_ok.mp h
    cases Except.ok.inj heq
    exact hcleaned

theorem repo_valid_iff {st st' : LiteStore} {op : SyncOp} (hsha : ∀ bytes, Digest (sha256 bytes))
    (hvalid : st.sync.Valid) (h : op.apply cfg S.toEnv sha256 st = .ok st') :
    st'.sync.Valid ↔ (StoreOp.repo op).Keeps S cfg st := by
  have hkeys : st.sync.deliveryKeys.Nodup := hvalid.delivery_keys
  cases op with
  | capture business event =>
    obtain ⟨sync, hrun, rfl⟩ := Except.map_ok h
    have hfold : [event].foldlM (fun (s : SyncState) e => s.captureLocalEvent cfg e) st.sync =
        .ok sync := by
      rw [List.foldlM_cons, hrun]
      rfl
    rw [captures_valid_iff hvalid hfold]
    simp [StoreOp.Keeps]
  | deliver d => exact deliver_valid_iff hsha hvalid h
  | registerTarget now targetId bootstrap =>
    obtain ⟨sync, hrun, rfl⟩ := Except.map_ok h
    exact registerTarget_valid_iff hvalid hrun
  | setTargetEnabled targetId enabled =>
    obtain ⟨sync, hrun, rfl⟩ := Except.map_ok h
    exact iff_of_true (hvalid.setTargetEnabled hrun) trivial
  | claim now leaseId targetId limit leaseSeconds =>
    obtain ⟨⟨sync, handed⟩, hrun, rfl⟩ := Except.map_ok h
    exact iff_of_true ((claim_redelivers hkeys hrun).valid hvalid) trivial
  | ackBatch now deliveries receipts =>
    obtain ⟨sync, hrun, rfl⟩ := Except.map_ok h
    exact iff_of_true ((ackBatch_redelivers hkeys hrun).valid hvalid) trivial
  | fail clock delivery errorCode now =>
    obtain ⟨sync, hrun, rfl⟩ := Except.map_ok h
    have hrows := endLease_redelivers hkeys (failed_key cfg errorCode now)
      (leaseOk_failed cfg errorCode now) hrun
    exact iff_of_true (hrows.valid hvalid) trivial
  | deadLetter clock delivery errorCode now =>
    obtain ⟨sync, hrun, rfl⟩ := Except.map_ok h
    have hrows := endLease_redelivers (f := deadLettered errorCode now) hkeys (fun _ => rfl)
      (leaseOk_deadLettered errorCode now) hrun
    exact iff_of_true (hrows.valid hvalid) trivial
  | replayDeadLetter now targetId eventId =>
    obtain ⟨⟨sync, found⟩, hrun, rfl⟩ := Except.map_ok h
    exact iff_of_true ((replayDeadLetter_redelivers hrun).valid hvalid) trivial
  | page now remoteId consumerId cursor limit =>
    obtain ⟨⟨sync, p⟩, hrun, rfl⟩ := Except.map_ok h
    exact hvalid.page_iff hrun
  | compact now limit =>
    obtain ⟨⟨sync, n⟩, hrun, rfl⟩ := Except.map_ok h
    exact iff_of_true (hvalid.compact hrun) trivial

/-! ## The validator -/

/-- An operation that succeeds from an accepted state leaves an accepted state exactly when it
keeps the state. -/
theorem commit_accepted_iff (hsha : ∀ bytes, Digest (sha256 bytes)) {st st' : LiteStore}
    {op : StoreOp} {label : String} (haccepted : st.sync.validate label = .ok ())
    (hminted : op.Minted st) (h : op.apply S cfg sha256 st = .ok st') :
    st'.sync.validate label = .ok () ↔ op.Keeps S cfg st := by
  have hvalid := validate_ok.mp haccepted
  rw [validate_ok]
  cases op with
  | mutate business events =>
    obtain ⟨sync, hrun, rfl⟩ := Except.map_ok h
    exact captures_valid_iff hvalid hrun
  | repo op => exact repo_valid_iff hsha hvalid h
  | createSnapshot now remoteId consumerId requestId limit snapshotId =>
    obtain ⟨⟨s₁, p⟩, hrun, rfl⟩ := Except.map_ok h
    exact createSnapshot_valid_iff hminted.1 hminted.2 hvalid hrun
  | snapshotPage now remoteId consumerId cursor limit =>
    obtain ⟨⟨s₁, p⟩, hrun, rfl⟩ := Except.map_ok h
    exact iff_of_true (syncSnapshotPage_valid hvalid hrun) trivial

/-! ## Sample commits -/

/-- The functions of `sampleEnv`; no copy is named and no clock runs. -/
def sampleSnapshotEnv : SnapshotEnv where
  toEnv := sampleEnv
  uuid5 name := name
  format _ := ""
  clock _ := sampleFactA.version.occurredAt

/-- A text of the length of a digest. -/
def sampleZeros : String := "0000000000000000000000000000000000000000000000000000000000000000"

/-- A store that took one event from a peer. -/
def sampleFed : LiteStore :=
  runRepo (sampleConfig "local") sampleEnv (fun _ => sampleZeros) .empty sampleArrival

/-- A page is asked for with a cursor of an earlier life of the store, whose stream was longer. -/
def sampleStalePage : StoreOp :=
  .repo (.page 0 "peer" "main" (some ⟨"t", "peer", "main", 7, 7, none, 1, by decide⟩) 5)

/-- The page is answered, but its commit is refused. -/
theorem stale_cursor_refused :
    sampleFed.sync.validate "memory" = .ok () ∧
      ∃ st' ∈ (sampleStalePage.apply sampleSnapshotEnv (sampleConfig "local")
          (fun _ => sampleZeros) sampleFed).toOption,
        st'.sync.validate "memory" = .error (invalidLite "cursor after_seq") := by
  decide +kernel

/-- A target that is registered for the whole stream. -/
theorem sampleTarget_commits :
    ∃ st', StoreOp.apply sampleSnapshotEnv (sampleConfig "local") (fun _ => sampleZeros) sampleFed
        (.repo (.registerTarget 0 "other" .retained)) = .ok st' ∧
      st'.sync.validate "memory" = .ok () := by
  obtain ⟨st', hst'⟩ := Except.exists_ok (x := StoreOp.apply sampleSnapshotEnv (sampleConfig "local")
    (fun _ => sampleZeros) sampleFed (.repo (.registerTarget 0 "other" .retained)))
    (by decide +kernel)
  have haccepted : sampleFed.sync.validate "memory" = .ok () := by decide +kernel
  have hminted : StoreOp.Minted sampleFed (.repo (.registerTarget 0 "other" .retained)) := trivial
  refine ⟨st', hst', (commit_accepted_iff (fun _ => ?_) haccepted hminted hst').mpr (.inl ?_)⟩
  · decide +kernel
  · show sampleFed.sync.retentionFloor < sampleFed.sync.nextStreamSeq
    decide +kernel

end Memplex
