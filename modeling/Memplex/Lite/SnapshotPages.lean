import Memplex.Lib.Keyset
import Memplex.Lite.Commits

/-!
# Reading a snapshot

A consumer that begins in the middle of the stream reads a snapshot first: its first page comes with
its creation, and each further page is asked for with a cursor at the last event of the page before.
Between two pages anything may happen to the store: records change, pages of peers are applied,
other snapshots are made, the stream is compacted.

`snapshot_pages` says that the pages are nevertheless the records as they were when the snapshot was
made, each once and in order, and that every event of the stream since then is still there. The
invariant is `Serves`: the row of the snapshot and the events that were stored for it stay as they
are. The order of a snapshot is strict, as the validator refuses an item that is stored twice.
-/

namespace Memplex

open Lib SyncState

/-! ## The order of a snapshot -/

theorem SyncNodeType.value_injective : Function.Injective SyncNodeType.value := fun t t' h => by
  have hvalue := ofValue_value t
  rw [h, ofValue_value] at hvalue
  exact (Option.some.inj hvalue).symm

theorem anchorBefore_asymmetric : Asymmetric anchorBefore := fun k k' h => by
  simp only [anchorBefore, decide_eq_true_eq, decide_eq_false_iff_not] at h ⊢
  rintro (h₁ | ⟨h₁, h₂⟩) <;> rcases h with h | ⟨h, h'⟩
  · exact lt_asymm h h₁
  · exact absurd h (ne_of_gt h₁)
  · exact absurd h₁ (ne_of_gt h)
  · exact lt_asymm h' h₂

theorem snapshotOrder_total (a b : SyncEvent) :
    (snapshotOrder a b || snapshotOrder b a) = true := by
  rw [Bool.or_eq_true]
  simp only [snapshotOrder, decide_eq_true_eq]
  rcases lt_trichotomy a.entity.1.value b.entity.1.value with h | h | h
  · exact .inl (.inl h)
  · exact (le_total a.entity.2.text b.entity.2.text).imp (fun h' => .inr ⟨h, h'⟩)
      fun h' => .inr ⟨h.symm, h'⟩
  · exact .inr (.inl h)

theorem snapshotOrder_trans (a b c : SyncEvent) (h : snapshotOrder a b = true)
    (h' : snapshotOrder b c = true) : snapshotOrder a c = true := by
  simp only [snapshotOrder, decide_eq_true_eq] at *
  rcases h with h | ⟨h₁, h₂⟩
  · rcases h' with h' | ⟨h₁', -⟩
    · exact .inl (h.trans h')
    · exact .inl (h₁' ▸ h)
  · rcases h' with h' | ⟨h₁', h₂'⟩
    · exact .inl (h₁ ▸ h')
    · exact .inr ⟨h₁.trans h₁', h₂.trans h₂'⟩

/-- Events of distinct entities are in strict order. -/
theorem anchorBefore_of_order {a b : SyncEvent} (h : snapshotOrder a b = true)
    (hne : a.entity ≠ b.entity) : anchorBefore a.entity b.entity = true := by
  simp only [snapshotOrder, decide_eq_true_eq] at h
  simp only [anchorBefore, decide_eq_true_eq]
  refine h.imp_right fun ⟨htype, hle⟩ => ⟨htype, lt_of_le_of_ne hle fun htext => hne ?_⟩
  exact Prod.ext (SyncNodeType.value_injective htype) (SyncEntityKey.text_injective htext)

/-- The events of a snapshot, without two of one entity, in ascending order of their entities. -/
theorem ascending_mergeSort {events : List SyncEvent} (h : (events.map SyncEvent.entity).Nodup) :
    KeyAscending SyncEvent.entity anchorBefore (events.mergeSort snapshotOrder) := by
  have hsorted := List.pairwise_mergeSort snapshotOrder_trans snapshotOrder_total events
  have hnodup : ((events.mergeSort snapshotOrder).map SyncEvent.entity).Nodup :=
    ((List.mergeSort_perm events snapshotOrder).map _).nodup_iff.mpr h
  exact hsorted.imp₂ (fun _ _ => anchorBefore_of_order) (List.pairwise_map.mp hnodup)

/-! ## Commits -/

namespace StoreOp

section Run

variable (S : SnapshotEnv) (cfg : SyncConfig) (sha256 : ByteArray → String)

/-- One operation in its transaction: what it leaves is committed if the validator accepts it, and
otherwise the store is as it was. -/
def commit (st : LiteStore) (op : StoreOp) : LiteStore :=
  match op.apply S cfg sha256 st with
  | .error _ => st
  | .ok st' =>
    match st'.sync.validate "memory" with
    | .error _ => st
    | .ok () => st'

/-- A run of a store. -/
def run (st : LiteStore) (ops : List StoreOp) : LiteStore :=
  ops.foldl (commit S cfg sha256) st

end Run

/-- An operation before the time at which a snapshot expires, that gives its identifier to no other
one. -/
def During (snapshotId : String) (expiresAt : Instant) : StoreOp → Prop
  | .repo (.compact now _) => now < expiresAt
  | .createSnapshot now _ _ _ _ newId => now < expiresAt ∧ newId ≠ snapshotId
  | .snapshotPage now _ _ _ _ => now < expiresAt
  | _ => True

end StoreOp

/-- A state that serves a snapshot: it has the row and the events of it. -/
structure Serves (row : SnapshotRow) (events : List SyncEvent) (s : SyncState) : Prop where
  valid : s.Valid
  row_mem : row ∈ s.snapshots
  items : (s.snapshotItems.filter fun x => x.snapshotId = row.snapshotId).map
    SnapshotItem.event = events

/-- What leaves a snapshot as it is. -/
structure SparesSnapshot (row : SnapshotRow) (s s' : SyncState) : Prop where
  row_mem : row ∈ s.snapshots → row ∈ s'.snapshots
  items : s'.snapshotItems.filter (fun x => x.snapshotId = row.snapshotId) =
    s.snapshotItems.filter fun x => x.snapshotId = row.snapshotId

section SparesSnapshot

variable {row : SnapshotRow} {s s₁ s' : SyncState} {cfg : SyncConfig} {now : Instant}

theorem SparesSnapshot.refl : SparesSnapshot row s s := ⟨id, rfl⟩

theorem SparesSnapshot.trans (h : SparesSnapshot row s s₁) (h' : SparesSnapshot row s₁ s') :
    SparesSnapshot row s s' :=
  ⟨h'.row_mem ∘ h.row_mem, h'.items.trans h.items⟩

/-- A change beside the snapshots. -/
theorem SparesSnapshot.of_eq (hrows : s'.snapshots = s.snapshots)
    (hitems : s'.snapshotItems = s.snapshotItems) : SparesSnapshot row s s' :=
  ⟨fun h => hrows ▸ h, by rw [hitems]⟩

theorem Arrives.spares (h : Arrives s s') : SparesSnapshot row s s' := by
  induction h with
  | refl => exact .refl
  | aside _ _ _ _ _ ih => exact ih.trans (.of_eq rfl rfl)
  | append e _ ih => exact ih.trans (.of_eq rfl rfl)

theorem Redelivers.spares (h : Redelivers s s') : SparesSnapshot row s s' := by
  rw [h.frame]
  exact .of_eq rfl rfl

/-- A cleanup before a snapshot expires. -/
theorem spares_cleanup (hids : (s.snapshots.map SnapshotRow.snapshotId).Nodup)
    (hrow : row ∈ s.snapshots) (hnow : now < row.expiresAt) :
    SparesSnapshot row s (s.cleanupExpiredSnapshots now) := by
  have hkept : row.snapshotId ∉
      (s.snapshots.filter fun x => x.expiresAt ≤ now).map SnapshotRow.snapshotId := by
    rintro hid
    obtain ⟨x, hx, heq⟩ := List.mem_map.mp hid
    obtain ⟨hx, hexpired⟩ := List.mem_filter.mp hx
    cases List.inj_on_of_nodup_map hids hx hrow heq
    exact absurd (decide_eq_true_eq.mp hexpired) (not_le.mpr hnow)
  refine ⟨fun _ => List.mem_filter.mpr ⟨hrow, decide_eq_true hkept⟩, ?_⟩
  show (s.snapshotItems.filter _).filter _ = _
  rw [List.filter_filter]
  refine List.filter_congr fun x _ => ?_
  by_cases hx : x.snapshotId = row.snapshotId
  · simp only [hx, decide_true, Bool.true_and]
    exact decide_eq_true hkept
  · simp [hx]

theorem captures_spares {events : List SyncEvent}
    (h : events.foldlM (fun (s : SyncState) e => s.captureLocalEvent cfg e) s = .ok s') :
    SparesSnapshot row s s' := by
  induction events generalizing s with
  | nil =>
    cases Except.ok.inj h
    exact .refl
  | cons e events ih =>
    rw [List.foldlM_cons] at h
    obtain ⟨s₁, hstep, hrest⟩ := Except.bind_ok.mp h
    exact (captureLocalEvent_arrives hstep).spares.trans (ih hrest)

theorem registerTarget_spares {targetId : String} {bootstrap : Bootstrap}
    (h : s.registerTarget cfg now targetId bootstrap = .ok s') : SparesSnapshot row s s' := by
  obtain ⟨_, -, h⟩ := Except.bind_ok.mp h
  obtain ⟨_, -, h⟩ := Except.bind_ok.mp h
  split at h
  · cases Except.ok.inj h
    exact .refl
  · obtain ⟨_, -, heq⟩ := Except.bind_ok.mp h
    cases Except.ok.inj heq
    exact .of_eq rfl rfl

theorem setTargetEnabled_spares {targetId : String} {enabled : Bool}
    (h : s.setTargetEnabled targetId enabled = .ok s') : SparesSnapshot row s s' := by
  obtain ⟨_, -, h⟩ := Except.bind_ok.mp h
  split at h
  · exact absurd h (by simp)
  · cases Except.ok.inj h
    exact .of_eq rfl rfl

theorem page_spares {remoteId consumerId : String} {cursor : Option SyncCursorClaims} {limit : ℕ}
    {p : SyncPage} (h : s.page now remoteId consumerId cursor limit = .ok (s', p)) :
    SparesSnapshot row s s' := by
  simp only [SyncState.page, Except.bind_ok] at h
  obtain ⟨_, -, _, -, _, -, _, -, _, -, _, -, heq⟩ := h
  cases Except.ok.inj heq
  split
  · exact .of_eq rfl rfl
  · exact .of_eq rfl rfl

theorem compact_spares (hids : (s.snapshots.map SnapshotRow.snapshotId).Nodup)
    (hrow : row ∈ s.snapshots) (hnow : now < row.expiresAt) {limit n : ℕ}
    (h : s.compact cfg now limit = .ok (s', n)) : SparesSnapshot row s s' := by
  obtain ⟨_, -, heq⟩ := Except.bind_ok.mp h
  cases Except.ok.inj heq
  refine (spares_cleanup hids hrow hnow).trans ?_
  unfold SyncState.dropEvents
  split
  · exact .of_eq rfl rfl
  · exact .of_eq rfl rfl

theorem createSnapshot_spares {S : SnapshotEnv} {st st' : LiteStore}
    {remoteId consumerId requestId snapshotId : String} {limit : ℕ} {p : SyncSnapshotPage}
    (hids : (st.sync.snapshots.map SnapshotRow.snapshotId).Nodup) (hrow : row ∈ st.sync.snapshots)
    (hnow : now < row.expiresAt) (hnew : snapshotId ≠ row.snapshotId)
    (h : syncCreateSnapshot S cfg st now remoteId consumerId requestId limit snapshotId =
      .ok (st', p)) : SparesSnapshot row st.sync st'.sync := by
  obtain ⟨_, -, h⟩ := Except.bind_ok.mp h
  obtain ⟨_, -, h⟩ := Except.bind_ok.mp h
  obtain ⟨_, -, h⟩ := Except.bind_ok.mp h
  obtain ⟨_, -, h⟩ := Except.bind_ok.mp h
  obtain ⟨⟨sync, x⟩, hopen, h⟩ := Except.bind_ok.mp h
  obtain ⟨_, -, heq⟩ := Except.bind_ok.mp h
  cases Except.ok.inj heq
  refine (spares_cleanup hids hrow hnow).trans ?_
  unfold LiteStore.openSnapshot at hopen
  split at hopen
  · cases Except.ok.inj hopen
    exact .refl
  · obtain ⟨_, -, hopen⟩ := Except.bind_ok.mp hopen
    obtain ⟨_, -, hopen⟩ := Except.bind_ok.mp hopen
    obtain ⟨⟨bound, events⟩, hcopy, hopen⟩ := Except.bind_ok.mp hopen
    obtain ⟨_, -, heq⟩ := Except.bind_ok.mp hopen
    cases Except.ok.inj heq
    obtain ⟨⟨tenantId, hbind⟩, -⟩ := currentSnapshotEvents_ok hcopy
    obtain ⟨tenant, rfl⟩ := bindRecords_congr hbind
    refine ⟨fun hmem => List.mem_append_left _ hmem, ?_⟩
    have hnone : (events.map fun e => (⟨snapshotId, e⟩ : SnapshotItem)).filter
        (fun x => x.snapshotId = row.snapshotId) = [] := by
      refine List.filter_eq_nil_iff.mpr fun x hx => ?_
      obtain ⟨e, -, rfl⟩ := List.mem_map.mp hx
      simpa using hnew
    rw [List.filter_append, hnone, List.append_nil]

theorem snapshotPage_spares {st st' : LiteStore} {remoteId consumerId : String}
    {cursor : SnapshotCursorClaims} {limit : ℕ} {p : Except PyError SyncSnapshotPage}
    (hids : (st.sync.snapshots.map SnapshotRow.snapshotId).Nodup) (hrow : row ∈ st.sync.snapshots)
    (hnow : now < row.expiresAt)
    (h : syncSnapshotPage st now remoteId consumerId cursor limit = .ok (st', p)) :
    SparesSnapshot row st.sync st'.sync := by
  have hspares := spares_cleanup hids hrow hnow
  obtain ⟨_, -, h⟩ := Except.bind_ok.mp h
  obtain ⟨_, -, h⟩ := Except.bind_ok.mp h
  obtain ⟨_, -, h⟩ := Except.bind_ok.mp h
  obtain ⟨_, -, h⟩ := Except.bind_ok.mp h
  split at h
  · cases Except.ok.inj h
    exact hspares
  · obtain ⟨_, -, h⟩ := Except.bind_ok.mp h
    obtain ⟨_, -, h⟩ := Except.bind_ok.mp h
    obtain ⟨_, -, heq⟩ := Except.bind_ok.mp h
    cases Except.ok.inj heq
    exact hspares

end SparesSnapshot

/-! ## Runs -/

section Run

variable {S : SnapshotEnv} {cfg : SyncConfig} {sha256 : ByteArray → String} {row : SnapshotRow}
  {events : List SyncEvent}

/-- Step lemma: an operation of the time of a snapshot leaves it as it is. -/
theorem StoreOp.apply_spares {st st' : LiteStore} {op : StoreOp} (hvalid : st.sync.Valid)
    (hrow : row ∈ st.sync.snapshots) (hduring : op.During row.snapshotId row.expiresAt)
    (h : op.apply S cfg sha256 st = .ok st') : SparesSnapshot row st.sync st'.sync := by
  have hkeys : st.sync.deliveryKeys.Nodup := hvalid.delivery_keys
  cases op with
  | mutate business events =>
    obtain ⟨sync, hrun, rfl⟩ := Except.map_ok h
    exact captures_spares hrun
  | createSnapshot now remoteId consumerId requestId limit snapshotId =>
    obtain ⟨⟨st₁, p⟩, hrun, rfl⟩ := Except.map_ok h
    exact createSnapshot_spares hvalid.snapshot_ids hrow hduring.1 hduring.2 hrun
  | snapshotPage now remoteId consumerId cursor limit =>
    obtain ⟨⟨st₁, p⟩, hrun, rfl⟩ := Except.map_ok h
    exact snapshotPage_spares hvalid.snapshot_ids hrow hduring hrun
  | repo op =>
    cases op with
    | capture business event =>
      obtain ⟨sync, hrun, rfl⟩ := Except.map_ok h
      exact (captureLocalEvent_arrives hrun).spares
    | deliver d => exact (deliver_arrives h).spares
    | registerTarget now targetId bootstrap =>
      obtain ⟨sync, hrun, rfl⟩ := Except.map_ok h
      exact registerTarget_spares hrun
    | setTargetEnabled targetId enabled =>
      obtain ⟨sync, hrun, rfl⟩ := Except.map_ok h
      exact setTargetEnabled_spares hrun
    | claim now leaseId targetId limit leaseSeconds =>
      obtain ⟨⟨sync, handed⟩, hrun, rfl⟩ := Except.map_ok h
      exact (claim_redelivers hkeys hrun).spares
    | ackBatch now deliveries receipts =>
      obtain ⟨sync, hrun, rfl⟩ := Except.map_ok h
      exact (ackBatch_redelivers hkeys hrun).spares
    | fail clock delivery errorCode now =>
      obtain ⟨sync, hrun, rfl⟩ := Except.map_ok h
      exact (endLease_redelivers hkeys (failed_key cfg errorCode now)
        (leaseOk_failed cfg errorCode now) hrun).spares
    | deadLetter clock delivery errorCode now =>
      obtain ⟨sync, hrun, rfl⟩ := Except.map_ok h
      exact (endLease_redelivers (f := deadLettered errorCode now) hkeys (fun _ => rfl)
        (leaseOk_deadLettered errorCode now) hrun).spares
    | replayDeadLetter now targetId eventId =>
      obtain ⟨⟨sync, found⟩, hrun, rfl⟩ := Except.map_ok h
      exact (replayDeadLetter_redelivers hrun).spares
    | page now remoteId consumerId cursor limit =>
      obtain ⟨⟨sync, p⟩, hrun, rfl⟩ := Except.map_ok h
      exact page_spares hrun
    | compact now limit =>
      obtain ⟨⟨sync, n⟩, hrun, rfl⟩ := Except.map_ok h
      exact compact_spares hvalid.snapshot_ids hrow hduring hrun

/-- A valid state that a spared snapshot is left in serves it. -/
theorem Serves.spared {s s' : SyncState} (h : Serves row events s)
    (hspares : SparesSnapshot row s s')
    (hvalid : s'.Valid) : Serves row events s' :=
  ⟨hvalid, hspares.row_mem h.row_mem, by rw [hspares.items]; exact h.items⟩

/-- Step lemma: a transaction in the time of a snapshot. -/
theorem Serves.commit {st : LiteStore} {op : StoreOp} (h : Serves row events st.sync)
    (hduring : op.During row.snapshotId row.expiresAt) :
    Serves row events (op.commit S cfg sha256 st).sync := by
  unfold StoreOp.commit
  split
  · exact h
  next st' happly =>
    split
    · exact h
    next hvalidate =>
      exact h.spared (StoreOp.apply_spares h.valid h.row_mem hduring happly)
        (validate_ok.mp hvalidate)

/-- Run lemma. -/
theorem Serves.run {st : LiteStore} {ops : List StoreOp} (h : Serves row events st.sync)
    (hduring : ∀ op ∈ ops, op.During row.snapshotId row.expiresAt) :
    Serves row events (StoreOp.run S cfg sha256 st ops).sync := by
  induction ops generalizing st with
  | nil => exact h
  | cons op ops ih =>
    obtain ⟨hop, hops⟩ := List.forall_mem_cons.mp hduring
    exact ih (h.commit hop) hops

/-! ## Pages -/

/-- The page of some events from a position on. -/
def pageAt (row : SnapshotRow) (events : List SyncEvent) (n limit : ℕ) : SyncSnapshotPage :=
  SyncState.snapshotPage row.snapshotId row.resumeSeq (events.drop n) limit

/-- A page of events in ascending order passes the checks of its constructor. -/
theorem pageAt_check (hasc : KeyAscending SyncEvent.entity anchorBefore events) {n limit : ℕ}
    (hlimit : 1 ≤ limit) : (pageAt row events n limit).check = .ok (pageAt row events n limit) := by
  have hsorted : ((pageAt row events n limit).events.map SyncEvent.entity).IsChain
      fun k k' => anchorBefore k k' = true := by
    refine List.Pairwise.isChain (List.pairwise_map.mpr ?_)
    exact hasc.sublist ((List.take_sublist _ _).trans (List.drop_sublist _ _))
  refine Except.bind_ok.mpr ⟨(), require_ok.mpr hsorted, ?_⟩
  refine Except.bind_ok.mpr ⟨(), require_ok.mpr fun hmore => ⟨fun hnil => ?_, ?_⟩, ?_⟩
  · have hlt : limit < (events.drop n).length := decide_eq_true_eq.mp hmore
    have hlength := congrArg List.length hnil
    rw [show (pageAt row events n limit).events = (events.drop n).take limit from rfl,
      List.length_take, List.length_nil] at hlength
    omega
  · exact if_pos hmore
  · refine Except.bind_ok.mpr ⟨(), require_ok.mpr fun hmore => ?_, rfl⟩
    have hlast : ¬ limit < (events.drop n).length := of_decide_eq_false hmore
    exact if_neg (by simpa using hlast)

/-- The last event before a position. -/
theorem getLast_take_drop {n limit : ℕ} {anchor : Entity}
    (hanchor : (pageAt row events n limit).nextAnchor = some anchor) :
    ∃ e, (events.take (n + limit)).getLast? = some e ∧ e.entity = anchor ∧ e ∈ events ∧
      limit < (events.drop n).length := by
  have hmore : limit < (events.drop n).length := by
    by_contra hnot
    have hnone : (pageAt row events n limit).nextAnchor = none := if_neg (by simpa using hnot)
    exact absurd (hnone.symm.trans hanchor) (by simp)
  have hlast : ((events.drop n).take limit).getLast?.map SyncEvent.entity = some anchor :=
    (if_pos (by simpa using hmore)).symm.trans hanchor
  obtain ⟨e, he, rfl⟩ := Option.map_eq_some_iff.mp hlast
  refine ⟨e, ?_, rfl, List.mem_of_mem_drop (List.mem_of_mem_take (List.mem_of_getLast? he)), hmore⟩
  rw [List.take_add, List.getLast?_append, he]
  rfl

/-- The events of a snapshot in their order. -/
theorem Serves.ascending {s : SyncState} (h : Serves row events s) :
    KeyAscending SyncEvent.entity anchorBefore (events.mergeSort snapshotOrder) := by
  refine ascending_mergeSort ?_
  have hkeys : ((s.snapshotItems.filter fun x => x.snapshotId = row.snapshotId).map
      itemKey).Nodup := h.valid.item_keys.sublist (List.filter_sublist.map _)
  rw [← h.items, List.map_map]
  refine List.Nodup.map_on (fun x hx y hy heq => ?_) hkeys.of_map
  refine List.inj_on_of_nodup_map hkeys hx hy (Prod.ext ?_ heq)
  have hx := decide_eq_true_eq.mp (List.mem_filter.mp hx).2
  have hy := decide_eq_true_eq.mp (List.mem_filter.mp hy).2
  exact hx.trans hy.symm

/-- The events of a snapshot are of the tenant that is bound. -/
theorem Serves.tenant {s : SyncState} (h : Serves row events s) {e : SyncEvent}
    (he : e ∈ events) : s.tenantBinding = some e.scope.tenantId := by
  rw [← h.items] at he
  obtain ⟨x, hx, rfl⟩ := List.mem_map.mp he
  exact (h.valid.items x (List.mem_of_mem_filter hx)).2

/-- A page that is asked for at the end of the page before begins there. -/
theorem Serves.page {st : LiteStore} (h : Serves row events st.sync) {tenantId : String}
    (htenant : ∀ e ∈ events, e.scope.tenantId = tenantId) {n limit limit' : ℕ} {anchor : Entity}
    (hanchor : (pageAt row (events.mergeSort snapshotOrder) n limit').nextAnchor = some anchor)
    {now expiresAt : Instant} (hnow : now < row.expiresAt) (hcursor : now < expiresAt)
    (hlimit : 1 ≤ limit) :
    ∃ st', syncSnapshotPage st now row.remoteId row.consumerId
        ⟨tenantId, row.remoteId, row.consumerId, row.resumeSeq, row.snapshotId, anchor,
          expiresAt⟩ limit =
          .ok (st', .ok (pageAt row (events.mergeSort snapshotOrder) (n + limit') limit)) ∧
      Serves row events st'.sync := by
  have hspares := spares_cleanup h.valid.snapshot_ids h.row_mem hnow
  have hserves := h.spared hspares (h.valid.cleanupExpiredSnapshots now)
  obtain ⟨-, hremote, hconsumer, -⟩ := (h.valid.snapshots row h.row_mem).1
  obtain ⟨e, hlast, rfl, he, -⟩ := getLast_take_drop hanchor
  have hmem : e ∈ events := (List.mergeSort_perm _ _).mem_iff.mp he
  have hevents : (st.sync.cleanupExpiredSnapshots now).snapshotEvents row.snapshotId =
      events.mergeSort snapshotOrder := congrArg (List.mergeSort · snapshotOrder) hserves.items
  have hbound : some tenantId = (st.sync.cleanupExpiredSnapshots now).tenantBinding := by
    rw [hserves.tenant hmem, htenant e hmem]
  have hfind : (st.sync.cleanupExpiredSnapshots now).snapshots.find?
      (fun x => x.snapshotId = row.snapshotId) = some row := by
    cases hfound : (st.sync.cleanupExpiredSnapshots now).snapshots.find?
        fun x => x.snapshotId = row.snapshotId with
    | none => exact absurd (decide_eq_true rfl) (List.find?_eq_none.mp hfound row hserves.row_mem)
    | some x =>
      have hid : x.snapshotId = row.snapshotId :=
        by simpa using List.find?_some hfound
      rw [List.inj_on_of_nodup_map hserves.valid.snapshot_ids (List.mem_of_find?_eq_some hfound)
        hserves.row_mem hid]
  have hrest : (st.sync.cleanupExpiredSnapshots now).snapshotAfter row.snapshotId e.entity =
      (events.mergeSort snapshotOrder).drop (n + limit') := by
    unfold SyncState.snapshotAfter
    rw [hevents]
    exact after_getLast_take anchorBefore_asymmetric h.ascending hlast
  have hanchored : ∃ x ∈ (st.sync.cleanupExpiredSnapshots now).snapshotEvents row.snapshotId,
      x.entity = e.entity := ⟨e, hevents ▸ he, rfl⟩
  refine ⟨{ st with sync := st.sync.cleanupExpiredSnapshots now }, ?_, hserves⟩
  refine Except.bind_ok.mpr ⟨(), require_ok.mpr hremote, Except.bind_ok.mpr ⟨(),
    require_ok.mpr hconsumer, Except.bind_ok.mpr ⟨(), require_ok.mpr hlimit, ?_⟩⟩⟩
  refine Except.bind_ok.mpr ⟨(), require_ok.mpr ⟨hbound, rfl, rfl, hcursor⟩, ?_⟩
  simp only [hfind]
  refine Except.bind_ok.mpr ⟨(), require_ok.mpr ⟨trivial, trivial, trivial⟩, Except.bind_ok.mpr ⟨(),
    require_ok.mpr hanchored, ?_⟩⟩
  rw [hrest]
  exact Except.bind_ok.mpr ⟨_, pageAt_check h.ascending hlimit, rfl⟩

end Run

/-- The call of a further page, after what happens to the store since the page before. -/
structure SnapshotCall where
  between : List StoreOp
  now : Instant
  limit : ℕ
  /-- When the cursor expires that the page is asked for with. -/
  expiresAt : Instant

/-- A call in the time of a snapshot, with a cursor that has not expired. -/
structure SnapshotCall.During (c : SnapshotCall) (snapshotId : String)
    (expiresAt : Instant) : Prop where
  between : ∀ op ∈ c.between, op.During snapshotId expiresAt
  now : c.now < expiresAt
  cursor : c.now < c.expiresAt
  limit : 1 ≤ c.limit

section Read

variable (S : SnapshotEnv) (cfg : SyncConfig) (sha256 : ByteArray → String)

/-- What a consumer reads after a page, with a cursor at its end for the page that follows. -/
def readOn (tenantId remoteId consumerId : String) :
    LiteStore → SyncSnapshotPage → List SnapshotCall →
      Except PyError (LiteStore × List SyncSnapshotPage)
  | st, _, [] => .ok (st, [])
  | st, p, c :: cs =>
    match p.nextAnchor with
    | none => .ok (st, [])
    | some anchor => do
      let (st, page) ← syncSnapshotPage (StoreOp.run S cfg sha256 st c.between) c.now remoteId
        consumerId
        ⟨tenantId, remoteId, consumerId, p.resumeSeq, p.snapshotId, anchor, c.expiresAt⟩ c.limit
      st.sync.validate "memory"
      let page ← page
      let (st, pages) ← readOn tenantId remoteId consumerId st page cs
      return (st, page :: pages)

end Read

section Run

variable {S : SnapshotEnv} {cfg : SyncConfig} {sha256 : ByteArray → String} {row : SnapshotRow}
  {events : List SyncEvent}

/-- A page after which nothing is asked for is the last one. -/
theorem pageAt_last {n limit : ℕ} (hlimit : 1 ≤ limit)
    (hnone : (pageAt row events n limit).nextAnchor = none) :
    (events.drop n).length ≤ limit := by
  by_contra hmore
  have hlt : limit < (events.drop n).length := Nat.lt_of_not_le hmore
  have hlast : ((events.drop n).take limit).getLast?.map SyncEvent.entity = none :=
    (if_pos (by simpa using hlt)).symm.trans hnone
  have hnil := List.getLast?_eq_none_iff.mp (Option.map_eq_none_iff.mp hlast)
  have hlength := congrArg List.length hnil
  rw [List.length_take, List.length_nil] at hlength
  omega

/-- Run lemma: the pages from a position on. -/
theorem Serves.readOn {st : LiteStore} (h : Serves row events st.sync) {tenantId : String}
    (htenant : ∀ e ∈ events, e.scope.tenantId = tenantId) {n limit : ℕ} (hlimit : 1 ≤ limit)
    {calls : List SnapshotCall} (hcalls : ∀ c ∈ calls, c.During row.snapshotId row.expiresAt) :
    ∃ st' pages, Memplex.readOn S cfg sha256 tenantId row.remoteId row.consumerId st
        (pageAt row (events.mergeSort snapshotOrder) n limit) calls = .ok (st', pages) ∧
      Serves row events st'.sync ∧
      (pageAt row (events.mergeSort snapshotOrder) n limit :: pages).flatMap
          SyncSnapshotPage.events =
        ((events.mergeSort snapshotOrder).drop n).take
          (limit + (calls.map SnapshotCall.limit).sum) ∧
      (∀ p ∈ pages, p.resumeSeq = row.resumeSeq) ∧
      ∀ p ∈ (pageAt row (events.mergeSort snapshotOrder) n limit :: pages).getLast?,
        (p.hasMore = true ↔ limit + (calls.map SnapshotCall.limit).sum <
          ((events.mergeSort snapshotOrder).drop n).length) := by
  induction calls generalizing st n limit with
  | nil =>
    refine ⟨st, [], rfl, h, by simp [pageAt, snapshotPage], by simp, fun p hp => ?_⟩
    cases hp
    simp [pageAt, snapshotPage]
  | cons c calls ih =>
    obtain ⟨hc, hcalls⟩ := List.forall_mem_cons.mp hcalls
    have hsum : ((c :: calls).map SnapshotCall.limit).sum =
        c.limit + (calls.map SnapshotCall.limit).sum := by simp
    cases hanchor : (pageAt row (events.mergeSort snapshotOrder) n limit).nextAnchor with
    | none =>
      -- Nothing follows, and nothing is asked for.
      have hdone := pageAt_last hlimit hanchor
      refine ⟨st, [], by rw [Memplex.readOn, hanchor], h, ?_, by simp, fun p hp => ?_⟩
      · have hall : ((events.mergeSort snapshotOrder).drop n).take limit =
            ((events.mergeSort snapshotOrder).drop n) := List.take_of_length_le hdone
        simp only [List.flatMap_cons, List.flatMap_nil, List.append_nil]
        rw [List.take_of_length_le (hdone.trans (Nat.le_add_right _ _))]
        exact hall
      · cases hp
        refine iff_of_false (fun hmore => ?_) (by omega)
        have hlt : limit < ((events.mergeSort snapshotOrder).drop n).length :=
          of_decide_eq_true hmore
        omega
    | some anchor =>
      obtain ⟨_, -, -, -, hlt⟩ := getLast_take_drop hanchor
      have hrun : Serves row events (StoreOp.run S cfg sha256 st c.between).sync :=
        h.run hc.between
      obtain ⟨st₁, hpage, hserves⟩ := hrun.page htenant hanchor hc.now hc.cursor hc.limit
      obtain ⟨st₂, pages, hread, hserved, hevents, hresume, hmore⟩ := ih hserves hc.limit hcalls
      refine ⟨st₂, pageAt row (events.mergeSort snapshotOrder) (n + limit) c.limit :: pages, ?_,
        hserved, ?_, List.forall_mem_cons.mpr ⟨rfl, hresume⟩, fun p hp => ?_⟩
      · rw [Memplex.readOn, hanchor]
        refine Except.bind_ok.mpr ⟨_, hpage, Except.bind_ok.mpr ⟨(), validate_ok.mpr
          hserves.valid, Except.bind_ok.mpr ⟨_, rfl, Except.bind_ok.mpr ⟨_, hread, rfl⟩⟩⟩⟩
      · have hsplit : ((events.mergeSort snapshotOrder).drop n).take
            (limit + (c.limit + (calls.map SnapshotCall.limit).sum)) =
              ((events.mergeSort snapshotOrder).drop n).take limit ++
                (((events.mergeSort snapshotOrder).drop n).drop limit).take
                  (c.limit + (calls.map SnapshotCall.limit).sum) := List.take_add
        rw [List.flatMap_cons, hevents, hsum, hsplit, List.drop_drop]
        rfl
      · rw [List.getLast?_cons_cons] at hp
        rw [hmore p hp, hsum, List.length_drop, List.length_drop]
        rw [List.length_drop] at hlt
        omega

/-- Copies that are in the order of a snapshot are stored as they are. -/
theorem currentSnapshotEvents_sorted {st : LiteStore} {bound : SyncState}
    (h : currentSnapshotEvents S cfg st = .ok (bound, events)) :
    events.mergeSort snapshotOrder = events := by
  obtain ⟨_, -, h⟩ := Except.bind_ok.mp h
  obtain ⟨_, -, h⟩ := Except.bind_ok.mp h
  obtain ⟨copies, -, heq⟩ := Except.bind_ok.mp h
  obtain ⟨-, rfl⟩ := Prod.mk.inj (Except.ok.inj heq)
  exact List.mergeSort_of_pairwise
    (List.pairwise_mergeSort snapshotOrder_trans snapshotOrder_total copies)

/-- The items of a new snapshot are its events. -/
theorem stored_events {items : List SnapshotItem} {snapshotId : String}
    (hold : items.filter (fun x => x.snapshotId = snapshotId) = []) (events : List SyncEvent) :
    ((items ++ events.map fun e => (⟨snapshotId, e⟩ : SnapshotItem)).filter
      (fun x => x.snapshotId = snapshotId)).map SnapshotItem.event = events := by
  have hall : (events.map fun e => (⟨snapshotId, e⟩ : SnapshotItem)).filter
      (fun x => x.snapshotId = snapshotId) = events.map fun e => ⟨snapshotId, e⟩ := by
    refine List.filter_eq_self.mpr fun x hx => ?_
    obtain ⟨e, -, rfl⟩ := List.mem_map.mp hx
    exact decide_eq_true rfl
  rw [List.filter_append, hold, hall, List.nil_append, List.map_map]
  exact List.map_id _

/-- No item is stored under an identifier that no snapshot has. -/
theorem items_unused {s : SyncState} {snapshotId : String} (hvalid : s.Valid)
    (hunused : ∀ x ∈ s.snapshots, x.snapshotId ≠ snapshotId) (now : Instant) :
    (s.cleanupExpiredSnapshots now).snapshotItems.filter
      (fun x => x.snapshotId = snapshotId) = [] := by
  refine List.filter_eq_nil_iff.mpr fun x hx hid => ?_
  obtain ⟨y, hy, heq⟩ := List.mem_map.mp (hvalid.items x (List.mem_of_mem_filter hx)).1
  exact hunused y hy (heq.trans (of_decide_eq_true hid))

/-- A committed creation, where the request has no snapshot yet, and its first page. -/
theorem syncCreateSnapshot_serves {st st₁ : LiteStore} {now : Instant} {limit : ℕ}
    {remoteId consumerId requestId snapshotId : String} {p : SyncSnapshotPage}
    (hvalid : st.sync.Valid) (hunused : ∀ x ∈ st.sync.snapshots, x.snapshotId ≠ snapshotId)
    (hnew : ¬ StoreOp.Answered st.sync now remoteId consumerId requestId)
    (hcreate : syncCreateSnapshot S cfg st now remoteId consumerId requestId limit snapshotId =
      .ok (st₁, p)) (hcommit : st₁.sync.Valid) :
    ∃ bound events, currentSnapshotEvents S cfg
        { st with sync := st.sync.cleanupExpiredSnapshots now } = .ok (bound, events) ∧
      Serves ⟨snapshotId, remoteId, consumerId, requestId, st.sync.nextStreamSeq - 1,
        now + cfg.snapshotTtlSeconds * second⟩ events st₁.sync ∧
      p = pageAt ⟨snapshotId, remoteId, consumerId, requestId, st.sync.nextStreamSeq - 1,
        now + cfg.snapshotTtlSeconds * second⟩ events 0 limit ∧ 1 ≤ limit := by
  obtain ⟨_, -, h⟩ := Except.bind_ok.mp hcreate
  obtain ⟨_, -, h⟩ := Except.bind_ok.mp h
  obtain ⟨_, -, h⟩ := Except.bind_ok.mp h
  obtain ⟨_, hlimit, h⟩ := Except.bind_ok.mp h
  obtain ⟨⟨sync, x⟩, hopen, h⟩ := Except.bind_ok.mp h
  obtain ⟨page, hpage, heq⟩ := Except.bind_ok.mp h
  obtain ⟨rfl, -⟩ := SyncSnapshotPage.check_ok hpage
  cases Except.ok.inj heq
  unfold LiteStore.openSnapshot at hopen
  split at hopen
  next found hfound =>
    -- A request that was answered before gets the old snapshot.
    refine absurd ⟨found, List.mem_of_find?_eq_some hfound, ?_⟩ hnew
    have htest := List.find?_some hfound
    obtain ⟨h₁, h₂, h₃⟩ := decide_eq_true_eq.mp htest
    rw [requestKey, h₁, h₂, h₃]
  next hnone =>
    obtain ⟨_, -, hopen⟩ := Except.bind_ok.mp hopen
    obtain ⟨_, -, hopen⟩ := Except.bind_ok.mp hopen
    obtain ⟨⟨bound, events⟩, hcopy, hopen⟩ := Except.bind_ok.mp hopen
    obtain ⟨_, -, heq⟩ := Except.bind_ok.mp hopen
    cases Except.ok.inj heq
    obtain ⟨⟨tenantId, hbind⟩, -⟩ := currentSnapshotEvents_ok hcopy
    obtain ⟨tenant, rfl⟩ := bindRecords_congr hbind
    have hevents := stored_events (items_unused hvalid hunused now) events
    refine ⟨_, events, hcopy,
      ⟨hcommit, List.mem_append_right _ (List.mem_singleton_self _), hevents⟩, ?_,
      require_ok.mp hlimit⟩
    have hstored := (congrArg (List.mergeSort · snapshotOrder) hevents).trans
      (currentSnapshotEvents_sorted hcopy)
    exact congrArg (SyncState.snapshotPage snapshotId (st.sync.nextStreamSeq - 1) · limit) hstored

/-- A store that holds no snapshot makes one for a request. -/
theorem exists_syncCreateSnapshot {st : LiteStore} {now : Instant} {limit : ℕ}
    {remoteId consumerId requestId snapshotId : String} {bound : SyncState}
    (hvalid : st.sync.Valid) (hfree : st.sync.snapshots = [])
    (hremote : remoteId ≠ "") (hconsumer : consumerId ≠ "") (hrequest : requestId ≠ "")
    (hlimit : 1 ≤ limit) (hremotes : 0 < cfg.maxActiveSnapshotsPerRemote)
    (htenants : 0 < cfg.maxActiveSnapshotsPerTenant)
    (hcopy : currentSnapshotEvents S cfg
      { st with sync := st.sync.cleanupExpiredSnapshots now } = .ok (bound, events))
    (hnodup : (st.business.copied S).Nodup)
    (hlarge : (st.business.copied S).length ≤ cfg.maxSnapshotItems) :
    ∃ r, syncCreateSnapshot S cfg st now remoteId consumerId requestId limit snapshotId =
      .ok r := by
  have hnone : (st.sync.cleanupExpiredSnapshots now).snapshots = [] := by
    rw [SyncState.cleanupExpiredSnapshots, hfree]
    rfl
  obtain ⟨⟨tenantId, hbind⟩, hperm, -⟩ := currentSnapshotEvents_ok hcopy
  obtain ⟨tenant, rfl⟩ := bindRecords_congr hbind
  have hlength : events.length ≤ cfg.maxSnapshotItems := by
    rw [← List.length_map (f := SyncEvent.address), hperm.length_eq]
    exact hlarge
  have hasc : KeyAscending SyncEvent.entity anchorBefore events := by
    rw [← currentSnapshotEvents_sorted hcopy]
    exact ascending_mergeSort (nodup_address_iff.mp (hperm.nodup_iff.mpr hnodup))
  have hunused : ∀ x ∈ st.sync.snapshots, x.snapshotId ≠ snapshotId := by simp [hfree]
  have hevents := (congrArg (List.mergeSort · snapshotOrder) (stored_events
    (items_unused hvalid hunused now) events)).trans (currentSnapshotEvents_sorted hcopy)
  have hopen : ∃ r, LiteStore.openSnapshot S cfg
      { st with sync := st.sync.cleanupExpiredSnapshots now } now remoteId consumerId requestId
      snapshotId = .ok r ∧ r.1.snapshotEvents r.2.snapshotId = events := by
    unfold LiteStore.openSnapshot
    rw [hnone]
    refine ⟨_, Except.bind_ok.mpr ⟨(), require_ok.mpr (by simpa [hnone] using hremotes),
      Except.bind_ok.mpr ⟨(), require_ok.mpr (by simpa [hnone] using htenants),
        Except.bind_ok.mpr ⟨_, hcopy, Except.bind_ok.mpr ⟨(), require_ok.mpr hlength, rfl⟩⟩⟩⟩,
      hevents⟩
  obtain ⟨⟨sync, row⟩, hopen, hstored⟩ := hopen
  have hpage : (SyncState.snapshotPage row.snapshotId row.resumeSeq
      (sync.snapshotEvents row.snapshotId) limit).check = .ok (pageAt row events 0 limit) := by
    rw [hstored]
    show (pageAt row events 0 limit).check = _
    exact pageAt_check hasc hlimit
  exact ⟨({ st with sync := sync }, pageAt row events 0 limit),
    Except.bind_ok.mpr ⟨(), require_ok.mpr hremote, Except.bind_ok.mpr ⟨(),
      require_ok.mpr hconsumer, Except.bind_ok.mpr ⟨(), require_ok.mpr hrequest,
        Except.bind_ok.mpr ⟨(), require_ok.mpr hlimit, Except.bind_ok.mpr ⟨_, hopen,
          Except.bind_ok.mpr ⟨_, hpage, rfl⟩⟩⟩⟩⟩⟩⟩

/-- The stream since a snapshot is there. -/
theorem Serves.stream {s : SyncState} (h : Serves row events s) {seq : ℕ}
    (hlo : row.resumeSeq < seq) (hhi : seq < s.nextStreamSeq) :
    seq ∈ s.outbox.map OutboxRow.streamSeq := by
  have hfloor := (h.valid.snapshots row h.row_mem).2.1
  rw [h.valid.seqs, List.mem_range'_1]
  omega

end Run

/-- A snapshot that has not expired is read as it was made, whatever happens to the store between
its pages: the pages are the copies of the records of that moment, each record once and in strict
order, as far as they were asked for, and tell whether more follow. From the sequence that they name
on, every event of the stream is still there, and stays until the snapshot expires. -/
theorem snapshot_pages (S : SnapshotEnv) (cfg : SyncConfig) (sha256 : ByteArray → String)
    {st st₁ : LiteStore} {label : String} (haccepted : st.sync.validate label = .ok ())
    {now : Instant} {remoteId consumerId requestId snapshotId : String} {limit : ℕ}
    {p : SyncSnapshotPage} (hunused : ∀ x ∈ st.sync.snapshots, x.snapshotId ≠ snapshotId)
    (hnew : ¬ StoreOp.Answered st.sync now remoteId consumerId requestId)
    (hcreate : syncCreateSnapshot S cfg st now remoteId consumerId requestId limit snapshotId =
      .ok (st₁, p)) (hcommit : st₁.sync.validate label = .ok ()) {calls : List SnapshotCall}
    (hcalls : ∀ c ∈ calls, c.During snapshotId (now + cfg.snapshotTtlSeconds * second)) :
    ∃ bound events st₂ pages,
      currentSnapshotEvents S cfg { st with sync := st.sync.cleanupExpiredSnapshots now } =
        .ok (bound, events) ∧
      (events.map SyncEvent.address).Perm (st.business.copied S) ∧
      KeyAscending SyncEvent.entity anchorBefore events ∧
      readOn S cfg sha256 (st₁.sync.tenantBinding.getD "") remoteId consumerId st₁ p calls =
        .ok (st₂, pages) ∧
      (p :: pages).flatMap SyncSnapshotPage.events =
        events.take (limit + (calls.map SnapshotCall.limit).sum) ∧
      (∀ q ∈ (p :: pages).getLast?,
        (q.hasMore = true ↔ limit + (calls.map SnapshotCall.limit).sum < events.length)) ∧
      (∀ q ∈ p :: pages, q.resumeSeq + 1 = st.sync.nextStreamSeq) ∧
      ∀ ops : List StoreOp,
        (∀ op ∈ ops, op.During snapshotId (now + cfg.snapshotTtlSeconds * second)) →
        ∀ seq, st.sync.nextStreamSeq ≤ seq →
          seq < (StoreOp.run S cfg sha256 st₂ ops).sync.nextStreamSeq →
          seq ∈ (StoreOp.run S cfg sha256 st₂ ops).sync.outbox.map OutboxRow.streamSeq := by
  have hvalid := validate_ok.mp haccepted
  obtain ⟨bound, events, hcopy, hserves, rfl, hlimit⟩ := syncCreateSnapshot_serves hvalid hunused
    hnew hcreate (validate_ok.mp hcommit)
  have hsorted := currentSnapshotEvents_sorted hcopy
  have htenant : ∀ e ∈ events, e.scope.tenantId = st₁.sync.tenantBinding.getD "" := fun e he => by
    rw [hserves.tenant he]
    rfl
  have hnext := hvalid.next_pos
  obtain ⟨st₂, pages, hread, hserved, hevents, hresume, hmore⟩ :=
    hserves.readOn (n := 0) (S := S) htenant hlimit hcalls
  rw [hsorted] at hread hevents hmore
  refine ⟨bound, events, st₂, pages, hcopy, (currentSnapshotEvents_ok hcopy).2.1,
    hsorted ▸ hserves.ascending, hread, hevents, hmore, ?_, fun ops hops seq hlo hhi => ?_⟩
  · refine List.forall_mem_cons.mpr ⟨?_, fun q hq => ?_⟩
    · show st.sync.nextStreamSeq - 1 + 1 = _
      omega
    · rw [hresume q hq]
      exact Nat.sub_add_cancel hnext
  -- The floor of the stream does not pass the snapshot while it lives.
  · refine (hserved.run hops).stream ?_ hhi
    show st.sync.nextStreamSeq - 1 < seq
    omega

/-- A store with a function and a fact, of two peers. -/
def sampleStored : LiteStore :=
  runRepo (sampleConfig "local") sampleEnv (fun _ => sampleZeros) .empty
    [.base (.deliver (samplePageDelivery "peer" (samplePage sampleFactA) "2024")),
      .base (.deliver (samplePageDelivery "other" (samplePage sampleFunction) "2024"))]

/-- A call for the rest of a snapshot, after a compaction and an arrival. -/
def sampleRest : SnapshotCall where
  between := [.repo (.compact 1 5),
    .repo (.deliver (samplePageDelivery "third" (samplePage sampleFactB) "2024"))]
  now := 2
  limit := 5
  expiresAt := 3

/-- The function comes with the creation of the snapshot, and the fact with the page after it. -/
theorem snapshot_pages_stored : ∃ st₁ p,
    syncCreateSnapshot sampleSnapshotEnv (sampleConfig "local") sampleStored 0 "reader" "main" "r" 1
      "00000000-0000-4000-8000-000000000009" = .ok (st₁, p) ∧
    ∃ st₂ pages, readOn sampleSnapshotEnv (sampleConfig "local") (fun _ => sampleZeros)
        (st₁.sync.tenantBinding.getD "") "reader" "main" st₁ p [sampleRest] = .ok (st₂, pages) ∧
      (((p :: pages).flatMap SyncSnapshotPage.events).map SyncEvent.address).Perm
        (sampleStored.business.copied sampleSnapshotEnv) := by
  have haccepted : sampleStored.sync.validate "memory" = .ok () := by decide +kernel
  have hvalid := validate_ok.mp haccepted
  have hfree : sampleStored.sync.snapshots = [] := by decide +kernel
  have hnodup : (sampleStored.business.copied sampleSnapshotEnv).Nodup := by decide +kernel
  have hlength : (sampleStored.business.copied sampleSnapshotEnv).length = 2 := by decide +kernel
  obtain ⟨⟨bound, events⟩, hcopy⟩ := Except.exists_ok (x := currentSnapshotEvents
    sampleSnapshotEnv (sampleConfig "local")
    { sampleStored with sync := sampleStored.sync.cleanupExpiredSnapshots 0 }) (by decide +kernel)
  have hmade : ∃ r, syncCreateSnapshot sampleSnapshotEnv (sampleConfig "local") sampleStored 0
      "reader" "main" "r" 1 "00000000-0000-4000-8000-000000000009" = .ok r :=
    exists_syncCreateSnapshot hvalid hfree (by decide) (by decide) (by decide) le_rfl (by decide)
      (by decide) hcopy hnodup (hlength ▸ by decide)
  obtain ⟨⟨st₁, p⟩, hcreate⟩ := hmade
  have hunused : ∀ x ∈ sampleStored.sync.snapshots,
      x.snapshotId ≠ "00000000-0000-4000-8000-000000000009" := by simp [hfree]
  have hnew : ¬ StoreOp.Answered sampleStored.sync 0 "reader" "main" "r" := by
    rintro ⟨x, hx, -⟩
    rw [SyncState.cleanupExpiredSnapshots, hfree] at hx
    exact absurd hx (by simp)
  have hcommit : st₁.sync.Valid := by
    refine (createSnapshot_valid_iff (by decide +kernel) hunused hvalid hcreate).mpr
      (.inr ⟨?_, hnodup⟩)
    show sampleStored.sync.retentionFloor < sampleStored.sync.nextStreamSeq
    decide +kernel
  have hcalls : ∀ c ∈ [sampleRest], c.During "00000000-0000-4000-8000-000000000009"
      (0 + (sampleConfig "local").snapshotTtlSeconds * second) := fun c hc => by
    rw [List.mem_singleton.mp hc]
    refine ⟨fun op hop => ?_, by decide +kernel, by decide +kernel, by decide⟩
    obtain rfl | rfl := List.mem_pair.mp hop
    · show (1 : Instant) < _
      decide +kernel
    · trivial
  obtain ⟨-, events, st₂, pages, -, hperm, -, hread, hevents, -⟩ :=
    snapshot_pages sampleSnapshotEnv (sampleConfig "local") (fun _ => sampleZeros) haccepted
      hunused hnew hcreate (validate_ok.mpr hcommit) hcalls
  refine ⟨st₁, p, hcreate, st₂, pages, hread, ?_⟩
  have hall : events.length = 2 := by
    rw [← hlength, ← hperm.length_eq, List.length_map]
  rw [hevents, List.take_of_length_le (by rw [hall]; decide)]
  exact hperm

end Memplex
