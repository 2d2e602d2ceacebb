import Memplex.Postgres.Stream
import Memplex.Sync.Pages
import Mathlib.Data.List.Sort

/-!
# Reading the outbox while it is written

`sync_page` of `PostgresSyncRepository` reads the rows of its tenant that are committed, in one
`REPEATABLE READ` snapshot, up to a high-water mark: the largest committed position, or the one that
the cursor carries from an earlier page. Since positions are drawn before they are committed, a page
misses an event if the event becomes visible later below the mark.

It does not (`sync_page_gap_free`): transactions write under the lock of their tenant, so every mark
that the repository gives out is settled (`StreamDatabase.Inv`). What a page holds is complete up to
its cursor, whatever is committed, rolled back or compacted before and after it.
-/

namespace Memplex

open Lib PostgresStream

/-- `_build_event`, on a row of the outbox. -/
def buildEvent (tenantId : String) (row : OutboxColumns) : Except PyError SyncEvent := do
  let eventId ← requireStr row.eventId "event_id"
  let originNodeId ← requireStr row.originNodeId "origin_node_id"
  let nodeTypeText ← requireStr row.nodeType "node_type"
  let some nodeType := SyncNodeType.ofValue (.str nodeTypeText)
    | .error (valueError ("'" ++ nodeTypeText ++ "' is not a valid SyncNodeType"))
  let entityKeyText ← requireStr row.entityKey "entity_key"
  let entityKey ← SyncEntityKey.parse (.str entityKeyText)
  let operationText ← requireStr row.operation "operation"
  let some operation := SyncOperation.ofValue (.str operationText)
    | .error (valueError ("'" ++ operationText ++ "' is not a valid SyncOperation"))
  let version ← requireStr row.versionKey "version_key"
  let owner ← requireStr row.ownerSubjectId "owner_subject_id"
  let workspace ← optionalColumn row.workspaceId "workspace_id"
  let visibility ← requireStr row.visibility "visibility"
  let agent ← optionalColumn row.agentId "agent_id"
  let session ← optionalColumn row.sessionId "session_id"
  let scope ← SyncScope.create (.str tenantId) (.str owner) (.ofOptStr workspace) (.str visibility)
    (.ofOptStr agent) (.ofOptStr session)
  SyncEvent.create (.int 1) (.str eventId) (.str originNodeId) nodeType entityKey operation
    (.str version) scope (row.payload.getD .null)
where
  /-- `None if value is None else self._require_str(value, name)`. -/
  optionalColumn (value : Option String) (name : String) : Except PyError (Option String) :=
    match value with
    | none => .ok none
    | some s => (requireStr s name).map some

/-- The row that an event is inserted as. -/
def SyncEvent.columns (e : SyncEvent) : OutboxColumns where
  eventId := e.eventId
  originNodeId := e.originNodeId
  nodeType := e.nodeType.value
  entityKey := e.entityKey.text
  operation := e.change.operation.value
  versionKey := e.version.text
  payload := match e.change with
    | .upsert payload => some (.obj payload)
    | .tombstone => none
  visibility := e.scope.visibility.value
  ownerSubjectId := e.scope.ownerSubjectId
  workspaceId := e.scope.workspaceId
  agentId := e.scope.agentId
  sessionId := e.scope.sessionId

theorem requireStr_some {s name : String} (h : s ≠ "") : requireStr (some s) name = .ok s := by
  simp [requireStr, require, h, bind, Except.bind, pure, Except.pure]

theorem optionalColumn_eq {value : Option String} (h : ∀ s ∈ value, ExactString s) (name : String) :
    buildEvent.optionalColumn value name = .ok value := by
  cases value with
  | none => rfl
  | some s =>
    rw [buildEvent.optionalColumn, requireStr_some (h s rfl).1]
    rfl

/-- A row reads back as the event it was inserted for. -/
theorem buildEvent_columns (e : SyncEvent) : buildEvent e.scope.tenantId e.columns = .ok e := by
  have hpayload : e.columns.payload.getD .null = e.change.payload := by
    unfold SyncEvent.columns
    cases e.change <;> rfl
  have hvalid := e.scope.valid
  have htype : e.nodeType.value ≠ "" := by cases e.nodeType <;> decide
  have hoperation : e.change.operation.value ≠ "" := by
    cases e.change <;> simp [Change.operation, SyncOperation.value]
  have hkey : e.entityKey.text ≠ "" := by
    unfold SyncEntityKey.text EntityShape.text
    simp
  have hversion : e.version.text ≠ "" := by
    unfold SyncVersion.text
    simp
  have hscope := SyncScope.create_self e.scope
  have hself := SyncEvent.create_self e
  unfold buildEvent
  rw [hpayload]
  simp only [SyncEvent.columns, requireStr_some (s := e.eventId) e.version.event_valid.exact.1,
    requireStr_some (s := e.originNodeId) e.version.origin_valid.1, requireStr_some htype,
    requireStr_some hkey, requireStr_some hoperation, requireStr_some hversion,
    requireStr_some hvalid.owner.1, requireStr_some e.scope.visibility.value_exact.1,
    optionalColumn_eq hvalid.workspace, optionalColumn_eq hvalid.agent,
    optionalColumn_eq hvalid.session, SyncNodeType.ofValue_value, SyncOperation.ofValue_value,
    e.entityKey.parse_text, hscope, bind, Except.bind]
  exact hself

/-- A row of a tenant's stream. -/
abbrev StreamRow := Sequenced.Row String OutboxColumns

/-- An item of a page, from a row of the outbox. -/
def streamItem (tenantId : String) (r : StreamRow) : Except PyError SyncStreamItem := do
  require (1 ≤ r.pos) (valueError "stream_seq must be >= 1")
  let event ← buildEvent tenantId r.value
  return ⟨r.pos, event⟩

/-- The outbox with the transactions that write to it, `memplex_sync_stream_state`, the positions in
`memplex_sync_cursors`, and the cursors that the service has signed. -/
structure StreamDatabase (ι : Type) where
  rows : Sequenced.State String ℤ ι OutboxColumns
  retentionFloor : String → ℕ
  compactedThrough : String → ℕ
  confirmed : String × String × String → ℕ
  issued : List SyncCursorClaims

namespace StreamDatabase

variable {ι : Type}

/-- `SELECT COALESCE(MAX(stream_seq), 0) FROM memplex_sync_outbox WHERE tenant_id = %s`. -/
def maxStreamSeq (db : StreamDatabase ι) (tenantId : String) : ℕ :=
  (((db.rows.committed.filter fun r => r.key = tenantId).map Sequenced.Row.pos).max?).getD 0

/-- `requested_after_seq`. -/
def requestedAfter : Option SyncCursorClaims → ℕ
  | none => 0
  | some c => c.afterSeq

/-- `snapshot_seq`, the high-water mark of a page. -/
def snapshotSeq (db : StreamDatabase ι) (tenantId : String) : Option SyncCursorClaims → ℕ
  | none => db.maxStreamSeq tenantId
  | some c =>
    if c.afterSeq = c.snapshotSeq then max c.afterSeq (db.maxStreamSeq tenantId) else c.snapshotSeq

/-- `next_confirmed_after_seq`, the position that a page begins after. -/
def confirmedAfter (db : StreamDatabase ι) (tenantId remoteId consumerId : String)
    (cursor : Option SyncCursorClaims) : ℕ :=
  max (db.confirmed (tenantId, remoteId, consumerId)) (requestedAfter cursor)

/-- The rows of a page and those after it, in order. -/
def pageRows (db : StreamDatabase ι) (tenantId remoteId : String) (after snapshot : ℕ) :
    List StreamRow :=
  (db.rows.committed.filter fun r => r.key = tenantId ∧ after < r.pos ∧ r.pos ≤ snapshot ∧
    r.value.originNodeId ≠ remoteId).mergeSort fun a b => a.pos ≤ b.pos

/-- `sync_page`. -/
def syncPage (db : StreamDatabase ι) (tenantId remoteId consumerId : String)
    (cursor : Option SyncCursorClaims) (limit : ℕ) : Except PyError SyncPage := do
  require (remoteId ≠ "") (valueError "remote_id must be non-empty")
  require (consumerId ≠ "") (valueError "consumer_id must be non-empty")
  require (1 ≤ limit) (valueError "limit must be >= 1")
  require (∀ c ∈ cursor, c.snapshotId = none)
    (valueError "sync page cursor must not include snapshot fields")
  require (∀ c ∈ cursor, c.tenantBinding = tenantId) (valueError "cursor tenant binding mismatch")
  require (∀ c ∈ cursor, c.remoteBinding = remoteId) (valueError "cursor remote binding mismatch")
  require (∀ c ∈ cursor, c.consumerBinding = consumerId)
    (valueError "cursor consumer binding mismatch")
  let snapshot := db.snapshotSeq tenantId cursor
  require (requestedAfter cursor ≤ snapshot) (valueError "cursor after sequence exceeds snapshot")
  require (db.retentionFloor tenantId ≤ requestedAfter cursor) ⟨.syncCursorExpired, "cursor_expired"⟩
  let after := db.confirmedAfter tenantId remoteId consumerId cursor
  let rows := (db.pageRows tenantId remoteId after snapshot).take (limit + 1)
  let hasMore : Bool := limit < rows.length
  let items ← (rows.take limit).mapM (streamItem tenantId)
  SyncPage.create items snapshot
    (if hasMore then (items.getLast?.map SyncStreamItem.streamSeq).getD snapshot else snapshot)
    hasMore

/-- The database after a consumer's position is recorded. -/
def record (db : StreamDatabase ι) (tenantId remoteId consumerId : String) (after : ℕ) :
    StreamDatabase ι :=
  { db with
    confirmed := Function.update db.confirmed (tenantId, remoteId, consumerId)
      (max (db.confirmed (tenantId, remoteId, consumerId)) after) }

/-- The database after a cursor is given out. -/
def issue (db : StreamDatabase ι) (c : SyncCursorClaims) : StreamDatabase ι :=
  { db with issued := c :: db.issued }

/-- `memplex_sync_compact`, once it has chosen the position to compact through. -/
def compact (db : StreamDatabase ι) (tenantId : String) (through : ℕ) : StreamDatabase ι :=
  { db with
    rows := db.rows.delete fun r => r.key ≠ tenantId ∨ through < r.pos
    retentionFloor := Function.update db.retentionFloor tenantId
      (max (db.retentionFloor tenantId) through)
    compactedThrough := Function.update db.compactedThrough tenantId
      (max (db.compactedThrough tenantId) through) }

/-- `resume_seq` of a new snapshot. -/
def resumeSeq (db : StreamDatabase ι) (tenantId : String) : ℕ :=
  max (db.maxStreamSeq tenantId) (db.compactedThrough tenantId)

/-- The cursor that a consumer continues with after a snapshot. -/
def resumeCursor (db : StreamDatabase ι) (tenantId remoteId consumerId : String)
    (expiresAt : Instant) : SyncCursorClaims where
  tenantBinding := tenantId
  remoteBinding := remoteId
  consumerBinding := consumerId
  afterSeq := db.resumeSeq tenantId
  snapshotSeq := db.resumeSeq tenantId
  snapshotId := none
  expiresAt := expiresAt
  ordered := le_rfl

section Runs

variable [DecidableEq ι] (hash : String → ℤ) (jsonb : String → Option Value)

/-- What happens to the outbox: a step of a writing transaction, a page, a snapshot, a compaction
through one of the rows, or a position that is recorded for a page of another node's stream. -/
inductive Step (db : StreamDatabase ι) : StreamDatabase ι → Prop
  | write {rows : Sequenced.State String ℤ ι OutboxColumns}
      (h : Sequenced.Step (Transaction hash jsonb) db.rows rows) : Step db { db with rows := rows }
  | page {tenantId remoteId consumerId : String} {cursor : Option SyncCursorClaims} {limit : ℕ}
      {p : SyncPage} (expiresAt : Instant) (hissued : ∀ c ∈ cursor, c ∈ db.issued)
      (h : db.syncPage tenantId remoteId consumerId cursor limit = .ok p) :
      Step db ((db.record tenantId remoteId consumerId (requestedAfter cursor)).issue
        (p.cursor tenantId remoteId consumerId expiresAt))
  | snapshot (tenantId remoteId consumerId : String) (expiresAt : Instant) :
      Step db (db.issue (db.resumeCursor tenantId remoteId consumerId expiresAt))
  | compact {r : StreamRow} (hr : r ∈ db.rows.committed) : Step db (db.compact r.key r.pos)
  | record (tenantId remoteId consumerId : String) (after : ℕ) :
      Step db (db.record tenantId remoteId consumerId after)

/-- Any number of steps. -/
inductive Run (db : StreamDatabase ι) : StreamDatabase ι → Prop
  | refl : Run db db
  | step {db' db'' : StreamDatabase ι} (h : Run db db') (hstep : Step hash jsonb db' db'') :
      Run db db''

/-- Before anything is written: the identity column begins at one. -/
structure Starts (db : StreamDatabase ι) : Prop where
  next_pos : 0 < db.rows.next
  idle : ∀ i, db.rows.txs i = none
  committed : db.rows.committed = []
  history : db.rows.history = []
  compacted : ∀ tenantId, db.compactedThrough tenantId = 0
  issued : db.issued = []

/-- What a database comes to from the start. -/
def Reachable (db : StreamDatabase ι) : Prop := ∃ db₀, Starts db₀ ∧ Run hash jsonb db₀ db

end Runs

/-! ## Marks are settled -/

/-- What holds of every database: the positions that readers rely on are settled, and only what the
retention floor has passed is gone. -/
structure Inv (hash : String → ℤ) (db : StreamDatabase ι) : Prop where
  rows : Sequenced.Inv (quotaLock hash) db.rows
  zero : ∀ tenantId, Sequenced.Settled db.rows tenantId 0
  compacted : ∀ tenantId, Sequenced.Settled db.rows tenantId (db.compactedThrough tenantId)
  issued : ∀ c ∈ db.issued, Sequenced.Settled db.rows c.tenantBinding c.snapshotSeq
  retained : ∀ r ∈ db.rows.history, db.retentionFloor r.key < r.pos → r ∈ db.rows.committed

variable {hash : String → ℤ} {jsonb : String → Option Value} {db db' : StreamDatabase ι}

theorem settled_max {tenantId : String} {a b : ℕ} (ha : Sequenced.Settled db.rows tenantId a)
    (hb : Sequenced.Settled db.rows tenantId b) : Sequenced.Settled db.rows tenantId (max a b) := by
  rcases max_choice a b with h | h <;> rw [h]
  · exact ha
  · exact hb

/-- The largest committed position is settled. -/
theorem Inv.maxStreamSeq (h : db.Inv hash) (tenantId : String) :
    Sequenced.Settled db.rows tenantId (db.maxStreamSeq tenantId) := by
  unfold StreamDatabase.maxStreamSeq
  cases hmax : ((db.rows.committed.filter fun r => r.key = tenantId).map Sequenced.Row.pos).max? with
  | none => exact h.zero tenantId
  | some m =>
    obtain ⟨r, hr, rfl⟩ := List.mem_map.mp (List.max?_mem hmax)
    obtain ⟨hmem, hkey⟩ := List.mem_filter.mp hr
    rw [decide_eq_true_eq] at hkey
    subst hkey
    exact h.rows.settled_of_history (h.rows.visible.subset hmem)

/-- The high-water mark of a page is settled. -/
theorem Inv.snapshotSeq (h : db.Inv hash) {tenantId : String} {cursor : Option SyncCursorClaims}
    (hissued : ∀ c ∈ cursor, c ∈ db.issued) (htenant : ∀ c ∈ cursor, c.tenantBinding = tenantId) :
    Sequenced.Settled db.rows tenantId (db.snapshotSeq tenantId cursor) := by
  cases cursor with
  | none => exact h.maxStreamSeq tenantId
  | some c =>
    have hc := h.issued c (hissued c rfl)
    rw [htenant c rfl] at hc
    unfold StreamDatabase.snapshotSeq
    dsimp only
    split_ifs with hend
    · rw [hend]
      exact settled_max hc (h.maxStreamSeq tenantId)
    · exact hc

/-- An item stands at the position of its row. -/
theorem streamItem_positions {tenantId : String} {rows : List StreamRow} {items : List SyncStreamItem}
    (h : List.Forall₂ (fun r item => streamItem tenantId r = .ok item) rows items) :
    items.map SyncStreamItem.streamSeq = rows.map Sequenced.Row.pos := by
  induction h with
  | nil => rfl
  | cons hitem _ ih =>
    obtain ⟨_, -, hitem⟩ := Except.bind_ok.mp hitem
    obtain ⟨event, -, heq⟩ := Except.bind_ok.mp hitem
    cases Except.ok.inj heq
    rw [List.map_cons, List.map_cons, ih]

/-- What a page that is served went by. -/
theorem syncPage_ok {tenantId remoteId consumerId : String} {cursor : Option SyncCursorClaims}
    {limit : ℕ} {p : SyncPage} (h : db.syncPage tenantId remoteId consumerId cursor limit = .ok p) :
    1 ≤ limit ∧ (∀ c ∈ cursor, c.tenantBinding = tenantId) ∧
      db.retentionFloor tenantId ≤ requestedAfter cursor ∧
      p.snapshotSeq = db.snapshotSeq tenantId cursor ∧
      ∃ rows, rows = db.pageRows tenantId remoteId
          (db.confirmedAfter tenantId remoteId consumerId cursor) p.snapshotSeq ∧
        List.Forall₂ (fun r item => streamItem tenantId r = .ok item) (rows.take limit) p.items ∧
        p.nextAfterSeq = pageEnd Sequenced.Row.pos limit p.snapshotSeq rows := by
  unfold syncPage at h
  obtain ⟨_, -, h⟩ := Except.bind_ok.mp h
  obtain ⟨_, -, h⟩ := Except.bind_ok.mp h
  obtain ⟨_, hlimit, h⟩ := Except.bind_ok.mp h
  obtain ⟨_, -, h⟩ := Except.bind_ok.mp h
  obtain ⟨_, htenant, h⟩ := Except.bind_ok.mp h
  obtain ⟨_, -, h⟩ := Except.bind_ok.mp h
  obtain ⟨_, -, h⟩ := Except.bind_ok.mp h
  obtain ⟨_, -, h⟩ := Except.bind_ok.mp h
  obtain ⟨_, hfloor, h⟩ := Except.bind_ok.mp h
  obtain ⟨items, hitems, h⟩ := Except.bind_ok.mp h
  obtain ⟨hpitems, hsnapshot, hnext, -⟩ := SyncPage.create_ok h
  have hall := Except.mapM_ok hitems
  rw [List.take_take, min_eq_left (Nat.le_succ limit)] at hall
  refine ⟨require_ok.mp hlimit, require_ok.mp htenant, require_ok.mp hfloor, hsnapshot, _, rfl, ?_, ?_⟩
  · rw [hpitems, hsnapshot]
    exact hall
  · rw [hnext, hsnapshot]
    -- The `LIMIT` is one row more than the page, which tells whether there is more.
    have hmore : (limit < ((db.pageRows tenantId remoteId
        (db.confirmedAfter tenantId remoteId consumerId cursor)
        (db.snapshotSeq tenantId cursor)).take (limit + 1)).length) ↔
        limit < (db.pageRows tenantId remoteId
          (db.confirmedAfter tenantId remoteId consumerId cursor)
          (db.snapshotSeq tenantId cursor)).length := by
      rw [List.length_take]
      omega
    simp only [decide_eq_true_eq, hmore]
    unfold pageEnd
    refine if_congr Iff.rfl ?_ rfl
    rw [← List.getLast?_map, ← List.getLast?_map, streamItem_positions hall]

/-- The rows of a page are in ascending order. -/
theorem Inv.pageRows_ascending (h : db.Inv hash) (tenantId remoteId : String) (after snapshot : ℕ) :
    Ascending Sequenced.Row.pos (db.pageRows tenantId remoteId after snapshot) := by
  have hsorted : (db.pageRows tenantId remoteId after snapshot).Pairwise
      fun a b => a.pos ≤ b.pos := by
    refine (List.pairwise_mergeSort (fun a b c hab hbc => ?_) (fun a b => ?_) _).imp fun hle => ?_
    · exact decide_eq_true ((of_decide_eq_true hab).trans (of_decide_eq_true hbc))
    · simpa using le_total a.pos b.pos
    · exact of_decide_eq_true hle
  -- The rows of one tenant are at different positions.
  have hdistinct : (db.pageRows tenantId remoteId after snapshot).Pairwise
      fun a b => a.pos ≠ b.pos := by
    refine ((List.mergeSort_perm _ _).pairwise_iff fun hne => Ne.symm hne).mpr ?_
    refine (h.rows.distinct.sublist (List.filter_sublist.trans h.rows.visible)).imp_of_mem ?_
    intro a b ha hb hne
    have hkeya := (decide_eq_true_eq.mp (List.mem_filter.mp ha).2).1
    have hkeyb := (decide_eq_true_eq.mp (List.mem_filter.mp hb).2).1
    exact hne (hkeya.trans hkeyb.symm)
  exact (hsorted.and hdistinct).imp fun hlt => lt_of_le_of_ne hlt.1 hlt.2

theorem mem_pageRows {tenantId remoteId : String} {after snapshot : ℕ} {r : StreamRow} :
    r ∈ db.pageRows tenantId remoteId after snapshot ↔ r ∈ db.rows.committed ∧ r.key = tenantId ∧
      after < r.pos ∧ r.pos ≤ snapshot ∧ r.value.originNodeId ≠ remoteId := by
  simp [pageRows]

/-! ## Runs -/

theorem Inv.start (h : db.Starts) : db.Inv hash where
  rows := Sequenced.inv_empty h.idle h.committed h.history
  zero tenantId := ⟨h.next_pos, fun i t hi => by rw [h.idle i] at hi; exact absurd hi (by simp)⟩
  compacted tenantId := by
    rw [h.compacted tenantId]
    exact ⟨h.next_pos, fun i t hi => by rw [h.idle i] at hi; exact absurd hi (by simp)⟩
  issued := by simp [h.issued]
  retained := by simp [h.history]

/-- A cursor is given out at a settled mark. -/
theorem Inv.issue (h : db.Inv hash) {c : SyncCursorClaims}
    (hc : Sequenced.Settled db.rows c.tenantBinding c.snapshotSeq) : (db.issue c).Inv hash :=
  { h with
    issued := fun c' hc' => by
      rcases List.mem_cons.mp hc' with rfl | hc'
      · exact hc
      · exact h.issued c' hc' }

theorem Inv.compact (h : db.Inv hash) {r : StreamRow} (hr : r ∈ db.rows.committed) :
    (db.compact r.key r.pos).Inv hash where
  rows := h.rows.delete _
  zero := h.zero
  compacted tenantId := by
    show Sequenced.Settled db.rows tenantId (Function.update db.compactedThrough r.key
      (max (db.compactedThrough r.key) r.pos) tenantId)
    by_cases htenant : tenantId = r.key
    · subst htenant
      rw [Function.update_self]
      exact settled_max (h.compacted _) (h.rows.settled_of_history (h.rows.visible.subset hr))
    · rw [Function.update_of_ne htenant]
      exact h.compacted tenantId
  issued := h.issued
  retained x hx hfloor := by
    have hfloor' : Function.update db.retentionFloor r.key (max (db.retentionFloor r.key) r.pos)
      x.key < x.pos := hfloor
    refine List.mem_filter.mpr ?_
    by_cases htenant : x.key = r.key
    · rw [htenant, Function.update_self] at hfloor'
      refine ⟨h.retained x hx ?_, ?_⟩
      · rw [htenant]
        exact (le_max_left _ _).trans_lt hfloor'
      · simp [(le_max_right _ _).trans_lt hfloor']
    · rw [Function.update_of_ne htenant] at hfloor'
      exact ⟨h.retained x hx hfloor', by simp [htenant]⟩

section Steps

variable [DecidableEq ι]

/-- The rows that a writing transaction commits are retained: they lie above the floor, as nothing
at a settled position or below becomes visible. -/
theorem Inv.write (h : db.Inv hash) {rows : Sequenced.State String ℤ ι OutboxColumns}
    (hstep : Sequenced.Step (Transaction hash jsonb) db.rows rows) :
    Inv hash { db with rows := rows } where
  rows := h.rows.step (fun _ htodo => htodo.guarded) hstep
  zero tenantId := (h.zero tenantId).step hstep
  compacted tenantId := (h.compacted tenantId).step hstep
  issued c hc := (h.issued c hc).step hstep
  retained r hr hfloor := by
    cases hstep with
    | start | lock | draw | rollback => exact h.retained r hr hfloor
    | commit hi =>
      rcases List.mem_append.mp hr with hr | hr
      · exact List.mem_append_left _ (h.retained r hr hfloor)
      · exact List.mem_append_right _ hr

/-- One step keeps the invariant. -/
theorem Inv.step (h : db.Inv hash) (hstep : Step hash jsonb db db') : db'.Inv hash := by
  cases hstep with
  | write hwrite => exact h.write hwrite
  | @page tenantId remoteId consumerId cursor limit p expiresAt hissued hp =>
    obtain ⟨-, htenant, -, hsnapshot, -⟩ := syncPage_ok hp
    have hrecord : (db.record tenantId remoteId consumerId (requestedAfter cursor)).Inv hash :=
      { h with }
    refine hrecord.issue ?_
    show Sequenced.Settled db.rows tenantId p.snapshotSeq
    rw [hsnapshot]
    exact h.snapshotSeq hissued htenant
  | snapshot tenantId remoteId consumerId expiresAt =>
    exact h.issue (settled_max (h.maxStreamSeq tenantId) (h.compacted tenantId))
  | compact hr => exact h.compact hr
  | record tenantId remoteId consumerId after => exact { h with }

/-- The invariant holds over a whole run. -/
theorem Inv.run (h : db.Inv hash) (hrun : Run hash jsonb db db') : db'.Inv hash := by
  induction hrun with
  | refl => exact h
  | step _ hstep ih => exact ih.step hstep

theorem Reachable.inv (h : db.Reachable hash jsonb) : db.Inv hash := by
  obtain ⟨db₀, hstart, hrun⟩ := h
  exact (Inv.start hstart).run hrun

/-- The outbox of a run is a run of the outbox. -/
theorem Run.rows (hrun : Run hash jsonb db db') :
    Sequenced.Run (Transaction hash jsonb) db.rows db'.rows := by
  induction hrun with
  | refl => exact .refl
  | step _ hstep ih =>
    cases hstep with
    | write h => exact ih.step h
    | compact hr => exact ih.delete _
    | page | snapshot | record => exact ih

/-- Whatever is done after a page was served, no event becomes visible at its high-water mark or
below, and the page has every event of the other nodes from where it begins up to its cursor, of all
that are ever visible. -/
theorem sync_page_gap_free (hdb : db.Reachable hash jsonb) {tenantId remoteId consumerId : String}
    {cursor : Option SyncCursorClaims} (hissued : ∀ c ∈ cursor, c ∈ db.issued) {limit : ℕ}
    {p : SyncPage} (hp : db.syncPage tenantId remoteId consumerId cursor limit = .ok p)
    (hrun : Run hash jsonb db db') :
    (∀ r ∈ db'.rows.committed, r.key = tenantId → r.pos ≤ p.snapshotSeq →
        r ∈ db.rows.committed) ∧
      ∀ r ∈ db'.rows.history, r.key = tenantId → r.value.originNodeId ≠ remoteId →
        db.confirmedAfter tenantId remoteId consumerId cursor < r.pos → r.pos ≤ p.nextAfterSeq →
        ∃ item ∈ p.items, streamItem tenantId r = .ok item := by
  have hinv := hdb.inv
  obtain ⟨hlimit, htenant, hfloor, hsnapshot, rows, hrows, hitems, hnext⟩ := syncPage_ok hp
  have hsettled : Sequenced.Settled db.rows tenantId p.snapshotSeq := by
    rw [hsnapshot]
    exact hinv.snapshotSeq hissued htenant
  refine ⟨fun r hr hkey hle => (hsettled.run hrun.rows hkey hle).1 hr,
    fun r hr hkey hforeign hafter hle => ?_⟩
  -- The event was visible, and it had not been compacted, since the page begins above the floor.
  have hle' : r.pos ≤ p.snapshotSeq := hle.trans p.nextAfter_le
  have hhistory := (hsettled.run hrun.rows hkey hle').2 hr
  have habove : db.retentionFloor r.key < r.pos := by
    rw [hkey]
    exact (hfloor.trans (le_max_right _ _)).trans_lt hafter
  have hrow : r ∈ rows := by
    rw [hrows]
    exact mem_pageRows.mpr ⟨hinv.retained r hhistory habove, hkey, hafter, hle', hforeign⟩
  have hasc : Ascending Sequenced.Row.pos rows := hrows ▸ hinv.pageRows_ascending _ _ _ _
  have htake := mem_take_of_le_pageEnd hasc hlimit hrow (hnext ▸ hle)
  obtain ⟨i, hi, rfl⟩ := List.mem_iff_getElem.mp htake
  have hilen : i < p.items.length := hitems.length_eq ▸ hi
  exact ⟨p.items[i], List.getElem_mem hilen, hitems.get hi hilen⟩

end Steps

/-! ## A sample run -/

/-- A database without transactions in flight, which has some rows and has drawn the positions below
`next`. -/
def sampleStream (next : ℕ) (rows : List StreamRow) : StreamDatabase ℕ where
  rows := ⟨next, fun _ => none, rows, rows⟩
  retentionFloor := fun _ => 0
  compactedThrough := fun _ => 0
  confirmed := fun _ => 0
  issued := []

/-- A page of one event is applied by a transaction that nothing else interleaves with. -/
theorem sampleStream_apply (hash : String → ℤ) (jsonb : String → Option Value) (next : ℕ)
    (rows : List StreamRow) (e : SyncEvent) :
    Run hash jsonb (sampleStream next rows)
      (sampleStream (next + 1) (rows ++ [⟨e.scope.tenantId, next, e.columns⟩])) := by
  have htenant : e.scope.tenantId ≠ "" := e.scope.valid.tenant.1
  have htodo : Transaction hash jsonb [.lock (retentionLock hash e.scope.tenantId),
      .lock (quotaLock hash e.scope.tenantId), .draw e.scope.tenantId e.columns] := by
    refine ⟨[.syncApplyPage ⟨none, none, none, none, none, none, none, none, none⟩
      ⟨false, none, fun _ => 0, fun _ _ => 0, fun _ => 0⟩ e.scope.tenantId [⟨e.columns, true, []⟩]],
      ?_⟩
    simp [WriterCall.actions, PostgresStream.syncApplyPage, PostgresStream.assertDeliveryQuota,
      additionalDeliveries, InboundItem.actions, htenant]
  obtain ⟨s, hs⟩ : ∃ s, s = (sampleStream next rows).rows := ⟨_, rfl⟩
  have hidle : ∀ j, s.txs j = none := fun j => by rw [hs]; rfl
  have hlock : ∀ l todo held, Sequenced.Step (Transaction hash jsonb)
      (s.setTx 0 (some ⟨.lock l :: todo, held, []⟩)) (s.setTx 0 (some ⟨todo, l :: held, []⟩)) := by
    intro l todo held
    have hstep : Sequenced.Step (Transaction hash jsonb)
        (s.setTx 0 (some ⟨.lock l :: todo, held, []⟩))
        ((s.setTx 0 (some ⟨.lock l :: todo, held, []⟩)).setTx 0 (some ⟨todo, l :: held, []⟩)) := by
      refine .lock Sequenced.State.setTx_self fun j u hj hu => ?_
      rcases Sequenced.State.setTx_txs hu with ⟨h0, -⟩ | hu
      · exact absurd h0 hj
      · exact absurd ((hidle j).symm.trans hu) (by simp)
    rwa [Sequenced.State.setTx_setTx] at hstep
  have hwrite : ∀ {s' s'' : Sequenced.State String ℤ ℕ OutboxColumns},
      Run hash jsonb (sampleStream next rows) { sampleStream next rows with rows := s' } →
      Sequenced.Step (Transaction hash jsonb) s' s'' →
      Run hash jsonb (sampleStream next rows) { sampleStream next rows with rows := s'' } :=
    fun hrun hstep => hrun.step (.write hstep)
  have hstart : Run hash jsonb (sampleStream next rows) { sampleStream next rows with rows := s } := by
    rw [hs]
    exact .refl
  have hlocked := hwrite (hwrite (hwrite hstart (.start (hidle 0) htodo)) (hlock _ _ _)) (hlock _ _ _)
  have hdrawn := hwrite hlocked (.draw Sequenced.State.setTx_self le_rfl)
  have hcommitted := hwrite hdrawn (.commit Sequenced.State.setTx_self)
  have hlast : Function.update s.txs 0 none = s.txs :=
    Function.update_eq_self_iff.mpr (hidle 0).symm
  have hdone : { sampleStream next rows with
      rows :=
        { next := s.next + 1
          txs := s.txs
          committed := s.committed ++ [⟨e.scope.tenantId, s.next, e.columns⟩]
          history := s.history ++ [⟨e.scope.tenantId, s.next, e.columns⟩] } } =
      sampleStream (next + 1) (rows ++ [⟨e.scope.tenantId, next, e.columns⟩]) := by
    rw [hs]
    rfl
  rw [← hdone]
  simpa only [Sequenced.State.setTx, Function.update_idem, List.nil_append, hlast] using hcommitted

/-- A reader is served the first event, and then a second one is written: the run meets the
conditions of the theorem. -/
theorem sync_page_gap_free_sample :
    ∃ (db db' : StreamDatabase ℕ), db.Reachable (fun s => s.length) (fun _ => none) ∧
      db.syncPage "t" "other" "reader" none 1 = .ok (samplePage sampleFactA) ∧
      Run (fun s => s.length) (fun _ => none) db db' ∧
      (∀ r ∈ db'.rows.committed, r.key = "t" → r.pos ≤ 1 → r ∈ db.rows.committed) ∧
      ∀ r ∈ db'.rows.history, r.key = "t" → r.value.originNodeId ≠ "other" →
        db.confirmedAfter "t" "other" "reader" none < r.pos → r.pos ≤ 1 →
        ∃ item ∈ (samplePage sampleFactA).items, streamItem "t" r = .ok item := by
  have hstarts : (sampleStream 1 []).Starts :=
    ⟨Nat.one_pos, fun _ => rfl, rfl, rfl, fun _ => rfl, rfl⟩
  have hfirst := sampleStream_apply (fun s => s.length) (fun _ => none) 1 [] sampleFactA
  have hsecond := sampleStream_apply (fun s => s.length) (fun _ => none) 2
    [⟨"t", 1, sampleFactA.columns⟩] sampleFunction
  have hpage : (sampleStream 2 [⟨"t", 1, sampleFactA.columns⟩]).syncPage "t" "other" "reader" none 1 =
      .ok (samplePage sampleFactA) := by
    have horigin : sampleFactA.columns.originNodeId ≠ "other" := by decide
    have hmark : (sampleStream 2 [⟨"t", 1, sampleFactA.columns⟩]).snapshotSeq "t" none = 1 := by
      simp [StreamDatabase.snapshotSeq, maxStreamSeq, sampleStream]
    have hrows : (sampleStream 2 [⟨"t", 1, sampleFactA.columns⟩]).pageRows "t" "other" 0 1 =
        [⟨"t", 1, sampleFactA.columns⟩] := by
      simp [pageRows, sampleStream, horigin]
    have hitem : streamItem "t" ⟨"t", 1, sampleFactA.columns⟩ = .ok ⟨1, sampleFactA⟩ := by
      have hevent := buildEvent_columns sampleFactA
      have htenant : sampleFactA.scope.tenantId = "t" := rfl
      rw [htenant] at hevent
      simp [streamItem, hevent, require, bind, Except.bind, pure, Except.pure]
    have hafter : (sampleStream 2 [⟨"t", 1, sampleFactA.columns⟩]).confirmedAfter "t" "other" "reader"
        none = 0 := rfl
    have hfloor : (sampleStream 2 [⟨"t", 1, sampleFactA.columns⟩]).retentionFloor "t" = 0 := rfl
    unfold syncPage
    simp only [hmark, hafter, hrows, hfloor]
    simp [require, requestedAfter, hitem, bind, Except.bind, pure, Except.pure]
    rfl
  obtain ⟨hvisible, hcomplete⟩ :=
    sync_page_gap_free ⟨_, hstarts, hfirst⟩ (fun c hc => by simp at hc) hpage hsecond
  exact ⟨_, _, ⟨_, hstarts, hfirst⟩, hpage, hsecond, hvisible, hcomplete⟩

end StreamDatabase

end Memplex
