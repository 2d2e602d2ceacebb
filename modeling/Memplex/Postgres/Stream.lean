import Memplex.Lib.Sequenced
import Memplex.Postgres.Deliveries

/-!
# Writing to the outbox in PostgreSQL

Three kinds of call insert into `memplex_sync_outbox`: a statement on a business table, through the
triggers `memplex_sync_capture_before` and `memplex_sync_capture_local_change`; the function
`memplex_sync_apply_inbound`; and `sync_apply_page`. Each insert draws a position from one identity
column, which all tenants share. What a call does with locks and positions is the list of its
actions, in which a raised exception is `fail`; a transaction makes any number of such calls.

`WriterCall.actions_guarded` says that every one of them takes the lock of
`memplex_sync_assert_delivery_quota` for the tenant before it draws a position for it.
-/

namespace Memplex

open Lib

/-- The columns of `memplex_sync_outbox` besides the tenant and the position. -/
structure OutboxColumns where
  eventId : String
  originNodeId : String
  nodeType : String
  entityKey : String
  operation : String
  versionKey : String
  payload : Option Value
  visibility : String
  ownerSubjectId : String
  workspaceId : Option String
  agentId : Option String
  sessionId : Option String

namespace PostgresStream

/-- An action of a transaction: the locks are keys of `pg_advisory_xact_lock`, and the streams are
those of the tenants. -/
abbrev WriteAction := Sequenced.Action String ℤ OutboxColumns

/-- `TG_OP`. -/
inductive TriggerOp where
  | insert
  | update
  | delete
deriving DecidableEq

/-- The custom settings of a session, as `current_setting(name, true)` reads them. -/
structure CaptureSettings where
  syncCapture : Option String
  syncApplyMode : Option String
  tenantId : Option String
  subjectId : Option String
  syncOriginNodeId : Option String
  syncEventId : Option String
  syncVersionKey : Option String
  syncEntityKey : Option String
  syncPayload : Option String

/-- The row of a business table that a trigger is fired for, `COALESCE(NEW, OLD)`. -/
structure SourceRow where
  tenantId : String
  ownerSubject : Option String
  workspace : Option String
  visibility : Option String
  sourceAgent : Option String
  sourceSession : Option String

/-- What is read in other tables: whether the role of the session is an enabled ingress principal,
the local node, and for a tenant its enabled targets, those of them that are not a node, and its
deliveries to enabled targets that are not delivered. -/
structure WriterReads where
  ingressEnabled : Bool
  localNodeId : Option String
  enabledTargets : String → ℕ
  targetsExcept : String → String → ℕ
  pendingDeliveries : String → ℕ

/-- `NULLIF(value, '') IS NOT NULL`. -/
def isPresent (value : Option String) : Bool := value.any (· ≠ "")

/-- `^[0-9a-f]{8}-[0-9a-f]{4}-[1-5][0-9a-f]{3}-[89ab][0-9a-f]{3}-[0-9a-f]{12}$`. -/
def isEventId (s : String) : Bool :=
  CanonicalUuid s ∧ (s.toList[14]?.any fun c => '1' ≤ c ∧ c ≤ '5') ∧
    (s.toList[19]?.any fun c => c ∈ ['8', '9', 'a', 'b'])

/-- `^tag[A-Za-z0-9_-]+$`. -/
def isTagged (tag s : String) : Bool :=
  tag.toList.isPrefixOf s.toList ∧ tag.length < s.length ∧
    (s.toList.drop tag.length).all fun c => c.isAlphanum ∨ c = '_' ∨ c = '-'

section Triggers

variable (hash : String → ℤ) (jsonb : String → Option Value)

/-- The lock of `memplex_sync_assert_delivery_quota`, through `hashtextextended`. -/
def quotaLock (tenantId : String) : ℤ := hash ("memplex-sync-delivery-quota:" ++ tenantId)

/-- The lock of `_lock_retention`. -/
def retentionLock (tenantId : String) : ℤ := hash ("memplex-sync-retention:" ++ tenantId)

/-- `memplex_sync_assert_delivery_quota`. -/
def assertDeliveryQuota (r : WriterReads) (tenantId : String) (additional : ℤ) : List WriteAction :=
  if tenantId = "" ∨ additional < 0 then [.fail]
  else .lock (quotaLock hash tenantId) ::
    if 100000 < r.pendingDeliveries tenantId + additional then [.fail] else []

/-- The conditions of `memplex_sync_capture_before` on the settings of a local change. -/
def contextComplete (g : CaptureSettings) (r : WriterReads) (table : SyncNodeType) (op : TriggerOp)
    (row : SourceRow) : Bool :=
  isPresent g.tenantId ∧ isPresent g.subjectId ∧ isPresent g.syncOriginNodeId ∧
    g.syncOriginNodeId = r.localNodeId ∧ some row.tenantId = g.tenantId ∧
    g.syncEventId.any isEventId ∧ g.syncVersionKey.any (isTagged "v1:") ∧
    g.syncEntityKey.any (isTagged (if table = .edge then "edge:v1:" else "node:v1:")) ∧
    if op = .delete then !isPresent g.syncPayload
    else g.syncPayload.any fun p => (jsonb p).any fun v => v matches .obj _

/-- `memplex_sync_capture_before`. -/
def captureBefore (g : CaptureSettings) (r : WriterReads) (table : SyncNodeType) (op : TriggerOp)
    (row : SourceRow) : List WriteAction :=
  if g.syncCapture ≠ some "required" then []
  else if g.syncApplyMode = some "inbound" then
    if r.ingressEnabled then [] else [.fail]
  else if g.syncApplyMode ≠ some "local" then [.fail]
  else if ¬ contextComplete jsonb g r table op row then [.fail]
  else assertDeliveryQuota hash r row.tenantId (r.enabledTargets row.tenantId)

/-- The payload of a captured change, unless the cast of the setting raises. -/
def contextPayload (g : CaptureSettings) : TriggerOp → Option (Option Value)
  | .delete => some none
  | _ => match g.syncPayload with
    | none => some none
    | some p => (jsonb p).map some

/-- `memplex_sync_capture_local_change`. A column that is null and may not be is an exception. -/
def captureLocalChange (g : CaptureSettings) (table : SyncNodeType) (op : TriggerOp)
    (row : SourceRow) : List WriteAction :=
  if g.syncCapture ≠ some "required" ∨ g.syncApplyMode ≠ some "local" then []
  else match row.ownerSubject, row.workspace, row.visibility, g.syncEventId, g.syncOriginNodeId,
      g.syncEntityKey, g.syncVersionKey, contextPayload jsonb g op with
    | some owner, some workspace, some visibility, some eventId, some originNodeId, some entityKey,
        some versionKey, some payload =>
      [.draw row.tenantId
        { eventId, originNodeId
          nodeType := table.value
          entityKey
          operation := if op = .delete then "tombstone" else "upsert"
          versionKey, payload, visibility
          ownerSubjectId := owner
          workspaceId := some workspace
          agentId := row.sourceAgent
          sessionId := row.sourceSession }]
    | _, _, _, _, _, _, _, _ => [.fail]

/-- A statement on a business table: the changes that the triggers before it are fired for, and
those it makes. An `INSERT ... ON CONFLICT DO UPDATE` fires for the insert and for the update. -/
structure BusinessWrite where
  table : SyncNodeType
  fired : List (TriggerOp × SourceRow)
  changed : List (TriggerOp × SourceRow)
  changed_fired : changed ⊆ fired

/-- What the triggers of a statement do: those before its rows, and at its end those after them. -/
def BusinessWrite.actions (g : CaptureSettings) (r : WriterReads) (w : BusinessWrite) :
    List WriteAction :=
  (w.fired.flatMap fun c => captureBefore hash jsonb g r w.table c.1 c.2) ++
    w.changed.flatMap fun c => captureLocalChange jsonb g w.table c.1 c.2

/-! ## Events of other nodes -/

/-- An event of a batch or of a page: its row, whether it is accepted, and the statements on
business tables that it makes, a cascade being one of its own. -/
structure InboundItem where
  columns : OutboxColumns
  accepted : Bool
  writes : List BusinessWrite

/-- What is done for an event: nothing, or the business change and the row in the outbox. -/
def InboundItem.actions (g : CaptureSettings) (r : WriterReads) (tenantId : String)
    (item : InboundItem) : List WriteAction :=
  if item.accepted then
    (item.writes.flatMap fun w => w.actions hash jsonb g r) ++ [.draw tenantId item.columns]
  else []

/-- `memplex_sync_apply_inbound`, on a valid batch of a tenant that is `recorded` or not. -/
def applyInbound (g : CaptureSettings) (r : WriterReads) (tenantId : String) (recorded : Bool)
    (items : List InboundItem) : List WriteAction :=
  if recorded then []
  else assertDeliveryQuota hash r tenantId (r.enabledTargets tenantId * items.length) ++
    items.flatMap (InboundItem.actions hash jsonb
      { g with syncCapture := some "required", syncApplyMode := some "inbound" } r tenantId)

/-- The deliveries that a page adds: for an accepted event, one for every other node. -/
def additionalDeliveries (r : WriterReads) (tenantId : String) (items : List InboundItem) : ℕ :=
  ((items.filter InboundItem.accepted).map fun item =>
    r.targetsExcept tenantId item.columns.originNodeId).sum

/-- `sync_apply_page`, on a page that is not refused. -/
def syncApplyPage (g : CaptureSettings) (r : WriterReads) (tenantId : String)
    (items : List InboundItem) : List WriteAction :=
  .lock (retentionLock hash tenantId) ::
    (assertDeliveryQuota hash r tenantId (additionalDeliveries r tenantId items) ++
      items.flatMap (InboundItem.actions hash jsonb
        { g with syncCapture := some "off", syncApplyMode := some "off" } r tenantId))

/-- A call that may write to the outbox, or takes its lock, with what it reads. -/
inductive WriterCall where
  | write (g : CaptureSettings) (r : WriterReads) (w : BusinessWrite)
  | applyInbound (g : CaptureSettings) (r : WriterReads) (tenantId : String) (recorded : Bool)
      (items : List InboundItem)
  | syncApplyPage (g : CaptureSettings) (r : WriterReads) (tenantId : String)
      (items : List InboundItem)
  | assertDeliveryQuota (r : WriterReads) (tenantId : String) (additional : ℤ)

/-- What a call does. -/
def WriterCall.actions : WriterCall → List WriteAction
  | .write g r w => w.actions hash jsonb g r
  | .applyInbound g r tenantId recorded items =>
    PostgresStream.applyInbound hash jsonb g r tenantId recorded items
  | .syncApplyPage g r tenantId items => PostgresStream.syncApplyPage hash jsonb g r tenantId items
  | .assertDeliveryQuota r tenantId additional =>
    PostgresStream.assertDeliveryQuota hash r tenantId additional

/-- The transactions of the store, which make any calls. A call that raises for a reason that is not
told here ends its transaction, as any rollback does. -/
def Transaction (todo : List WriteAction) : Prop :=
  ∃ calls : List WriterCall, todo = calls.flatMap (WriterCall.actions hash jsonb)

/-! ## The lock comes first -/

variable {hash jsonb} {g : CaptureSettings} {r : WriterReads} {held : List ℤ} {tenantId : String}

theorem assertDeliveryQuota_guarded {additional : ℤ} :
    Sequenced.Guarded (quotaLock hash) held (assertDeliveryQuota hash r tenantId additional) := by
  unfold assertDeliveryQuota
  split_ifs <;> trivial

/-- Unless it raises, the quota is asserted under the lock. -/
theorem assertDeliveryQuota_locks {additional : ℤ}
    (h : Sequenced.Action.fail ∉ assertDeliveryQuota hash r tenantId additional) :
    .lock (quotaLock hash tenantId) ∈ assertDeliveryQuota hash r tenantId additional := by
  unfold assertDeliveryQuota at h ⊢
  split_ifs at h ⊢ <;> simp at h ⊢

theorem captureBefore_guarded {table : SyncNodeType} {op : TriggerOp} {row : SourceRow} :
    Sequenced.Guarded (quotaLock hash) held (captureBefore hash jsonb g r table op row) := by
  unfold captureBefore
  split_ifs
  · trivial
  · trivial
  · trivial
  · trivial
  · exact assertDeliveryQuota_guarded
  · trivial

/-- A local change is captured under the lock, unless the trigger before it raises. -/
theorem captureBefore_locks {table : SyncNodeType} {op : TriggerOp} {row : SourceRow}
    (hcapture : g.syncCapture = some "required") (hlocal : g.syncApplyMode = some "local")
    (h : Sequenced.Action.fail ∉ captureBefore hash jsonb g r table op row) :
    .lock (quotaLock hash row.tenantId) ∈ captureBefore hash jsonb g r table op row := by
  unfold captureBefore at h ⊢
  rw [hcapture, hlocal] at h ⊢
  rw [if_neg (by simp), if_neg (by simp), if_neg (by simp)] at h ⊢
  by_cases hcontext : ¬ contextComplete jsonb g r table op row = true
  · rw [if_pos hcontext] at h
    exact absurd h (by simp)
  · rw [if_neg hcontext] at h ⊢
    exact assertDeliveryQuota_locks h

/-- The trigger after a change draws a position of the row's tenant, if it does anything. -/
theorem captureLocalChange_guarded {table : SyncNodeType} {op : TriggerOp} {row : SourceRow}
    (h : g.syncCapture = some "required" → g.syncApplyMode = some "local" →
      quotaLock hash row.tenantId ∈ held) :
    Sequenced.Guarded (quotaLock hash) held (captureLocalChange jsonb g table op row) := by
  unfold captureLocalChange
  by_cases hoff : g.syncCapture ≠ some "required" ∨ g.syncApplyMode ≠ some "local"
  · rw [if_pos hoff]
    trivial
  · rw [if_neg hoff]
    rw [not_or, not_not, not_not] at hoff
    split
    · exact ⟨h hoff.1 hoff.2, trivial⟩
    · trivial

theorem BusinessWrite.actions_guarded {w : BusinessWrite} :
    Sequenced.Guarded (quotaLock hash) held (w.actions hash jsonb g r) := by
  refine Sequenced.Guarded.append_locked (Sequenced.Guarded.flatMap fun c _ => captureBefore_guarded)
    fun hfail held' _ hlocks => Sequenced.Guarded.flatMap fun c hc => ?_
  -- The change was announced to the trigger before it, which took the lock of its tenant.
  have hfired := w.changed_fired hc
  refine captureLocalChange_guarded fun hcapture hlocal => hlocks _ ?_
  refine List.mem_flatMap.mpr ⟨c, hfired, captureBefore_locks hcapture hlocal fun hmem => ?_⟩
  exact hfail (List.mem_flatMap.mpr ⟨c, hfired, hmem⟩)

theorem InboundItem.actions_guarded {item : InboundItem}
    (h : quotaLock hash tenantId ∈ held) :
    Sequenced.Guarded (quotaLock hash) held (item.actions hash jsonb g r tenantId) := by
  unfold InboundItem.actions
  split_ifs
  · exact (Sequenced.Guarded.flatMap fun w _ => BusinessWrite.actions_guarded).append ⟨h, trivial⟩
  · trivial

/-- Events are applied under the lock that the quota was asserted under. -/
theorem quota_items_guarded {additional : ℤ} {items : List InboundItem} :
    Sequenced.Guarded (quotaLock hash) held (assertDeliveryQuota hash r tenantId additional ++
      items.flatMap (InboundItem.actions hash jsonb g r tenantId)) :=
  assertDeliveryQuota_guarded.append_locked fun hfail _ _ hlocks =>
    Sequenced.Guarded.flatMap fun _ _ =>
      InboundItem.actions_guarded (hlocks _ (assertDeliveryQuota_locks hfail))

/-- Every call takes the lock of a tenant before it draws a position for it. -/
theorem WriterCall.actions_guarded (call : WriterCall) :
    Sequenced.Guarded (quotaLock hash) held (call.actions hash jsonb) := by
  cases call with
  | write g r w => exact BusinessWrite.actions_guarded
  | applyInbound g r tenantId recorded items =>
    show Sequenced.Guarded _ _ (PostgresStream.applyInbound hash jsonb g r tenantId recorded items)
    unfold PostgresStream.applyInbound
    split_ifs
    · trivial
    · exact quota_items_guarded
  | syncApplyPage g r tenantId items =>
    show Sequenced.Guarded _ (retentionLock hash tenantId :: held) _
    exact quota_items_guarded
  | assertDeliveryQuota r tenantId additional => exact assertDeliveryQuota_guarded

theorem Transaction.guarded {todo : List WriteAction} (h : Transaction hash jsonb todo) :
    Sequenced.Guarded (quotaLock hash) [] todo := by
  obtain ⟨calls, rfl⟩ := h
  exact Sequenced.Guarded.flatMap fun call _ => call.actions_guarded

end Triggers

end PostgresStream

end Memplex
