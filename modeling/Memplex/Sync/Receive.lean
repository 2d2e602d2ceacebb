import Memplex.Sync.Apply

/-!
# Receiving batches and pages

The two ways in which remote events arrive. Both end in `applyEvents`, which takes the events one by
one: an event whose identity is in the inbox is answered from it, an event that is not newer than
its entity's version is rejected, and any other event is applied and appended to the stream. A batch
is remembered with its digest, so that its repetition is answered without applying it again; a page
moves the confirmed position in the stream of the peer, and a page that lies behind it is skipped.

A transaction is all or nothing: the model returns the new store or the error, and with an error the
store stays what it was, as the source reloads it. `clock` gives the reading of the clock at which
an event is applied.
-/

namespace Memplex

open Lib

/-! ## One event after the other -/

/-- The state of the loop over the events of one delivery. -/
structure ApplyState where
  store : LiteStore
  /-- The edges that the delivery has tombstoned. -/
  edgeTombstones : List SyncEntityKey
  receipts : List SyncReceipt

/-- The inbox row of an event. -/
def inboxRow (event : SyncEvent) (outcome : ReceiptOutcome) (appliedStreamSeq : Option ℕ) :
    InboxRow where
  originNodeId := event.originNodeId
  eventId := event.eventId
  outcome := outcome
  appliedStreamSeq := appliedStreamSeq

namespace ApplyState

/-- One more receipt. -/
def receipt (st : ApplyState) (event : SyncEvent) (outcome : ReceiptOutcome) : ApplyState :=
  { st with receipts := st.receipts ++ [⟨event.eventId, outcome⟩] }

/-- An event that the inbox answers. -/
def answer (st : ApplyState) (event : SyncEvent) (row : InboxRow) : ApplyState :=
  st.receipt event (if row.outcome = .rejectedConflict then .rejectedConflict else .duplicate)

/-- An event that is not newer than its entity. -/
def reject (st : ApplyState) (event : SyncEvent) : ApplyState :=
  let sync := { st.store.sync with
    inbox := st.store.sync.inbox ++ [inboxRow event .rejectedConflict none] }
  ApplyState.receipt { st with store := { st.store with sync := sync } } event .rejectedConflict

/-- An event that is applied and appended. -/
def accept (st : ApplyState) (cfg : SyncConfig) (env : Env) (now : String) (event : SyncEvent) :
    Except PyError ApplyState := do
  let (business, edgeTombstones) ← applyBusinessEvent env now st.store.business st.edgeTombstones
    event
  let (sync, streamSeq) ← st.store.sync.appendEvent cfg event
  let sync := { sync with inbox := sync.inbox ++ [inboxRow event .accepted (some streamSeq)] }
  return ApplyState.receipt ⟨⟨business, sync⟩, edgeTombstones, st.receipts⟩ event .accepted

/-- One round of the loop of `_apply_events`. -/
def applyEvent (cfg : SyncConfig) (env : Env) (clock : SyncEvent → String) (st : ApplyState)
    (event : SyncEvent) : Except PyError ApplyState :=
  match findRow InboxRow.identity event.identity st.store.sync.inbox with
  | some row => .ok (st.answer event row)
  | none =>
    match st.store.sync.entityVersions.get? event.entity with
    | some current =>
      if event.version ≤ current.version then .ok (st.reject event)
      else st.accept cfg env (clock event) event
    | none => st.accept cfg env (clock event) event

end ApplyState

/-- `_apply_events`. -/
def applyEvents (cfg : SyncConfig) (env : Env) (clock : SyncEvent → String) (store : LiteStore)
    (events : List SyncEvent) : Except PyError ApplyState :=
  events.foldlM (ApplyState.applyEvent cfg env clock) ⟨store, [], []⟩

/-! ## Batches -/

/-- The tenant of the first event of a batch. -/
def SyncBatch.tenantId (b : SyncBatch) : String := (b.events.head b.nonempty).scope.tenantId

/-- The batch row that a store remembers. -/
def SyncState.findBatch (s : SyncState) (batchId : String) : Option BatchRow :=
  findRow BatchRow.batchId batchId s.batches

/-- `sync_apply_batch`. -/
def syncApplyBatch (cfg : SyncConfig) (env : Env) (sha256 : ByteArray → String) (now : Instant)
    (clock : SyncEvent → String) (store : LiteStore) (batch : SyncBatch) :
    Except PyError (LiteStore × SyncBatchResult) := do
  let sync ← store.sync.bindTenant batch.tenantId
  match sync.findBatch batch.batchId with
  | some existing =>
    require (existing.requestSha256 = batch.requestDigest sha256)
      (valueError "batch digest conflict")
    return ({ store with sync := sync }, existing.response)
  | none =>
    let st ← applyEvents cfg env clock { store with sync := sync } batch.events
    let result : SyncBatchResult := ⟨batch.batchId, batch.requestDigest sha256, st.receipts⟩
    let row : BatchRow := ⟨batch.batchId, batch.requestDigest sha256, result, now⟩
    return ({ st.store with sync := { st.store.sync with
      batches := st.store.sync.batches ++ [row] } }, result)

/-! ## Pages -/

/-- An event with its position in the stream of a peer. -/
structure SyncStreamItem where
  streamSeq : ℕ
  event : SyncEvent
deriving DecidableEq

/-- The order that the constructor of a page checks: strictly ascending from `previousSeq`, and
within the snapshot. -/
def orderedItems (snapshotSeq : ℕ) : ℕ → List SyncStreamItem → Prop
  | _, [] => True
  | previousSeq, item :: items =>
    (previousSeq < item.streamSeq ∧ item.streamSeq ≤ snapshotSeq) ∧
      orderedItems snapshotSeq item.streamSeq items

instance decidableOrderedItems (snapshotSeq : ℕ) :
    ∀ previousSeq items, Decidable (orderedItems snapshotSeq previousSeq items)
  | _, [] => isTrue trivial
  | _, item :: items =>
    have := decidableOrderedItems snapshotSeq item.streamSeq items
    inferInstanceAs (Decidable (_ ∧ _))

/-- Where the cursor of a page stands: at its last item when there is more, else at the end. -/
def pageContinues (items : List SyncStreamItem) (snapshotSeq nextAfterSeq : ℕ) (hasMore : Bool) :
    Prop :=
  if hasMore then items.getLast?.map SyncStreamItem.streamSeq = some nextAfterSeq
  else nextAfterSeq = snapshotSeq

instance (items : List SyncStreamItem) (snapshotSeq nextAfterSeq : ℕ) (hasMore : Bool) :
    Decidable (pageContinues items snapshotSeq nextAfterSeq hasMore) := by
  unfold pageContinues; infer_instance

/-- A page of the stream of a peer. -/
structure SyncPage where
  items : List SyncStreamItem
  snapshotSeq : ℕ
  nextAfterSeq : ℕ
  hasMore : Bool
  /-- The items are in the order of the stream. -/
  ordered : orderedItems snapshotSeq 0 items
  /-- The cursor continues from the items. -/
  continues : pageContinues items snapshotSeq nextAfterSeq hasMore
deriving DecidableEq

namespace SyncPage

/-- `SyncPage(...)`. -/
def create (items : List SyncStreamItem) (snapshotSeq nextAfterSeq : ℕ) (hasMore : Bool) :
    Except PyError SyncPage :=
  if ho : orderedItems snapshotSeq 0 items then
    if hc : pageContinues items snapshotSeq nextAfterSeq hasMore then
      .ok ⟨items, snapshotSeq, nextAfterSeq, hasMore, ho, hc⟩
    else .error (valueError (if hasMore then "has_more page must continue from its final item"
      else "complete page must advance cursor to snapshot sequence"))
  else .error (valueError "stream items must be strictly ordered within snapshot")

/-- The events of a page. -/
def events (p : SyncPage) : List SyncEvent := p.items.map SyncStreamItem.event

end SyncPage

/-- The loop of `validate_incoming_page`, with the identities seen so far. -/
def checkPageEvents (tenantId : String) :
    List (String × String) → List SyncEvent → Except PyError Unit
  | _, [] => .ok ()
  | identities, event :: events => do
    require (event.scope.tenantId = tenantId)
      (valueError "page event tenant does not match repository tenant")
    require (event.identity ∉ identities)
      (valueError "page contains duplicate event identities")
    checkPageEvents tenantId (event.identity :: identities) events

/-- Events of a tenant with different identities pass. -/
theorem checkPageEvents_of_nodup {tenantId : String} {events : List SyncEvent}
    (htenant : ∀ e ∈ events, e.scope.tenantId = tenantId)
    (hdistinct : (events.map SyncEvent.identity).Nodup) :
    ∀ seen : List (String × String), (∀ e ∈ events, e.identity ∉ seen) →
      checkPageEvents tenantId seen events = .ok () := by
  induction events with
  | nil => intros; rfl
  | cons e events ih =>
    intro seen hseen
    obtain ⟨hnot, hdistinct⟩ := List.nodup_cons.mp hdistinct
    refine Except.bind_ok.mpr ⟨(), require_ok.mpr (htenant e List.mem_cons_self), ?_⟩
    refine Except.bind_ok.mpr ⟨(), require_ok.mpr (hseen e List.mem_cons_self), ?_⟩
    refine ih (fun x hx => htenant x (List.mem_cons_of_mem _ hx)) hdistinct _ fun x hx hmem => ?_
    rcases List.mem_cons.mp hmem with heq | hmem
    · exact hnot (heq ▸ List.mem_map_of_mem hx)
    · exact hseen x (List.mem_cons_of_mem _ hx) hmem

/-- `validate_incoming_page`. The order of the items and the place of the cursor, which it checks
again, a page carries. -/
def validateIncomingPage (page : SyncPage) (tenantId : String) : Except PyError (List SyncEvent) := do
  checkPageEvents tenantId [] page.events
  return page.events

/-- The tenant that a page is validated against. -/
def SyncState.pageTenant (s : SyncState) (page : SyncPage) : String :=
  (s.tenantBinding.or (page.events.head?.map fun e => e.scope.tenantId)).getD "unbound-lite"

/-- The key of a cursor row. -/
def CursorRow.key (r : CursorRow) : String × String := (r.remoteId, r.consumerId)

/-- The confirmed position in the stream of a peer. -/
def SyncState.confirmed (s : SyncState) (cfg : SyncConfig) (remoteId : String) : ℕ :=
  match findRow CursorRow.key (remoteId, cfg.localNodeId) s.inboundCursors with
  | none => 0
  | some row => row.afterSeq

theorem SyncState.confirmed_eq (s : SyncState) (cfg : SyncConfig) (remoteId : String) :
    s.confirmed cfg remoteId = ((findRow CursorRow.key (remoteId, cfg.localNodeId)
      s.inboundCursors).map CursorRow.afterSeq).getD 0 := by
  unfold confirmed
  cases findRow CursorRow.key (remoteId, cfg.localNodeId) s.inboundCursors with
  | none => rfl
  | some row => rfl

/-- The counts of a page. -/
structure SyncApplyResult where
  applied : ℕ
  duplicate : ℕ
  conflict : ℕ
  cursorAdvanced : ℕ
deriving DecidableEq

/-- The receipts with one outcome. -/
def countReceipts (receipts : List SyncReceipt) (outcome : ReceiptOutcome) : ℕ :=
  receipts.countP fun r => r.outcome = outcome

/-- The tenant bound by the events of a page, if it has any. -/
def SyncState.bindPageTenant (s : SyncState) : List SyncEvent → Except PyError SyncState
  | [] => .ok s
  | event :: _ => s.bindTenant event.scope.tenantId

/-- `sync_apply_page`. -/
def syncApplyPage (cfg : SyncConfig) (env : Env) (now : Instant) (clock : SyncEvent → String)
    (store : LiteStore) (remoteId : String) (page : SyncPage) :
    Except PyError (LiteStore × SyncApplyResult) := do
  require (remoteId ≠ "") (valueError "remote_id must be non-empty")
  require (remoteId ≠ cfg.localNodeId) (valueError "remote_id must not identify this node")
  let events ← validateIncomingPage page (store.sync.pageTenant page)
  let sync ← store.sync.bindPageTenant events
  let confirmed := sync.confirmed cfg remoteId
  require (confirmed ≤ page.nextAfterSeq)
    (valueError "page cursor regresses confirmed progress")
  require (¬ ((∃ item ∈ page.items.head?, item.streamSeq ≤ confirmed) ∧
    confirmed < page.nextAfterSeq))
    (valueError "page partially overlaps confirmed progress")
  if page.nextAfterSeq ≤ confirmed then
    return ({ store with sync := sync }, ⟨0, 0, 0, confirmed⟩)
  else
    let st ← applyEvents cfg env clock { store with sync := sync } events
    let row : CursorRow := ⟨remoteId, cfg.localNodeId, page.nextAfterSeq, now⟩
    return ({ st.store with sync := { st.store.sync with
        inboundCursors := upsertRow CursorRow.key row st.store.sync.inboundCursors } },
      ⟨countReceipts st.receipts .accepted, countReceipts st.receipts .duplicate,
        countReceipts st.receipts .rejectedConflict, page.nextAfterSeq⟩)

/-! ## What a delivery leaves -/

/-- The identities that the inbox deduplicates by. -/
def SyncState.identities (s : SyncState) : List (String × String) :=
  s.inbox.map InboxRow.identity

/-- What taking some events does beside the stream: every one of them is in the inbox from then on,
once, and neither the confirmed positions nor a bound tenant change. -/
structure Takes (s s' : SyncState) (events : List SyncEvent) : Prop where
  inbound : s'.inboundCursors = s.inboundCursors
  tenant : ∀ t ∈ s.tenantBinding, s'.tenantBinding = some t
  identities : ∀ i, i ∈ s'.identities ↔ i ∈ s.identities ∨ i ∈ events.map SyncEvent.identity
  nodup : s.identities.Nodup → s'.identities.Nodup

theorem Takes.refl (s : SyncState) : Takes s s [] where
  inbound := rfl
  tenant _ ht := ht
  identities _ := by simp
  nodup h := h

theorem Takes.trans {s s₁ s₂ : SyncState} {es es' : List SyncEvent} (h : Takes s s₁ es)
    (h' : Takes s₁ s₂ es') : Takes s s₂ (es ++ es') where
  inbound := h'.inbound.trans h.inbound
  tenant t ht := h'.tenant t (h.tenant t ht)
  identities i := by
    rw [h'.identities, h.identities, List.map_append, List.mem_append, or_assoc]
  nodup hs := h'.nodup (h.nodup hs)

/-- A row at the end of the inbox, for an event that it did not know. -/
theorem takes_append {s s' : SyncState} {event : SyncEvent} {o : ReceiptOutcome}
    {streamSeq : Option ℕ} (hnew : event.identity ∉ s.identities)
    (hinbox : s'.inbox = s.inbox ++ [inboxRow event o streamSeq])
    (hinbound : s'.inboundCursors = s.inboundCursors)
    (htenant : ∀ t ∈ s.tenantBinding, s'.tenantBinding = some t) : Takes s s' [event] := by
  have hids : s'.identities = s.identities ++ [event.identity] := by
    rw [SyncState.identities, hinbox, List.map_append]
    rfl
  refine ⟨hinbound, htenant, fun i => ?_, fun hs => ?_⟩
  · rw [hids, List.mem_append]
    rfl
  · rw [hids, List.nodup_append]
    refine ⟨hs, List.nodup_singleton _, ?_⟩
    rintro i hi j hj rfl
    exact hnew (List.mem_singleton.mp hj ▸ hi)

/-- One round takes one event. -/
theorem applyEvent_takes {cfg : SyncConfig} {env : Env} {clock : SyncEvent → String}
    {st st' : ApplyState} {event : SyncEvent} (h : st.applyEvent cfg env clock event = .ok st') :
    Takes st.store.sync st'.store.sync [event] := by
  have haccept : event.identity ∉ st.store.sync.identities →
      st.accept cfg env (clock event) event = .ok st' →
      Takes st.store.sync st'.store.sync [event] := by
    intro hnew h
    obtain ⟨_, -, h⟩ := Except.bind_ok.mp h
    obtain ⟨⟨sync, streamSeq⟩, happend, heq⟩ := Except.bind_ok.mp h
    cases Except.ok.inj heq
    obtain ⟨rfl, rfl, -, htenant⟩ := SyncState.appendEvent_ok happend
    refine takes_append (o := .accepted) hnew rfl rfl fun t ht => ?_
    rw [htenant t ht]
    rfl
  unfold ApplyState.applyEvent at h
  split at h
  next row hrow =>
    cases Except.ok.inj h
    obtain ⟨hmem, hkey⟩ := findRow_some hrow
    refine ⟨rfl, fun _ ht => ht, fun i => ?_, fun hs => hs⟩
    show i ∈ st.store.sync.identities ↔ _
    refine ⟨.inl, ?_⟩
    rintro (hi | hi)
    · exact hi
    · rw [List.mem_singleton.mp hi, ← hkey]
      exact List.mem_map_of_mem hmem
  next hnone =>
    have hnew : event.identity ∉ st.store.sync.identities := by
      intro hmem
      obtain ⟨row, hrow, hkey⟩ := List.mem_map.mp hmem
      exact findRow_eq_none.mp hnone row hrow hkey
    split at h
    · split_ifs at h
      · cases Except.ok.inj h
        exact takes_append hnew rfl rfl fun _ ht => ht
      · exact haccept hnew h
    · exact haccept hnew h

theorem foldlM_takes {cfg : SyncConfig} {env : Env} {clock : SyncEvent → String}
    (events : List SyncEvent) {st st' : ApplyState}
    (h : events.foldlM (ApplyState.applyEvent cfg env clock) st = .ok st') :
    Takes st.store.sync st'.store.sync events := by
  induction events generalizing st with
  | nil =>
    cases Except.ok.inj h
    exact .refl _
  | cons e events ih =>
    rw [List.foldlM_cons] at h
    obtain ⟨st₁, hstep, hrest⟩ := Except.bind_ok.mp h
    exact (applyEvent_takes hstep).trans (ih hrest)

/-- The loop takes all events. -/
theorem applyEvents_takes {cfg : SyncConfig} {env : Env} {clock : SyncEvent → String}
    {s : LiteStore} {events : List SyncEvent} {st : ApplyState}
    (h : applyEvents cfg env clock s events = .ok st) : Takes s.sync st.store.sync events :=
  foldlM_takes events h

end Memplex
