import Memplex.Sync.State

/-!
# Appending an event

`appendEvent` is the one place where an event enters the stream: it binds the tenant, refuses a
known event id and a full queue, and then, in one step, takes the next stream sequence, appends the
event to the outbox, makes its version the entity's latest, and fans it out to the enabled targets
it did not come from. `appendEvent_ok` says all that a successful append does.

The source finds known ids and the positions of version rows through two caches that are rebuilt
when a length has changed; here they are looked up in the rows themselves.
-/

namespace Memplex

open Lib

namespace SyncState

/-- `_bind_tenant`. -/
def bindTenant (s : SyncState) (tenantId : String) : Except PyError SyncState :=
  match s.tenantBinding with
  | none => .ok { s with tenantBinding := some tenantId }
  | some current =>
    if current = tenantId then .ok s
    else .error (valueError "sync-enabled Lite supports a single tenant")

/-- Whether a delivery counts against the quota. -/
def isActive (d : DeliveryRow) : Bool :=
  d.state = .pending ∨ d.state = .leased ∨ d.state = .deadLetter

/-- `_assert_quota`. -/
def assertQuota (s : SyncState) (cfg : SyncConfig) (additionalDeliveries : ℕ) :
    Except PyError Unit :=
  require (s.deliveries.countP isActive + additionalDeliveries ≤ cfg.maxPendingEvents)
    ⟨.syncBackpressureError, "sync pending delivery quota exceeded"⟩

/-- The targets that an event of an origin is fanned out to. -/
def fanOut (s : SyncState) (originNodeId : String) : List TargetRow :=
  s.targets.rows.filter fun t => t.enabled ∧ t.remoteNodeId ≠ originNodeId

/-- The version row of an event at a stream sequence. -/
def versionRow (event : SyncEvent) (streamSeq : ℕ) : VersionRow where
  entity := event.entity
  version := event.version
  deleted := event.change.isTombstone
  eventId := event.eventId
  lastStreamSeq := streamSeq

/-- The state with the event in the stream. -/
def appended (s : SyncState) (event : SyncEvent) : SyncState :=
  { s with
    nextStreamSeq := s.nextStreamSeq + 1
    outbox := s.outbox ++ [⟨s.nextStreamSeq, event⟩]
    entityVersions := s.entityVersions.set (versionRow event s.nextStreamSeq)
    deliveries := s.deliveries ++ (s.fanOut event.originNodeId).map fun t =>
      .fresh t.targetId s.nextStreamSeq event.version.occurredAt.micros }

/-- `_append_event`: the new state and the stream sequence of the event. -/
def appendEvent (s : SyncState) (cfg : SyncConfig) (event : SyncEvent) :
    Except PyError (SyncState × ℕ) := do
  let s ← s.bindTenant event.scope.tenantId
  require (∀ r ∈ s.outbox, r.event.eventId ≠ event.eventId) (valueError "event_id already exists")
  s.assertQuota cfg (s.fanOut event.originNodeId).length
  return (s.appended event, s.nextStreamSeq)

/-- `capture_local_event`. -/
def captureLocalEvent (s : SyncState) (cfg : SyncConfig) (event : SyncEvent) :
    Except PyError SyncState :=
  if cfg.captureRequired = false then .ok s
  else if event.originNodeId ≠ cfg.localNodeId then
    .error (valueError "local capture origin does not match configured node")
  else (s.appendEvent cfg event).map Prod.fst

/-- A bound state differs in its tenant only, and had no other one. -/
theorem bindTenant_ok {s s' : SyncState} {tenantId : String}
    (h : s.bindTenant tenantId = .ok s') :
    s' = { s with tenantBinding := some tenantId } ∧
      ∀ current ∈ s.tenantBinding, current = tenantId := by
  unfold bindTenant at h
  split at h
  next hnone =>
    have hs : { s with tenantBinding := some tenantId } = s' := Except.ok.inj h
    exact ⟨hs.symm, by simp [hnone]⟩
  next current hsome =>
    split_ifs at h with hc
    have hs : s = s' := Except.ok.inj h
    subst hs hc
    refine ⟨?_, by simp [hsome]⟩
    rw [← hsome]

/-- Binding the tenant that is bound already changes nothing. -/
theorem bindTenant_self {s : SyncState} {tenantId : String}
    (h : s.tenantBinding = some tenantId) : s.bindTenant tenantId = .ok s := by
  simp [bindTenant, h]

/-- What a successful append does, and what it found. -/
theorem appendEvent_ok {s s' : SyncState} {cfg : SyncConfig} {event : SyncEvent} {streamSeq : ℕ}
    (h : s.appendEvent cfg event = .ok (s', streamSeq)) :
    s' = { s.appended event with tenantBinding := some event.scope.tenantId } ∧
      streamSeq = s.nextStreamSeq ∧ (∀ r ∈ s.outbox, r.event.eventId ≠ event.eventId) ∧
      ∀ current ∈ s.tenantBinding, current = event.scope.tenantId := by
  simp only [appendEvent, Except.bind_ok, require_ok] at h
  obtain ⟨s₁, hbind, -, hfresh, -, -, heq⟩ := h
  obtain ⟨rfl, htenant⟩ := bindTenant_ok hbind
  have hpair : _ = (s', streamSeq) := Except.ok.inj heq
  obtain ⟨rfl, rfl⟩ := Prod.mk.inj hpair
  exact ⟨rfl, rfl, hfresh, htenant⟩

/-- A captured event is appended. -/
theorem captureLocalEvent_ok {s s' : SyncState} {cfg : SyncConfig} {event : SyncEvent}
    (hcfg : cfg.captureRequired = true) (h : s.captureLocalEvent cfg event = .ok s') :
    s' = { s.appended event with tenantBinding := some event.scope.tenantId } := by
  unfold captureLocalEvent at h
  rw [hcfg, if_neg (by simp)] at h
  split_ifs at h
  obtain ⟨⟨s₁, streamSeq⟩, happend, rfl⟩ := Except.map_ok h
  exact (appendEvent_ok happend).1

end SyncState

end Memplex
