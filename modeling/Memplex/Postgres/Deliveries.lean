import Memplex.Sync.Deliveries

/-!
# The delivery tables in PostgreSQL

`PostgresSyncRepository` keeps the targets, the outbox and the deliveries of a tenant in tables, and
a call is a transaction of a few statements on them. An `UPDATE` changes the rows that its `WHERE`
clause selects, and tells how many they were; the keys and the check of the delivery table are kept
by every statement, so that `SyncTables` carries them. The statements of one call are atomic here.
What other transactions hold is seen by a claim alone, whose `SELECT` skips locked rows.
-/

namespace Memplex

open Lib

/-- `CHECK ((state = 'leased') = (lease_owner IS NOT NULL AND lease_until IS NOT NULL))`. -/
def DeliveryRow.LeaseChecked (d : DeliveryRow) : Prop :=
  d.state = .leased ↔ d.leaseOwner.isSome = true ∧ d.leaseUntil.isSome = true

/-- What an `UPDATE` sets in a row. Its key is not among it, and the row keeps its check. -/
structure RowUpdate where
  set : DeliveryRow → DeliveryRow
  key : ∀ d, (set d).key = d.key
  checked : ∀ d, d.LeaseChecked → (set d).LeaseChecked

/-- `memplex_sync_targets`, `memplex_sync_outbox` and `memplex_sync_deliveries`, for one tenant. -/
structure SyncTables where
  targets : Table TargetRow.targetId
  outbox : List OutboxRow
  deliveries : List DeliveryRow
  /-- `PRIMARY KEY (tenant_id, stream_seq)`. -/
  outbox_keys : (outbox.map OutboxRow.streamSeq).Nodup
  /-- `UNIQUE (tenant_id, origin_node_id, event_id)`. -/
  outbox_unique : (outbox.map fun r => r.event.identity).Nodup
  /-- `PRIMARY KEY (tenant_id, target_id, stream_seq)`. -/
  delivery_keys : (deliveries.map DeliveryRow.key).Nodup
  /-- `FOREIGN KEY (tenant_id, target_id)`. -/
  target_exists : ∀ d ∈ deliveries, ∃ target ∈ targets.rows, target.targetId = d.targetId
  /-- `FOREIGN KEY (tenant_id, stream_seq)`. -/
  event_exists : ∀ d ∈ deliveries, ∃ r ∈ outbox, r.streamSeq = d.streamSeq
  delivery_check : ∀ d ∈ deliveries, d.LeaseChecked
  /-- `sync_register_target` takes no other name. -/
  target_named : ∀ target ∈ targets.rows, target.targetId ≠ ""

/-- `_require_str`, of a column. -/
def requireStr (value : Option String) (name : String) : Except PyError String :=
  match value with
  | none => .error (typeError (name ++ " must be an exact str"))
  | some s => do
    require (s ≠ "") (valueError (name ++ " must be non-empty"))
    return s

/-- `_require_datetime`, of a column. -/
def requireDatetime (value : Option Instant) (name : String) : Except PyError Instant :=
  match value with
  | none => .error (typeError (name ++ " must be an aware datetime"))
  | some t => .ok t

/-- `SyncDeliveryBusy("delivery lease is no longer active")`. -/
def leaseInactive : PyError := ⟨.syncDeliveryBusy, "delivery lease is no longer active"⟩

namespace RowUpdate

/-- The lease of a row ends, without an error. -/
def release : RowUpdate where
  set d := { d with state := .pending, leaseOwner := none, leaseUntil := none, lastErrorCode := none }
  key _ := rfl
  checked _ _ := by simp [DeliveryRow.LeaseChecked]

/-- A row is leased to a claim. -/
def lease (leaseId : String) (leaseUntil : Instant) (attempt : ℕ) : RowUpdate where
  set d := { d with
    state := .leased
    leaseOwner := some leaseId
    leaseUntil := some leaseUntil
    attemptCount := attempt
    lastErrorCode := none }
  key _ := rfl
  checked _ _ := by simp [DeliveryRow.LeaseChecked]

/-- A row is delivered. -/
def deliver : RowUpdate where
  set := SyncState.delivered
  key _ := rfl
  checked _ _ := by simp [DeliveryRow.LeaseChecked, SyncState.delivered]

/-- A row is retried later or given up, by the attempts that the caller read in it. -/
def fail (cfg : SyncConfig) (errorCode : String) (now : Instant) : RowUpdate where
  set := SyncState.failed cfg errorCode now
  key d := by unfold SyncState.failed; split_ifs <;> rfl
  checked d _ := by
    unfold SyncState.failed DeliveryRow.LeaseChecked
    split_ifs <;> simp

/-- A row is given up. -/
def giveUp (errorCode : String) (now : Instant) : RowUpdate where
  set := SyncState.deadLettered errorCode now
  key _ := rfl
  checked _ _ := by simp [DeliveryRow.LeaseChecked, SyncState.deadLettered]

/-- A row that was given up is tried again from the start. -/
def replay (now : Instant) : RowUpdate where
  set := SyncState.replayed now
  key _ := rfl
  checked _ _ := by simp [DeliveryRow.LeaseChecked, SyncState.replayed]

end RowUpdate

namespace SyncTables

/-- The event under a stream sequence. -/
def outboxEvent (t : SyncTables) (streamSeq : ℕ) : Option SyncEvent :=
  (t.outbox.find? fun r => r.streamSeq = streamSeq).map OutboxRow.event

/-- The rows after an `UPDATE`. -/
def updated (rows : List DeliveryRow) (p : DeliveryRow → Bool) (u : RowUpdate) :
    List DeliveryRow :=
  rows.map fun d => if p d then u.set d else d

theorem updated_keys (rows : List DeliveryRow) (p : DeliveryRow → Bool) (u : RowUpdate) :
    (updated rows p u).map DeliveryRow.key = rows.map DeliveryRow.key := by
  rw [updated, List.map_map]
  refine List.map_congr_left fun d _ => ?_
  by_cases hp : p d = true
  · simp [hp, u.key d]
  · simp [hp]

/-- A row after an `UPDATE` is one from before it, under its key. -/
theorem mem_updated {rows : List DeliveryRow} {p : DeliveryRow → Bool} {u : RowUpdate}
    {d' : DeliveryRow} (h : d' ∈ updated rows p u) :
    ∃ d ∈ rows, d'.key = d.key ∧ ((p d = true ∧ d' = u.set d) ∨ d' = d) := by
  obtain ⟨d, hd, rfl⟩ := List.mem_map.mp h
  by_cases hp : p d = true
  · rw [if_pos hp]
    exact ⟨d, hd, u.key d, .inl ⟨hp, rfl⟩⟩
  · rw [if_neg hp]
    exact ⟨d, hd, rfl, .inr rfl⟩

/-- `UPDATE memplex_sync_deliveries SET ... WHERE ...`. -/
def update (t : SyncTables) (p : DeliveryRow → Bool) (u : RowUpdate) : SyncTables :=
  { t with
    deliveries := updated t.deliveries p u
    delivery_keys := by rw [updated_keys]; exact t.delivery_keys
    target_exists := fun d' hd' => by
      obtain ⟨d, hd, hkey, -⟩ := mem_updated hd'
      rw [(Prod.mk.inj hkey).1]
      exact t.target_exists d hd
    event_exists := fun d' hd' => by
      obtain ⟨d, hd, hkey, -⟩ := mem_updated hd'
      rw [(Prod.mk.inj hkey).2]
      exact t.event_exists d hd
    delivery_check := fun d' hd' => by
      obtain ⟨d, hd, -, ⟨-, rfl⟩ | rfl⟩ := mem_updated hd'
      · exact u.checked d (t.delivery_check d hd)
      · exact t.delivery_check d' hd }

/-- `cur.rowcount`, of an `UPDATE`. -/
def rowcount (t : SyncTables) (p : DeliveryRow → Bool) : ℕ := (t.deliveries.filter p).length

@[simp] theorem update_outboxEvent (t : SyncTables) (p : DeliveryRow → Bool) (u : RowUpdate)
    (streamSeq : ℕ) : (t.update p u).outboxEvent streamSeq = t.outboxEvent streamSeq := rfl

@[simp] theorem update_targets (t : SyncTables) (p : DeliveryRow → Bool) (u : RowUpdate) :
    (t.update p u).targets = t.targets := rfl

/-- The row under a key, as a `WHERE` clause. -/
def underKey (key : String × ℕ) (d : DeliveryRow) : Bool := d.key = key

/-! ## Claims -/

/-- The rows of a target whose lease has run out. -/
def expired (targetId : String) (now : Instant) (d : DeliveryRow) : Bool :=
  d.targetId = targetId ∧ d.state = .leased ∧ ∃ leaseUntil ∈ d.leaseUntil, leaseUntil ≤ now

/-- The rows that a claim selects: those of an enabled target that are due, have an attempt left and
are of an event from this node. -/
def claimable (t : SyncTables) (cfg : SyncConfig) (targetId : String) (now : Instant)
    (locked : String × ℕ → Bool) (d : DeliveryRow) : Bool :=
  d.targetId = targetId ∧
    (∃ target ∈ t.targets.rows, target.targetId = d.targetId ∧ target.enabled = true) ∧
    d.state = .pending ∧ d.nextAttemptAt ≤ now ∧ d.attemptCount < cfg.maxAttempts ∧
    (t.outboxEvent d.streamSeq).map SyncEvent.originNodeId = some cfg.localNodeId ∧
    locked d.key = false

/-- The rows that a claim takes, in the order of the stream. -/
def claimed (t : SyncTables) (cfg : SyncConfig) (targetId : String) (now : Instant)
    (locked : String × ℕ → Bool) (limit : ℕ) : List DeliveryRow :=
  ((t.deliveries.filter (t.claimable cfg targetId now locked)).mergeSort
    fun a b => a.streamSeq ≤ b.streamSeq).take limit

/-- The loop of a claim over the rows that it has taken: each gets a lease of its own. -/
def leaseRows (t : SyncTables) (leaseId : ℕ → String) (leaseUntil : Instant)
    (rows : List (DeliveryRow × ℕ)) : SyncTables :=
  rows.foldl
    (fun t x => t.update (underKey x.1.key)
      (.lease (leaseId x.2) leaseUntil (x.1.attemptCount + 1))) t

/-- `sync_claim`. -/
def claim (t : SyncTables) (cfg : SyncConfig) (now : Instant) (leaseId : ℕ → String)
    (locked : String × ℕ → Bool) (targetId : String) (limit leaseSeconds : ℕ) :
    Except PyError (SyncTables × List SyncDelivery) := do
  require (targetId ≠ "") (valueError "target_id must be non-empty")
  require (1 ≤ limit) (valueError "limit must be >= 1")
  require (1 ≤ leaseSeconds) (valueError "lease_seconds must be >= 1")
  let leaseUntil := now + leaseSeconds * second
  let t := t.update (expired targetId now) .release
  let rows := (t.claimed cfg targetId now locked limit).zipIdx
  let handed := rows.filterMap fun x => (t.outboxEvent x.1.streamSeq).map fun event =>
    ⟨targetId, event, x.1.attemptCount + 1, leaseId x.2, leaseUntil⟩
  return (t.leaseRows leaseId leaseUntil rows, handed)

/-! ## The end of a lease -/

/-- The row that a delivery was handed out from. -/
def deliveryRow (t : SyncTables) (delivery : SyncDelivery) : Option DeliveryRow :=
  t.deliveries.find? fun d => d.targetId = delivery.targetId ∧
    (t.outboxEvent d.streamSeq).map SyncEvent.eventId = some delivery.event.eventId

/-- The checks of a leased row, at a reading of the clock. -/
def requireLease (clock : Instant) (d : DeliveryRow) (delivery : SyncDelivery) :
    Except PyError Unit := do
  let owner ← requireStr d.leaseOwner "lease_owner"
  require (owner = delivery.leaseId)
    ⟨.syncDeliveryBusy, "delivery lease identity mismatch"⟩
  let leaseUntil ← requireDatetime d.leaseUntil "lease_until"
  require (clock ≤ leaseUntil) leaseInactive

/-- An `UPDATE` that has to find its row. -/
def updateOne (t : SyncTables) (p : DeliveryRow → Bool) (u : RowUpdate) :
    Except PyError SyncTables := do
  require (1 ≤ t.rowcount p) leaseInactive
  return t.update p u

/-- The guard of an acknowledgement: the row is still leased to the delivery. -/
def leasedTo (key : String × ℕ) (leaseId : String) (d : DeliveryRow) : Bool :=
  d.key = key ∧ d.leaseOwner = some leaseId ∧ d.state = .leased

/-- `sync_ack`. The clock is read when the row is checked, and again for the update. -/
def ack (t : SyncTables) (clock clock' : Instant) (delivery : SyncDelivery) (receipt : SyncReceipt) :
    Except PyError SyncTables := do
  require (receipt.eventId = delivery.event.eventId) (valueError "receipt event_id mismatch")
  match t.deliveryRow delivery with
  | none => return t
  | some d =>
    if d.state = .delivered then return t
    require (d.state = .leased) leaseInactive
    requireLease clock d delivery
    t.updateOne
      (fun r => leasedTo d.key delivery.leaseId r && decide (∃ u ∈ r.leaseUntil, clock' < u)) .deliver

/-- The check of one delivery of a batch: its key when there is something left to do. -/
def checkAck (t : SyncTables) (clock : Instant) (delivery : SyncDelivery) :
    Except PyError (Option (String × ℕ)) :=
  match t.deliveryRow delivery with
  | none => return none
  | some d => do
    if d.state = .delivered then return none
    require (d.state = .leased) leaseInactive
    requireLease clock d delivery
    return some d.key

/-- The loop over the checks of a batch, which reads the clock at every delivery. -/
def checkAcks (t : SyncTables) (clock : ℕ → Instant) :
    List (SyncDelivery × ℕ) → Except PyError (List (SyncDelivery × (String × ℕ)))
  | [] => return []
  | (delivery, i) :: rest => do
    let key ← t.checkAck (clock i) delivery
    let locked ← t.checkAcks clock rest
    return (key.map fun key => (delivery, key)).toList ++ locked

/-- `sync_ack_batch`. -/
def ackBatch (t : SyncTables) (clock : ℕ → Instant) (deliveries : List SyncDelivery)
    (receipts : List SyncReceipt) : Except PyError SyncTables := do
  require (deliveries.length = receipts.length)
    (valueError "delivery and receipt cardinality mismatch")
  require ((receipts.map SyncReceipt.eventId).Nodup ∧
    (∀ d ∈ deliveries, d.event.eventId ∈ receipts.map SyncReceipt.eventId) ∧
    ∀ r ∈ receipts, r.eventId ∈ deliveries.map fun d => d.event.eventId)
    (valueError "delivery and receipt identity mismatch")
  let locked ← t.checkAcks clock deliveries.zipIdx
  locked.foldlM (fun t x => t.updateOne (leasedTo x.2 x.1.leaseId) .deliver) t

/-- `sync_fail`. -/
def fail (t : SyncTables) (cfg : SyncConfig) (clock : Instant) (delivery : SyncDelivery)
    (errorCode : String) (now : Instant) : Except PyError SyncTables := do
  require (errorCode ≠ "") (valueError "error_code must be non-empty")
  match t.deliveryRow delivery with
  | none => return t
  | some d =>
    if d.state ≠ .leased then
      require (d.leaseOwner = none) leaseInactive
      return t
    requireLease clock d delivery
    t.updateOne (underKey d.key) (.fail cfg errorCode now)

/-- `sync_dead_letter`. -/
def deadLetter (t : SyncTables) (clock : Instant) (delivery : SyncDelivery) (errorCode : String)
    (now : Instant) : Except PyError SyncTables := do
  require (errorCode ≠ "") (valueError "error_code must be non-empty")
  match t.deliveryRow delivery with
  | none => return t
  | some d =>
    if d.state = .deadLetter then return t
    require (d.state = .leased) leaseInactive
    requireLease clock d delivery
    t.updateOne (leasedTo d.key delivery.leaseId) (.giveUp errorCode now)

/-- `sync_replay_dead_letter`. -/
def replayDeadLetter (t : SyncTables) (now : Instant) (targetId eventId : String) :
    Except PyError (SyncTables × Bool) := do
  require (targetId ≠ "") (valueError "target_id must be non-empty")
  require (eventId ≠ "") (valueError "event_id must be non-empty")
  match t.deliveries.find? fun d => d.targetId = targetId ∧ d.state = .deadLetter ∧
      (t.outboxEvent d.streamSeq).map SyncEvent.eventId = some eventId with
  | none => return (t, false)
  | some d =>
    let p : DeliveryRow → Bool := fun r => r.key = d.key ∧ r.state = .deadLetter
    return (t.update p (.replay now), decide (1 ≤ t.rowcount p))

/-! ## Targets -/

/-- A target, switched on or off. -/
def switched (targetId : String) (enabled : Bool) (target : TargetRow) : TargetRow :=
  if target.targetId = targetId then { target with enabled := enabled } else target

theorem switched_targetId (targetId : String) (enabled : Bool) (target : TargetRow) :
    (switched targetId enabled target).targetId = target.targetId := by
  unfold switched
  split_ifs <;> rfl

/-- `UPDATE memplex_sync_targets SET enabled = ... WHERE ...`. -/
def setEnabled (t : SyncTables) (targetId : String) (enabled : Bool) : SyncTables :=
  { t with
    targets := ⟨t.targets.rows.map (switched targetId enabled), by
      rw [List.map_map]
      have hids : (TargetRow.targetId ∘ switched targetId enabled) = TargetRow.targetId :=
        funext fun target => switched_targetId targetId enabled target
      rw [hids]
      exact t.targets.nodup⟩
    target_exists := fun d hd => by
      obtain ⟨target, htarget, hid⟩ := t.target_exists d hd
      exact ⟨_, List.mem_map_of_mem htarget, (switched_targetId targetId enabled target).trans hid⟩
    target_named := fun target' htarget' => by
      obtain ⟨target, htarget, rfl⟩ := List.mem_map.mp htarget'
      rw [switched_targetId]
      exact t.target_named target htarget }

/-- `sync_set_target_enabled`. -/
def setTargetEnabled (t : SyncTables) (targetId : String) (enabled : Bool) :
    Except PyError SyncTables := do
  require (targetId ≠ "") (valueError "target_id must be non-empty")
  require (∃ target ∈ t.targets.rows, target.targetId = targetId) (valueError "target not found")
  return t.setEnabled targetId enabled

end SyncTables

/-! ## Runs of calls -/

/-- A call of the repository by some worker, with the readings of the clock that it makes. -/
inductive LeaseCall where
  | claim (now : Instant) (leaseId : ℕ → String) (locked : String × ℕ → Bool) (targetId : String)
      (limit leaseSeconds : ℕ)
  | ack (clock clock' : Instant) (delivery : SyncDelivery) (receipt : SyncReceipt)
  | ackBatch (clock : ℕ → Instant) (deliveries : List SyncDelivery) (receipts : List SyncReceipt)
  | fail (clock : Instant) (delivery : SyncDelivery) (errorCode : String) (now : Instant)
  | deadLetter (clock : Instant) (delivery : SyncDelivery) (errorCode : String) (now : Instant)
  | replayDeadLetter (now : Instant) (targetId eventId : String)

namespace LeaseCall

/-- The first reading of the clock in a call. -/
def reading : LeaseCall → Instant
  | .claim now _ _ _ _ _ => now
  | .ack clock _ _ _ => clock
  | .ackBatch clock _ _ => clock 0
  | .fail clock _ _ _ => clock
  | .deadLetter clock _ _ _ => clock
  | .replayDeadLetter now _ _ => now

/-- The tables that a call commits. -/
def apply (cfg : SyncConfig) (t : SyncTables) : LeaseCall → Except PyError SyncTables
  | .claim now leaseId locked targetId limit leaseSeconds =>
    (t.claim cfg now leaseId locked targetId limit leaseSeconds).map Prod.fst
  | .ack clock clock' delivery receipt => t.ack clock clock' delivery receipt
  | .ackBatch clock deliveries receipts => t.ackBatch clock deliveries receipts
  | .fail clock delivery errorCode now => t.fail cfg clock delivery errorCode now
  | .deadLetter clock delivery errorCode now => t.deadLetter clock delivery errorCode now
  | .replayDeadLetter now targetId eventId => (t.replayDeadLetter now targetId eventId).map Prod.fst

/-- A call that raises is rolled back. -/
def step (cfg : SyncConfig) (t : SyncTables) (call : LeaseCall) : SyncTables :=
  match call.apply cfg t with
  | .ok t' => t'
  | .error _ => t

end LeaseCall

/-- The tables at every reading of the clock in a run: before each call, and at a last one. -/
def moments (cfg : SyncConfig) (t : SyncTables) :
    List LeaseCall → Instant → List (SyncTables × Instant)
  | [], last => [(t, last)]
  | call :: calls, last => (t, call.reading) :: moments cfg (call.step cfg t) calls last

end Memplex
