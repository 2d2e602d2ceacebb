import Memplex.Sync.Effects

/-!
# The dispatcher

`SyncDispatcher` sends the deliveries that a claim hands out to it as one batch, and settles them by
the answer. Only an answer of success whose body is a result for this batch, with a receipt for each
of the deliveries and for nothing else, acknowledges them; any other answer, and none at all, has
them retried or given up (`sendOutcome`). What it does to the outbox then is a list of operations of the
repository (`SendOutcome.ops`), one transaction each, of which the first that raises ends the rest.

At the other end `pushBatch` is the endpoint that takes the bytes of a batch: they pass the gate,
are applied, and are answered with the result, as JSON. What the endpoint and the network refuse
before, for any other reason, is an answer with the status of a failure.
-/

namespace Memplex

open Lib

/-! ## Results on the wire -/

namespace ReceiptOutcome

/-- The wire name. -/
def value : ReceiptOutcome → String
  | accepted => "accepted"
  | duplicate => "duplicate"
  | rejectedConflict => "rejected_conflict"

/-- The outcome of a wire name. -/
def ofValue (s : String) : Option ReceiptOutcome :=
  [accepted, duplicate, rejectedConflict].find? fun o => o.value = s

theorem ofValue_value (o : ReceiptOutcome) : ofValue o.value = some o := by
  cases o <;> decide

end ReceiptOutcome

/-- A dictionary with exactly the keys of an answer. -/
def answerDict (value : Value) (keys : List String) (message : String) : Except PyError Members :=
  match value with
  | .obj members => do
    require ((∀ k ∈ Members.keys members, k ∈ keys) ∧ ∀ k ∈ keys, k ∈ Members.keys members)
      (valueError message)
    return members
  | _ => .error (valueError message)

theorem answerDict_ok {members data : Members} {keys : List String} {message : String}
    (h : answerDict (.obj members) keys message = .ok data) : data = members := by
  obtain ⟨_, -, heq⟩ := Except.bind_ok.mp (show (_ >>= _) = _ from h)
  exact (Except.ok.inj heq).symm

namespace SyncReceipt

/-- `receipt.to_dict()`. -/
def toDict (r : SyncReceipt) : Members :=
  [("event_id", .str r.eventId), ("outcome", .str r.outcome.value)]

/-- `SyncReceipt(...)`. -/
def create (eventId outcome : Value) : Except PyError SyncReceipt := do
  let id ← requireUuid eventId "event_id"
  let name ← requireExactString outcome "outcome" false
  match ReceiptOutcome.ofValue name with
  | some o => return ⟨id, o⟩
  | none => .error (valueError "unknown receipt outcome")

/-- The receipt in an answer. -/
def parse (value : Value) : Except PyError SyncReceipt := do
  let data ← answerDict value ["event_id", "outcome"] "invalid remote batch receipt"
  create (field data "event_id") (field data "outcome")

/-- A receipt is read as it was written. -/
theorem parse_toDict {r r' : SyncReceipt} (h : parse (.obj r.toDict) = .ok r') : r' = r := by
  obtain ⟨data, hdata, h⟩ := Except.bind_ok.mp h
  cases answerDict_ok hdata
  obtain ⟨id, hid, h⟩ := Except.bind_ok.mp h
  obtain ⟨name, hname, h⟩ := Except.bind_ok.mp h
  have hid' : Json.str r.eventId = .str id := (requireUuid_ok hid).1
  have hname' : Json.str r.outcome.value = .str name := (requireExactString_ok hname).1
  cases hid'
  cases hname'
  rw [ReceiptOutcome.ofValue_value] at h
  exact (Except.ok.inj h).symm

end SyncReceipt

/-- The hexadecimal form of a SHA-256 digest. -/
def Sha256Hex (s : String) : Prop := s.toList.length = 64 ∧ ∀ c ∈ s.toList, isLowerHex c = true

instance (s : String) : Decidable (Sha256Hex s) := by unfold Sha256Hex; infer_instance

namespace SyncBatchResult

/-- `result.to_dict()`: a store accepts every batch that it applies, and remembers it so. -/
def toDict (r : SyncBatchResult) : Members :=
  [("batch_id", .str r.batchId), ("request_digest", .str r.requestDigest),
    ("outcome", .str "accepted"), ("receipts", .arr (r.receipts.map fun x => .obj x.toDict))]

/-- `SyncBatchResult(...)`. The outcome is checked, and nothing reads it. -/
def create (batchId requestDigest outcome : Value) (receipts : List SyncReceipt) :
    Except PyError SyncBatchResult := do
  let id ← requireUuid batchId "batch_id"
  let digest ← requireExactString requestDigest "request_digest" false
  require (Sha256Hex digest) (valueError "request_digest must be SHA-256 hex")
  let name ← requireExactString outcome "outcome" false
  require (name = "accepted" ∨ name = "duplicate") (valueError "unknown batch outcome")
  return ⟨id, digest, receipts⟩

/-- `_parse_result`. -/
def parse (value : Value) : Except PyError SyncBatchResult := do
  let data ← answerDict value ["batch_id", "request_digest", "outcome", "receipts"]
    "invalid remote batch result"
  match field data "receipts" with
  | .arr items =>
    let receipts ← items.mapM SyncReceipt.parse
    create (field data "batch_id") (field data "request_digest") (field data "outcome") receipts
  | _ => .error (valueError "invalid remote batch receipts")

/-- Receipts are read as they were written. -/
theorem parse_receipts {rs rs' : List SyncReceipt}
    (h : (rs.map fun x => (.obj x.toDict : Value)).mapM SyncReceipt.parse = .ok rs') :
    rs' = rs := by
  induction rs generalizing rs' with
  | nil => exact (Except.ok.inj h).symm
  | cons r rs ih =>
    rw [List.map_cons, List.mapM_cons] at h
    obtain ⟨x, hx, h⟩ := Except.bind_ok.mp h
    obtain ⟨xs, hxs, heq⟩ := Except.bind_ok.mp h
    have hcons : x :: xs = rs' := Except.ok.inj heq
    rw [← hcons, SyncReceipt.parse_toDict hx, ih hxs]

/-- A result is read as it was written. -/
theorem parse_toDict {r r' : SyncBatchResult} (h : parse (.obj r.toDict) = .ok r') : r' = r := by
  obtain ⟨data, hdata, h⟩ := Except.bind_ok.mp h
  cases answerDict_ok hdata
  have hfield : field r.toDict "receipts" = .arr (r.receipts.map fun x => .obj x.toDict) := rfl
  rw [hfield] at h
  obtain ⟨receipts, hreceipts, h⟩ := Except.bind_ok.mp h
  obtain ⟨id, hid, h⟩ := Except.bind_ok.mp h
  obtain ⟨digest, hdigest, h⟩ := Except.bind_ok.mp h
  obtain ⟨_, -, h⟩ := Except.bind_ok.mp h
  obtain ⟨_, -, h⟩ := Except.bind_ok.mp h
  obtain ⟨_, -, heq⟩ := Except.bind_ok.mp h
  have hid' : Json.str r.batchId = .str id := (requireUuid_ok hid).1
  have hdigest' : Json.str r.requestDigest = .str digest := (requireExactString_ok hdigest).1
  cases hid'
  cases hdigest'
  cases Except.ok.inj heq
  rw [parse_receipts hreceipts]

end SyncBatchResult

/-! ## Sending -/

/-- `_batch`: the deliveries of a target as one batch, whose id is made of the ids of their events.
`uuid5` is the name-based identifier in the namespace of the dispatcher. -/
def dispatchBatch (uuid5 : String → String) (localNodeId targetId : String)
    (deliveries : List SyncDelivery) : Except PyError SyncBatch :=
  let identity := "\x00".intercalate
    (localNodeId :: targetId :: deliveries.map fun x => x.event.eventId)
  SyncBatch.create (.int SyncEvent.protocolVersion) (.str (uuid5 identity)) (.str localNodeId)
    (deliveries.map SyncDelivery.event)

/-- The batch is of these deliveries, and of events of the local node. -/
theorem dispatchBatch_ok {uuid5 : String → String} {localNodeId targetId : String}
    {deliveries : List SyncDelivery} {b : SyncBatch}
    (h : dispatchBatch uuid5 localNodeId targetId deliveries = .ok b) :
    b.events = deliveries.map SyncDelivery.event ∧
      ∀ e ∈ b.events, e.originNodeId = localNodeId := by
  obtain ⟨_, -, h⟩ := Except.bind_ok.mp h
  obtain ⟨id, -, h⟩ := Except.bind_ok.mp h
  obtain ⟨origin, horigin, h⟩ := Except.bind_ok.mp h
  obtain ⟨_, -, h⟩ := Except.bind_ok.mp h
  obtain ⟨_, -, h⟩ := Except.bind_ok.mp h
  have horigin : Json.str localNodeId = .str origin := (requireExactString_ok horigin).1
  cases horigin
  split at h
  · exact absurd h (by simp)
  next hchecked =>
    split_ifs at h
    cases Except.ok.inj h
    exact ⟨rfl, (SyncBatch.checkBatchEvents_ok hchecked).1⟩

/-- An answer to a request. -/
structure Reply where
  /-- The status code, if it is an integer. -/
  status : Option ℤ
  /-- The JSON value of the body, if it has one within the limit. -/
  body : Option Value

/-- `_validate_result`. -/
def validateResult (sha256 : ByteArray → String) (batch : SyncBatch)
    (deliveries : List SyncDelivery) (result : SyncBatchResult) : Except PyError Unit := do
  require (result.batchId = batch.batchId ∧ result.requestDigest = batch.requestDigest sha256)
    (valueError "remote batch identity mismatch")
  require (result.receipts.length = deliveries.length)
    (valueError "remote receipt cardinality mismatch")
  let eventIds := deliveries.map fun x => x.event.eventId
  require eventIds.Nodup (valueError "delivery identity is duplicated")
  let receiptIds := result.receipts.map SyncReceipt.eventId
  require ((∀ i ∈ receiptIds, i ∈ eventIds) ∧ ∀ i ∈ eventIds, i ∈ receiptIds)
    (valueError "remote receipt identity mismatch")

/-- The result that the body of an answer carries for a batch. -/
def Reply.result (sha256 : ByteArray → String) (batch : SyncBatch)
    (deliveries : List SyncDelivery) (reply : Reply) : Except PyError SyncBatchResult := do
  match reply.body with
  | none => .error (valueError "remote response body is unavailable")
  | some body =>
    let result ← SyncBatchResult.parse body
    validateResult sha256 batch deliveries result
    return result

/-- What becomes of the deliveries of a batch. -/
inductive SendOutcome where
  | acknowledge (receipts : List SyncReceipt)
  | retry (errorCode : String)
  | giveUp (errorCode : String)

/-- The error code of a request that was refused. -/
def rejectionCode (status : ℤ) : String :=
  if status = 401 ∨ status = 403 then "remote_identity_rejected"
  else if status = 409 then "remote_batch_conflict"
  else "remote_batch_rejected"

/-- `_send`, from the answer on; without one the transport has failed. -/
def sendOutcome (sha256 : ByteArray → String) (batch : SyncBatch) (deliveries : List SyncDelivery) :
    Option Reply → SendOutcome
  | none => .retry "transport_unavailable"
  | some reply =>
    match reply.status with
    | none => .giveUp "remote_protocol_error"
    | some status =>
      if status = 429 then .retry "remote_backpressure"
      else if 500 ≤ status then .retry "remote_unavailable"
      else if 400 ≤ status then .giveUp (rejectionCode status)
      else if status < 200 ∨ 300 ≤ status then .giveUp "remote_protocol_error"
      else match reply.result sha256 batch deliveries with
        | .ok result => .acknowledge result.receipts
        | .error _ => .giveUp "remote_protocol_error"

/-- What the end of a request reads beside the answer. -/
structure SendTimes where
  /-- The time that the deliveries were dispatched with. -/
  now : Instant
  /-- The reading of the clock at the acknowledgement. -/
  acked : Instant
  /-- The readings of the clock at the failures. -/
  ended : SyncDelivery → Instant
  /-- The random part of the delay before a retry. -/
  jitter : SyncDelivery → Instant

/-- The reference time that `_fail` gives for a retry, so that the delay counts from its random part
and not from the whole of its bound. -/
def SendTimes.failureTime (times : SendTimes) (x : SyncDelivery) : Instant :=
  times.now - ((min 60 (2 ^ (x.attempt - 1)) : ℕ) * second - times.jitter x)

/-- What `_ack_result` and `_fail` ask of the repository. -/
def SendOutcome.ops (times : SendTimes) (deliveries : List SyncDelivery) : SendOutcome → List RepoOp
  | .acknowledge receipts => [.base (.ackBatch times.acked deliveries receipts)]
  | .retry errorCode => deliveries.map fun x =>
      .base (.fail (times.ended x) x errorCode (times.failureTime x))
  | .giveUp errorCode => deliveries.map fun x =>
      .base (.deadLetter (times.ended x) x errorCode times.now)

section Attempt

variable (cfg : SyncConfig) (env : Env) (sha256 : ByteArray → String)

/-- Operations one after the other, until one raises. -/
def attempt (s : LiteStore) : List RepoOp → LiteStore
  | [] => s
  | op :: ops =>
    match op.apply cfg env sha256 s with
    | .ok s' => attempt s' ops
    | .error _ => s

/-- They are a run of the first of them. -/
theorem attempt_eq_run (s : LiteStore) (ops : List RepoOp) :
    ∃ done, done <+: ops ∧ attempt cfg env sha256 s ops = runRepo cfg env sha256 s done := by
  induction ops generalizing s with
  | nil => exact ⟨[], List.prefix_rfl, rfl⟩
  | cons op ops ih =>
    cases happly : op.apply cfg env sha256 s with
    | error e => exact ⟨[], List.nil_prefix, by rw [attempt, happly]; rfl⟩
    | ok s' =>
      obtain ⟨done, hdone, hrun⟩ := ih s'
      have hstep : op.step cfg env sha256 s = s' := by rw [RepoOp.step, happly]
      refine ⟨op :: done, List.cons_prefix_cons.mpr ⟨rfl, hdone⟩, ?_⟩
      calc attempt cfg env sha256 s (op :: ops)
          = attempt cfg env sha256 s' ops := by rw [attempt, happly]
        _ = runRepo cfg env sha256 s' done := hrun
        _ = runRepo cfg env sha256 s (op :: done) := by rw [← hstep]; rfl

end Attempt

/-! ## The endpoint -/

/-- The status that the endpoint answers an error with. -/
def pushStatus (e : PyError) : ℤ :=
  match e.kind with
  | .syncBackpressureError => 429
  | .syncBatchRejected => 422
  | .keyError | .typeError | .valueError | .syncCursorExpired =>
    if e.message = "batch digest conflict" then 409 else 422
  | _ => 503

/-- The batches endpoint: the bytes pass the gate, the batch is applied, and the result is the body
of the answer. Nothing reads the body of a failure. -/
def pushBatch (cfg : SyncConfig) (env : Env) (sha256 : ByteArray → String) (now : Instant)
    (clock : SyncEvent → String) (store : LiteStore) (raw : ByteArray) : LiteStore × Reply :=
  match validateIngressBatch sha256 raw (sha256 raw) with
  | .error e => (store, ⟨some (pushStatus e), none⟩)
  | .ok batch =>
    match syncApplyBatch cfg env sha256 now clock store batch with
    | .error e => (store, ⟨some (pushStatus e), none⟩)
    | .ok (store', result) => (store', ⟨some 200, some (.obj result.toDict)⟩)

end Memplex
