import Memplex.Protocol.Keys

/-!
# Events and batches

The data of the protocol. A `SyncScope` is the identity that an event is visible under; a
`SyncEvent` carries a version, the entity it is about and its change, an upsert with a payload or a
tombstone; a `SyncBatch` is a bounded, non-empty sequence of events of one origin and one tenant.
Each is built by the checks of its constructor, in the order of the program, and carries what they
established. `toDict` and `fromDict` are the two directions of the wire form.
-/

namespace Memplex

open Lib Lib.Json

/-- The kinds of entity that are synchronized. -/
inductive SyncNodeType where
  | function
  | fact
  | preference
  | observation
  | edge
  | paragraph
deriving DecidableEq, Repr

namespace SyncNodeType

/-- The wire name. -/
def value : SyncNodeType → String
  | function => "function"
  | fact => "fact"
  | preference => "preference"
  | observation => "observation"
  | edge => "edge"
  | paragraph => "paragraph"

/-- `SyncNodeType(value)`. -/
def ofValue : Value → Option SyncNodeType
  | .str s => [function, fact, preference, observation, edge, paragraph].find? fun t => t.value = s
  | _ => none

theorem ofValue_value (t : SyncNodeType) : ofValue (.str t.value) = some t := by
  cases t <;> decide

end SyncNodeType

/-- The two operations of an event. -/
inductive SyncOperation where
  | upsert
  | tombstone
deriving DecidableEq, Repr

namespace SyncOperation

/-- The wire name. -/
def value : SyncOperation → String
  | upsert => "upsert"
  | tombstone => "tombstone"

/-- `SyncOperation(value)`. -/
def ofValue : Value → Option SyncOperation
  | .str s => [upsert, tombstone].find? fun o => o.value = s
  | _ => none

theorem ofValue_value (o : SyncOperation) : ofValue (.str o.value) = some o := by
  cases o <;> decide

end SyncOperation

/-- Who may see an entity. -/
inductive Visibility where
  | user
  | workspace
  | session
deriving DecidableEq, Repr

namespace Visibility

/-- The wire name. -/
def value : Visibility → String
  | user => "user"
  | workspace => "workspace"
  | session => "session"

/-- The visibility of a wire name. -/
def ofString (s : String) : Option Visibility :=
  [user, workspace, session].find? fun v => v.value = s

theorem ofString_value (v : Visibility) : ofString v.value = some v := by
  cases v <;> decide

theorem value_exact (v : Visibility) : ExactString v.value := by
  cases v <;> decide

end Visibility

/-- `_exact_dict`: a dictionary with exactly the expected keys. -/
def exactDict (value : Value) (expected : List String) (name : String) :
    Except PyError Members := do
  match value with
  | .obj members =>
    require ((∀ k ∈ Members.keys members, k ∈ expected) ∧ ∀ k ∈ expected, k ∈ Members.keys members)
      (valueError (name ++ " fields do not match protocol"))
    return members
  | _ => .error (typeError (name ++ " must be an exact dict"))

/-- `data[key]`, for a key that `exactDict` found. -/
def field (data : Members) (key : String) : Value := data.getD key .null

/-- A string or `None`, checked by `_require_exact_string` when it is not `None`. -/
def optionalExactString (value : Value) (name : String) : Except PyError (Option String) :=
  match value with
  | .null => .ok none
  | v => (requireExactString v name false).map some

theorem optionalExactString_ofOptStr {o : Option String} (h : ∀ s ∈ o, ExactString s)
    (name : String) : optionalExactString (.ofOptStr o) name = .ok o := by
  cases o with
  | none => rfl
  | some s =>
    show (requireExactString (.str s) name false).map some = _
    rw [requireExactString_str (h s rfl)]
    rfl

/-! ## Scopes -/

/-- What the checks of a scope establish. -/
structure ScopeValid (tenantId ownerSubjectId : String) (workspaceId : Option String)
    (visibility : Visibility) (agentId sessionId : Option String) : Prop where
  tenant : ExactString tenantId
  owner : ExactString ownerSubjectId
  workspace : ∀ s ∈ workspaceId, ExactString s
  agent : ∀ s ∈ agentId, ExactString s
  session : ∀ s ∈ sessionId, ExactString s
  /-- Workspace and session visibility name a workspace. -/
  workspace_some : visibility ≠ .user → workspaceId ≠ none
  /-- Session visibility names an agent and a session. -/
  session_some : visibility = .session → agentId ≠ none ∧ sessionId ≠ none

/-- The durable identity of an event. -/
structure SyncScope where
  tenantId : String
  ownerSubjectId : String
  workspaceId : Option String
  visibility : Visibility
  agentId : Option String
  sessionId : Option String
  /-- The checks of the constructor. -/
  valid : ScopeValid tenantId ownerSubjectId workspaceId visibility agentId sessionId
deriving DecidableEq

namespace SyncScope

/-- `SyncScope(...)`. -/
def create (tenantId ownerSubjectId workspaceId visibility agentId sessionId : Value) :
    Except PyError SyncScope := do
  let tenant ← requireExactString tenantId "tenant_id" false
  let owner ← requireExactString ownerSubjectId "owner_subject_id" false
  let visibilityText ← requireExactString visibility "visibility" false
  match Visibility.ofString visibilityText with
  | none => .error (valueError "visibility must be user, workspace, or session")
  | some vis =>
    let workspace ← optionalExactString workspaceId "workspace_id"
    let agent ← optionalExactString agentId "agent_id"
    let session ← optionalExactString sessionId "session_id"
    require (vis ≠ .user → workspace ≠ none)
      (valueError (vis.value ++ " visibility requires workspace_id"))
    require (vis = .session → agent ≠ none ∧ session ≠ none)
      (valueError "session visibility requires agent_id and session_id")
    if h : ExactString tenant ∧ ExactString owner ∧ (∀ s ∈ workspace, ExactString s) ∧
        (∀ s ∈ agent, ExactString s) ∧ (∀ s ∈ session, ExactString s) ∧
        (vis ≠ .user → workspace ≠ none) ∧ (vis = .session → agent ≠ none ∧ session ≠ none) then
      return ⟨tenant, owner, workspace, vis, agent, session,
        ⟨h.1, h.2.1, h.2.2.1, h.2.2.2.1, h.2.2.2.2.1, h.2.2.2.2.2.1, h.2.2.2.2.2.2⟩⟩
    else .error (valueError "scope is invalid")

/-- The keys of a scope on the wire. -/
def wireKeys : List String :=
  ["tenant_id", "owner_subject_id", "workspace_id", "visibility", "agent_id", "session_id"]

/-- `SyncScope.from_dict`. -/
def fromDict (value : Value) : Except PyError SyncScope := do
  let data ← exactDict value wireKeys "scope"
  create (field data "tenant_id") (field data "owner_subject_id") (field data "workspace_id")
    (field data "visibility") (field data "agent_id") (field data "session_id")

/-- `scope.to_dict()`. -/
def toDict (s : SyncScope) : Members :=
  [("tenant_id", .str s.tenantId), ("owner_subject_id", .str s.ownerSubjectId),
    ("workspace_id", .ofOptStr s.workspaceId), ("visibility", .str s.visibility.value),
    ("agent_id", .ofOptStr s.agentId), ("session_id", .ofOptStr s.sessionId)]

theorem create_self (s : SyncScope) :
    create (.str s.tenantId) (.str s.ownerSubjectId) (.ofOptStr s.workspaceId)
      (.str s.visibility.value) (.ofOptStr s.agentId) (.ofOptStr s.sessionId) = .ok s := by
  obtain ⟨t, o, w, v, a, e, hv⟩ := s
  simp only [create, requireExactString_str hv.tenant, requireExactString_str hv.owner,
    requireExactString_str v.value_exact, Visibility.ofString_value, bind, Except.bind,
    optionalExactString_ofOptStr hv.workspace, optionalExactString_ofOptStr hv.agent,
    optionalExactString_ofOptStr hv.session, require, if_pos hv.workspace_some,
    if_pos hv.session_some]
  exact dif_pos ⟨hv.tenant, hv.owner, hv.workspace, hv.agent, hv.session, hv.workspace_some,
    hv.session_some⟩

end SyncScope

/-! ## Events -/

/-- The change of an event: its operation with the payload that the operation has. -/
inductive Change where
  | upsert (payload : Members)
  | tombstone
deriving DecidableEq

namespace Change

/-- The operation of a change. -/
def operation : Change → SyncOperation
  | upsert _ => .upsert
  | tombstone => .tombstone

/-- The payload on the wire. -/
def payload : Change → Value
  | upsert payload => .obj payload
  | tombstone => .null

/-- Whether the operation is a tombstone. -/
def isTombstone : Change → Bool
  | upsert _ => false
  | tombstone => true

end Change

/-- One change of one entity. The event id and the origin are those of the version, which binds
them. -/
structure SyncEvent where
  nodeType : SyncNodeType
  entityKey : SyncEntityKey
  version : SyncVersion
  scope : SyncScope
  change : Change
  /-- Edges have edge keys, and nodes have node keys. -/
  kind_agrees : (nodeType = .edge) ↔ entityKey.isEdge = true
  /-- The payload is canonical JSON data. -/
  payload_json : assertJsonValue change.payload = .ok ()
  /-- The payload consists of dictionaries, whose keys are distinct. -/
  payload_keyed : change.payload.wellKeyed = true
deriving DecidableEq

namespace SyncEvent

/-- `event.event_id`. -/
def eventId (e : SyncEvent) : String := e.version.eventId

/-- `event.origin_node_id`. -/
def originNodeId (e : SyncEvent) : String := e.version.originNodeId

/-- The entity of an event. -/
def entity (e : SyncEvent) : SyncNodeType × SyncEntityKey := (e.nodeType, e.entityKey)

/-- The identity that inboxes deduplicate by. -/
def identity (e : SyncEvent) : String × String := (e.originNodeId, e.eventId)

/-- `1`, the only protocol version. -/
def protocolVersion : ℤ := 1

/-- The change of an operation and a payload. -/
def changeOf (operation : SyncOperation) (payload : Value) : Except PyError Change :=
  match operation, payload with
  | .upsert, .obj members => .ok (.upsert members)
  | .upsert, _ => .error (typeError "upsert payload must be an exact dict")
  | .tombstone, .null => .ok .tombstone
  | .tombstone, _ => .error (valueError "tombstone payload must be None")

/-- `SyncEvent(...)`. -/
def create (protocolVersionValue eventId originNodeId : Value) (nodeType : SyncNodeType)
    (entityKey : SyncEntityKey) (operation : SyncOperation) (version : Value) (scope : SyncScope)
    (payload : Value) : Except PyError SyncEvent := do
  require (protocolVersionValue = .int protocolVersion)
    (valueError "unsupported protocol_version")
  let event ← requireUuid eventId "event_id"
  let origin ← requireExactString originNodeId "origin_node_id" false
  let v ← SyncVersion.parse version
  require (v.originNodeId = origin ∧ v.eventId = event)
    (valueError "version must bind event id and origin node")
  let change ← changeOf operation payload
  if hk : (nodeType = .edge) ↔ entityKey.isEdge = true then
    match hj : assertJsonValue change.payload with
    | .error e => .error e
    | .ok () =>
      -- A dictionary of the program has distinct keys; a value without them is none.
      if hw : change.payload.wellKeyed = true then
        return ⟨nodeType, entityKey, v, scope, change, hk, hj, hw⟩
      else .error (typeError "payload must be an exact dict or None")
  else .error (valueError "node_type and entity_key kind must agree")

/-- The keys of an event on the wire. -/
def wireKeys : List String :=
  ["protocol_version", "event_id", "origin_node_id", "node_type", "entity_key", "operation",
    "version", "scope", "payload"]

/-- `SyncEvent.from_dict`. -/
def fromDict (value : Value) : Except PyError SyncEvent := do
  let data ← exactDict value wireKeys "event"
  match SyncNodeType.ofValue (field data "node_type"),
    SyncOperation.ofValue (field data "operation") with
  | some nodeType, some operation =>
    let entityKey ← SyncEntityKey.parse (field data "entity_key")
    let scope ← SyncScope.fromDict (field data "scope")
    create (field data "protocol_version") (field data "event_id") (field data "origin_node_id")
      nodeType entityKey operation (field data "version") scope (field data "payload")
  | _, _ => .error (valueError "event uses an unknown enum value")

/-- `event.to_dict()`. -/
def toDict (e : SyncEvent) : Members :=
  [("protocol_version", .int protocolVersion), ("event_id", .str e.eventId),
    ("origin_node_id", .str e.originNodeId), ("node_type", .str e.nodeType.value),
    ("entity_key", .str e.entityKey.text), ("operation", .str e.change.operation.value),
    ("version", .str e.version.text), ("scope", .obj e.scope.toDict),
    ("payload", e.change.payload)]

theorem changeOf_self (c : Change) : changeOf c.operation c.payload = .ok c := by
  cases c <;> rfl

theorem create_self (e : SyncEvent) :
    create (.int protocolVersion) (.str e.eventId) (.str e.originNodeId) e.nodeType e.entityKey
      e.change.operation (.str e.version.text) e.scope e.change.payload = .ok e := by
  have hbind : e.version.originNodeId = e.originNodeId ∧ e.version.eventId = e.eventId :=
    ⟨rfl, rfl⟩
  simp only [create, require, if_true, requireUuid_str (s := e.eventId) e.version.event_valid,
    requireExactString_str (s := e.originNodeId) e.version.origin_valid, e.version.parse_text,
    if_pos hbind, changeOf_self, bind, Except.bind]
  rw [dif_pos e.kind_agrees]
  split
  · rename_i h
    exact absurd (e.payload_json.symm.trans h) (by simp)
  · rw [dif_pos e.payload_keyed]
    rfl

end SyncEvent

/-! ## Batches -/

/-- `SyncBatchRejected(message)`. -/
def batchRejected (message : String) : PyError := ⟨.syncBatchRejected, message⟩

/-- The most events of a batch. -/
def maxBatchEvents : ℕ := 1000

/-- The most bytes of a batch. -/
def maxBatchBytes : ℕ := 4 * 1024 * 1024

/-- The loop of the batch constructor over its events, with the tenant of the first event and the
event ids and version identities seen so far. -/
def checkBatchEvents (originNodeId : String) :
    Option String → List String → List (String × String) → List SyncEvent → Except PyError Unit
  | _, _, _, [] => .ok ()
  | tenantId, ids, identities, event :: events => do
    require (event.originNodeId = originNodeId)
      (batchRejected "batch origin must match every event")
    require (tenantId = none ∨ tenantId = some event.scope.tenantId)
      (batchRejected "batch events must share one tenant scope")
    let identity := (event.entityKey.text, event.version.text)
    require (event.eventId ∉ ids ∧ identity ∉ identities)
      (batchRejected "batch has duplicate event identity")
    checkBatchEvents originNodeId (tenantId.or (some event.scope.tenantId)) (event.eventId :: ids)
      (identity :: identities) events

/-- The wire form of a batch. -/
def batchDict (batchId originNodeId : String) (events : List SyncEvent) : Members :=
  [("protocol_version", .int SyncEvent.protocolVersion), ("batch_id", .str batchId),
    ("origin_node_id", .str originNodeId), ("events", .arr (events.map fun e => .obj e.toDict))]

/-- The canonical bytes of a batch. -/
def batchBytes (batchId originNodeId : String) (events : List SyncEvent) : ByteArray :=
  (String.ofList (serializeJcs (.obj (batchDict batchId originNodeId events)))).toByteArray

/-- A non-empty, bounded sequence of events of one origin and one tenant. -/
structure SyncBatch where
  batchId : String
  originNodeId : String
  events : List SyncEvent
  /-- The batch id is a canonical UUID. -/
  batch_valid : CanonicalUuid batchId
  /-- The origin is an exact string. -/
  origin_valid : ExactString originNodeId
  /-- There is an event. -/
  nonempty : events ≠ []
  /-- There are no more than the limit. -/
  count : events.length ≤ maxBatchEvents
  /-- The events passed the constructor's loop. -/
  checked : checkBatchEvents originNodeId none [] [] events = .ok ()
  /-- The canonical bytes are within the limit. -/
  size : (batchBytes batchId originNodeId events).size ≤ maxBatchBytes

namespace SyncBatch

/-- `batch.to_dict()`. -/
def toDict (b : SyncBatch) : Members := batchDict b.batchId b.originNodeId b.events

/-- `batch.canonical_bytes`. -/
def canonicalBytes (b : SyncBatch) : ByteArray := batchBytes b.batchId b.originNodeId b.events

/-- `batch.request_digest`, for the digest function of the platform. -/
def requestDigest (sha256 : ByteArray → String) (b : SyncBatch) : String := sha256 b.canonicalBytes

/-- `SyncBatch(...)`. -/
def create (protocolVersionValue batchId originNodeId : Value) (events : List SyncEvent) :
    Except PyError SyncBatch := do
  require (protocolVersionValue = .int SyncEvent.protocolVersion)
    (batchRejected "unsupported protocol_version")
  let batch ← requireUuid batchId "batch_id"
  let origin ← requireExactString originNodeId "origin_node_id" false
  require (events ≠ []) (batchRejected "events must be a non-empty tuple")
  require (events.length ≤ maxBatchEvents) (batchRejected "batch exceeds event limit")
  match hc : checkBatchEvents origin none [] [] events with
  | .error e => .error e
  | .ok () =>
    if hs : (batchBytes batch origin events).size ≤ maxBatchBytes then
      if h : CanonicalUuid batch ∧ ExactString origin ∧ events ≠ [] ∧
          events.length ≤ maxBatchEvents then
        return ⟨batch, origin, events, h.1, h.2.1, h.2.2.1, h.2.2.2, hc, hs⟩
      else .error (batchRejected "invalid batch")
    else .error (batchRejected "batch exceeds byte limit")

/-- The keys of a batch on the wire. -/
def wireKeys : List String := ["protocol_version", "batch_id", "origin_node_id", "events"]

/-- `SyncBatch.from_dict`. -/
def fromDict (value : Value) : Except PyError SyncBatch := do
  let data ← exactDict value wireKeys "batch"
  match field data "events" with
  | .arr items =>
    let events ← items.mapM SyncEvent.fromDict
    create (field data "protocol_version") (field data "batch_id") (field data "origin_node_id")
      events
  | _ => .error (typeError "batch events must be a list")

/-- The constructor accepts what meets its checks. -/
theorem create_of_checks {batchId originNodeId : String} {events : List SyncEvent}
    (hb : CanonicalUuid batchId) (ho : ExactString originNodeId) (hne : events ≠ [])
    (hn : events.length ≤ maxBatchEvents)
    (hc : checkBatchEvents originNodeId none [] [] events = .ok ())
    (hs : (batchBytes batchId originNodeId events).size ≤ maxBatchBytes) :
    create (.int SyncEvent.protocolVersion) (.str batchId) (.str originNodeId) events =
      .ok ⟨batchId, originNodeId, events, hb, ho, hne, hn, hc, hs⟩ := by
  simp only [create, require, if_true, requireUuid_str hb, requireExactString_str ho, if_pos hne,
    if_pos hn, bind, Except.bind]
  split
  · rename_i h
    exact absurd (hc.symm.trans h) (by simp)
  · rw [dif_pos hs, dif_pos ⟨hb, ho, hne, hn⟩]
    rfl

/-- What the loop over the events established: one origin, one tenant, distinct event ids. -/
theorem checkBatchEvents_ok {origin : String} {events : List SyncEvent} :
    ∀ {tenant : Option String} {ids : List String} {identities : List (String × String)},
      checkBatchEvents origin tenant ids identities events = .ok () →
      (∀ e ∈ events, e.originNodeId = origin) ∧ (events.map SyncEvent.eventId).Nodup ∧
        (∀ e ∈ events, e.eventId ∉ ids) ∧
        ∀ e ∈ events, ∀ e' ∈ events, e.scope.tenantId = e'.scope.tenantId ∧
          (tenant = none ∨ tenant = some e.scope.tenantId) := by
  induction events with
  | nil => intro _ _ _ _; simp
  | cons e events ih =>
    intro tenant ids identities h
    simp only [checkBatchEvents, Except.bind_ok, require_ok] at h
    obtain ⟨-, ho, -, ht, -, hid, hrest⟩ := h
    obtain ⟨horig, hnodup, hids, htenants⟩ := ih hrest
    have htail : ∀ x ∈ events, x.scope.tenantId = e.scope.tenantId := by
      intro x hx
      rcases ht with rfl | rfl <;> simpa [eq_comm] using ((htenants x hx x hx).2).symm
    refine ⟨?_, ?_, ?_, ?_⟩
    · exact List.forall_mem_cons.mpr ⟨ho, horig⟩
    · rw [List.map_cons, List.nodup_cons]
      refine ⟨?_, hnodup⟩
      rintro hmem
      obtain ⟨x, hx, hxe⟩ := List.mem_map.mp hmem
      exact hids x hx (by rw [hxe]; exact List.mem_cons_self ..)
    · exact List.forall_mem_cons.mpr ⟨hid.1, fun x hx hmem =>
        hids x hx (List.mem_cons_of_mem _ hmem)⟩
    · have hall : ∀ x ∈ e :: events, x.scope.tenantId = e.scope.tenantId :=
        List.forall_mem_cons.mpr ⟨rfl, htail⟩
      intro x hx y hy
      rw [hall x hx, hall y hy]
      exact ⟨rfl, ht⟩

end SyncBatch

end Memplex
