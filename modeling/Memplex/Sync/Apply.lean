import Memplex.Sync.Append

/-!
# Applying an event

What the arrival of one event does to the records. An upsert of a node is first brought into the
form that the store keeps (`normalise`: the payload is decoded, its identity is compared with the
scope of the event, and the scope is stamped on it) and then takes the place of the record under its
id; a tombstone removes that record. An upsert of an edge needs its endpoints; a tombstone of a
function needs every incident edge to have been tombstoned in the same delivery.
`applyBusinessEvent` is the source's function of that name.
-/

namespace Memplex

open Lib

/-! ## Records -/

/-- A record that is no edge. -/
inductive NodeRecord where
  | function (f : Function)
  | fact (f : Fact)
  | preference (p : Preference)
  | observation (o : Observation)
  | paragraph (id : String) (row : Members)
deriving DecidableEq

namespace NodeRecord

/-- The kind of a record. -/
def nodeType : NodeRecord → SyncNodeType
  | function _ => .function
  | fact _ => .fact
  | preference _ => .preference
  | observation _ => .observation
  | paragraph _ _ => .paragraph

/-- The id of a record. -/
def id : NodeRecord → String
  | function f => f.id
  | fact f => f.id
  | preference p => p.id
  | observation o => o.id
  | paragraph id _ => id

/-- The record without the times that the clock may have filled in. -/
def withoutTimes : NodeRecord → NodeRecord
  | function f => function f.withoutTimes
  | r => r

end NodeRecord

/-- The name that a function is indexed by. -/
def functionNameKey (env : Env) (f : Function) : Except PyError String :=
  match if f.nameNormalized.truthy then f.nameNormalized else f.name with
  | .str name => .ok (env.lower (env.strip name))
  | _ => .error ⟨.attributeError, "object has no attribute 'strip'"⟩

namespace BusinessState

/-- The name index without the names of a function. -/
def unindex (b : BusinessState) (functionId : String) :
    Table (Prod.fst : String × String → String) :=
  b.nameIndex.filter fun entry => entry.2 ≠ functionId

/-- The id of an observation. -/
def observationId (o : Observation) : String := o.id

/-- Puts a record in the place of the one under its id. -/
def put (env : Env) (b : BusinessState) : NodeRecord → Except PyError BusinessState
  | .function f => do
    let name ← functionNameKey env f
    return { b with
      functions := b.functions.set f
      nameIndex := (b.unindex f.id).set (name, f.id) }
  | .fact f => .ok { b with facts := b.facts.set f }
  | .preference p => .ok { b with preferences := b.preferences.set p }
  | .observation o =>
    .ok { b with observations := eraseRow observationId o.id b.observations ++ [o] }
  | .paragraph id row => .ok { b with paragraphs := b.paragraphs.set (id, row) }

/-- Removes the record of a kind under an id. -/
def drop (b : BusinessState) (nodeType : SyncNodeType) (nodeId : String) : BusinessState :=
  match nodeType with
  | .function => { b with functions := b.functions.erase nodeId, nameIndex := b.unindex nodeId }
  | .fact => { b with facts := b.facts.erase nodeId }
  | .preference => { b with preferences := b.preferences.erase nodeId }
  | .observation => { b with observations := eraseRow observationId nodeId b.observations }
  | .paragraph => { b with paragraphs := b.paragraphs.erase nodeId }
  | .edge => b

/-- The record of a kind under an id. -/
def record (b : BusinessState) (nodeType : SyncNodeType) (nodeId : String) : Option NodeRecord :=
  match nodeType with
  | .function => (b.functions.get? nodeId).map .function
  | .fact => (b.facts.get? nodeId).map .fact
  | .preference => (b.preferences.get? nodeId).map .preference
  | .observation => (findRow observationId nodeId b.observations).map .observation
  | .paragraph => (b.paragraphs.get? nodeId).map fun p => .paragraph p.1 p.2
  | .edge => none

/-- The business record of an entity. -/
def lookup (b : BusinessState) (k : Entity) : Option NodeRecord :=
  k.2.nodeId.bind (b.record k.1)

/-- After `put` the record is the one under its id, and no other has changed. -/
theorem record_put {env : Env} {b b' : BusinessState} {r : NodeRecord}
    (h : b.put env r = .ok b') (nodeType : SyncNodeType) (nodeId : String) :
    b'.record nodeType nodeId =
      if r.nodeType = nodeType ∧ r.id = nodeId then some r else b.record nodeType nodeId := by
  cases r with
  | function f =>
    obtain ⟨name, -, heq⟩ := Except.bind_ok.mp h
    cases Except.ok.inj heq
    cases nodeType <;> simp [record, NodeRecord.nodeType, NodeRecord.id]
    split_ifs <;> rfl
  | fact f =>
    cases Except.ok.inj h
    cases nodeType <;> simp [record, NodeRecord.nodeType, NodeRecord.id]
    split_ifs <;> rfl
  | preference p =>
    cases Except.ok.inj h
    cases nodeType <;> simp [record, NodeRecord.nodeType, NodeRecord.id]
    split_ifs <;> rfl
  | observation o =>
    cases Except.ok.inj h
    cases nodeType with
    | observation =>
      have hkey : observationId o = o.id := rfl
      simp only [record, NodeRecord.nodeType, NodeRecord.id, findRow_append, findRow_eraseRow,
        findRow_cons, findRow_nil, hkey, true_and]
      split_ifs with h1 h2 h2
      · rfl
      · exact absurd h1.symm h2
      · exact absurd h2.symm h1
      · rw [Option.or_none]
    | _ => simp [record, NodeRecord.nodeType]
  | paragraph id row =>
    cases Except.ok.inj h
    cases nodeType <;> simp [record, NodeRecord.nodeType, NodeRecord.id]
    split_ifs <;> rfl

/-- After `drop` nothing is under the id, and no other record has changed. -/
theorem record_drop (b : BusinessState) (t t' : SyncNodeType) (nodeId nodeId' : String) :
    (b.drop t nodeId).record t' nodeId' =
      if t = t' ∧ nodeId = nodeId' then none else b.record t' nodeId' := by
  by_cases hid : nodeId = nodeId'
  · subst hid
    cases t <;> cases t' <;> simp [drop, record, findRow_eraseRow]
  · cases t <;> cases t' <;> simp [drop, record, findRow_eraseRow, hid, Ne.symm hid]

end BusinessState

/-! ## Normalisation -/

/-- The identity fields of a node, each with the only value that a scope allows beside `None`. -/
def scopeFields (scope : SyncScope) (n : MemoryNode) : List (Value × Option String) :=
  [(n.tenantId, some scope.tenantId), (n.ownerSubjectId, some scope.ownerSubjectId),
    (n.owner, some scope.ownerSubjectId), (n.workspaceId, scope.workspaceId),
    (n.visibility, some scope.visibility.value), (n.provenance.getStr "agent_id", scope.agentId),
    (n.provenance.getStr "session_id", scope.sessionId)]

/-- The identity of a payload must not contradict the scope of its event. -/
def checkScope (scope : SyncScope) (n : MemoryNode) : Except PyError Unit :=
  (scopeFields scope n).forM fun field => do
    let allowed ← inStrings field.1 true field.2.toList
    require (allowed = true) (valueError "node payload scope mismatch")

/-- The node with the identity of a scope. -/
def stampScope (scope : SyncScope) (n : MemoryNode) : MemoryNode :=
  { n with
    tenantId := .str scope.tenantId
    ownerSubjectId := .str scope.ownerSubjectId
    owner := .str scope.ownerSubjectId
    workspaceId := .ofOptStr scope.workspaceId
    visibility := .str scope.visibility.value
    originSession := .ofOptStr scope.sessionId
    provenance := (n.provenance.insertStr "agent_id" (.str (scope.agentId.getD ""))).insertStr
      "session_id" (.str (scope.sessionId.getD "")) }

/-- The namespace of a paragraph with the identity of a scope. -/
def stampNamespace (scope : SyncScope) (ns : Members) : Members :=
  let ns := (ns.set "memplex_tenant_id" (.str scope.tenantId)).set "memplex_subject_id"
    (.str scope.ownerSubjectId)
  let ns := match scope.workspaceId with
    | some workspaceId => ns.set "memplex_workspace_id" (.str workspaceId)
    | none => ns
  let ns := ns.set "memplex_visibility" (.str scope.visibility.value)
  match scope.agentId with
  | some agentId => ns.set "memplex_source_agent" (.str agentId)
  | none => ns

/-- A paragraph row with the identity of a scope. -/
def stampRow (scope : SyncScope) (row : Members) : Members :=
  let row := (row.set "tenant_id" (.str scope.tenantId)).set "owner_subject_id"
    (.str scope.ownerSubjectId)
  let row := (row.set "workspace_id" (.ofOptStr scope.workspaceId)).set "visibility"
    (.str scope.visibility.value)
  let ns := match row.getD "namespace" (.obj []) with
    | .obj members => members
    | _ => []
  row.set "namespace" (.obj (stampNamespace scope ns))

/-- The record that an upsert stores: the payload decoded by its kind, compared with the scope of
the event and stamped with it. `now` is the reading of the clock. -/
def normalise (env : Env) (now : String) (nodeType : SyncNodeType) (nodeId : String)
    (scope : SyncScope) (payload : Members) : Except PyError NodeRecord := do
  require (payload.getD "id" .null = .str nodeId) (valueError "node payload identity mismatch")
  match nodeType with
  | .paragraph =>
    let row ← validateRawParagraph payload
    return .paragraph nodeId (stampRow scope row)
  | .function =>
    let node ← Function.fromDict env payload nodeId now
    checkScope scope node.toMemoryNode
    return .function { node with toMemoryNode := stampScope scope node.toMemoryNode }
  | .fact =>
    let node ← Fact.fromDict payload nodeId
    checkScope scope node.toMemoryNode
    return .fact { node with toMemoryNode := stampScope scope node.toMemoryNode }
  | .preference =>
    let node ← Preference.fromDict payload nodeId
    checkScope scope node.toMemoryNode
    return .preference { node with toMemoryNode := stampScope scope node.toMemoryNode }
  | _ =>
    let node ← Observation.fromDict payload nodeId
    checkScope scope node.toMemoryNode
    return .observation { node with toMemoryNode := stampScope scope node.toMemoryNode }

/-! ## Business events -/

/-- `_edge_payload`: the weight, the evidence and the creation time of an edge. The two refusals of
a time, by `strptime` and by the comparison with its canonical text, are one here. -/
def edgePayload (payload : Members) : Except PyError (Num × List String × PyDatetime) := do
  require ((∀ k ∈ payload.keys, k ∈ ["weight", "evidence", "created_at"]) ∧
    ∀ k ∈ ["weight", "evidence", "created_at"], k ∈ payload.keys)
    (valueError "edge payload fields are invalid")
  match payload.getD "weight" .null with
  | .num weight =>
    match payload.getD "evidence" .null with
    | .arr items =>
      match items.mapM asString with
      | none => .error (typeError "edge evidence must be string list")
      | some evidence =>
        match payload.getD "created_at" .null with
        | .str createdAt =>
          match timeFromWire createdAt.toList with
          | none => .error (valueError "edge created_at is not canonical")
          | some t => return (.float weight.toFloat, evidence, .ofUtc t)
        | _ => .error (typeError "edge created_at must be a string")
    | _ => .error (typeError "edge evidence must be string list")
  | _ => .error (typeError "edge weight must be numeric")

/-- The edges without one identity. -/
def removeEdge (edges : List GraphEdge) (parts : String × String × String) : List GraphEdge :=
  edges.filter fun e => e.parts ≠ parts

/-- The upsert of an edge. -/
def applyEdgeUpsert (env : Env) (b : BusinessState) (parts : String × String × String)
    (payload : Members) : Except PyError BusinessState := do
  let (weight, evidence, createdAt) ← edgePayload payload
  require (b.functions.contains parts.1 = true) (valueError "edge source must exist")
  let edge : GraphEdge := ⟨parts.1, parts.2.1, parts.2.2, weight, evidence, some createdAt⟩
  require (b.functions.contains parts.2.1 = true ∨ parts.2.2 = belongsTo)
    (valueError "edge target must exist")
  validateBelongsToEdges env b.functions [edge]
  return { b with edges := removeEdge b.edges parts ++ [edge] }

/-- The check of one edge before a function goes: an incident edge was tombstoned before. -/
def checkIncidentEdge (nodeId : String) (edgeTombstones : List SyncEntityKey) (e : GraphEdge) :
    Except PyError Unit :=
  if e.source = nodeId ∨ e.target = nodeId then do
    let key ← SyncEntityKey.edge (.str e.source) (.str e.target) (.str e.edgeType)
    require (key ∈ edgeTombstones)
      (valueError "function tombstone requires explicit edge tombstones")
  else .ok ()

/-- Before a function goes, every edge at it has been tombstoned. -/
def checkIncidentEdges (b : BusinessState) (edgeTombstones : List SyncEntityKey)
    (nodeType : SyncNodeType) (nodeId : String) : Except PyError Unit :=
  if nodeType = .function then b.edges.forM (checkIncidentEdge nodeId edgeTombstones) else .ok ()

/-- `_apply_business_event`: the new records, and the edges that the delivery has tombstoned so
far. -/
def applyBusinessEvent (env : Env) (now : String) (b : BusinessState)
    (edgeTombstones : List SyncEntityKey) (event : SyncEvent) :
    Except PyError (BusinessState × List SyncEntityKey) :=
  match event.entityKey.shape, event.change with
  | .edge source target edgeType, .tombstone =>
    .ok ({ b with edges := removeEdge b.edges (source, target, edgeType) },
      event.entityKey :: edgeTombstones)
  | .edge source target edgeType, .upsert payload => do
    let b ← applyEdgeUpsert env b (source, target, edgeType) payload
    return (b, edgeTombstones)
  | .node nodeId, .tombstone => do
    checkIncidentEdges b edgeTombstones event.nodeType nodeId
    return (b.drop event.nodeType nodeId, edgeTombstones)
  | .node nodeId, .upsert payload => do
    let node ← normalise env now event.nodeType nodeId event.scope payload
    let b ← b.put env node
    return (b, edgeTombstones)

/-! ## Records of an entity after a change -/

/-- A normalised record is one of its event's kind under its event's id. -/
theorem normalise_ok {env : Env} {now nodeId : String} {nodeType : SyncNodeType}
    {scope : SyncScope} {payload : Members} {r : NodeRecord} (hkind : nodeType ≠ .edge)
    (h : normalise env now nodeType nodeId scope payload = .ok r) :
    r.nodeType = nodeType ∧ r.id = nodeId := by
  simp only [normalise, Except.bind_ok] at h
  obtain ⟨-, -, h⟩ := h
  cases nodeType with
  | edge => exact absurd rfl hkind
  | paragraph =>
    obtain ⟨row, -, heq⟩ := Except.bind_ok.mp h
    cases Except.ok.inj heq
    exact ⟨rfl, rfl⟩
  | function =>
    obtain ⟨f, hf, h⟩ := Except.bind_ok.mp h
    obtain ⟨_, -, heq⟩ := Except.bind_ok.mp h
    cases Except.ok.inj heq
    have hid : f.id = nodeId := Function.fromDict_id hf
    exact ⟨rfl, hid⟩
  | fact =>
    obtain ⟨f, hf, h⟩ := Except.bind_ok.mp h
    obtain ⟨_, -, heq⟩ := Except.bind_ok.mp h
    cases Except.ok.inj heq
    have hid : f.id = nodeId := Fact.fromDict_id hf
    exact ⟨rfl, hid⟩
  | preference =>
    obtain ⟨f, hf, h⟩ := Except.bind_ok.mp h
    obtain ⟨_, -, heq⟩ := Except.bind_ok.mp h
    cases Except.ok.inj heq
    have hid : f.id = nodeId := Preference.fromDict_id hf
    exact ⟨rfl, hid⟩
  | observation =>
    obtain ⟨f, hf, h⟩ := Except.bind_ok.mp h
    obtain ⟨_, -, heq⟩ := Except.bind_ok.mp h
    cases Except.ok.inj heq
    have hid : f.id = nodeId := Observation.fromDict_id hf
    exact ⟨rfl, hid⟩

/-- Two readings of the clock give the same record up to its times, and the same record when it is
no function or the payload has a creation time. -/
theorem normalise_clock {env : Env} {now now' nodeId : String} {nodeType : SyncNodeType}
    {scope : SyncScope} {payload : Members} {r r' : NodeRecord}
    (h : normalise env now nodeType nodeId scope payload = .ok r)
    (h' : normalise env now' nodeType nodeId scope payload = .ok r') :
    r.withoutTimes = r'.withoutTimes ∧
      (nodeType ≠ .function ∨ (payload.getD "created_at" .null).truthy = true → r = r') := by
  by_cases hf : nodeType = .function
  · subst hf
    simp only [normalise, Except.bind_ok] at h h'
    obtain ⟨-, -, f, hdec, -, -, heq⟩ := h
    obtain ⟨-, -, f', hdec', -, -, heq'⟩ := h'
    cases Except.ok.inj heq
    cases Except.ok.inj heq'
    obtain ⟨hsame, htimed⟩ := Function.fromDict_clock hdec hdec'
    constructor
    · have hstamp := congrArg (fun g : Function =>
        NodeRecord.function { g with toMemoryNode := stampScope scope g.toMemoryNode }) hsame
      exact hstamp
    · rintro (hne | ht)
      · exact absurd rfl hne
      · rw [htimed ht]
  · have hsame : normalise env now nodeType nodeId scope payload =
        normalise env now' nodeType nodeId scope payload := by
      cases nodeType <;> first | rfl | exact absurd rfl hf
    rw [← hsame] at h'
    have hrr : r = r' := Except.ok.inj (h.symm.trans h')
    exact ⟨congrArg NodeRecord.withoutTimes hrr, fun _ => hrr⟩

end Memplex
