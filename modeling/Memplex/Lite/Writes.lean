import Memplex.Core.Engine
import Memplex.Sync.Apply

/-!
# The writes of the lite store

`LiteMemoryStore.add`, `add_fact` and `add_preference`. A function is merged into the resident
function that its normalized name is indexed for, whatever the ids and the identities of the two
are; a name that is not indexed puts the function under its id. A fact or a preference takes the
place of whatever its id names. Every write ends in the capture of its record for the peers and in
the commit of the whole state; where one of them raises, the store is loaded again.

The model works on the state that the store has after `_reload_for_mutation`. `LiteWriter` holds
what a write does not read from the state: the configuration, and the durable commit, of which all
that a write relies on is that it keeps the resident records.
-/

namespace Memplex

open Lib

/-! ## What a write reads -/

/-- An event of the changelog. -/
structure ChangelogEvent where
  funcId : String
  timestamp : PyDatetime
  eventType : String
  description : String
  source : String
  actor : String
deriving DecidableEq

/-- Edges by the ids of their two ends, and under each id by their type. -/
abbrev EdgesByNode := List (String × List (String × List GraphEdge))

/-- The resident state of a store: its records, and the indexes over them that the mutators keep
up to date. -/
structure LiteMemory where
  store : LiteStore
  changelog : List ChangelogEvent
  edgesByNode : EdgesByNode
  /-- The domains of the functions, by id: a function without one has the empty domain. -/
  domainById : Table (Prod.fst : String × String → String)
  /-- The edges to domains that were not checked yet. -/
  pendingBelongsEdges : List GraphEdge

/-- The readings of the clock in one write, and the id of its event. -/
structure WriteMoment where
  updatedAt : Timestamp
  loggedAt : Timestamp
  occurredAt : Timestamp
  eventId : String

/-- What the writes of a store use beside its state. -/
structure LiteWriter where
  cfg : SyncConfig
  env : Env
  /-- `f"{value}"`. -/
  format : Value → String
  /-- `_commit_current_state`. -/
  commitCurrentState : LiteMemory → Except PyError LiteMemory
  /-- A commit folds in what other processes have committed, and keeps what is resident. -/
  commit_keeps : ∀ {m m' : LiteMemory}, commitCurrentState m = .ok m' → ∀ {t id r},
    m.store.business.record t id = some r → m'.store.business.record t id = some r

/-! ## The checks of a function -/

/-- `type(value) is str`. -/
def Value.isText (v : Value) : Bool := (asString v).isSome

/-- A finite number that is no boolean. -/
def Value.isFinite : Value → Bool
  | .int _ => true
  | .float (.finite _) => true
  | _ => false

/-- A natural number. -/
def Value.isCount : Value → Bool
  | .int i => 0 ≤ i
  | _ => false

/-- A boolean. -/
def Value.isBool : Value → Bool
  | .bool _ => true
  | _ => false

/-- A dictionary of strings. -/
def PyDict.isText (d : PyDict) : Bool := d.all fun m => m.1.isText && m.2.isText

/-- `_validate_node_for_read`. -/
def MemoryNode.readable (n : MemoryNode) : Bool :=
  n.name.isText && isOptString n.domain && n.confidence.isFinite &&
    (match n.sourceType with
      | .known _ => true
      | .raw _ => false) &&
    [n.owner, n.tenantId, n.ownerSubjectId, n.workspaceId, n.visibility, n.createdAt, n.updatedAt,
      n.originSession, n.lastAccessedAt, n.needsReviewUntil, n.contentHash].all isOptString &&
    n.version.isCount && n.accessCount.isCount && n.needsReview.isBool &&
    n.sourceParagraphs.all Value.isText && n.provenance.isText && n.namespace_.isText

/-- The checks of one value of a field. -/
def FieldValue.readable (f : FieldValue) : Bool :=
  f.desc.isText && f.sourceMethod.isText && f.status.isText && f.sources.all Value.isText &&
    f.weight.isFinite && (f.observation = .null || f.observation.isFinite) &&
    match f.createdAt with
    | .datetime _ => true
    | .raw v => v = .null

/-- `_validate_function_for_read`. -/
def Function.readable (f : Function) : Bool :=
  f.toMemoryNode.readable && f.nameNormalized.isText &&
    (f.trigger ++ f.condition ++ f.action ++ f.benefit).all FieldValue.readable

/-! ## Merging -/

/-- `Function.MAX_VALUES_PER_FIELD`. -/
def maxValuesPerField : ℕ := 20

/-- `_merge_field_values`. -/
def mergeFieldValues (existing incoming : List FieldValue) : List FieldValue :=
  (incoming.foldl (appendNew FieldValue.desc) existing).take maxValuesPerField

/-- `existing.version += 1`, for the integer that a resident function has. -/
def nextVersion : Value → Value
  | .int i => .int (i + 1)
  | v => v

/-- `value if value is not None else current`. -/
def orCurrent (value current : Value) : Value := if value = .null then current else value

/-- The resident function after the merge of an incoming one: what of the lifecycle and of the
identity the incoming one has takes the place of what is resident. -/
def Function.merge (existing func : Function) (now : Timestamp) : Function :=
  { existing with
    trigger := mergeFieldValues existing.trigger func.trigger
    condition := mergeFieldValues existing.condition func.condition
    action := mergeFieldValues existing.action func.action
    benefit := mergeFieldValues existing.benefit func.benefit
    sourceParagraphs := func.sourceParagraphs.foldl (appendNew id) existing.sourceParagraphs
    updatedAt := .str now.isoformat
    version := nextVersion existing.version
    knowledgeTier := orCurrent func.knowledgeTier existing.knowledgeTier
    visibility := orCurrent func.visibility existing.visibility
    provenance := existing.provenance.update func.provenance
    namespace_ := existing.namespace_.update func.namespace_ }

/-! ## Capturing -/

/-- `value or other`. -/
def pyOr (value other : Value) : Value := if value.truthy then value else other

/-- `_scope_from_node`. -/
def scopeFromNode (n : MemoryNode) : Except PyError SyncScope := do
  require (n.tenantId.isText = true ∧ n.tenantId ≠ .str "")
    (valueError "sync capture requires node tenant_id")
  require (n.ownerSubjectId.isText = true ∧ n.ownerSubjectId ≠ .str "")
    (valueError "sync capture requires node owner_subject_id")
  require (n.visibility.isText = true ∧ n.visibility ≠ .str "")
    (valueError "sync capture requires node visibility")
  SyncScope.create n.tenantId n.ownerSubjectId n.workspaceId n.visibility
    (pyOr (n.provenance.getStr "agent_id") .null)
    (pyOr (n.provenance.getStr "session_id") n.originSession)

/-- `capture_node`, for an upsert: `data` is `node.to_dict()`. -/
def SyncState.captureNode (s : SyncState) (cfg : SyncConfig) (moment : WriteMoment)
    (node : MemoryNode) (nodeType : SyncNodeType) (data : Members) : Except PyError SyncState :=
  if cfg.captureRequired = false then .ok s
  else do
    let key ← SyncEntityKey.node (.str node.id)
    let version ← SyncVersion.create moment.occurredAt (.str cfg.localNodeId) (.str moment.eventId)
    let scope ← scopeFromNode node
    let event ← SyncEvent.create (.int 1) (.str moment.eventId) (.str cfg.localNodeId) nodeType key
      .upsert (.str version.text) scope (.obj data)
    s.captureLocalEvent cfg event

/-! ## Writes -/

/-- The function that a normalized name is indexed for. -/
def BusinessState.namesake (b : BusinessState) (norm : String) : Option Function :=
  (b.nameIndex.get? norm).bind fun entry =>
    if entry.2 = "" then none else b.functions.get? entry.2

/-- The function that is persisted under the name after an insertion: an index entry without a
function is an error. -/
def BusinessState.persisted (b : BusinessState) (norm : String) (func : Function) :
    Except PyError Unit :=
  match b.nameIndex.get? norm with
  | none => .ok ()
  | some entry => require (entry.2 = "" ∨ entry.2 = func.id) ⟨.keyError, entry.2⟩

/-- The source that the changelog names. -/
def SourceDocument.logged (source : SourceDocument) : String :=
  let path := source.sourcePath.getD ""
  if path ≠ "" then path else source.url.getD ""

/-- `func.domain or ""`, for a domain that was checked. -/
def Function.domainText (f : Function) : String := (asString f.domain).getD ""

/-- `_index_resident_function`. -/
def LiteMemory.indexResidentFunction (m : LiteMemory) (func : Function) : LiteMemory :=
  { m with domainById := m.domainById.set (func.id, func.domainText) }

/-- The check of one edge in `_validate_resident_graph`, with the domain that is indexed for its
source. -/
def validateIndexedEdge (env : Env) (domainById : Table (Prod.fst : String × String → String))
    (edge : GraphEdge) : Except PyError Unit :=
  match domainById.get? edge.source with
  | none => .error (valueError "BELONGS_TO source 必须是持久 Function")
  | some entry =>
    require (entry.2 ≠ "" ∧ edge.target = domainNodeId env entry.2)
      (valueError "BELONGS_TO target 必须匹配 source domain")

/-- The state with a function in it, a name for it in the index, and an event in the changelog. -/
def LiteMemory.withFunction (m : LiteMemory) (func : Function)
    (nameIndex : Table (Prod.fst : String × String → String)) (event : ChangelogEvent) :
    LiteMemory :=
  { m with
    store := { m.store with business := { m.store.business with
      functions := m.store.business.functions.set func
      nameIndex := nameIndex } }
    changelog := m.changelog ++ [event] }

namespace LiteWriter

variable (W : LiteWriter) (moment : WriteMoment)

/-- `_validate_resident_graph`. -/
def validateResidentGraph (m : LiteMemory) : Except PyError LiteMemory := do
  if m.pendingBelongsEdges = [] then return m
  else
    m.pendingBelongsEdges.forM (validateIndexedEdge W.env m.domainById)
    return { m with pendingBelongsEdges := [] }

/-- `_commit_sync_changes`, for one node. -/
def commitSyncChanges (m : LiteMemory) (node : MemoryNode) (nodeType : SyncNodeType)
    (data : Members) : Except PyError LiteMemory := do
  let sync ← m.store.sync.captureNode W.cfg moment node nodeType data
  W.commitCurrentState { m with store := { m.store with sync := sync } }

/-- `add`. -/
def add (m : LiteMemory) (func : Function) (source : SourceDocument) :
    Except PyError LiteMemory := do
  let m ← W.validateResidentGraph m
  validateFuncId func.id
  let _ ← validateDomain func.domain
  require (func.readable = true)
    ⟨.liteStorageIntegrityError, "invalid Lite target payload before durable decision"⟩
  let norm ← functionNameKey W.env func
  match m.store.business.namesake norm with
  | some existing =>
    let merged := existing.merge func moment.updatedAt
    let event : ChangelogEvent := ⟨merged.id, .ofUtc moment.loggedAt, "updated",
      "Merged fields from source", source.logged, "system"⟩
    W.commitSyncChanges moment (m.withFunction merged m.store.business.nameIndex event)
      merged.toMemoryNode .function merged.toDict
  | none =>
    let event : ChangelogEvent := ⟨func.id, .ofUtc moment.loggedAt, "created",
      "Created function: " ++ W.format func.name, source.logged, "system"⟩
    m.store.business.persisted norm func
    W.commitSyncChanges moment
      ((m.withFunction func (m.store.business.nameIndex.set (norm, func.id)) event)
        |>.indexResidentFunction func)
      func.toMemoryNode .function func.toDict

/-- A node with the times that it came without. -/
def fillTimes (n : MemoryNode) : MemoryNode :=
  { n with
    createdAt := pyOr n.createdAt (.str moment.updatedAt.isoformat)
    updatedAt := pyOr n.updatedAt (.str moment.updatedAt.isoformat) }

/-- The changelog event of a fact or a preference. -/
def typedEvent (known : Bool) (node : MemoryNode) (kind : String) (label : Value) :
    ChangelogEvent :=
  ⟨node.id, .ofUtc moment.loggedAt, if known then "updated" else "created",
    (if known then "Updated " else "Created ") ++ kind ++ ": " ++
      W.format (pyOr node.name label), "", "system"⟩

/-- `add_fact`. -/
def addFact (m : LiteMemory) (fact : Fact) : Except PyError LiteMemory := do
  let m ← W.validateResidentGraph m
  let known := m.store.business.facts.contains fact.id
  let fact := { fact with toMemoryNode := fillTimes moment fact.toMemoryNode }
  W.commitSyncChanges moment { m with
      store := { m.store with business := { m.store.business with
        facts := m.store.business.facts.set fact } }
      changelog := m.changelog ++
        [W.typedEvent moment known fact.toMemoryNode "fact" fact.subject] }
    fact.toMemoryNode .fact fact.toDict

/-- `add_preference`. -/
def addPreference (m : LiteMemory) (preference : Preference) : Except PyError LiteMemory := do
  let m ← W.validateResidentGraph m
  let known := m.store.business.preferences.contains preference.id
  let preference := { preference with toMemoryNode := fillTimes moment preference.toMemoryNode }
  W.commitSyncChanges moment { m with
      store := { m.store with business := { m.store.business with
        preferences := m.store.business.preferences.set preference } }
      changelog := m.changelog ++
        [W.typedEvent moment known preference.toMemoryNode "preference" preference.aspect] }
    preference.toMemoryNode .preference preference.toDict

end LiteWriter

end Memplex
