import Memplex.Models.Reload
import Memplex.Lite.Writes

/-!
# The documents of a store

A store is kept as two documents, the memory and the changelog, and `decodePair` reads them. A raw
record is checked before the tolerant `from_dict` sees it, and what `from_dict` makes of it is checked
again.

The memory document is the dictionary that `json.loads` returns, its `sync` subtree apart: that is
the sync state, which the durability layer validates (`SyncState.validate`) before a pair exists.
-/

namespace Memplex

open Lib

/-! ## Checks of a raw record -/

/-- `_INVALID_LITE_FIELD`. -/
def invalidLiteField (field : String) : PyError := valueError ("invalid Lite " ++ field)

/-- The text of a value that was checked to be one. -/
def textOf (v : Value) : String := (asString v).getD ""

/-- The check of a field that may be absent. -/
def checkField (d : Members) (name : String) (ok : Value → Bool) (e : PyError) :
    Except PyError Unit :=
  require ((d.get? name).all ok = true) e

/-- A list of texts. -/
def Value.isTextList : Value → Bool
  | .arr items => items.all Value.isText
  | _ => false

/-- The keys of every node. -/
def baseNodeKeys : List String :=
  ["id", "memory_type", "name", "domain", "confidence", "source_type", "owner", "tenant_id",
    "owner_subject_id", "workspace_id", "visibility", "provenance", "version", "created_at",
    "updated_at", "origin_session", "access_count", "last_accessed_at", "source_paragraphs",
    "needs_review", "needs_review_until", "content_hash", "namespace", "knowledge_tier",
    "trust_tier"]

/-- The keys of a function. -/
def functionKeys : List String :=
  baseNodeKeys ++ ["name_normalized", "trigger", "condition", "action", "benefit", "attributes",
    "cross_references", "priority_from_source", "source_authority"]

/-- The keys of a fact. -/
def factKeys : List String :=
  baseNodeKeys ++ ["subject", "predicate", "object", "valid_until", "valid_from", "invalid_at"]

/-- The keys of a fact, with the earlier name of its object. -/
def factLegacyKeys : List String := factKeys ++ ["object_"]

/-- The keys of a preference. -/
def preferenceKeys : List String := baseNodeKeys ++ ["aspect", "preference", "subject_id"]

/-- The keys of an observation. -/
def observationKeys : List String :=
  baseNodeKeys ++ ["event", "context", "observed_at", "actor", "category"]

/-- The keys of a field value. -/
def fieldValueKeys : List String :=
  ["desc", "sources", "source_method", "weight", "observation", "created_at", "status"]

/-- The keys of an edge. -/
def edgeKeys : List String := ["source", "target", "edge_type", "weight", "evidence", "created_at"]

/-- The identity fields that a G002 node lacks. -/
def g002MissingIdentityKeys : List String :=
  ["tenant_id", "owner_subject_id", "workspace_id", "visibility", "provenance"]

/-- `_g002_historical_keys`: the one schema that a historical node of a type may have. -/
def g002HistoricalKeys (memoryType : String) : Option (List String) :=
  let lacking (keys : List String) := keys.filter fun k => k ∉ g002MissingIdentityKeys
  if memoryType = "function" then some (lacking functionKeys)
  else if memoryType = "fact" then some (lacking (factLegacyKeys.filter fun k => k ≠ "object"))
  else if memoryType = "preference" then some (lacking preferenceKeys)
  else if memoryType = "observation" then some (lacking observationKeys)
  else none

/-- Whether the keys of a dictionary are those of a schema. -/
def hasKeys (d : Members) (keys : List String) : Bool :=
  (∀ k ∈ d.keys, k ∈ keys) ∧ ∀ k ∈ keys, k ∈ d.keys

/-- `_validate_g002_historical_node_keys`. -/
def validateG002HistoricalNodeKeys (d : Members) (memoryType : String) : Except PyError Unit :=
  require ((g002HistoricalKeys memoryType).any (hasKeys d) = true)
    (valueError ("invalid Lite recognized G002 " ++ memoryType ++ " schema"))

/-- `_validate_raw_keys`. -/
def validateRawKeys (d : Members) (allowed : List String) (legacy : Bool) (label : String) :
    Except PyError Unit := do
  require (∀ k ∈ d.keys, k ∈ allowed) (valueError ("invalid Lite " ++ label ++ " keys"))
  require (legacy = true ∨ hasKeys d allowed = true)
    (valueError ("incomplete Lite " ++ label ++ " schema"))

/-- The schema of a node: the historical one, or that of its type. -/
def validateNodeKeys (d : Members) (memoryType : String) (allowed : List String)
    (legacy g002Historical : Bool) (label : String) : Except PyError Unit :=
  if g002Historical then validateG002HistoricalNodeKeys d memoryType
  else validateRawKeys d allowed legacy label

/-- The fields of a node that are a text or `None`. -/
def optionalTextFields : List String :=
  ["domain", "owner", "tenant_id", "owner_subject_id", "workspace_id", "visibility", "created_at",
    "updated_at", "origin_session", "last_accessed_at", "needs_review_until", "content_hash"]

/-- `_validate_raw_node_discriminators`. -/
def validateRawNodeDiscriminators (d : Members) (expectedMemoryType : String) (legacy : Bool) :
    Except PyError Unit := do
  require (legacy = true ∨ d.has "memory_type" = true) (valueError "missing Lite memory_type")
  checkField d "memory_type" (fun v => v = .str expectedMemoryType)
    (valueError "invalid Lite memory_type")
  require (legacy = true ∨ d.has "source_type" = true) (valueError "missing Lite source_type")
  checkField d "source_type" (fun v => (asString v).any fun s => (SourceType.ofValue s).isSome)
    (valueError "invalid Lite source_type")
  ["id", "name"].forM fun name => checkField d name Value.isText (invalidLiteField name)
  optionalTextFields.forM fun name => checkField d name isOptString (invalidLiteField name)
  checkField d "confidence" Value.isFinite (invalidLiteField "raw node confidence")
  ["version", "access_count"].forM fun name =>
    checkField d name Value.isCount (invalidLiteField name)
  checkField d "needs_review" Value.isBool (valueError "invalid Lite needs_review")
  checkField d "source_paragraphs" Value.isTextList (valueError "invalid Lite source_paragraphs")
  ["provenance", "namespace"].forM fun name =>
    checkField d name isStringDict (invalidLiteField name)

/-- A dictionary. -/
def Value.isDict : Value → Bool
  | .obj _ => true
  | _ => false

/-- The members of a dictionary, or the refusal of what is none. -/
def requireDict (v : Value) (e : PyError) : Except PyError Members :=
  match v with
  | .obj d => .ok d
  | _ => .error e

/-- `_validate_raw_field_value`. -/
def validateRawFieldValue (legacy : Bool) (raw : Value) : Except PyError Unit := do
  let d ← requireDict raw (valueError "invalid Lite FieldValue")
  validateRawKeys d fieldValueKeys legacy "FieldValue"
  checkField d "desc" Value.isText (valueError "invalid Lite FieldValue desc")
  checkField d "sources" Value.isTextList (valueError "invalid Lite FieldValue strings")
  checkField d "source_method" Value.isText (valueError "invalid Lite FieldValue source_method")
  checkField d "weight" Value.isFinite (invalidLiteField "raw FieldValue weight")
  checkField d "observation" (fun v => v = .null || v.isFinite)
    (invalidLiteField "raw FieldValue observation")
  checkField d "created_at" isOptString (valueError "invalid Lite FieldValue created_at")
  checkField d "status" (fun v => v ∈ ["active", "deprecated", "disputed"].map Json.str)
    (valueError "invalid Lite FieldValue status")

/-- The check of the values of one role of a function. -/
def validateRawRole (d : Members) (legacy : Bool) (name : String) : Except PyError Unit :=
  match d.get? name with
  | none => .ok ()
  | some (.arr values) => values.forM (validateRawFieldValue legacy)
  | some _ => .error (valueError ("invalid Lite Function " ++ name))

/-- `_validate_raw_function`. -/
def validateRawFunction (raw : Value) (legacy g002Historical : Bool) : Except PyError Members := do
  let d ← requireDict raw (valueError "invalid Lite Function")
  validateNodeKeys d "function" functionKeys legacy g002Historical "Function"
  validateRawNodeDiscriminators d "function" legacy
  ["trigger", "condition", "action", "benefit"].forM (validateRawRole d legacy)
  checkField d "attributes" Value.isDict (valueError "invalid Lite Function attributes")
  checkField d "attributes" isJsonValue (invalidLiteField "Function attributes")
  checkField d "cross_references" (fun v => match v with
      | .arr items => items.all Value.isDict
      | _ => false) (valueError "invalid Lite Function cross_references")
  checkField d "cross_references" isJsonValue (invalidLiteField "Function cross_references")
  ["priority_from_source", "source_authority"].forM fun name =>
    checkField d name isOptString (valueError ("invalid Lite Function " ++ name))
  return d

/-- `OBSERVATION_CATEGORIES`. -/
def observationCategories : List String := ["bugfix", "decision", "change", "discovery", "note"]

/-- `_validate_raw_observation`. -/
def validateRawObservation (raw : Value) (legacy g002Historical : Bool) :
    Except PyError Members := do
  let d ← requireDict raw (valueError "invalid Lite Observation")
  validateNodeKeys d "observation" observationKeys legacy g002Historical "Observation"
  validateRawNodeDiscriminators d "observation" legacy
  ["event", "context", "actor"].forM fun name =>
    checkField d name Value.isText (valueError ("invalid Lite Observation " ++ name))
  checkField d "observed_at" isOptString (valueError "invalid Lite Observation observed_at")
  checkField d "category" (fun v => v ∈ observationCategories.map Json.str)
    (valueError "invalid Lite Observation category")
  return d

/-- The keys of the object of a fact that a dictionary has. -/
def objectKeys (d : Members) : List String := ["object", "object_"].filter fun k => d.has k

/-- `_validate_raw_fact`. -/
def validateRawFact (raw : Value) (legacy g002Historical : Bool) : Except PyError Members := do
  let d ← requireDict raw (valueError "invalid Lite Fact")
  validateNodeKeys d "fact" (if legacy then factLegacyKeys else factKeys) legacy g002Historical
    "Fact"
  validateRawNodeDiscriminators d "fact" legacy
  ["subject", "predicate"].forM fun name =>
    checkField d name Value.isText (valueError ("invalid Lite Fact " ++ name))
  require (if g002Historical then objectKeys d = ["object_"]
      else if legacy then (objectKeys d).length ≤ 1 else objectKeys d = ["object"])
    (valueError "invalid Lite Fact object key")
  (objectKeys d).head?.toList.forM fun name =>
    checkField d name Value.isText (valueError "invalid Lite Fact object")
  checkField d "valid_until" isOptString (valueError "invalid Lite Fact valid_until")
  return d

/-- `_validate_raw_preference`. -/
def validateRawPreference (raw : Value) (legacy g002Historical : Bool) :
    Except PyError Members := do
  let d ← requireDict raw (valueError "invalid Lite Preference")
  validateNodeKeys d "preference" preferenceKeys legacy g002Historical "Preference"
  validateRawNodeDiscriminators d "preference" legacy
  ["aspect", "preference"].forM fun name =>
    checkField d name Value.isText (valueError ("invalid Lite Preference " ++ name))
  checkField d "subject_id" isOptString (valueError "invalid Lite Preference subject_id")
  return d

/-- `_validate_raw_edge`. -/
def validateRawEdge (raw : Value) (legacy : Bool) : Except PyError Members := do
  let d ← requireDict raw (valueError "invalid Lite GraphEdge")
  validateRawKeys d edgeKeys legacy "GraphEdge"
  require (∀ name ∈ ["source", "target", "edge_type"], (d.getD name .null).isText = true)
    (valueError "invalid Lite GraphEdge endpoints")
  checkField d "weight" Value.isFinite (invalidLiteField "raw GraphEdge weight")
  checkField d "evidence" Value.isTextList (valueError "invalid Lite GraphEdge evidence")
  checkField d "created_at" isOptString (valueError "invalid Lite GraphEdge created_at")
  return d

/-! ## Reading a record -/

/-- `_require_exact_string` on some fields. -/
def requireExactStrings (kind : String) (fields : List (String × Value)) : Except PyError Unit :=
  fields.forM fun field => require (field.2.isText = true) (invalidLiteField (kind ++ field.1))

/-- `_require_exact_string`, of a field that may be `None`. -/
def requireOptionalString (kind name : String) (v : Value) : Except PyError Unit :=
  require (isOptString v = true) (invalidLiteField (kind ++ name))

/-- `_validate_node_for_read`; one message stands for those of its checks. -/
def validateNodeForRead (n : MemoryNode) : Except PyError Unit :=
  require (n.readable = true) (invalidLiteField "node")

section Decode

variable (env : Env) (now : Timestamp)

/-- A function of a document; missing times are filled from the clock. -/
def decodeFunction (legacy g002Historical : Bool) (raw : Value) : Except PyError Function := do
  let d ← validateRawFunction raw legacy g002Historical
  let func ← Function.fromDict env d (textOf (d.getD "id" (.str ""))) now.isoformat
  validateFuncId func.id
  let _ ← validateDomain func.domain
  require (func.readable = true) (invalidLiteField "Function")
  return func

/-- A fact of a document. -/
def decodeFact (legacy g002Historical : Bool) (raw : Value) : Except PyError Fact := do
  let d ← validateRawFact raw legacy g002Historical
  let fact ← Fact.fromDict d (textOf (d.getD "id" (.str "")))
  validateNodeForRead fact.toMemoryNode
  requireExactStrings "Fact "
    [("subject", fact.subject), ("predicate", fact.predicate), ("object_", fact.object_)]
  requireOptionalString "Fact " "valid_until" fact.validUntil
  return fact

/-- A preference of a document. -/
def decodePreference (legacy g002Historical : Bool) (raw : Value) : Except PyError Preference := do
  let d ← validateRawPreference raw legacy g002Historical
  let pref ← Preference.fromDict d (textOf (d.getD "id" (.str "")))
  validateNodeForRead pref.toMemoryNode
  requireExactStrings "Preference " [("aspect", pref.aspect), ("preference", pref.preference)]
  requireOptionalString "Preference " "subject_id" pref.subjectId
  return pref

/-- An observation of a document. -/
def decodeObservation (legacy g002Historical : Bool) (raw : Value) :
    Except PyError Observation := do
  let d ← validateRawObservation raw legacy g002Historical
  let observation ← Observation.fromDict d (textOf (d.getD "id" (.str "")))
  validateNodeForRead observation.toMemoryNode
  requireExactStrings "Observation "
    [("event", observation.event), ("context", observation.context),
      ("actor", observation.actor), ("category", observation.category)]
  requireOptionalString "Observation " "observed_at" observation.observedAt
  return observation

/-- `_serialize_edge`. -/
def serializeEdge (e : GraphEdge) : Members :=
  [("source", .str e.source), ("target", .str e.target), ("edge_type", .str e.edgeType),
    ("weight", .num e.weight), ("evidence", .arr (e.evidence.map .str)),
    ("created_at", .ofOptStr (e.createdAt.map PyDatetime.isoformat))]

/-- `datetime.fromisoformat`. -/
def parseTime (text : String) : Except PyError PyDatetime :=
  match env.fromisoformat text with
  | some t => .ok t
  | none => .error (valueError "Invalid isoformat string")

/-- The number of a value that was checked to be one. -/
def numOf : Value → Num
  | .num n => n
  | _ => .int 0

/-- The texts of a list that was checked to be one of texts. -/
def textsOf : Value → List String
  | .arr items => items.map textOf
  | _ => []

/-- `_deserialize_edge`, of a dictionary that was checked. -/
def deserializeEdge (d : Members) : Except PyError GraphEdge := do
  let createdAt ← match asString (d.getD "created_at" .null) with
    | some s => (parseTime env s).map some
    | none => .ok none
  return {
    source := textOf (d.getD "source" .null)
    target := textOf (d.getD "target" .null)
    edgeType := textOf (d.getD "edge_type" .null)
    weight := numOf (d.getD "weight" (.float (.finite (Dec.ofInt 1))))
    evidence := textsOf (d.getD "evidence" (.arr []))
    createdAt := createdAt }

/-- `_validate_edge_for_read`: of what the type of an edge leaves open, that its weight is finite. -/
def validateEdgeForRead (e : GraphEdge) : Except PyError Unit :=
  require (Value.isFinite (.num e.weight) = true) (invalidLiteField "GraphEdge weight")

/-- An edge of a document. -/
def decodeEdge (legacy : Bool) (raw : Value) : Except PyError GraphEdge := do
  let d ← validateRawEdge raw legacy
  let edge ← deserializeEdge env d
  validateEdgeForRead edge
  return edge

/-- `_serialize_event`. -/
def serializeEvent (e : ChangelogEvent) : Members :=
  [("func_id", .str e.funcId), ("timestamp", .str e.timestamp.isoformat),
    ("event_type", .str e.eventType), ("description", .str e.description),
    ("source", .str e.source), ("actor", .str e.actor)]

/-- `_EVENT_KEYS`. -/
def eventKeys : List String :=
  ["func_id", "timestamp", "event_type", "description", "source", "actor"]

/-- `_deserialize_event`. -/
def deserializeEvent (raw : Value) : Except PyError ChangelogEvent := do
  let d ← requireDict raw (valueError "invalid changelog event schema")
  require (hasKeys d eventKeys = true) (valueError "invalid changelog event schema")
  ["func_id", "event_type", "description", "source", "actor"].forM fun name =>
    require ((d.getD name .null).isText = true) (valueError ("invalid changelog event " ++ name))
  require (∀ name ∈ ["func_id", "event_type", "description", "actor"], d.getD name .null ≠ .str "")
    (valueError "empty required changelog event field")
  let timestamp := textOf (d.getD "timestamp" .null)
  require ((d.getD "timestamp" .null).isText = true ∧ 'T' ∈ timestamp.toList)
    (valueError "invalid changelog event timestamp")
  let ts ← match env.fromisoformat timestamp with
    | some t => .ok t
    | none => .error (valueError "invalid changelog event timestamp")
  return {
    funcId := textOf (d.getD "func_id" .null)
    timestamp := ts
    eventType := textOf (d.getD "event_type" .null)
    description := textOf (d.getD "description" .null)
    source := textOf (d.getD "source" .null)
    actor := textOf (d.getD "actor" .null) }

/-! ## Reading a pair -/

/-- `LitePair`: the two documents of a store, and whether they are in the form that had no
transactions. -/
structure LitePair where
  memory : Members
  sync : SyncState
  changelog : List Value
  legacy : Bool
deriving DecidableEq

/-- The elements of a collection of the memory document; an absent one is empty. -/
def LitePair.items (pair : LitePair) (name : String) : Except PyError (List Value) :=
  pyIter (pair.memory.getD name (.arr []))

/-- `fd.get("memory_type")`. -/
def rawMemoryType : Value → Value
  | .obj d => Members.getD d "memory_type" .null
  | _ => .null

/-- `_is_recognized_g002_enveloped_v1`: whether every node has one historical schema. -/
def isRecognizedG002 (memory : Members) : Bool :=
  memory.getD "schema_version" .null = .int 1 &&
    match memory.getD "functions" .null with
    | .arr nodes => !nodes.isEmpty && nodes.all fun node =>
      match node with
      | .obj d => (asString (rawMemoryType node)).any fun memoryType =>
        (g002HistoricalKeys memoryType).any (hasKeys d)
      | _ => false
    | _ => false

/-- The records of a pair, its paragraphs apart. -/
structure Decoded where
  functions : Functions
  facts : Table fun f : Fact => f.id
  preferences : Table fun p : Preference => p.id
  observations : Table BusinessState.observationId
  edges : Table GraphEdge.parts
  changelog : List ChangelogEvent
  sync : SyncState
deriving DecidableEq

/-- A record is entered; one under a key that is taken is refused. -/
def loadRow {ν κ : Type} [DecidableEq κ] {key : ν → κ} (duplicate : PyError) (t : Table key)
    (r : ν) : Except PyError (Table key) := do
  require (t.contains (key r) = false) duplicate
  return t.set r

/-- `_DUPLICATE_FACT_ID`. -/
def duplicateFact : PyError := valueError "duplicate Lite Fact id"

/-- `_DUPLICATE_PREFERENCE_ID`. -/
def duplicatePreference : PyError := valueError "duplicate Lite Preference id"

/-- `_DUPLICATE_OBSERVATION_ID`. -/
def duplicateObservation : PyError := valueError "duplicate Lite Observation id"

/-- One element of `functions`: a historical document has all nodes there. -/
def loadNode (legacy g002Historical : Bool) (acc : Decoded) (raw : Value) :
    Except PyError Decoded := do
  if g002Historical && rawMemoryType raw = .str "fact" then
    let facts ← loadRow duplicateFact acc.facts (← decodeFact false true raw)
    return { acc with facts := facts }
  else if g002Historical && rawMemoryType raw = .str "preference" then
    let preferences ← loadRow duplicatePreference acc.preferences
      (← decodePreference false true raw)
    return { acc with preferences := preferences }
  else if g002Historical && rawMemoryType raw = .str "observation" then
    let observations ← loadRow duplicateObservation acc.observations
      (← decodeObservation false true raw)
    return { acc with observations := observations }
  else
    let functions ← loadRow (valueError "duplicate Lite Function id") acc.functions
      (← decodeFunction env now legacy g002Historical raw)
    return { acc with functions := functions }

/-- A collection of a document. -/
def loadItems {ν κ : Type} [DecidableEq κ] {key : ν → κ} (duplicate : PyError)
    (decode : Value → Except PyError ν) (t : Table key) (items : List Value) :
    Except PyError (Table key) :=
  items.foldlM (fun t raw => do loadRow duplicate t (← decode raw)) t

/-- The rows of a table, entered into another. -/
def loadRows {ν κ : Type} [DecidableEq κ] {key : ν → κ} (duplicate : PyError)
    (t new : Table key) : Except PyError (Table key) :=
  new.rows.foldlM (loadRow duplicate) t

/-- The nodes of a pair whose tenants its binding speaks of. -/
def Decoded.nodes (d : Decoded) : List MemoryNode :=
  d.functions.rows.map Function.toMemoryNode ++ d.facts.rows.map Fact.toMemoryNode ++
    d.preferences.rows.map Preference.toMemoryNode ++
    d.observations.rows.map Observation.toMemoryNode

/-- `_decode_pair`. The name index that it builds beside the functions is `nameIndexOf` of them. -/
def decodePair (pair : LitePair) : Except PyError Decoded := do
  let g002Historical := !pair.legacy && isRecognizedG002 pair.memory
  let acc ← (← pair.items "functions").foldlM (loadNode env now pair.legacy g002Historical)
    ⟨.empty, .empty, .empty, .empty, .empty, [], pair.sync⟩
  let edges ← loadItems (valueError "duplicate Lite GraphEdge key") (decodeEdge env pair.legacy)
    .empty (← pair.items "edges")
  validateBelongsToEdges env acc.functions edges.rows
  let observations ← loadItems duplicateObservation (decodeObservation pair.legacy false) .empty
    (← pair.items "observations")
  let facts ← loadItems duplicateFact (decodeFact pair.legacy false) .empty
    (← pair.items "facts")
  let preferences ← loadItems duplicatePreference (decodePreference pair.legacy false) .empty
    (← pair.items "preferences")
  let observations ← loadRows duplicateObservation acc.observations observations
  let facts ← loadRows duplicateFact acc.facts facts
  let preferences ← loadRows duplicatePreference acc.preferences preferences
  let changelog ← pair.changelog.mapM (deserializeEvent env)
  let d : Decoded := ⟨acc.functions, facts, preferences, observations, edges, changelog, pair.sync⟩
  require (∀ binding ∈ pair.sync.tenantBinding, ∀ n ∈ d.nodes, n.tenantId = .str binding)
    (valueError "Lite sync tenant binding conflicts with business state")
  return d

end Decode

/-- The relations to domains of what was decoded were checked. -/
theorem decodePair_graph {env : Env} {now : Timestamp} {pair : LitePair} {d : Decoded}
    (h : decodePair env now pair = .ok d) :
    validateBelongsToEdges env d.functions d.edges.rows = .ok () := by
  obtain ⟨_, -, h⟩ := Except.bind_ok.mp h
  obtain ⟨_, -, h⟩ := Except.bind_ok.mp h
  obtain ⟨_, -, h⟩ := Except.bind_ok.mp h
  obtain ⟨_, -, h⟩ := Except.bind_ok.mp h
  obtain ⟨_, hgraph, h⟩ := Except.bind_ok.mp h
  obtain ⟨_, -, h⟩ := Except.bind_ok.mp h
  obtain ⟨_, -, h⟩ := Except.bind_ok.mp h
  obtain ⟨_, -, h⟩ := Except.bind_ok.mp h
  obtain ⟨_, -, h⟩ := Except.bind_ok.mp h
  obtain ⟨_, -, h⟩ := Except.bind_ok.mp h
  obtain ⟨_, -, h⟩ := Except.bind_ok.mp h
  obtain ⟨_, -, h⟩ := Except.bind_ok.mp h
  obtain ⟨_, -, h⟩ := Except.bind_ok.mp h
  obtain ⟨_, -, h⟩ := Except.bind_ok.mp h
  obtain ⟨_, -, h⟩ := Except.bind_ok.mp h
  obtain ⟨_, -, heq⟩ := Except.bind_ok.mp h
  rw [← Except.ok.inj heq]
  exact hgraph

end Memplex
