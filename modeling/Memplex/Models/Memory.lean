import Memplex.Py.Convert

/-!
# Memory nodes

The four kinds of memory node and their serialization. `from_dict` is tolerant: it checks two
discriminators, the trust tier and, for a function, its id and domain, and takes every other field
as it comes, so a field of a node is a `Value` of whatever type the payload had. A function also
fills its creation time from the clock when it is missing: that reading, `now`, is an argument.
-/

namespace Memplex

/-- Where a memory comes from. -/
inductive SourceType where
  | requirement
  | meeting
  | code
  | wiki
deriving DecidableEq

namespace SourceType

/-- The serialized name. -/
def value : SourceType → String
  | requirement => "requirement"
  | meeting => "meeting"
  | code => "code"
  | wiki => "wiki"

/-- `SourceType(value)`. -/
def ofValue (s : String) : Option SourceType :=
  [requirement, meeting, code, wiki].find? fun t => t.value = s

end SourceType

/-- A source type, or the raw value that stands in its place. -/
inductive SourceTag where
  | known (t : SourceType)
  | raw (v : Value)
deriving DecidableEq

/-- The serialized source type. -/
def SourceTag.toValue : SourceTag → Value
  | .known t => .str t.value
  | .raw v => v

/-- The memory types of a durable node. -/
def memoryTypes : List String := ["function", "fact", "preference", "observation"]

/-- The curated knowledge tiers. -/
def knowledgeTiers : List String := ["personal", "domain", "team"]

/-- `_coerce_trust_tier`: an exact integer from one to four, or the default three. -/
def coerceTrustTier : Value → ℤ
  | .int i => if 1 ≤ i ∧ i ≤ 4 then i else 3
  | _ => 3

/-- The fields that every memory node has. -/
structure MemoryNode where
  id : String
  memoryType : Value
  name : Value
  domain : Value
  confidence : Value
  sourceType : SourceTag
  owner : Value
  tenantId : Value
  ownerSubjectId : Value
  workspaceId : Value
  visibility : Value
  provenance : PyDict
  version : Value
  createdAt : Value
  updatedAt : Value
  originSession : Value
  accessCount : Value
  lastAccessedAt : Value
  sourceParagraphs : List Value
  needsReview : Value
  needsReviewUntil : Value
  contentHash : Value
  namespace_ : PyDict
  knowledgeTier : Value
  trustTier : ℤ
deriving DecidableEq

namespace MemoryNode

/-- `_base_to_dict`. -/
def baseToDict (n : MemoryNode) : Members :=
  [("id", .str n.id), ("memory_type", n.memoryType), ("name", n.name), ("domain", n.domain),
    ("confidence", n.confidence), ("source_type", n.sourceType.toValue), ("owner", n.owner),
    ("tenant_id", n.tenantId), ("owner_subject_id", n.ownerSubjectId),
    ("workspace_id", n.workspaceId), ("visibility", n.visibility),
    ("provenance", .obj n.provenance.toMembers), ("version", n.version),
    ("created_at", n.createdAt), ("updated_at", n.updatedAt), ("origin_session", n.originSession),
    ("access_count", n.accessCount), ("last_accessed_at", n.lastAccessedAt),
    ("source_paragraphs", .arr n.sourceParagraphs), ("needs_review", n.needsReview),
    ("needs_review_until", n.needsReviewUntil), ("content_hash", n.contentHash),
    ("namespace", .obj n.namespace_.toMembers), ("knowledge_tier", n.knowledgeTier),
    ("trust_tier", .int n.trustTier)]

/-- `_base_from_dict`, with the memory type that the class defaults to. The id of a node is a
string: every caller has compared it with one. -/
def baseFromDict (d : Members) (id : String) (memoryType : String) : Except PyError MemoryNode := do
  let memoryTypeOk ← inStrings (d.getD "memory_type" .null) true memoryTypes
  require (memoryTypeOk = true) (valueError "memory_type must be one of the memory types")
  let knowledgeTierOk ← inStrings (d.getD "knowledge_tier" .null) true knowledgeTiers
  require (knowledgeTierOk = true) (valueError "knowledge_tier must be one of the knowledge tiers")
  let sourceType := match d.getD "source_type" (.str "wiki") with
    | .str s => .known ((SourceType.ofValue s).getD .wiki)
    | v => .raw v
  let provenance ← pyDict (d.getD "provenance" (.obj []))
  let sourceParagraphs ← pyList (d.getD "source_paragraphs" (.arr []))
  let namespace_ ← pyDict (d.getD "namespace" (.obj []))
  return {
    id := id
    memoryType := d.getD "memory_type" (.str memoryType)
    name := d.getD "name" (.str "")
    domain := d.getD "domain" .null
    confidence := d.getD "confidence" (.float (.finite (Lib.Dec.ofInt 1)))
    sourceType := sourceType
    owner := d.getD "owner" .null
    tenantId := d.getD "tenant_id" .null
    ownerSubjectId := d.getD "owner_subject_id" .null
    workspaceId := d.getD "workspace_id" .null
    visibility := d.getD "visibility" .null
    provenance := provenance
    version := d.getD "version" (.int 1)
    createdAt := d.getD "created_at" .null
    updatedAt := d.getD "updated_at" .null
    originSession := d.getD "origin_session" .null
    accessCount := d.getD "access_count" (.int 0)
    lastAccessedAt := d.getD "last_accessed_at" .null
    sourceParagraphs := sourceParagraphs
    needsReview := d.getD "needs_review" (.bool false)
    needsReviewUntil := d.getD "needs_review_until" .null
    contentHash := d.getD "content_hash" .null
    namespace_ := namespace_
    knowledgeTier := d.getD "knowledge_tier" .null
    trustTier := coerceTrustTier (d.getD "trust_tier" (.int 3)) }

theorem baseFromDict_id {d : Members} {id memoryType : String} {n : MemoryNode}
    (h : baseFromDict d id memoryType = .ok n) : n.id = id := by
  simp only [baseFromDict, Except.bind_ok] at h
  obtain ⟨_, -, _, -, _, -, _, -, _, -, _, -, _, -, heq⟩ := h
  exact (congrArg MemoryNode.id (Except.ok.inj heq)).symm

theorem baseFromDict_createdAt {d : Members} {id memoryType : String} {n : MemoryNode}
    (h : baseFromDict d id memoryType = .ok n) : n.createdAt = d.getD "created_at" .null := by
  simp only [baseFromDict, Except.bind_ok] at h
  obtain ⟨_, -, _, -, _, -, _, -, _, -, _, -, _, -, heq⟩ := h
  exact (congrArg MemoryNode.createdAt (Except.ok.inj heq)).symm

end MemoryNode

/-! ## Field values -/

/-- The creation time of a field value: a datetime, or the raw value that stands in its place. -/
inductive FieldTime where
  | datetime (t : PyDatetime)
  | raw (v : Value)
deriving DecidableEq

/-- One value of a multi-value field of a function. -/
structure FieldValue where
  desc : Value
  sources : List Value
  sourceMethod : Value
  weight : Value
  observation : Value
  createdAt : FieldTime
  status : Value
deriving DecidableEq

namespace FieldValue

/-- `to_dict`. -/
def toDict (f : FieldValue) : Members :=
  [("desc", f.desc), ("sources", .arr f.sources), ("source_method", f.sourceMethod),
    ("weight", f.weight), ("observation", f.observation),
    ("created_at", match f.createdAt with
      | .datetime t => .str t.isoformat
      | .raw v => v),
    ("status", f.status)]

/-- `FieldValue.from_dict`. -/
def fromDict (env : Env) (value : Value) : Except PyError FieldValue := do
  match value with
  | .obj d =>
    let createdAt ← match Members.getD d "created_at" .null with
      | .str s => match env.fromisoformat s with
        | some t => .ok (.datetime t)
        | none => .error (valueError "Invalid isoformat string")
      | v => .ok (.raw v)
    let sources ← pyList (Members.getD d "sources" (.arr []))
    return {
      desc := Members.getD d "desc" (.str "")
      sources := sources
      sourceMethod := Members.getD d "source_method" (.str "rule_based")
      weight := Members.getD d "weight" (.float (.finite (Lib.Dec.ofInt 1)))
      observation := Members.getD d "observation" .null
      createdAt := createdAt
      status := Members.getD d "status" (.str "active") }
  | _ => .error ⟨.attributeError, "object has no attribute 'get'"⟩

end FieldValue

/-! ## Functions -/

/-- The longest function id. -/
def maxFuncIdLength : ℕ := 128

/-- A character of a function id. -/
def isFuncIdChar (c : Char) : Bool := c.isAlphanum || c = '_' || c = '-'

/-- `validate_func_id`. -/
def validateFuncId (funcId : String) : Except PyError Unit := do
  require (¬ "domain_".toList <+: funcId.toList)
    (valueError ("Function ID 使用了保留的 domain_ 命名空间: " ++ funcId))
  require (funcId.length ≤ maxFuncIdLength) (valueError ("Function ID 过长: " ++ funcId))
  require (funcId ≠ "" ∧ ∀ c ∈ funcId.toList, isFuncIdChar c = true)
    (valueError ("Function ID 含非法字符: " ++ funcId))

/-- `validate_domain`. -/
def validateDomain : Value → Except PyError (Option String)
  | .null => .ok none
  | .str s => .ok (some s)
  | _ => .error (valueError "Function domain 必须是字符串或 None")

/-- Procedural memory. -/
structure Function extends MemoryNode where
  trigger : List FieldValue
  condition : List FieldValue
  action : List FieldValue
  benefit : List FieldValue
  nameNormalized : Value
  attributes : PyDict
  crossReferences : List Value
  priorityFromSource : Value
  sourceAuthority : Value
deriving DecidableEq

namespace Function

/-- `__post_init__`: the id and the domain are checked, missing times are filled from the clock. -/
def postInit (f : Function) (now : String) : Except PyError Function := do
  validateFuncId f.id
  let _ ← validateDomain f.domain
  let createdAt := if f.createdAt.truthy then f.createdAt else .str now
  let updatedAt := if f.updatedAt.truthy then f.updatedAt else createdAt
  return { f with createdAt := createdAt, updatedAt := updatedAt }

/-- The values of one role of a function. -/
def fieldValues (env : Env) (d : Members) (role : String) : Except PyError (List FieldValue) := do
  (← pyIter (d.getD role (.arr []))).mapM (FieldValue.fromDict env)

/-- `to_dict`. -/
def toDict (f : Function) : Members :=
  f.baseToDict ++
    [("name_normalized", f.nameNormalized),
      ("trigger", .arr (f.trigger.map fun v => .obj v.toDict)),
      ("condition", .arr (f.condition.map fun v => .obj v.toDict)),
      ("action", .arr (f.action.map fun v => .obj v.toDict)),
      ("benefit", .arr (f.benefit.map fun v => .obj v.toDict)),
      ("attributes", .obj f.attributes.toMembers),
      ("cross_references", .arr f.crossReferences),
      ("priority_from_source", f.priorityFromSource), ("source_authority", f.sourceAuthority)]

/-- The fields that `Function.from_dict` passes to the constructor. -/
def decode (env : Env) (d : Members) (id : String) : Except PyError Function := do
  let base ← MemoryNode.baseFromDict d id "function"
  let trigger ← fieldValues env d "trigger"
  let condition ← fieldValues env d "condition"
  let action ← fieldValues env d "action"
  let benefit ← fieldValues env d "benefit"
  let attributes ← pyDict (d.getD "attributes" (.obj []))
  let crossReferences ← pyList (d.getD "cross_references" (.arr []))
  return {
    toMemoryNode := base
    trigger := trigger
    condition := condition
    action := action
    benefit := benefit
    nameNormalized := d.getD "name_normalized" (.str "")
    attributes := attributes
    crossReferences := crossReferences
    priorityFromSource := d.getD "priority_from_source" .null
    sourceAuthority := d.getD "source_authority" .null }

/-- `Function.from_dict`. -/
def fromDict (env : Env) (d : Members) (id now : String) : Except PyError Function := do
  postInit (← decode env d id) now

theorem decode_base {env : Env} {d : Members} {id : String} {f : Function}
    (h : decode env d id = .ok f) :
    MemoryNode.baseFromDict d id "function" = .ok f.toMemoryNode := by
  simp only [decode, Except.bind_ok] at h
  obtain ⟨base, hbase, _, -, _, -, _, -, _, -, _, -, _, -, heq⟩ := h
  rw [← Except.ok.inj heq]
  exact hbase

/-- The function without the times that the clock may have filled in. -/
def withoutTimes (f : Function) : Function := { f with createdAt := .null, updatedAt := .null }

/-- What the constructor makes of a function: it differs in the times at most, and not even there
when the function came with a creation time and an update time. -/
theorem postInit_ok {f f' : Function} {now : String} (h : f.postInit now = .ok f') :
    f' = { f with
      createdAt := if f.createdAt.truthy then f.createdAt else .str now
      updatedAt := if f.updatedAt.truthy then f.updatedAt
        else if f.createdAt.truthy then f.createdAt else .str now } := by
  simp only [postInit, Except.bind_ok] at h
  obtain ⟨-, -, -, -, heq⟩ := h
  exact (Except.ok.inj heq).symm

theorem fromDict_id {env : Env} {d : Members} {id now : String} {f : Function}
    (h : fromDict env d id now = .ok f) : f.id = id := by
  obtain ⟨f₀, hf₀, hinit⟩ := Except.bind_ok.mp h
  have hid : f₀.id = id := MemoryNode.baseFromDict_id (decode_base hf₀)
  rw [postInit_ok hinit]
  exact hid

/-- Two readings of the clock give the same function up to its times, and the same function when
the dictionary has a creation time. -/
theorem fromDict_clock {env : Env} {d : Members} {id now now' : String} {f f' : Function}
    (h : fromDict env d id now = .ok f) (h' : fromDict env d id now' = .ok f') :
    f.withoutTimes = f'.withoutTimes ∧
      ((d.getD "created_at" .null).truthy = true → f = f') := by
  obtain ⟨f₀, hf₀, hinit⟩ := Except.bind_ok.mp h
  obtain ⟨f₁, hf₁, hinit'⟩ := Except.bind_ok.mp h'
  cases Except.ok.inj (hf₀.symm.trans hf₁)
  have hcreated : f₀.createdAt = d.getD "created_at" .null :=
    MemoryNode.baseFromDict_createdAt (decode_base hf₀)
  rw [postInit_ok hinit, postInit_ok hinit']
  refine ⟨rfl, fun ht => ?_⟩
  rw [← hcreated] at ht
  simp only [if_pos ht]

end Function

/-! ## Facts, preferences and observations -/

/-- Declarative memory: subject, predicate and object. -/
structure Fact extends MemoryNode where
  subject : Value
  predicate : Value
  object_ : Value
  validUntil : Value
  validFrom : Value
  invalidAt : Value
deriving DecidableEq

namespace Fact

/-- `to_dict`. -/
def toDict (f : Fact) : Members :=
  f.baseToDict ++
    [("subject", f.subject), ("predicate", f.predicate), ("object", f.object_),
      ("valid_until", f.validUntil), ("valid_from", f.validFrom), ("invalid_at", f.invalidAt)]

/-- `Fact.from_dict`. -/
def fromDict (d : Members) (id : String) : Except PyError Fact := do
  let base ← MemoryNode.baseFromDict d id "fact"
  return {
    toMemoryNode := base
    subject := d.getD "subject" (.str "")
    predicate := d.getD "predicate" (.str "")
    object_ := d.getD "object" (d.getD "object_" (.str ""))
    validUntil := d.getD "valid_until" .null
    validFrom := d.getD "valid_from" .null
    invalidAt := d.getD "invalid_at" .null }

theorem fromDict_id {d : Members} {id : String} {f : Fact} (h : fromDict d id = .ok f) :
    f.id = id := by
  simp only [fromDict, Except.bind_ok] at h
  obtain ⟨base, hbase, heq⟩ := h
  have hid : base.id = id := MemoryNode.baseFromDict_id hbase
  rw [← Except.ok.inj heq]
  exact hid

end Fact

/-- What a user or an agent prefers. -/
structure Preference extends MemoryNode where
  aspect : Value
  preference : Value
  subjectId : Value
deriving DecidableEq

namespace Preference

/-- `to_dict`. -/
def toDict (p : Preference) : Members :=
  p.baseToDict ++
    [("aspect", p.aspect), ("preference", p.preference), ("subject_id", p.subjectId)]

/-- `Preference.from_dict`. -/
def fromDict (d : Members) (id : String) : Except PyError Preference := do
  let base ← MemoryNode.baseFromDict d id "preference"
  return {
    toMemoryNode := base
    aspect := d.getD "aspect" (.str "")
    preference := d.getD "preference" (.str "")
    subjectId := d.getD "subject_id" .null }

theorem fromDict_id {d : Members} {id : String} {p : Preference} (h : fromDict d id = .ok p) :
    p.id = id := by
  simp only [fromDict, Except.bind_ok] at h
  obtain ⟨base, hbase, heq⟩ := h
  have hid : base.id = id := MemoryNode.baseFromDict_id hbase
  rw [← Except.ok.inj heq]
  exact hid

end Preference

/-- An event observed at run time. -/
structure Observation extends MemoryNode where
  event : Value
  context : Value
  observedAt : Value
  actor : Value
  category : Value
deriving DecidableEq

namespace Observation

/-- `to_dict`. -/
def toDict (o : Observation) : Members :=
  o.baseToDict ++
    [("event", o.event), ("context", o.context), ("observed_at", o.observedAt),
      ("actor", o.actor), ("category", o.category)]

/-- `Observation.from_dict`. -/
def fromDict (d : Members) (id : String) : Except PyError Observation := do
  let base ← MemoryNode.baseFromDict d id "observation"
  return {
    toMemoryNode := base
    event := d.getD "event" (.str "")
    context := d.getD "context" (.str "")
    observedAt := d.getD "observed_at" .null
    actor := d.getD "actor" (.str "system")
    category := d.getD "category" (.str "note") }

theorem fromDict_id {d : Members} {id : String} {o : Observation} (h : fromDict d id = .ok o) :
    o.id = id := by
  simp only [fromDict, Except.bind_ok] at h
  obtain ⟨base, hbase, heq⟩ := h
  have hid : base.id = id := MemoryNode.baseFromDict_id hbase
  rw [← Except.ok.inj heq]
  exact hid

end Observation

end Memplex
