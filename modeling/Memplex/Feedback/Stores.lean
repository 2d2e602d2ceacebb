import Memplex.Auth.Scope
import Memplex.Lib.Groups

/-!
# Two stores for feedback

The lite store keeps its records in a list and groups what is pending by the text
`memory_id:field_role`. The SQLite store keeps rows and groups them by columns. Both bind the
identity of a request to what they record, and both filter what they show by it: the lite store
with a function on the record, the SQLite store with a clause over the columns.

SQLite's order of rows with one timestamp, and what `json_extract` makes of a value that is no
string, are parameters.
-/

namespace Memplex

open Lib

/-! ## Records -/

/-- `FeedbackVerdict`. -/
inductive FeedbackVerdict where
  | correct
  | wrong
  | alternative
deriving DecidableEq

/-- A time with or without its zone. -/
inductive FeedbackTime where
  | naive (t : Timestamp)
  /-- A time in UTC. -/
  | aware (t : Timestamp)
deriving DecidableEq

/-- `_to_naive`. -/
def FeedbackTime.toNaive : FeedbackTime → FeedbackTime
  | naive t => naive t
  | aware t => naive t

/-- A feedback record, with the times that `__post_init__` leaves without a zone. -/
structure MemoryFeedback where
  memoryId : String
  fieldRole : String
  valueIndex : ℤ
  verdict : FeedbackVerdict
  reason : Option String
  source : String
  timestamp : Timestamp
  owner : Option String
  feedbackType : String
  oldValue : Option String
  newValue : Option String
  needsReview : Bool
  needsReviewUntil : Option Timestamp
  resolvedAt : Option FeedbackTime
  resolution : Option String
  tenantId : Option String
  ownerSubjectId : Option String
  workspaceId : Option String
  visibility : String
  provenance : Members
deriving DecidableEq

/-- Whether a review is due. -/
def MemoryFeedback.isPending (fb : MemoryFeedback) : Bool :=
  fb.needsReview && fb.resolvedAt.isNone

/-- What was found to be reviewed; SQLite reports the time as its text. -/
structure PendingReview where
  memoryId : String
  fieldRole : String
  detectedAt : Timestamp
  source : String
deriving DecidableEq

/-- The trusted context of a request, with what is bound to a record besides its scope. -/
structure RequestContext extends AuthorizationContext where
  authenticationId : Option String
  requestId : String
deriving DecidableEq

/-- `_FEEDBACK_VISIBILITIES`. -/
def feedbackVisibilities : List String := ["user", "workspace", "session"]

/-- What the stores use besides their state. -/
structure FeedbackEnv extends Text where
  /-- A normalized visibility is its own normal form. -/
  lower_strip : ∀ v ∈ feedbackVisibilities, lower (strip v) = v
  /-- The SQL value of `json_extract(text, path)`, of the JSON value at the path. -/
  extract : Value → Value
  /-- Of a string it is that text. -/
  extract_str : ∀ s, extract (.str s) = .str s
  /-- `ORDER BY timestamp DESC`, whose order of rows with one timestamp is open. -/
  orderByTimestamp : List MemoryFeedback → List MemoryFeedback
  order_perm : ∀ rows, (orderByTimestamp rows).Perm rows
  order_sorted : ∀ rows, (orderByTimestamp rows).Pairwise fun a b => b.timestamp ≤ a.timestamp

/-! ## The identity of a request -/

/-- `_feedback_context`. -/
def feedbackContext (requireAuthorization : Bool) (context : Option RequestContext) :
    Except PyError (Option RequestContext) :=
  match context with
  | some c => .ok (some c)
  | none =>
    if requireAuthorization then
      .error ⟨.permissionError, "Feedback access requires an authorization context; " ++
        "use store.authorized(context).<operation>(...)"⟩
    else .ok none

namespace FeedbackEnv

variable (env : FeedbackEnv)

/-- `_payload_claim_conflicts`. -/
def payloadClaimConflicts (value : Value) (expected : String) : Bool :=
  if value = .null then false
  else env.strip (env.str value) ≠ "" && env.strip (env.str value) ≠ expected

/-- `_feedback_visibility`. -/
def feedbackVisibility (value : String) : Except PyError String := do
  let visibility := env.lower (env.strip (if value = "" then "workspace" else value))
  require (visibility ∈ feedbackVisibilities)
    (valueError "feedback visibility must be one of: user, workspace, session")
  return visibility

/-- `_feedback_is_visible`. -/
def feedbackIsVisible (fb : MemoryFeedback) (c : RequestContext) : Bool :=
  if fb.tenantId ≠ some c.principal.tenantId then false
  else
    match env.feedbackVisibility fb.visibility with
    | .error _ => false
    | .ok visibility =>
      if visibility = "user" then fb.ownerSubjectId = some c.principal.subjectId
      else if visibility = "workspace" then fb.workspaceId = some c.workspaceId
      else
        fb.workspaceId = some c.workspaceId && fb.ownerSubjectId = some c.principal.subjectId &&
          c.agentId ≠ "" && c.sessionId ≠ "" &&
          (fb.provenance.getD "agent_id" .null).truthy &&
          (fb.provenance.getD "session_id" .null).truthy &&
          fb.provenance.getD "agent_id" .null = .str c.agentId &&
          fb.provenance.getD "session_id" .null = .str c.sessionId

/-- `_sqlite_scope`. -/
def sqliteScope (c : RequestContext) (fb : MemoryFeedback) : Bool :=
  let extracted := fun key => env.extract (fb.provenance.getD key .null)
  let filled := fun v : Value => v ≠ .null && v ≠ .str ""
  fb.tenantId = some c.principal.tenantId &&
    ((fb.visibility = "user" && fb.ownerSubjectId = some c.principal.subjectId) ||
      (fb.visibility = "workspace" && fb.workspaceId = some c.workspaceId) ||
      (fb.visibility = "session" && fb.workspaceId = some c.workspaceId &&
        fb.ownerSubjectId = some c.principal.subjectId && c.agentId ≠ "" && c.sessionId ≠ "" &&
        filled (extracted "agent_id") && filled (extracted "session_id") &&
        extracted "agent_id" = .str c.agentId && extracted "session_id" = .str c.sessionId))

/-- `trusted_provenance`. -/
def trustedProvenance (c : RequestContext) : Members :=
  [("agent_id", c.agentId), ("authentication_id", c.authenticationId.getD ""),
    ("request_id", c.requestId), ("session_id", c.sessionId)].foldl
    (fun d claim => d.set claim.1 (.str claim.2))
    (c.provenance.map fun claim => (claim.1, Json.str claim.2))

/-- `_bind_feedback_identity`. -/
def bindFeedbackIdentity (fb : MemoryFeedback) (c : RequestContext) :
    Except PyError MemoryFeedback := do
  let visibility ← env.feedbackVisibility fb.visibility
  require (¬ (visibility = "session" ∧ (c.agentId = "" ∨ c.sessionId = "")))
    ⟨.permissionError, "session feedback requires non-empty agent_id and session_id"⟩
  let claims : List (String × Value × String) :=
    [("tenant_id", Value.ofOptStr fb.tenantId, c.principal.tenantId),
      ("owner_subject_id", Value.ofOptStr fb.ownerSubjectId, c.principal.subjectId),
      ("owner", Value.ofOptStr fb.owner, c.principal.subjectId),
      ("workspace_id", Value.ofOptStr fb.workspaceId, c.workspaceId)] ++
    (trustedProvenance c).map fun claim =>
      ("provenance." ++ claim.1, fb.provenance.getD claim.1 .null, env.str claim.2)
  let conflicts := claims.filter fun claim => env.payloadClaimConflicts claim.2.1 claim.2.2
  require (conflicts = []) ⟨.identityClaimError, "Invalid feedback identity claims: " ++
    ", ".intercalate ((conflicts.map Prod.fst).mergeSort (· ≤ ·))⟩
  return { fb with
    tenantId := some c.principal.tenantId
    ownerSubjectId := some c.principal.subjectId
    owner := some c.principal.subjectId
    workspaceId := some c.workspaceId
    visibility := visibility
    provenance := (trustedProvenance c).foldl (fun d claim => d.set claim.1 claim.2) fb.provenance }

/-- What a store records of a feedback under a context. -/
def bound (fb : MemoryFeedback) : Option RequestContext → Except PyError MemoryFeedback
  | none => .ok fb
  | some c => env.bindFeedbackIdentity fb c

end FeedbackEnv

/-- What `resolve` leaves of a record. -/
def MemoryFeedback.resolved (fb : MemoryFeedback) (resolution : String) (now : Timestamp) :
    MemoryFeedback :=
  { fb with needsReview := false, resolvedAt := some (.aware now), resolution := some resolution }

/-! ## The lite store -/

/-- `LiteFeedbackStore`. -/
structure LiteFeedbackStore where
  requireAuthorization : Bool
  records : List MemoryFeedback

namespace LiteFeedbackStore

variable (env : FeedbackEnv) (store : LiteFeedbackStore) (context : Option RequestContext)

/-- `_visible`. A record without a tenant is one of the time before there were any. -/
def visible (c : Option RequestContext) (fb : MemoryFeedback) : Bool :=
  match c with
  | none => true
  | some c =>
    if fb.tenantId = none then !store.requireAuthorization else env.feedbackIsVisible fb c

/-- `record`. -/
def record (fb : MemoryFeedback) : Except PyError LiteFeedbackStore := do
  let c ← feedbackContext store.requireAuthorization context
  let fb ← env.bound fb c
  return { store with records := store.records ++ [fb] }

/-- `key.split(":", 1)`, of a key with a colon. -/
def splitKey (key : String) : String × String :=
  (String.ofList (key.toList.takeWhile (· ≠ ':')),
    String.ofList ((key.toList.dropWhile (· ≠ ':')).drop 1))

/-- `f"{fb.memory_id}:{fb.field_role}"`. -/
def pendingKey (fb : MemoryFeedback) : String := fb.memoryId ++ ":" ++ fb.fieldRole

/-- The reviews of groups of records. -/
def reviews (groups : Groups String MemoryFeedback) : List PendingReview :=
  groups.filterMap fun group => group.2.head?.map fun first =>
    ⟨(splitKey group.1).1, (splitKey group.1).2, first.timestamp, first.source⟩

/-- `get_pending`. -/
def getPending : Except PyError (List PendingReview) := do
  let c ← feedbackContext store.requireAuthorization context
  return reviews (Groups.ofList pendingKey
    (store.records.filter fun fb => store.visible env c fb && fb.isPending))

/-- `resolve`. -/
def resolve (memoryId fieldRole resolution : String) (now : Timestamp) :
    Except PyError LiteFeedbackStore := do
  let c ← feedbackContext store.requireAuthorization context
  let due := fun fb : MemoryFeedback =>
    fb.memoryId = memoryId && fb.fieldRole = fieldRole && store.visible env c fb && fb.isPending
  let records := store.records.map fun fb => if due fb then fb.resolved resolution now else fb
  return { store with records := records }

/-- `get_history`. -/
def getHistory (memoryId : String) (limit : ℕ) : Except PyError (List MemoryFeedback) := do
  let c ← feedbackContext store.requireAuthorization context
  let matching := store.records.filter fun fb => fb.memoryId = memoryId && store.visible env c fb
  return (matching.mergeSort fun a b => b.timestamp ≤ a.timestamp).take limit

/-- `clear`. -/
def clear : Except PyError LiteFeedbackStore := do
  let c ← feedbackContext store.requireAuthorization context
  return { store with records := store.records.filter fun fb => !store.visible env c fb }

end LiteFeedbackStore

/-! ## The SQLite store -/

/-- `SQLiteFeedbackStore`: its rows as they were inserted, with the texts of JSON and of times as
what they say. -/
structure SqliteFeedbackStore where
  requireAuthorization : Bool
  rows : List MemoryFeedback

namespace SqliteFeedbackStore

variable (env : FeedbackEnv) (store : SqliteFeedbackStore) (context : Option RequestContext)

/-- The clause of a context: without one there is none. -/
def inScope (c : Option RequestContext) (fb : MemoryFeedback) : Bool :=
  match c with
  | none => true
  | some c => env.sqliteScope c fb

/-- The integers that SQLite can hold. -/
def fits (i : ℤ) : Bool := -2 ^ 63 ≤ i && i < 2 ^ 63

/-- `record`. -/
def record (fb : MemoryFeedback) : Except PyError SqliteFeedbackStore := do
  let c ← feedbackContext store.requireAuthorization context
  let fb ← env.bound fb c
  require (fits fb.valueIndex = true)
    ⟨.overflowError, "Python int too large to convert to SQLite INTEGER"⟩
  return { store with rows := store.rows ++ [fb] }

/-- The reviews of groups of rows: `MIN(timestamp)` and the columns of the group. -/
def reviews (groups : Groups (String × String × String) MemoryFeedback) : List PendingReview :=
  groups.filterMap fun group => (group.2.map MemoryFeedback.timestamp).min?.map fun first =>
    ⟨group.1.1, group.1.2.1, first, group.1.2.2⟩

/-- `get_pending`. -/
def getPending : Except PyError (List PendingReview) := do
  let c ← feedbackContext store.requireAuthorization context
  return reviews (Groups.ofList (fun fb => (fb.memoryId, fb.fieldRole, fb.source))
    (store.rows.filter fun fb => fb.isPending && inScope env c fb))

/-- `resolve`. -/
def resolve (memoryId fieldRole resolution : String) (now : Timestamp) :
    Except PyError SqliteFeedbackStore := do
  let c ← feedbackContext store.requireAuthorization context
  let due := fun fb : MemoryFeedback =>
    fb.memoryId = memoryId && fb.fieldRole = fieldRole && fb.isPending && inScope env c fb
  let rows := store.rows.map fun fb => if due fb then fb.resolved resolution now else fb
  return { store with rows := rows }

/-- `_row_to_feedback`. -/
def rowToFeedback (row : MemoryFeedback) : MemoryFeedback :=
  { row with
    source := if row.source = "" then "user" else row.source
    feedbackType := if row.feedbackType = "" then "field_value" else row.feedbackType
    resolvedAt := row.resolvedAt.map FeedbackTime.toNaive
    visibility := if row.visibility = "" then "workspace" else row.visibility }

/-- `get_history`. -/
def getHistory (memoryId : String) (limit : ℕ) : Except PyError (List MemoryFeedback) := do
  let c ← feedbackContext store.requireAuthorization context
  let matching := store.rows.filter fun fb => fb.memoryId = memoryId && inScope env c fb
  return ((env.orderByTimestamp matching).take limit).map rowToFeedback

/-- `clear`. -/
def clear : Except PyError SqliteFeedbackStore := do
  let c ← feedbackContext store.requireAuthorization context
  return { store with rows := store.rows.filter fun fb => !inScope env c fb }

end SqliteFeedbackStore

/-! ## Runs -/

/-- A call on a store, under a context or without one. -/
inductive FeedbackCall where
  | record (context : Option RequestContext) (fb : MemoryFeedback)
  | resolve (context : Option RequestContext) (memoryId fieldRole resolution : String)
      (now : Timestamp)
  | clear (context : Option RequestContext)

/-- A lite store after a call: one that raises changes nothing. -/
def LiteFeedbackStore.after (env : FeedbackEnv) (store : LiteFeedbackStore) :
    FeedbackCall → LiteFeedbackStore
  | .record c fb => (store.record env c fb).toOption.getD store
  | .resolve c memoryId fieldRole resolution now =>
    (store.resolve env c memoryId fieldRole resolution now).toOption.getD store
  | .clear c => (store.clear env c).toOption.getD store

/-- A SQLite store after a call: one that raises changes nothing. -/
def SqliteFeedbackStore.after (env : FeedbackEnv) (store : SqliteFeedbackStore) :
    FeedbackCall → SqliteFeedbackStore
  | .record c fb => (store.record env c fb).toOption.getD store
  | .resolve c memoryId fieldRole resolution now =>
    (store.resolve env c memoryId fieldRole resolution now).toOption.getD store
  | .clear c => (store.clear env c).toOption.getD store

end Memplex
