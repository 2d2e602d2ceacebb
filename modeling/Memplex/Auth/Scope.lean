import Memplex.Py.Convert

/-!
# The own access list of a node

`AuthorizationGate._is_node_in_scope` decides from the identity fields of one node, and from nothing
else, whether a request may see it. A node is shown to the gate as an `AclNode`: the attributes that
the gate reads, each of them whatever value the node holds there. `Text` adds to the functions of
the standard library the text of a value that is no string.
-/

namespace Memplex

open Lib

/-- The text functions of the standard library that the gate uses. -/
structure Text extends Env where
  /-- `str(value)` of a value that is no string. -/
  repr : Value → String

/-- `str(value)`. -/
def Text.str (text : Text) : Value → String
  | .str s => s
  | v => text.repr v

/-- `text.split(",")`. -/
def splitComma (s : String) : List String := (s.toList.splitOn ',').map String.ofList

/-- `a or b`. -/
def Value.or (a b : Value) : Value := if a.truthy then a else b

/-- An authenticated tenant subject. -/
structure Principal where
  tenantId : String
  subjectId : String
  roles : List String
deriving DecidableEq

/-- The trusted context of a request. -/
structure AuthorizationContext where
  principal : Principal
  workspaceId : String
  agentId : String
  sessionId : String
  provenance : List (String × String)
deriving DecidableEq

/-- The attributes of a node that the gate reads. -/
structure AclNode where
  id : String
  tenantId : Value
  ownerSubjectId : Value
  workspaceId : Value
  owner : Value
  visibility : Value
  originSession : Value
  provenance : PyDict
  namespace_ : PyDict
  /-- What `source_is_current` says of the node. -/
  isCurrent : Bool
  /-- What `source_fingerprint` says of the node. -/
  fingerprint : String
deriving DecidableEq

variable (text : Text)

/-- `AuthorizationGate.identity_value`, from the typed field and the key of its namespace copy. -/
def identityValue (node : AclNode) (field : Value) (namespaceKey : String) : Option String :=
  let value := if field = .null ∨ text.strip (text.str field) = "" then
      node.namespace_.getStr namespaceKey
    else field
  if value = .null then none
  else
    let stripped := text.strip (text.str value)
    if stripped = "" then none else some stripped

/-- The tenant of a node. -/
def AclNode.tenant (node : AclNode) : Option String :=
  identityValue text node node.tenantId "memplex_tenant_id"

/-- `AuthorizationGate.is_local_development_context`. -/
def isLocalDevelopmentContext (context : AuthorizationContext) : Bool :=
  context.principal.tenantId = "local" ∧
    context.principal.subjectId = "local-development" ∧
    "local-development" ∈ context.principal.roles ∧
    context.workspaceId = "local-development" ∧
    (findRow Prod.fst "trust_boundary" context.provenance).map Prod.snd =
      some "local-development"

/-- `AuthorizationGate._agent_has_grant`. -/
def agentHasGrant (node : AclNode) (context : AuthorizationContext) : Bool :=
  let raw := node.namespace_.getStr "memplex_grants"
  if raw.truthy then
    let caller := if context.agentId = "" then context.principal.subjectId else context.agentId
    let granted := ((splitComma (text.str raw)).map text.strip).filter (· ≠ "")
    caller ≠ "" ∧ caller ∈ granted
  else false

/-- The visibility of a node, lower case. -/
def AclNode.visibilityName (node : AclNode) : String :=
  let visibility := node.visibility.or (node.namespace_.getStr "memplex_visibility")
  text.lower (text.strip (text.str (visibility.or (.str "workspace"))))

/-- The subject that owns a node. -/
def AclNode.subject (node : AclNode) : Option String :=
  match identityValue text node node.ownerSubjectId "memplex_subject_id" with
  | some subject => some subject
  | none =>
    let owner := text.strip (text.str node.owner)
    if node.owner ≠ .null ∧ owner ≠ "" then some owner else none

/-- The agent that a session node comes from. -/
def AclNode.sourceAgent (node : AclNode) : Value :=
  ((node.provenance.getStr "agent_id").or (node.namespace_.getStr "memplex_source_agent")).or
    (node.namespace_.getStr "memplex_agent")

/-- `AuthorizationGate._is_node_in_scope`. -/
def isNodeInScope (node : AclNode) (context : AuthorizationContext) : Bool :=
  match node.tenant text with
  | none => isLocalDevelopmentContext context
  | some tenantId =>
    let visibility := node.visibilityName text
    let subjectId := node.subject text
    let workspaceId := identityValue text node node.workspaceId "memplex_workspace_id"
    if tenantId ≠ context.principal.tenantId then false
    else if visibility = "user" then
      subjectId = some context.principal.subjectId || agentHasGrant text node context
    else if visibility = "workspace" then
      context.workspaceId ≠ "" ∧ workspaceId = some context.workspaceId
    else if visibility = "session" then
      (workspaceId.isSome ∧ context.workspaceId ≠ "" ∧
          subjectId.isSome ∧ context.principal.subjectId ≠ "" ∧
          node.originSession.truthy ∧ context.sessionId ≠ "" ∧
          node.sourceAgent.truthy ∧ context.agentId ≠ "") ∧
        workspaceId = some context.workspaceId ∧
        subjectId = some context.principal.subjectId ∧
        node.originSession = .str context.sessionId ∧
        node.sourceAgent = .str context.agentId
    else false

end Memplex
