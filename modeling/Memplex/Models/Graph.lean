import Memplex.Models.Memory

/-!
# Edges and paragraphs

The two collections beside the memory nodes. A `GraphEdge` relates two functions; the one relation
that leaves the functions is `BELONGS_TO`, whose target is the virtual node of the source's domain
(`domainNodeId`), and `validateBelongsToEdges` checks that contract. A raw paragraph is a plain
dictionary: `validateRawParagraph` checks its fields and fills the defaults of the absent ones.
-/

namespace Memplex

open Lib

/-! ## Edges -/

/-- `domain_node_id`: spaces become underscores and the whole text lowercases. -/
def domainNodeId (env : Env) (domain : String) : String :=
  "domain_" ++ env.lower (String.ofList (domain.toList.map fun c => if c = ' ' then '_' else c))

/-- The relation between a function and the virtual node of its domain. -/
def belongsTo : String := "BELONGS_TO"

/-- A relation between two nodes. -/
structure GraphEdge where
  source : String
  target : String
  edgeType : String
  weight : Num
  evidence : List String
  createdAt : Option PyDatetime
deriving DecidableEq

/-- The identity of an edge. -/
def GraphEdge.parts (e : GraphEdge) : String × String × String := (e.source, e.target, e.edgeType)

/-- The functions of a store, by id. -/
abbrev Functions := Table fun f : Function => f.id

/-- The check of one function in `validate_belongs_to_edges`. -/
def validateGraphFunction (f : Function) : Except PyError Unit := do
  validateFuncId f.id
  let _ ← validateDomain f.domain

/-- The check of one edge in `validate_belongs_to_edges`. -/
def validateBelongsToEdge (env : Env) (functions : Functions) (edge : GraphEdge) :
    Except PyError Unit :=
  if edge.edgeType ≠ belongsTo then .ok ()
  else match functions.get? edge.source with
    | none => .error (valueError "BELONGS_TO source 必须是持久 Function")
    | some source => do
      match ← validateDomain source.domain with
      | none => .error (valueError "BELONGS_TO target 必须匹配 source domain")
      | some domain =>
        require (domain ≠ "" ∧ edge.target = domainNodeId env domain)
          (valueError "BELONGS_TO target 必须匹配 source domain")

/-- `validate_belongs_to_edges`. -/
def validateBelongsToEdges (env : Env) (functions : Functions) (edges : List GraphEdge) :
    Except PyError Unit := do
  functions.rows.forM validateGraphFunction
  edges.forM (validateBelongsToEdge env functions)

/-- A loop succeeds when its body does on every element. -/
theorem forM_ok {α : Type} {f : α → Except PyError Unit} {xs : List α} {u : Unit} :
    xs.forM f = .ok u ↔ ∀ x ∈ xs, f x = .ok () := by
  induction xs with
  | nil => simp [List.forM, pure, Except.pure]
  | cons x xs ih =>
    have hstep : (x :: xs).forM f = (f x >>= fun _ => xs.forM f) := rfl
    rw [hstep, Except.bind_ok, List.forall_mem_cons]
    exact ⟨fun ⟨_, hx, h⟩ => ⟨hx, ih.mp h⟩, fun ⟨hx, h⟩ => ⟨(), hx, ih.mpr h⟩⟩

/-! ## Paragraphs -/

/-- The keys that a paragraph may have. -/
def paragraphKeys : List String :=
  ["id", "raw_text", "trust_tier", "created_at", "source", "consolidated_into",
    "premise_superseded", "observation_count", "last_observed_at", "tenant_id",
    "owner_subject_id", "owner", "workspace_id", "visibility", "origin_session", "provenance",
    "namespace"]

/-- The string of a value. -/
def asString : Value → Option String
  | .str s => some s
  | _ => none

/-- Whether a value is `None` or a string. -/
def isOptString (v : Value) : Bool := v = .null ∨ (asString v).isSome

/-- Whether a value is a dictionary of strings. -/
def isStringDict : Value → Bool
  | .obj members => members.all fun m => (asString m.2).isSome
  | _ => false

/-- The identity fields that a paragraph row binds. -/
def paragraphIdentity : List String :=
  ["tenant_id", "owner_subject_id", "workspace_id", "visibility"]

/-- The defaults of the absent fields, in the order in which they are filled. -/
def paragraphDefaults (row : Members) : List (String × Value) :=
  [("trust_tier", .int 3), ("created_at", .null), ("source", .str ""),
    ("consolidated_into", .str ""), ("premise_superseded", .str ""), ("observation_count", .int 1),
    ("last_observed_at", row.getD "created_at" .null)] ++
    (paragraphIdentity.map fun name => (name, .null)) ++ [("namespace", .obj [])]

/-- The row with the defaults of its absent fields. -/
def fillParagraph (row : Members) : Members :=
  (paragraphDefaults row).foldl (fun r d => r.setdefault d.1 d.2) row

/-- `_validate_raw_paragraph`. The last loops of the source, over the values of the namespace, check
what the loop over `provenance` and `namespace` has: they are strings. -/
def validateRawParagraph (row : Members) : Except PyError Members := do
  require (∀ k ∈ row.keys, k ∈ paragraphKeys) (valueError "invalid Lite paragraph keys")
  require (∃ s ∈ asString (row.getD "id" .null), s ≠ "") (valueError "invalid Lite paragraph id")
  require ((asString (row.getD "raw_text" .null)).isSome)
    (valueError "invalid Lite paragraph raw_text")
  require (∀ name ∈ ["tenant_id", "owner_subject_id", "owner", "workspace_id", "visibility",
    "origin_session"], isOptString (row.getD name .null))
    (valueError "invalid Lite paragraph identity")
  require (∀ name ∈ ["provenance", "namespace"], isStringDict (row.getD name (.obj [])))
    (valueError "invalid Lite paragraph provenance")
  let row := fillParagraph row
  paragraphIdentity.forM fun name =>
    require (row.getD name .null ≠ .str "")
      (valueError ("invalid Lite paragraph " ++ name))
  return row

end Memplex
