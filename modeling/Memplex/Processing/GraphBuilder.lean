import Mathlib.Data.List.Infix
import Mathlib.Data.List.Sort
import Mathlib.Algebra.GroupWithZero.Nat
import Memplex.Lib.Groups
import Memplex.Lib.InStep
import Memplex.Lite.Residents

/-!
# The graph builder

`GraphBuilder.build_from_batch` finds the edges of a batch of functions, each function beside those
before it: the references that it names, the functions whose names its texts mention, conflicts and
associations within its domain, its domain itself, and functions of a similar embedding. All but the
references read the corpus of the store through caches that the builder keeps between the calls. The
list of the functions and what is derived from it (the lowered names, the names by id, the functions
by domain) are kept with the fingerprint of the store that they were computed at, and computed again
where it has moved. The vectors are kept by the id of their function, and nothing drops them.

The arithmetic of floats, the texts of their values, and the embedding service are parameters
(`GraphTools`), and so is the store, of which a builder sees a fingerprint and `list_functions`.
-/

namespace Memplex

open Lib Lib.Mutator

/-! ## What a builder works with -/

/-- The configuration of the graph, without the fields of the community detection. -/
structure GraphConfig where
  semanticSimilarThreshold : PyFloat
  semanticSimilarMaxEdges : ℤ
  dependsOnMaxEdges : ℤ
  associatedWithMaxEdges : ℤ

/-- An embedding service, with its vectors. -/
structure EmbeddingService (ν : Type) where
  /-- `function_to_text`, if the service has it. -/
  functionToText : Option (Function → Except PyError String)
  embed : String → Except PyError ν

/-- What a builder is made with, and what it uses of the language. -/
structure GraphTools (ν : Type) where
  env : Env
  /-- `f"{value}"`. -/
  format : Value → String
  config : Option GraphConfig
  embeddingService : Option (EmbeddingService ν)
  /-- `_cosine_similarity`. -/
  cosineSimilarity : ν → ν → PyFloat
  /-- `a >= b`. -/
  atLeast : PyFloat → PyFloat → Bool
  /-- `f"{value:.3f}"`. -/
  fixed3 : PyFloat → String
  /-- `0.85`. -/
  defaultThreshold : PyFloat

/-- A store as a builder sees it: the fingerprint of its pair, and its functions up to a limit. A
listing may bring the store up to date first, and may raise. -/
structure FunctionStore (σ φ : Type) where
  pairFingerprint : σ → φ
  listFunctions : ℕ → σ → Except PyError (List Function) × σ

/-- A cache, with the fingerprint that it was computed at. -/
abbrev Guarded (φ α : Type) := Option (φ × α)

/-- The names of the functions by id. -/
abbrev NameIndex := Table (Prod.fst : String × Value → String)

/-- The functions of each domain, with their lowered triggers. -/
abbrev ConflictGroups := Groups String (String × List String)

/-- The caches of a builder. -/
structure GraphBuilder (φ ν : Type) where
  funcsCache : Guarded φ (List Function)
  nameEntries : Guarded φ (List (String × String))
  nameById : Guarded φ NameIndex
  conflictGroups : Guarded φ ConflictGroups
  embeddingCache : Table (Prod.fst : String × Option ν → String)

/-- A builder that was just made; also what `invalidate_cache` leaves. -/
def GraphBuilder.new {φ ν : Type} : GraphBuilder φ ν := ⟨none, none, none, none, .empty⟩

/-- The nodes and the edges of a graph. -/
structure GraphData where
  nodes : List Function
  edges : List GraphEdge

/-- A builder at work on its store. -/
structure BuilderState (σ φ ν : Type) where
  builder : GraphBuilder φ ν
  store : σ

/-- A computation of a builder. -/
abbrev Building (σ φ ν α : Type) := Mutator PyError (BuilderState σ φ ν) α

/-! ## Texts and lists -/

/-- `value.lower()`. -/
def lowerValue (env : Env) : Value → Except PyError String
  | .str s => .ok (env.lower s)
  | _ => .error ⟨.attributeError, "object has no attribute 'lower'"⟩

/-- `xs[:n]`. -/
def sliceTo {α : Type} (xs : List α) (n : ℤ) : List α :=
  if 0 ≤ n then xs.take n.toNat else xs.take (xs.length - n.natAbs)

/-- `a in b`, of two texts. -/
def containsText (a b : String) : Bool := a.toList <:+: b.toList

/-- Longer names first, and among names of one length the greater id. -/
def longerMatch (a b : ℕ × String) : Prop := b.1 < a.1 ∨ b.1 = a.1 ∧ b.2 ≤ a.2

instance : DecidableRel longerMatch := fun a b =>
  inferInstanceAs (Decidable (b.1 < a.1 ∨ b.1 = a.1 ∧ b.2 ≤ a.2))

/-- The lowered descriptions of some values. -/
def loweredDescs (env : Env) (values : List FieldValue) : Except PyError (List String) :=
  values.mapM fun fv => lowerValue env fv.desc

/-- `_name_reference_texts`. -/
def nameReferenceTexts (env : Env) (source : Function) : Except PyError (String × String) := do
  let action ← loweredDescs env source.action
  let trigger ← loweredDescs env source.trigger
  return ("\n".intercalate action, "\n".intercalate trigger)

/-! ## What is derived from the corpus -/

/-- The ids and the lowered names of the functions that have a name. -/
def nameEntriesOf (env : Env) (funcs : List Function) : Except PyError (List (String × String)) :=
  (funcs.filter fun f => f.name.truthy).mapM fun f => (lowerValue env f.name).map fun n => (f.id, n)

/-- `{f.id: f.name for f in funcs}`. -/
def nameIndexOfFuncs (funcs : List Function) : NameIndex :=
  funcs.foldl (fun index f => index.set (f.id, f.name)) .empty

/-- The functions of each domain. -/
def conflictGroupsOf (env : Env) (funcs : List Function) : Except PyError ConflictGroups :=
  (funcs.filter fun f => f.domainText ≠ "").foldlM
    (fun groups f => (loweredDescs env f.trigger).map fun t => groups.enter f.domainText (f.id, t))
    []

/-! ## Edges -/

/-- What `process` has found so far: its edges, and the keys of these and of the graph. -/
structure EdgeDraft where
  edges : List GraphEdge
  existing : List (String × String × String)

namespace EdgeDraft

/-- The keys are known. -/
def Knows (d : EdgeDraft) (keys : List (String × String × String)) : Prop := ∃ k ∈ keys, k ∈ d.existing

instance (d : EdgeDraft) (keys : List (String × String × String)) : Decidable (d.Knows keys) :=
  inferInstanceAs (Decidable (∃ k ∈ keys, k ∈ d.existing))

/-- An edge is found. -/
def add (d : EdgeDraft) (edge : GraphEdge) : EdgeDraft := ⟨d.edges ++ [edge], d.existing ++ [edge.parts]⟩

/-- An edge is found, unless one of the keys is known. -/
def offer (d : EdgeDraft) (keys : List (String × String × String)) (edge : GraphEdge) : EdgeDraft :=
  if d.Knows keys then d else d.add edge

end EdgeDraft

/-- `1.0`. -/
def fullWeight : Num := .float (.finite (Dec.ofInt 1))

/-- `0.5`. -/
def halfWeight : Num := .float (.finite (Dec.ofParts false 5 (-1)))

section Process

variable {σ φ ν : Type} [DecidableEq φ] (T : GraphTools ν) (S : FunctionStore σ φ)

/-! ## Lookups in the corpus -/

/-- What is kept under the present fingerprint; where nothing is, it is computed, and kept under the
fingerprint that was read before. -/
def guarded {α : Type} (field : GraphBuilder φ ν → Guarded φ α)
    (keep : GraphBuilder φ ν → Guarded φ α → GraphBuilder φ ν) (compute : Building σ φ ν α) :
    Building σ φ ν α := do
  let s ← get
  let fingerprint := S.pairFingerprint s.store
  match (field s.builder).filter fun row => row.1 = fingerprint with
  | some row => pure row.2
  | none => do
    let a ← compute
    modify fun s => { s with builder := keep s.builder (some (fingerprint, a)) }
    pure a

/-- `self._store.list_functions(limit=100000)`. -/
def listStored : Building σ φ ν (Except PyError (List Function)) := do
  let s ← get
  let listed := S.listFunctions 100000 s.store
  set { s with store := listed.2 }
  pure listed.1

/-- `_resolve_by_name`. -/
def resolveByName (name : String) : Building σ φ ν (Option String) := do
  let listed ← listStored S
  pure (((listed.toOption.getD []).find? fun f => f.name = .str name).map fun f => f.id)

/-- `_get_all_funcs`. -/
def getAllFuncs : Building σ φ ν (List Function) :=
  guarded S (·.funcsCache) (fun b c => { b with funcsCache := c }) do
    let listed ← listStored S
    pure (listed.toOption.getD [])

/-- `_lowered_name_entries`. -/
def loweredNameEntries : Building σ φ ν (List (String × String)) :=
  guarded S (·.nameEntries) (fun b c => { b with nameEntries := c }) do
    let funcs ← getAllFuncs S
    orRaise (nameEntriesOf T.env funcs)

/-- `_func_name_by_id`. -/
def funcNameById (funcs : List Function) (funcId : String) : Building σ φ ν Value := do
  let index ← guarded S (·.nameById) (fun b c => { b with nameById := c })
    (pure (nameIndexOfFuncs funcs))
  match (index.get? funcId).filter fun row => row.2 ≠ .null with
  | some row => pure row.2
  | none => pure (((funcs.find? fun f => f.id = funcId).map fun f => f.name).getD (.str funcId))

/-- `_conflict_candidates`. -/
def conflictCandidates (batchNodes : List Function) (domain excludeId : String) :
    Building σ φ ν (List (String × List String)) := do
  let groups ← guarded S (·.conflictGroups) (fun b c => { b with conflictGroups := c }) do
    let funcs ← getAllFuncs S
    orRaise (conflictGroupsOf T.env funcs)
  let nodes ← orRaise <|
    (batchNodes.filter fun n => n.domainText = domain ∧ n.id ≠ excludeId).mapM fun n =>
      (loweredDescs T.env n.trigger).map fun t => (n.id, t)
  pure ((groups.items domain).filter (fun c => c.1 ≠ excludeId) ++ nodes)

/-! ## Embeddings -/

/-- The text of a function, for a service without `function_to_text`. -/
def functionText (func : Function) : Except PyError String := do
  let parts := [func.name, if func.domain.truthy then func.domain else .str ""] ++
    (func.trigger ++ func.action).map FieldValue.desc
  let texts ← (parts.filter fun v => v.truthy).mapM fun v => match asString v with
    | some s => .ok s
    | none => .error (typeError "sequence item: expected str instance")
  return " ".intercalate texts

/-- The vector of a function, if the service has one. -/
def EmbeddingService.vector (service : EmbeddingService ν) (func : Function) : Option ν :=
  ((service.functionToText.getD functionText func).bind service.embed).toOption

/-- `_embed_func`. -/
def embedFunc (service : EmbeddingService ν) (func : Function) : Building σ φ ν (Option ν) := do
  let s ← get
  match s.builder.embeddingCache.get? func.id with
  | some row => pure row.2
  | none => do
    let vector := service.vector func
    set { s with builder :=
      { s.builder with embeddingCache := s.builder.embeddingCache.set (func.id, vector) } }
    pure vector

/-! ## One function -/

variable (now : ℕ → PyDatetime)

/-- `_make_edge`, at the reading of the clock for the next edge. -/
def makeEdge (existingGraph : GraphData) (d : EdgeDraft) (source target edgeType : String)
    (weight : Num) (evidence : String) : GraphEdge :=
  ⟨source, target, edgeType, weight, [evidence],
    some (now (existingGraph.edges.length + d.edges.length))⟩

variable (existingGraph : GraphData) (func : Function)

/-- The id that a cross reference has. -/
def refTargetId : Value → String
  | .obj members => textOf (Members.getD members "target_id" (.str ""))
  | _ => ""

/-- The name that a cross reference has. -/
def refTargetName : Value → String
  | .obj members => textOf (Members.getD members "target" (.str ""))
  | ref => T.format ref

/-- `REFERENCES`, from one cross reference. -/
def referenceEdge (d : EdgeDraft) (ref : Value) : Building σ φ ν EdgeDraft := do
  let make (target evidence : String) : EdgeDraft :=
    d.offer [(func.id, target, "REFERENCES")]
      (makeEdge now existingGraph d func.id target "REFERENCES" fullWeight evidence)
  let targetId := refTargetId ref
  let targetName := refTargetName T ref
  if targetId ≠ "" then pure (make targetId ("cross_reference from " ++ T.format func.name))
  else if targetName ≠ "" then do
    let resolved ← resolveByName S targetName
    match resolved.filter fun id => id ≠ "" with
    | some id =>
      pure (make id ("cross_reference: " ++ T.format func.name ++ " -> " ++ targetName))
    | none => pure d
  else pure d

/-- `DEPENDS_ON`, on one function whose name is mentioned. -/
def dependsOnEdge (allFuncs : List Function) (d : EdgeDraft) (otherId : String) :
    Building σ φ ν EdgeDraft := do
  if d.Knows [(func.id, otherId, "DEPENDS_ON")] then pure d
  else do
    let otherName ← funcNameById S allFuncs otherId
    pure (d.add (makeEdge now existingGraph d func.id otherId "DEPENDS_ON" fullWeight
      (T.format func.name ++ " references " ++ T.format otherName)))

/-- The ids of the functions whose names are mentioned, as many as are linked. -/
def dependsOnMatches (entries : List (String × String)) (actionText triggerText : String) :
    List String :=
  let found := entries.filter fun entry => entry.1 ≠ func.id ∧
    (containsText entry.2 actionText ∨ containsText entry.2 triggerText)
  let ranked := (found.map fun entry => (entry.2.length, entry.1)).insertionSort longerMatch
  (sliceTo ranked ((T.config.map GraphConfig.dependsOnMaxEdges).getD 20)).map Prod.snd

/-- `CONFLICTS_WITH` one candidate. -/
def conflictEdge (triggers : List String) (d : EdgeDraft) (candidate : String × List String) : EdgeDraft :=
  if ∃ t ∈ triggers, t ∈ candidate.2 then
    d.offer [(func.id, candidate.1, "CONFLICTS_WITH"), (candidate.1, func.id, "CONFLICTS_WITH")]
      (makeEdge now existingGraph d func.id candidate.1 "CONFLICTS_WITH" fullWeight
        ("conflicting definitions in domain " ++ func.domainText))
  else d

/-- `BELONGS_TO` the domain. -/
def belongsToEdge (d : EdgeDraft) : EdgeDraft :=
  let domainId := domainNodeId T.env func.domainText
  d.offer [(func.id, domainId, belongsTo)]
    (makeEdge now existingGraph d func.id domainId belongsTo fullWeight
      (T.format func.name ++ " belongs to " ++ func.domainText))

/-- The ids of the functions of the same domain, as many as are linked. -/
def sameDomainIds (allFuncs : List Function) : List String :=
  let others := allFuncs.filter fun other => other.id ≠ func.id ∧ other.domainText = func.domainText
  sliceTo ((others.map fun other => other.id).insertionSort (· ≤ ·))
    ((T.config.map GraphConfig.associatedWithMaxEdges).getD 20)

/-- `ASSOCIATED_WITH` one function. -/
def associatedEdge (d : EdgeDraft) (otherId : String) : EdgeDraft :=
  d.offer [(func.id, otherId, "ASSOCIATED_WITH"), (otherId, func.id, "ASSOCIATED_WITH")]
    (makeEdge now existingGraph d func.id otherId "ASSOCIATED_WITH" halfWeight
      ("shared domain: " ++ func.domainText))

/-- The similarity of one function, if it is to be linked. -/
def scoreSimilar (service : EmbeddingService ν) (funcVec : ν) (d : EdgeDraft)
    (scored : List (PyFloat × Function)) (other : Function) :
    Building σ φ ν (List (PyFloat × Function)) := do
  let keys := [(func.id, other.id, "SEMANTIC_SIMILAR"), (other.id, func.id, "SEMANTIC_SIMILAR")]
  if other.id = func.id ∨ d.Knows keys then pure scored
  else do
    let otherVec ← embedFunc service other
    let similarity := otherVec.map (T.cosineSimilarity funcVec)
    let threshold := (T.config.map GraphConfig.semanticSimilarThreshold).getD T.defaultThreshold
    match similarity.filter fun x => T.atLeast x threshold with
    | some x => pure (scored ++ [(x, other)])
    | none => pure scored

/-- The functions that are linked, best first. -/
def bestSimilar (scored : List (PyFloat × Function)) : List (PyFloat × Function) :=
  sliceTo (scored.insertionSort fun a b => T.atLeast a.1 b.1 = true)
    ((T.config.map GraphConfig.semanticSimilarMaxEdges).getD 10)

/-- `SEMANTIC_SIMILAR` one function. -/
def similarEdge (d : EdgeDraft) (similar : PyFloat × Function) : EdgeDraft :=
  d.add (makeEdge now existingGraph d func.id similar.2.id "SEMANTIC_SIMILAR" (.float similar.1)
    ("embedding cosine similarity " ++ T.fixed3 similar.1))

/-- `_detect_semantic_similar`. -/
def detectSemanticSimilar (allFuncs : List Function) (d : EdgeDraft) : Building σ φ ν EdgeDraft :=
  match T.embeddingService with
  | none => pure d
  | some service => do
    let funcVec ← embedFunc service func
    match funcVec with
    | none => pure d
    | some funcVec => do
      let scored ← allFuncs.foldlM (scoreSimilar T func service funcVec d) []
      pure ((bestSimilar T scored).foldl (similarEdge T now existingGraph func) d)

/-- The edges within the domain of a function, if it has one. -/
def domainEdges (allFuncs : List Function) (d : EdgeDraft) : Building σ φ ν EdgeDraft :=
  if func.domainText = "" then pure d
  else do
    let triggers ← orRaise (loweredDescs T.env func.trigger)
    let candidates ← conflictCandidates T S existingGraph.nodes func.domainText func.id
    let d := candidates.foldl (conflictEdge now existingGraph func triggers) d
    let d := belongsToEdge T now existingGraph func d
    pure ((sameDomainIds T func allFuncs).foldl (associatedEdge now existingGraph func) d)

/-- `process`. -/
def GraphBuilder.process : Building σ φ ν (List GraphEdge) := do
  let _ ← orRaise (validateDomain func.domain)
  let d ← func.crossReferences.foldlM (referenceEdge T S now existingGraph func)
    ⟨[], existingGraph.edges.map GraphEdge.parts⟩
  let allFuncs ← getAllFuncs S
  let texts ← orRaise (nameReferenceTexts T.env func)
  let entries ← loweredNameEntries T S
  let d ← (dependsOnMatches T func entries texts.1 texts.2).foldlM
    (dependsOnEdge T S now existingGraph func allFuncs) d
  let d ← domainEdges T S now existingGraph func allFuncs d
  let d ← detectSemanticSimilar T now existingGraph func allFuncs d
  pure d.edges

/-- `build_from_batch`. -/
def GraphBuilder.buildFromBatch (funcs : List Function) : Building σ φ ν (List GraphEdge) := do
  let accumulated ← funcs.foldlM (fun graph func => do
    let graph := { graph with nodes := graph.nodes ++ [func] }
    let newEdges ← GraphBuilder.process T S now graph func
    pure { graph with edges := graph.edges ++ newEdges }) ⟨[], []⟩
  pure accumulated.edges

end Process

end Memplex
