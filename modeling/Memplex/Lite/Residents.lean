import Memplex.Lite.Documents
import Memplex.Lite.Validation
import Memplex.Lib.Exits

/-!
# The mutators of the resident graph

The methods of `LiteMemoryStore` that change functions, their domains or edges, each up to the point
where it hands its changes to the capture and the commit: what a method has changed before it raises
is left in the resident state, which a batch of deferred commits goes on with. Beside the records
they keep two indexes up to date, the edges by the ids of their ends and the domains by the ids of
their functions, and a queue of the edges to domains that the next commit has to check.
-/

namespace Memplex

open Lib Lib.Mutator

/-! ## The index of the edges -/

namespace EdgesByNode

/-- The edges of a node, by their type. -/
def byType (index : EdgesByNode) (nodeId : String) : List (String × List GraphEdge) :=
  ((findRow Prod.fst nodeId index).map Prod.snd).getD []

/-- `index.setdefault(node_id, {}).setdefault(edge_type, []).append(edge)`. -/
def addAt (index : EdgesByNode) (edge : GraphEdge) (nodeId : String) : EdgesByNode :=
  let edges := ((findRow Prod.fst edge.edgeType (index.byType nodeId)).map Prod.snd).getD []
  upsertRow Prod.fst
    (nodeId, upsertRow Prod.fst (edge.edgeType, edges ++ [edge]) (index.byType nodeId)) index

/-- `_index_edge`. -/
def indexEdge (index : EdgesByNode) (edge : GraphEdge) : EdgesByNode :=
  if edge.source = edge.target then index.addAt edge edge.source
  else (index.addAt edge edge.source).addAt edge edge.target

/-- `_rebuild_edge_index`. -/
def rebuild (edges : List GraphEdge) : EdgesByNode := edges.foldl indexEdge []

/-- The edges of a node. -/
def edgesAt (index : EdgesByNode) (nodeId : String) : List GraphEdge :=
  (index.byType nodeId).flatMap Prod.snd

/-- Each type of edge is there once at a node. -/
def Plain (index : EdgesByNode) : Prop := ∀ nodeId, ((index.byType nodeId).map Prod.fst).Nodup

/-- The index has the edges at every node, and no others. -/
structure Indexes (index : EdgesByNode) (edges : List GraphEdge) : Prop where
  plain : index.Plain
  mem : ∀ nodeId e, e ∈ index.edgesAt nodeId ↔ e ∈ edges ∧ (e.source = nodeId ∨ e.target = nodeId)

theorem byType_addAt (index : EdgesByNode) (edge : GraphEdge) (nodeId other : String) :
    (index.addAt edge nodeId).byType other =
      if nodeId = other then
        upsertRow Prod.fst (edge.edgeType,
          ((findRow Prod.fst edge.edgeType (index.byType nodeId)).map Prod.snd).getD [] ++ [edge])
          (index.byType nodeId)
      else index.byType other := by
  unfold addAt
  rw [byType, findRow_upsertRow]
  split_ifs with h
  · rfl
  · rfl

theorem plain_addAt {index : EdgesByNode} (h : index.Plain) (edge : GraphEdge) (nodeId : String) :
    (index.addAt edge nodeId).Plain := by
  intro other
  rw [byType_addAt]
  split_ifs
  · exact nodup_upsertRow (h nodeId)
  · exact h other

/-- An edge is added to those of one node. -/
theorem mem_edgesAt_addAt {index : EdgesByNode} (h : index.Plain) (edge e : GraphEdge)
    (nodeId other : String) : e ∈ (index.addAt edge nodeId).edgesAt other ↔
      e ∈ index.edgesAt other ∨ e = edge ∧ nodeId = other := by
  unfold edgesAt
  rw [byType_addAt]
  split_ifs with hsame
  · subst hsame
    simp only [List.mem_flatMap, mem_upsertRow]
    -- The edges of the type of the new one are those that the index had, and it.
    have hold : ∀ row ∈ index.byType nodeId, row.1 = edge.edgeType →
        ((findRow Prod.fst edge.edgeType (index.byType nodeId)).map Prod.snd).getD [] = row.2 := by
      intro row hrow htype
      rw [← htype, findRow_of_mem (h nodeId) hrow]
      rfl
    constructor
    · rintro ⟨row, rfl | ⟨hrow, -⟩, he⟩
      · rcases List.mem_append.mp he with he | he
        · cases hfind : findRow Prod.fst edge.edgeType (index.byType nodeId) with
          | none =>
            rw [hfind] at he
            exact (List.not_mem_nil he).elim
          | some row =>
            rw [hfind] at he
            exact .inl ⟨row, (findRow_some hfind).1, he⟩
        · exact .inr ⟨List.mem_singleton.mp he, trivial⟩
      · exact .inl ⟨row, hrow, he⟩
    · rintro (⟨row, hrow, he⟩ | ⟨rfl, -⟩)
      · by_cases htype : row.1 = edge.edgeType
        · exact ⟨_, .inl rfl, List.mem_append_left _ (hold row hrow htype ▸ he)⟩
        · exact ⟨row, .inr ⟨hrow, htype⟩, he⟩
      · exact ⟨_, .inl rfl, List.mem_append_right _ (List.mem_singleton_self e)⟩
  · rw [or_iff_left]
    exact fun hnew => hsame hnew.2

/-- An edge that is indexed is added to the edges of its ends. -/
theorem Indexes.indexEdge {index : EdgesByNode} {edges : List GraphEdge} (h : index.Indexes edges)
    (edge : GraphEdge) : (index.indexEdge edge).Indexes (edges ++ [edge]) := by
  have hends : ∀ {nodeId e}, (e ∈ index.edgesAt nodeId ∨ e = edge ∧ edge.source = nodeId) ∨
      e = edge ∧ edge.target = nodeId ↔
      e ∈ edges ++ [edge] ∧ (e.source = nodeId ∨ e.target = nodeId) := by
    intro nodeId e
    rw [h.mem, List.mem_append, List.mem_singleton]
    constructor
    · rintro ((⟨he, hend⟩ | ⟨rfl, hend⟩) | ⟨rfl, hend⟩)
      · exact ⟨.inl he, hend⟩
      · exact ⟨.inr rfl, .inl hend⟩
      · exact ⟨.inr rfl, .inr hend⟩
    · rintro ⟨he | rfl, hend⟩
      · exact .inl (.inl ⟨he, hend⟩)
      · rcases hend with hend | hend
        · exact .inl (.inr ⟨rfl, hend⟩)
        · exact .inr ⟨rfl, hend⟩
  unfold EdgesByNode.indexEdge
  split_ifs with hloop
  · refine ⟨plain_addAt h.plain _ _, fun nodeId e => ?_⟩
    rw [mem_edgesAt_addAt h.plain, ← hends, ← hloop, or_assoc, or_self]
  · have hplain := plain_addAt h.plain edge edge.source
    refine ⟨plain_addAt hplain _ _, fun nodeId e => ?_⟩
    rw [mem_edgesAt_addAt hplain, mem_edgesAt_addAt h.plain, hends]

/-- What is rebuilt has all the edges. -/
theorem indexes_rebuild (edges : List GraphEdge) : (rebuild edges).Indexes edges := by
  have hfold : ∀ (new old : List GraphEdge) (index : EdgesByNode), index.Indexes old →
      (new.foldl EdgesByNode.indexEdge index).Indexes (old ++ new) := by
    intro new
    induction new with
    | nil =>
      intro old index h
      rwa [List.append_nil]
    | cons edge new ih =>
      intro old index h
      have hnext := ih _ _ (h.indexEdge edge)
      rwa [List.append_assoc] at hnext
  refine hfold edges [] [] ⟨fun nodeId => List.nodup_nil, fun nodeId e => ?_⟩
  exact iff_of_false (fun h => List.not_mem_nil h) fun h => List.not_mem_nil h.1

end EdgesByNode

/-! ## The resident state -/

/-- `_normalize_name(func.name_normalized or func.name)`, of a function whose name is a text. -/
def nodeNorm (env : Env) (f : Function) : String := (functionNameKey env f).toOption.getD ""

/-- The normalized names of functions that have one. -/
def nameIndexOf (env : Env) (functions : List Function) :
    Table (Prod.fst : String × String → String) :=
  functions.foldl
    (fun index f => if nodeNorm env f = "" then index else index.set (nodeNorm env f, f.id)) .empty

/-- The domains of functions, by id. -/
def domainsOf (functions : Functions) : Table (Prod.fst : String × String → String) where
  rows := functions.rows.map fun f => (f.id, f.domainText)
  nodup := by
    rw [List.map_map]
    exact functions.nodup

/-- A row is entered under a key that is not taken. -/
def Lib.Table.setdefault {ν κ : Type} [DecidableEq κ] {key : ν → κ} (t : Table key) (r : ν) :
    Table key :=
  if t.contains (key r) then t else t.set r

namespace LiteMemory

/-- The resident functions. -/
abbrev functions (m : LiteMemory) : Functions := m.store.business.functions

/-- The resident edges. -/
abbrev edges (m : LiteMemory) : List GraphEdge := m.store.business.edges

/-- The state with other records. -/
def setBusiness (m : LiteMemory) (business : BusinessState) : LiteMemory :=
  { m with store := { m.store with business := business } }

/-- The state with another function under its id. -/
def putFunction (m : LiteMemory) (f : Function) : LiteMemory :=
  m.setBusiness { m.store.business with functions := m.functions.set f }

/-- The state with another name index. -/
def setNames (m : LiteMemory) (nameIndex : Table (Prod.fst : String × String → String)) :
    LiteMemory :=
  m.setBusiness { m.store.business with nameIndex := nameIndex }

/-- `_name_index[norm] = func_id`, if there is a name. -/
def indexName (m : LiteMemory) (norm funcId : String) : LiteMemory :=
  if norm = "" then m else m.setNames (m.store.business.nameIndex.set (norm, funcId))

/-- `_rebuild_edge_index`. -/
def rebuildEdgeIndex (m : LiteMemory) : LiteMemory :=
  { m with edgesByNode := .rebuild m.edges }

/-- `_requeue_outgoing_belongs_edges`: the edges to domains at a function, incoming ones too. -/
def requeueOutgoingBelongsEdges (m : LiteMemory) (funcId : String) : LiteMemory :=
  { m with pendingBelongsEdges := m.pendingBelongsEdges ++
      (m.edgesByNode.edgesAt funcId).filter fun e => e.edgeType = belongsTo }

/-- The functions under some ids are changed, one after the other. -/
def touch (m : LiteMemory) (ids : List String) (change : Function → Function) : LiteMemory :=
  ids.foldl (fun m id => match m.functions.get? id with
    | none => m
    | some f => m.putFunction (change f)) m

/-- `_publish_pair`, of a pair that was decoded. -/
def publish (env : Env) (d : Decoded) (paragraphs : Paragraphs) : LiteMemory where
  store := {
    business := {
      functions := d.functions
      facts := d.facts
      preferences := d.preferences
      observations := d.observations.rows
      paragraphs := paragraphs
      edges := d.edges.rows
      nameIndex := nameIndexOf env d.functions.rows }
    sync := d.sync }
  changelog := d.changelog
  edgesByNode := .rebuild d.edges.rows
  domainById := domainsOf d.functions
  pendingBelongsEdges := []

/-- A function of the base that is missing. -/
def foldFunction (m : LiteMemory) (node : Function) : LiteMemory :=
  if m.functions.contains node.id ∨ m.store.business.nameIndex.contains node.id then m
  else (m.putFunction node).setNames
    (m.store.business.nameIndex.setdefault (textOf node.nameNormalized, node.id))

/-- An observation of the base that is missing. -/
def foldObservation (observations : List Observation) (o : Observation) : List Observation :=
  if ∀ existing ∈ observations, existing.id ≠ o.id then observations ++ [o] else observations

/-- An edge of the base that is missing. -/
def foldEdge (edges : List GraphEdge) (edge : GraphEdge) : List GraphEdge :=
  if edge.parts ∈ edges.map GraphEdge.parts then edges else edges ++ [edge]

/-- `_fold_missing_from_base`: what the base has and the resident state has not. -/
def foldMissingFromBase (m : LiteMemory) (base : Decoded) (paragraphs : Paragraphs) : LiteMemory :=
  let m := base.functions.rows.foldl foldFunction m
  let b := m.store.business
  m.setBusiness { b with
    facts := base.facts.rows.foldl Table.setdefault b.facts
    preferences := base.preferences.rows.foldl Table.setdefault b.preferences
    observations := base.observations.rows.foldl foldObservation b.observations
    paragraphs := paragraphs.rows.foldl Table.setdefault b.paragraphs
    edges := base.edges.rows.foldl foldEdge b.edges }

end LiteMemory

/-! ## Changes of a function -/

/-- What `merge` takes over from a function of the same id. -/
def Function.mergeFields (existing node : Function) (now : Timestamp) : Function :=
  { existing with
    trigger := mergeFieldValues existing.trigger node.trigger
    condition := mergeFieldValues existing.condition node.condition
    action := mergeFieldValues existing.action node.action
    benefit := mergeFieldValues existing.benefit node.benefit
    updatedAt := .str now.isoformat
    version := nextVersion existing.version }

/-- The flag that an annotation sets, if it sets one. -/
def MemoryNode.review (n : MemoryNode) (needsReview : Option Bool) : MemoryNode :=
  { n with needsReview := (needsReview.map Json.bool).getD n.needsReview }

/-- `annotate`, of one function. -/
def Function.annotate (attributes : PyDict) (needsReview : Option Bool) (f : Function) :
    Function :=
  { f with
    toMemoryNode := f.toMemoryNode.review needsReview
    attributes := f.attributes.update attributes }

/-- One access of a function. -/
def Function.accessed (now : Timestamp) (f : Function) : Function :=
  { f with
    accessCount := nextVersion f.accessCount
    lastAccessedAt := .str now.isoformat }

namespace LiteWriter

variable (W : LiteWriter) (moment : WriteMoment)

/-- What an annotation adds to the namespace of a fact or a preference. -/
def namespaceOf (attributes : PyDict) : PyDict :=
  (attributes.filter fun a => "memplex_".toList <+: (W.format a.1).toList ∧ a.2 ≠ .null).map
    fun a => (.str (W.format a.1), .str (W.format a.2))

/-- `annotate_nodes`, of one fact or preference. -/
def annotateNode (attributes : PyDict) (needsReview : Option Bool) (n : MemoryNode) : MemoryNode :=
  { n.review needsReview with namespace_ := n.namespace_.update (W.namespaceOf attributes) }

/-- `annotate_nodes`, under one id. -/
def annotateAt (attributes : PyDict) (needsReview : Option Bool) (m : LiteMemory) (id : String) :
    LiteMemory :=
  let b := m.store.business
  match m.functions.get? id, b.facts.get? id, b.preferences.get? id with
  | some f, _, _ => m.putFunction (f.annotate attributes needsReview)
  | none, some f, _ =>
    let f := { f with toMemoryNode := W.annotateNode attributes needsReview f.toMemoryNode }
    m.setBusiness { b with facts := b.facts.set f }
  | none, none, some p =>
    let p := { p with toMemoryNode := W.annotateNode attributes needsReview p.toMemoryNode }
    m.setBusiness { b with preferences := b.preferences.set p }
  | none, none, none => m

/-! ## The mutators -/

/-- The refusal of what could not be read again. -/
def invalidTarget : PyError :=
  ⟨.liteStorageIntegrityError, "invalid Lite target payload before durable decision"⟩

/-- The checks of a function that comes in. -/
def checkIncoming (func : Function) : Except PyError Unit := do
  validateFuncId func.id
  let _ ← validateDomain func.domain
  require (func.readable = true) invalidTarget

/-- `_add_unlocked`, up to the capture of the function that is persisted. -/
def addResident (func : Function) (source : SourceDocument) :
    Mutator PyError LiteMemory Function := do
  ofStep W.validateResidentGraph
  orRaise (checkIncoming func)
  let norm ← orRaise (functionNameKey W.env func)
  let m ← get
  match m.store.business.namesake norm with
  | some existing =>
    let merged := existing.merge func moment.updatedAt
    set (m.withFunction merged m.store.business.nameIndex ⟨merged.id, .ofUtc moment.loggedAt,
      "updated", "Merged fields from source", source.logged, "system"⟩)
    return merged
  | none =>
    set ((m.withFunction func (m.store.business.nameIndex.set (norm, func.id))
      ⟨func.id, .ofUtc moment.loggedAt, "created", "Created function: " ++ W.format func.name,
        source.logged, "system"⟩).indexResidentFunction func)
    orRaise (m.store.business.persisted norm func)
    return func

/-- `delete`; `false` is its return without a commit. -/
def delete (funcId : String) : Mutator PyError LiteMemory Bool := do
  ofStep W.validateResidentGraph
  let m ← get
  if m.functions.contains funcId = false then return false
  else
    let edges := m.edges.filter fun e => e.source ≠ funcId ∧ e.target ≠ funcId
    set (LiteMemory.rebuildEdgeIndex { m.setBusiness { m.store.business with
        functions := m.functions.erase funcId
        nameIndex := m.store.business.unindex funcId
        edges := edges } with
      domainById := m.domainById.erase funcId })
    return true

/-- The check of one edge of a graph that is merged: its domain is that of the function that comes
with it, or the one that is indexed. -/
def checkMergeEdge (nodes : List Function) (m : LiteMemory) (edge : GraphEdge) :
    Except PyError Unit :=
  if edge.edgeType ≠ belongsTo then .ok ()
  else
    match ((nodes.find? fun n => n.id = edge.source).map Function.domainText).or
      ((m.domainById.get? edge.source).map Prod.snd) with
    | none => .error (valueError "BELONGS_TO source 必须是持久 Function")
    | some domain =>
      require (domain ≠ "" ∧ edge.target = domainNodeId W.env domain)
        (valueError "BELONGS_TO target 必须匹配 source domain")

/-- One function of a graph that is merged. -/
def mergeNode (m : LiteMemory) (node : Function) : LiteMemory :=
  match m.functions.get? node.id with
  | some existing => m.putFunction (existing.mergeFields node moment.updatedAt)
  | none =>
    ((m.putFunction node).indexName (nodeNorm W.env node) node.id).indexResidentFunction node

/-- One edge of a graph that is merged. -/
def mergeEdge (m : LiteMemory) (edge : GraphEdge) : LiteMemory :=
  if edge.parts ∈ m.edges.map GraphEdge.parts then m
  else { m.setBusiness { m.store.business with edges := m.edges ++ [edge] } with
    edgesByNode := m.edgesByNode.indexEdge edge
    pendingBelongsEdges :=
      if edge.edgeType = belongsTo then m.pendingBelongsEdges ++ [edge] else m.pendingBelongsEdges }

/-- `merge`: at its end, the functions that the new edges leave are looked up. -/
def merge (nodes : List Function) (edges : List GraphEdge) : Mutator PyError LiteMemory Unit := do
  ofStep W.validateResidentGraph
  orRaise (validateItems checkIncoming (sameKey fun n : Function => n.id)
    (valueError "LiteMemoryStore merge contains duplicate Function id") [] nodes)
  orRaise (validateItems
    (fun e : GraphEdge => require (Value.isFinite (.num e.weight) = true) invalidTarget)
    (sameKey GraphEdge.parts)
    (valueError "LiteMemoryStore merge contains duplicate GraphEdge key") [] edges)
  let m ← get
  orRaise (edges.forM (W.checkMergeEdge nodes m))
  modify fun m => nodes.foldl (W.mergeNode moment) m
  modify fun m => edges.foldl mergeEdge m
  let merged ← get
  orRaise (require (∀ e ∈ edges, e.parts ∉ m.edges.map GraphEdge.parts →
    merged.functions.contains e.source = true) ⟨.keyError, "edge source"⟩)

/-- `clear`; the paragraphs stay. -/
def clear : Mutator PyError LiteMemory Unit := do
  ofStep W.validateResidentGraph
  let m ← get
  set { m.setBusiness { m.store.business with
      functions := .empty
      nameIndex := .empty
      edges := []
      observations := []
      facts := .empty
      preferences := .empty } with
    changelog := []
    edgesByNode := []
    domainById := .empty
    pendingBelongsEdges := [] }
  orRaise (require (∀ e ∈ m.edges, m.functions.contains e.source = true)
    ⟨.keyError, "edge source"⟩)

/-- `replace_function`: the function is in its place before its name is normalized, which may
raise. -/
def replaceFunction (func : Function) : Mutator PyError LiteMemory Unit := do
  let m ← get
  orRaise (require (m.functions.contains func.id = true) ⟨.keyError, func.id⟩)
  orRaise (validateFuncId func.id)
  let _ ← orRaise (validateDomain func.domain)
  modify fun m => (m.setNames (m.store.business.unindex func.id)).putFunction func
  let norm ← orRaise (functionNameKey W.env func)
  modify fun m => ((m.indexName norm func.id).indexResidentFunction func)
    |>.requeueOutgoingBelongsEdges func.id

/-- `update_function_role`, with the edit that it makes before the function is replaced. -/
def updateFunctionRole (memoryId : String) (edit : Function → Except PyError Function) :
    Mutator PyError LiteMemory Unit := do
  let m ← get
  match m.functions.get? memoryId with
  | none => throw ⟨.keyError, memoryId⟩
  | some current =>
    let func ← orRaise (edit current)
    W.replaceFunction func

/-- `annotate`. -/
def annotate (ids : List String) (attributes : PyDict) (needsReview : Option Bool) :
    Mutator PyError LiteMemory Unit :=
  modify fun m => m.touch ids (Function.annotate attributes needsReview)

/-- `annotate_nodes`: every id is one of a node, and then each node is changed. -/
def annotateNodes (ids : List String) (attributes : PyDict) (needsReview : Option Bool) :
    Mutator PyError LiteMemory Unit := do
  let m ← get
  orRaise (ids.forM fun id => require (m.functions.contains id = true ∨
    m.store.business.facts.contains id = true ∨ m.store.business.preferences.contains id = true)
    ⟨.keyError, id⟩)
  modify fun m => ids.foldl (W.annotateAt attributes needsReview) m

/-- `increment_access` of one id, and `increment_access_batch` of several. -/
def incrementAccess (ids : List String) : Mutator PyError LiteMemory Unit := do
  ofStep W.validateResidentGraph
  modify fun m => m.touch ids (Function.accessed moment.updatedAt)

/-- One replacement of a compaction. -/
def compactReplace (func : Function) : Mutator PyError LiteMemory Unit := do
  modify fun m => m.putFunction func
  let norm ← orRaise (functionNameKey W.env func)
  modify fun m => m.indexName norm func.id

/-- An edge at one of some nodes. -/
def incident (ids : List String) (e : GraphEdge) : Bool := e.source ∈ ids || e.target ∈ ids

/-- `apply_compaction`, of the store at a generation; at its end, a function that was deleted is
looked up for each edge that goes. -/
def applyCompaction (generation : ℤ) (replacements : List Function) (deleteIds : List String)
    (expectedGeneration : Option ℤ) : Mutator PyError LiteMemory Unit := do
  let m ← get
  orRaise (require (∀ expected ∈ expectedGeneration, generation = expected)
    ⟨.liteStorageIntegrityError, "Lite compaction snapshot is stale"⟩)
  orRaise (require (∀ f ∈ replacements, f.id ∉ deleteIds)
    ⟨.liteStorageIntegrityError, "Lite compaction replacements and deletes overlap"⟩)
  set (m.setBusiness { m.store.business with
    functions := deleteIds.foldl Table.erase m.functions
    nameIndex := m.store.business.nameIndex.filter fun entry => entry.2 ∉ deleteIds
    edges := m.edges.filter fun e => !incident deleteIds e })
  replacements.forM W.compactReplace
  modify LiteMemory.rebuildEdgeIndex
  orRaise (require (∀ e ∈ m.edges, incident deleteIds e = true →
    ∃ id ∈ deleteIds, m.functions.contains id = true ∧ (e.source = id ∨ e.target = id))
    ⟨.stopIteration, ""⟩)

/-- An event of a peer that is applied: an edge that comes or goes has the edges indexed again.
Where the source raises after it has removed an edge, the batch is given up and the store loaded
again. -/
def applyEvent (now : String) (edgeTombstones : List SyncEntityKey) (event : SyncEvent) :
    Mutator PyError LiteMemory (List SyncEntityKey) := do
  let m ← get
  let out ← orRaise (applyBusinessEvent W.env now m.store.business edgeTombstones event)
  let m := m.setBusiness out.1
  set (if event.entityKey.isEdge then m.rebuildEdgeIndex else m)
  return out.2

/-- `_validate_resident_graph(full=True)`. -/
def validateWholeGraph (m : LiteMemory) : Except PyError LiteMemory := do
  validateBelongsToEdges W.env m.functions m.edges
  return { m with pendingBelongsEdges := [] }

end LiteWriter

end Memplex
