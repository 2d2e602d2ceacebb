import Memplex.Lite.Upgrade
import Memplex.Lite.Residents

/-!
# The reads of the lite store

The methods of `LiteMemoryStore` that return records, on the resident state that they find once the
files are unchanged. A search is what it finds: which documents the scorers rank is an argument, and
that hits are sorted and cut to the length that is asked for is left out, as neither adds any. The
mark that `read_context_nodes` puts on a historical paragraph is left out too.

`read_held` is what all reads share: they return what is resident, and nothing else.
-/

namespace Memplex

open Lib

/-- `_paragraph_fusion_mode`. -/
inductive FusionMode where
  | fallback
  | mixed
  | primary
  | off
deriving DecidableEq

/-- A call of a method that returns records. -/
inductive ReadOp where
  | get (funcId : String)
  | listFunctions (offset limit : ℕ) (owner : Option String)
  | listChangesSince (since : Option String) (limit : ℕ)
  /-- `filter`, with the functions that `_matches_filter` lets through. -/
  | filter (matched : Function → Bool)
  | getNeighbors (funcId : String) (edgeTypes : List String) (maxHops : ℕ) (limit : Option ℕ)
  | getGraph (funcIds : Option (List String))
  | getTimeline (funcId : String) (limit : ℕ)
  | getFact (factId : String)
  | listFacts (offset limit : ℕ) (owner : Option String)
  | getPreference (preferenceId : String)
  | listPreferences (offset limit : ℕ) (owner : Option String)
  | getObservation (observationId : String)
  | listObservations (offset limit : ℕ) (category owner : Option String)
  | readContextNodes (memoryIds : List String)
  /-- `fts_search`, with the ids that the sidecar ranks and the documents that the scorers do. -/
  | ftsSearch (mode : FusionMode) (sidecar : List String) (ranked : StoreRecord → Bool)
  /-- `vector_search`, with those that the vectors rank, if there is an embedder. -/
  | vectorSearch (mode : FusionMode) (sidecar : List String) (ranked : StoreRecord → Bool)
      (near : Option (StoreRecord → Bool))

/-- `items[offset : offset + limit]`. -/
def pageOf {α : Type} (offset limit : ℕ) (items : List α) : List α :=
  (items.drop offset).take limit

theorem mem_pageOf {α : Type} {offset limit : ℕ} {items : List α} {x : α}
    (h : x ∈ pageOf offset limit items) : x ∈ items :=
  List.mem_of_mem_drop (List.mem_of_mem_take h)

/-- Whether an optional filter lets a field through. -/
def letsThrough (filter : Option String) (field : Value) : Bool :=
  filter.all fun expected => field = .str expected

/-! ## Neighbours -/

/-- A traversal under way: the nodes that were visited, those of the next level, and the ids that
are returned. -/
structure Traversal where
  visited : List String
  next : List String
  found : List String

/-- Whether the limit is reached. -/
def Traversal.full (t : Traversal) (limit : Option ℕ) : Bool :=
  limit.any fun n => n ≤ t.found.length

/-- One edge at a node. -/
def Traversal.follow (limit : Option ℕ) (fid : String) (t : Traversal) (edge : GraphEdge) :
    Traversal :=
  let neighbor := if edge.source = fid then edge.target else edge.source
  if t.full limit || t.visited.contains neighbor then t
  else ⟨t.visited ++ [neighbor], t.next ++ [neighbor], t.found ++ [neighbor]⟩

/-- The edges at a node of the types that are asked for. -/
def EdgesByNode.selected (index : EdgesByNode) (edgeTypes : List String) (fid : String) :
    List GraphEdge :=
  let buckets := index.byType fid
  let types := if edgeTypes.isEmpty then buckets.map Prod.fst else edgeTypes
  types.flatMap fun t => ((findRow Prod.fst t buckets).map Prod.snd).getD []

/-- One level of the traversal after the other. -/
def EdgesByNode.traverse (index : EdgesByNode) (edgeTypes : List String) (limit : Option ℕ) :
    ℕ → List String → Traversal → Traversal
  | 0, _, t => t
  | hops + 1, level, t =>
    let t := level.foldl (fun t fid =>
      (index.selected edgeTypes fid).foldl (Traversal.follow limit fid) t) { t with next := [] }
    if t.next.isEmpty then t else index.traverse edgeTypes limit hops t.next t

namespace LiteMemory

variable (m : LiteMemory)

/-- The facts of a store. -/
abbrev facts : Table fun f : Fact => f.id := m.store.business.facts

/-- The preferences of a store. -/
abbrev preferences : Table fun p : Preference => p.id := m.store.business.preferences

/-- The observations of a store. -/
abbrev observations : List Observation := m.store.business.observations

/-- The paragraphs of a store. -/
abbrev paragraphs : Paragraphs := m.store.business.paragraphs

/-- What a store holds. -/
def Holds : StoreRecord → Prop
  | .function f => f ∈ m.functions.rows
  | .edge e => e ∈ m.edges
  | .observation o => o ∈ m.observations
  | .fact f => f ∈ m.facts.rows
  | .preference p => p ∈ m.preferences.rows
  | .paragraph row => ∃ id members, (id, members) ∈ m.paragraphs.rows ∧ row = .obj members
  | .event e => e ∈ m.changelog

/-- `get_neighbors`. -/
def getNeighbors (funcId : String) (edgeTypes : List String) (maxHops : ℕ) (limit : Option ℕ) :
    List Function :=
  if maxHops < 1 || limit = some 0 then []
  else
    let start : Traversal := ⟨[funcId], [], []⟩
    (m.edgesByNode.traverse edgeTypes limit maxHops [funcId] start).found.filterMap
      m.functions.get?

/-- The first observation of an id. -/
def findObservation (id : String) : Option Observation := m.observations.find? fun o => o.id = id

/-- The record of an id in `read_context_nodes`. -/
def contextNode (id : String) : Option StoreRecord :=
  ((m.functions.get? id).map .function).or <| ((m.facts.get? id).map .fact).or <|
    ((m.preferences.get? id).map .preference).or <|
      ((m.findObservation id).map .observation).or <|
        (m.paragraphs.get? id).map fun row => .paragraph (.obj row.2)

/-! ## Searching -/

/-- `_premise_superseded`. -/
def premiseSuperseded (n : MemoryNode) : Bool := (n.namespace_.getStr "premise_superseded").truthy

/-- A fact or a preference whose premise was not superseded. -/
def current : StoreRecord → Bool
  | .fact f => !premiseSuperseded f.toMemoryNode
  | .preference p => !premiseSuperseded p.toMemoryNode
  | _ => false

/-- `_historical_source_paragraphs`. -/
def historicalSourceParagraphs : List Value :=
  (m.functions.rows.filter fun f => (f.attributes.getStr "memplex_role_updates").truthy).flatMap
      (fun f => f.sourceParagraphs) ++
    (m.facts.rows.filter fun f => f.invalidAt.truthy).flatMap fun f => f.sourceParagraphs

/-- The paragraphs that a search considers. -/
def paragraphPool : List StoreRecord :=
  (m.paragraphs.rows.filter fun row => !(row.2.getD "premise_superseded" .null).truthy &&
    !m.historicalSourceParagraphs.contains (.str row.1)).map fun row => .paragraph (.obj row.2)

/-- `{**self._facts, **self._preferences}`. -/
def typedNodes : List StoreRecord :=
  (m.facts.rows.filter fun f => !m.preferences.contains f.id).map .fact ++
    m.preferences.rows.map .preference

/-- `_search_with_fallback`: what it finds. -/
def searchWithFallback (mode : FusionMode) (sidecar : List String)
    (ranked : StoreRecord → Bool) : List StoreRecord :=
  let indexed := sidecar.filterMap m.functions.get?
  let found := if indexed.isEmpty then m.functions.rows.filter fun f => ranked (.function f)
    else indexed
  (found.filter fun f => !premiseSuperseded f.toMemoryNode).map .function ++
    m.typedNodes.filter ranked ++
    (if mode = .mixed then m.paragraphPool.filter ranked else [])

/-- `_vector_search_leg`: what it finds. -/
def vectorSearchLeg (mode : FusionMode) (near : StoreRecord → Bool) : List StoreRecord :=
  ((m.functions.rows.filter fun f => !premiseSuperseded f.toMemoryNode).map StoreRecord.function ++
    m.typedNodes.filter current ++
    (if mode = .mixed then m.paragraphPool else [])).filter near

/-- `vector_search`: what it finds. -/
def vectorSearch (mode : FusionMode) (sidecar : List String) (ranked : StoreRecord → Bool)
    (near : Option (StoreRecord → Bool)) : List StoreRecord :=
  let results := m.searchWithFallback mode sidecar ranked
  if mode = .primary then m.paragraphPool.filter ranked ++ results
  else match near with
    | none => results
    | some near =>
      let leg := m.vectorSearchLeg mode near
      if leg.isEmpty then results
      else results ++ leg ++ (if mode = .fallback then m.paragraphPool.filter ranked else [])

/-- The records that a call returns. -/
def read : ReadOp → List StoreRecord
  | .get funcId => (m.functions.get? funcId).toList.map .function
  | .listFunctions offset limit owner =>
    (pageOf offset limit (m.functions.rows.filter fun f => letsThrough owner f.owner)).map .function
  | .listChangesSince since limit =>
    ((m.functions.rows.filter fun f => since.all fun s =>
      s < textOf (pyOr f.updatedAt (.str ""))).take limit).map .function
  | .filter matched => (m.functions.rows.filter matched).map .function
  | .getNeighbors funcId edgeTypes maxHops limit =>
    (m.getNeighbors funcId edgeTypes maxHops limit).map .function
  | .getGraph none => m.functions.rows.map .function ++ m.edges.map .edge
  | .getGraph (some funcIds) =>
    (funcIds.filterMap m.functions.get?).map .function ++
      (m.edges.filter fun e => funcIds.contains e.source || funcIds.contains e.target).map .edge
  | .getTimeline funcId limit =>
    (((m.changelog.filter fun e => e.funcId = funcId).mergeSort fun a b =>
      b.timestamp.utc.micros ≤ a.timestamp.utc.micros).take limit).map .event
  | .getFact factId => (m.facts.get? factId).toList.map .fact
  | .listFacts offset limit owner =>
    (pageOf offset limit (m.facts.rows.filter fun f => letsThrough owner f.owner)).map .fact
  | .getPreference preferenceId => (m.preferences.get? preferenceId).toList.map .preference
  | .listPreferences offset limit owner =>
    (pageOf offset limit (m.preferences.rows.filter fun p =>
      letsThrough owner p.owner)).map .preference
  | .getObservation observationId => (m.findObservation observationId).toList.map .observation
  | .listObservations offset limit category owner =>
    (pageOf offset limit (m.observations.filter fun o =>
      letsThrough category o.category && letsThrough owner o.owner)).map .observation
  | .readContextNodes memoryIds => (memoryIds.foldl (appendNew id) []).filterMap m.contextNode
  | .ftsSearch mode sidecar ranked => m.searchWithFallback mode sidecar ranked
  | .vectorSearch mode sidecar ranked near => m.vectorSearch mode sidecar ranked near

end LiteMemory

/-! ## Reads return what is resident -/

namespace LiteMemory

variable {m : LiteMemory}

theorem contextNode_held {id : String} {r : StoreRecord} (h : m.contextNode id = some r) :
    m.Holds r := by
  unfold contextNode at h
  rcases Option.or_eq_some_iff.mp h with h | ⟨-, h⟩
  · obtain ⟨f, hf, rfl⟩ := Option.map_eq_some_iff.mp h
    exact Table.mem_of_get? hf
  rcases Option.or_eq_some_iff.mp h with h | ⟨-, h⟩
  · obtain ⟨f, hf, rfl⟩ := Option.map_eq_some_iff.mp h
    exact Table.mem_of_get? hf
  rcases Option.or_eq_some_iff.mp h with h | ⟨-, h⟩
  · obtain ⟨p, hp, rfl⟩ := Option.map_eq_some_iff.mp h
    exact Table.mem_of_get? hp
  rcases Option.or_eq_some_iff.mp h with h | ⟨-, h⟩
  · obtain ⟨o, ho, rfl⟩ := Option.map_eq_some_iff.mp h
    exact List.mem_of_find?_eq_some ho
  · obtain ⟨row, hrow, rfl⟩ := Option.map_eq_some_iff.mp h
    exact ⟨row.1, row.2, Table.mem_of_get? hrow, rfl⟩

theorem paragraphPool_held {r : StoreRecord} (h : r ∈ m.paragraphPool) : m.Holds r := by
  obtain ⟨row, hrow, rfl⟩ := List.mem_map.mp h
  exact ⟨row.1, row.2, List.mem_of_mem_filter hrow, rfl⟩

theorem typedNodes_held {r : StoreRecord} (h : r ∈ m.typedNodes) : m.Holds r := by
  rcases List.mem_append.mp h with h | h
  · obtain ⟨f, hf, rfl⟩ := List.mem_map.mp h
    exact List.mem_of_mem_filter hf
  · obtain ⟨p, hp, rfl⟩ := List.mem_map.mp h
    exact hp

theorem searchWithFallback_held {mode : FusionMode} {sidecar : List String}
    {ranked : StoreRecord → Bool} {r : StoreRecord}
    (h : r ∈ m.searchWithFallback mode sidecar ranked) : m.Holds r := by
  unfold searchWithFallback at h
  rcases List.mem_append.mp h with h | h
  · rcases List.mem_append.mp h with h | h
    · obtain ⟨f, hf, rfl⟩ := List.mem_map.mp h
      have hfound := List.mem_of_mem_filter hf
      split_ifs at hfound
      · exact List.mem_of_mem_filter hfound
      · obtain ⟨id, -, hget⟩ := List.mem_filterMap.mp hfound
        exact Table.mem_of_get? hget
    · exact typedNodes_held (List.mem_of_mem_filter h)
  · split_ifs at h
    · exact paragraphPool_held (List.mem_of_mem_filter h)
    · exact (List.not_mem_nil h).elim

theorem vectorSearchLeg_held {mode : FusionMode} {near : StoreRecord → Bool} {r : StoreRecord}
    (h : r ∈ m.vectorSearchLeg mode near) : m.Holds r := by
  rcases List.mem_append.mp (List.mem_of_mem_filter h) with h | h
  · rcases List.mem_append.mp h with h | h
    · obtain ⟨f, hf, rfl⟩ := List.mem_map.mp h
      exact List.mem_of_mem_filter hf
    · exact typedNodes_held (List.mem_of_mem_filter h)
  · split_ifs at h
    · exact paragraphPool_held h
    · exact (List.not_mem_nil h).elim

theorem vectorSearch_held {mode : FusionMode} {sidecar : List String}
    {ranked : StoreRecord → Bool} {near : Option (StoreRecord → Bool)} {r : StoreRecord}
    (h : r ∈ m.vectorSearch mode sidecar ranked near) : m.Holds r := by
  unfold vectorSearch at h
  by_cases hprimary : mode = .primary
  · simp only [hprimary, if_true] at h
    rcases List.mem_append.mp h with h | h
    · exact paragraphPool_held (List.mem_of_mem_filter h)
    · exact searchWithFallback_held h
  · simp only [hprimary, if_false] at h
    cases near with
    | none => exact searchWithFallback_held h
    | some near =>
      dsimp only at h
      by_cases hempty : (m.vectorSearchLeg mode near).isEmpty = true
      · rw [if_pos hempty] at h
        exact searchWithFallback_held h
      · rw [if_neg hempty] at h
        rcases List.mem_append.mp h with h | h
        · rcases List.mem_append.mp h with h | h
          · exact searchWithFallback_held h
          · exact vectorSearchLeg_held h
        · split_ifs at h
          · exact paragraphPool_held (List.mem_of_mem_filter h)
          · exact (List.not_mem_nil h).elim

/-- A call returns records that are resident. -/
theorem read_held {op : ReadOp} {r : StoreRecord} (h : r ∈ m.read op) : m.Holds r := by
  have hget : ∀ {ν κ : Type} [DecidableEq κ] {key : ν → κ} {t : Table key} {k : κ} {x : ν},
      x ∈ (t.get? k).toList → x ∈ t.rows :=
    fun hx => Table.mem_of_get? (Option.mem_toList.mp hx)
  cases op with
  | get funcId =>
    obtain ⟨f, hf, rfl⟩ := List.mem_map.mp h
    exact hget hf
  | listFunctions offset limit owner =>
    obtain ⟨f, hf, rfl⟩ := List.mem_map.mp h
    exact List.mem_of_mem_filter (mem_pageOf hf)
  | listChangesSince since limit =>
    obtain ⟨f, hf, rfl⟩ := List.mem_map.mp h
    exact List.mem_of_mem_filter (List.mem_of_mem_take hf)
  | filter matched =>
    obtain ⟨f, hf, rfl⟩ := List.mem_map.mp h
    exact List.mem_of_mem_filter hf
  | getNeighbors funcId edgeTypes maxHops limit =>
    obtain ⟨f, hf, rfl⟩ := List.mem_map.mp h
    unfold getNeighbors at hf
    split_ifs at hf
    · exact (List.not_mem_nil hf).elim
    · obtain ⟨id, -, hfound⟩ := List.mem_filterMap.mp hf
      exact Table.mem_of_get? hfound
  | getGraph funcIds =>
    cases funcIds with
    | none =>
      rcases List.mem_append.mp h with h | h
      · obtain ⟨f, hf, rfl⟩ := List.mem_map.mp h
        exact hf
      · obtain ⟨e, he, rfl⟩ := List.mem_map.mp h
        exact he
    | some funcIds =>
      rcases List.mem_append.mp h with h | h
      · obtain ⟨f, hf, rfl⟩ := List.mem_map.mp h
        obtain ⟨id, -, hfound⟩ := List.mem_filterMap.mp hf
        exact Table.mem_of_get? hfound
      · obtain ⟨e, he, rfl⟩ := List.mem_map.mp h
        exact List.mem_of_mem_filter he
  | getTimeline funcId limit =>
    obtain ⟨e, he, rfl⟩ := List.mem_map.mp h
    exact List.mem_of_mem_filter (List.mem_mergeSort.mp (List.mem_of_mem_take he))
  | getFact factId =>
    obtain ⟨f, hf, rfl⟩ := List.mem_map.mp h
    exact hget hf
  | listFacts offset limit owner =>
    obtain ⟨f, hf, rfl⟩ := List.mem_map.mp h
    exact List.mem_of_mem_filter (mem_pageOf hf)
  | getPreference preferenceId =>
    obtain ⟨p, hp, rfl⟩ := List.mem_map.mp h
    exact hget hp
  | listPreferences offset limit owner =>
    obtain ⟨p, hp, rfl⟩ := List.mem_map.mp h
    exact List.mem_of_mem_filter (mem_pageOf hp)
  | getObservation observationId =>
    obtain ⟨o, ho, rfl⟩ := List.mem_map.mp h
    exact List.mem_of_find?_eq_some (Option.mem_toList.mp ho)
  | listObservations offset limit category owner =>
    obtain ⟨o, ho, rfl⟩ := List.mem_map.mp h
    exact List.mem_of_mem_filter (mem_pageOf ho)
  | readContextNodes memoryIds =>
    obtain ⟨id, -, hnode⟩ := List.mem_filterMap.mp h
    exact contextNode_held hnode
  | ftsSearch mode sidecar ranked => exact searchWithFallback_held h
  | vectorSearch mode sidecar ranked near => exact vectorSearch_held h

end LiteMemory

end Memplex
