import Memplex.Sync.Apply

/-!
# The record of an entity

A store keeps the nodes by kind and id and the edges by their parts. `entry` is the record of any
entity, and `SyncEvent.Leaves` what an event makes of it. Of all entities an event changes its own
alone (`applyBusinessEvent_leaves`).
-/

namespace Memplex

open Lib

/-- The record of a node or of an edge. -/
inductive EntityRecord where
  | node (r : NodeRecord)
  | edge (e : GraphEdge)
deriving DecidableEq

/-- The record without the times that the clock may have filled in. -/
def EntityRecord.withoutTimes : EntityRecord → EntityRecord
  | node r => node r.withoutTimes
  | edge e => edge e

/-- The record of an entity. -/
def BusinessState.entry (b : BusinessState) (k : Entity) : Option EntityRecord :=
  match k.2.shape with
  | .node nodeId => (b.record k.1 nodeId).map .node
  | .edge source target edgeType =>
    if k.1 = .edge then (findRow GraphEdge.parts (source, target, edgeType) b.edges).map .edge
    else none

/-- A record is what an event leaves: nothing after a tombstone, and after an upsert its payload, a
node as it was normalised at some reading of the clock. -/
def SyncEvent.Leaves (env : Env) (e : SyncEvent) (r : Option EntityRecord) : Prop :=
  match e.change, e.entityKey.shape with
  | .tombstone, _ => r = none
  | .upsert payload, .node nodeId => ∃ now node,
      normalise env now e.nodeType nodeId e.scope payload = .ok node ∧ r = some (.node node)
  | .upsert payload, .edge source target edgeType => ∃ weight evidence createdAt,
      edgePayload payload = .ok (weight, evidence, createdAt) ∧
        r = some (.edge ⟨source, target, edgeType, weight, evidence, some createdAt⟩)

theorem SyncEntityKey.ext_shape {k k' : SyncEntityKey} (h : k.shape = k'.shape) : k = k' := by
  cases k; cases k'; cases h; rfl

/-- The kind of an event is that of its key. -/
theorem SyncEvent.edge_iff (e : SyncEvent) :
    e.nodeType = .edge ↔ ∃ source target edgeType,
      e.entityKey.shape = .edge source target edgeType := by
  rw [e.kind_agrees, SyncEntityKey.isEdge, SyncEntityKey.edgeParts]
  cases e.entityKey.shape with
  | node nodeId => simp
  | edge source target edgeType => simp

namespace BusinessState

/-- Edges are no records of nodes. -/
theorem entry_node {b : BusinessState} {k : Entity} {nodeId : String}
    (h : k.2.shape = .node nodeId) : b.entry k = (b.record k.1 nodeId).map .node := by
  rw [entry, h]

theorem entry_edge {b : BusinessState} {k : Entity} {source target edgeType : String}
    (h : k.2.shape = .edge source target edgeType) (hedge : k.1 = .edge) :
    b.entry k = (findRow GraphEdge.parts (source, target, edgeType) b.edges).map .edge := by
  rw [entry, h]
  exact if_pos hedge

theorem drop_edges (b : BusinessState) (t : SyncNodeType) (nodeId : String) :
    (b.drop t nodeId).edges = b.edges := by
  cases t <;> rfl

theorem put_edges {env : Env} {b b' : BusinessState} {r : NodeRecord} (h : b.put env r = .ok b') :
    b'.edges = b.edges := by
  cases r with
  | function f =>
    obtain ⟨name, -, heq⟩ := Except.bind_ok.mp h
    cases Except.ok.inj heq
    rfl
  | fact f => cases Except.ok.inj h; rfl
  | preference p => cases Except.ok.inj h; rfl
  | observation o => cases Except.ok.inj h; rfl
  | paragraph id row => cases Except.ok.inj h; rfl

/-- A change of one node, and of nothing else. -/
theorem entry_of_record {b b' : BusinessState} {k₀ : Entity} {nodeId : String}
    {r : Option NodeRecord} (hshape : k₀.2.shape = .node nodeId) (hedges : b'.edges = b.edges)
    (hrecord : ∀ t i, b'.record t i = if k₀.1 = t ∧ nodeId = i then r else b.record t i) :
    b'.entry k₀ = r.map .node ∧ ∀ k, k₀ ≠ k → b'.entry k = b.entry k := by
  constructor
  · rw [entry_node hshape, hrecord, if_pos ⟨rfl, rfl⟩]
  · intro k hk
    cases hs : k.2.shape with
    | node i =>
      have hne : ¬(k₀.1 = k.1 ∧ nodeId = i) := by
        rintro ⟨ht, rfl⟩
        exact hk (Prod.ext ht (SyncEntityKey.ext_shape (hshape.trans hs.symm)))
      rw [entry_node hs, entry_node hs, hrecord, if_neg hne]
    | edge source target edgeType =>
      rw [entry, entry, hs, hedges]

/-- A change of one edge, and of nothing else. -/
theorem entry_of_edges {b : BusinessState} {edges : List GraphEdge} {k₀ : Entity}
    {source target edgeType : String} {r : Option GraphEdge}
    (hshape : k₀.2.shape = .edge source target edgeType) (hedge : k₀.1 = .edge)
    (hfind : ∀ parts, findRow GraphEdge.parts parts edges =
      if (source, target, edgeType) = parts then r else findRow GraphEdge.parts parts b.edges) :
    BusinessState.entry { b with edges := edges } k₀ = r.map .edge ∧
      ∀ k, k₀ ≠ k → BusinessState.entry { b with edges := edges } k = b.entry k := by
  constructor
  · rw [entry_edge hshape hedge]
    exact congrArg (Option.map EntityRecord.edge) ((hfind _).trans (if_pos rfl))
  · intro k hk
    cases hs : k.2.shape with
    | node i =>
      rw [entry_node hs, entry_node hs]
      cases k.1 <;> rfl
    | edge source' target' edgeType' =>
      by_cases hk' : k.1 = .edge
      · have hne : (source, target, edgeType) ≠ (source', target', edgeType') := by
          intro heq
          cases heq
          exact hk (Prod.ext (hedge.trans hk'.symm) (SyncEntityKey.ext_shape (hshape.trans hs.symm)))
        rw [entry_edge hs hk', entry_edge hs hk']
        exact congrArg (Option.map EntityRecord.edge) ((hfind _).trans (if_neg hne))
      · rw [entry, entry, hs]
        simp only [if_neg hk']

end BusinessState

theorem findRow_removeEdge (edges : List GraphEdge) (parts parts' : String × String × String) :
    findRow GraphEdge.parts parts' (removeEdge edges parts) =
      if parts = parts' then none else findRow GraphEdge.parts parts' edges := by
  have hfind : findRow GraphEdge.parts parts' (removeEdge edges parts) =
      if parts' = parts then none else findRow GraphEdge.parts parts' edges :=
    findRow_eraseRow parts parts' edges
  rw [hfind]
  split_ifs with h h' h'
  · rfl
  · exact absurd h.symm h'
  · exact absurd h'.symm h
  · rfl

theorem findRow_replaceEdge (edges : List GraphEdge) (edge : GraphEdge)
    (parts : String × String × String) :
    findRow GraphEdge.parts parts (removeEdge edges edge.parts ++ [edge]) =
      if edge.parts = parts then some edge else findRow GraphEdge.parts parts edges := by
  rw [findRow_append, findRow_removeEdge, findRow_cons, findRow_nil]
  split_ifs with hp
  · rfl
  · rw [Option.or_none]

/-- An upserted edge takes the place of those with its parts. -/
theorem applyEdgeUpsert_ok {env : Env} {b b' : BusinessState} {source target edgeType : String}
    {payload : Members} (h : applyEdgeUpsert env b (source, target, edgeType) payload = .ok b') :
    ∃ weight evidence createdAt, edgePayload payload = .ok (weight, evidence, createdAt) ∧
      b' = { b with edges := removeEdge b.edges (GraphEdge.parts
          ⟨source, target, edgeType, weight, evidence, some createdAt⟩) ++
        [⟨source, target, edgeType, weight, evidence, some createdAt⟩] } := by
  obtain ⟨⟨weight, evidence, createdAt⟩, hpayload, h⟩ := Except.bind_ok.mp h
  obtain ⟨_, -, h⟩ := Except.bind_ok.mp h
  obtain ⟨_, -, h⟩ := Except.bind_ok.mp h
  obtain ⟨_, -, heq⟩ := Except.bind_ok.mp h
  exact ⟨weight, evidence, createdAt, hpayload, (Except.ok.inj heq).symm⟩

/-- An applied event leaves its record at its entity, and every other record as it was. -/
theorem applyBusinessEvent_leaves {env : Env} {now : String} {b b' : BusinessState}
    {ts ts' : List SyncEntityKey} {e : SyncEvent}
    (h : applyBusinessEvent env now b ts e = .ok (b', ts')) :
    e.Leaves env (b'.entry e.entity) ∧ ∀ k, e.entity ≠ k → b'.entry k = b.entry k := by
  unfold applyBusinessEvent at h
  cases hs : e.entityKey.shape with
  | node nodeId =>
    have hshape : e.entity.2.shape = .node nodeId := hs
    have hnode : e.nodeType ≠ .edge := by
      rw [ne_eq, e.edge_iff, hs]
      simp
    rw [hs] at h
    cases hc : e.change with
    | tombstone =>
      rw [hc] at h
      obtain ⟨_, -, heq⟩ := Except.bind_ok.mp h
      cases Except.ok.inj heq
      obtain ⟨hself, hothers⟩ := BusinessState.entry_of_record hshape
        (b.drop_edges e.nodeType nodeId) (r := none)
        fun t i => BusinessState.record_drop b e.nodeType t nodeId i
      refine ⟨?_, hothers⟩
      rw [hself, SyncEvent.Leaves, hc]
      rfl
    | upsert payload =>
      rw [hc] at h
      obtain ⟨node, hnorm, h⟩ := Except.bind_ok.mp h
      obtain ⟨b₁, hput, heq⟩ := Except.bind_ok.mp h
      cases Except.ok.inj heq
      obtain ⟨htype, hnid⟩ := normalise_ok hnode hnorm
      obtain ⟨hself, hothers⟩ := BusinessState.entry_of_record hshape
        (BusinessState.put_edges hput) (r := some node) fun t i => by
          rw [BusinessState.record_put hput, htype, hnid]
          rfl
      refine ⟨?_, hothers⟩
      rw [hself, SyncEvent.Leaves, hc, hs]
      exact ⟨now, node, hnorm, rfl⟩
  | edge source target edgeType =>
    have hshape : e.entity.2.shape = .edge source target edgeType := hs
    have hedge : e.entity.1 = .edge := e.edge_iff.mpr ⟨source, target, edgeType, hs⟩
    rw [hs] at h
    cases hc : e.change with
    | tombstone =>
      rw [hc] at h
      cases Except.ok.inj h
      obtain ⟨hself, hothers⟩ := BusinessState.entry_of_edges (b := b) hshape hedge (r := none)
        fun parts => findRow_removeEdge b.edges (source, target, edgeType) parts
      refine ⟨?_, hothers⟩
      rw [hself, SyncEvent.Leaves, hc]
      rfl
    | upsert payload =>
      rw [hc] at h
      obtain ⟨b₁, hupsert, heq⟩ := Except.bind_ok.mp h
      cases Except.ok.inj heq
      obtain ⟨weight, evidence, createdAt, hpayload, rfl⟩ := applyEdgeUpsert_ok hupsert
      obtain ⟨hself, hothers⟩ := BusinessState.entry_of_edges (b := b) hshape hedge
        fun parts => findRow_replaceEdge b.edges
          ⟨source, target, edgeType, weight, evidence, some createdAt⟩ parts
      refine ⟨?_, hothers⟩
      rw [hself, SyncEvent.Leaves, hc, hs]
      exact ⟨weight, evidence, createdAt, hpayload, rfl⟩

end Memplex
