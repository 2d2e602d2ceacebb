import Memplex.Sync.Effects

/-!
# Referential integrity

An edge connects functions, and so does every edge that a delivery leaves, where the delivery does
not strand it. `Resolved` is the invariant: the ends of every live edge are live functions, but for
the target of a `BELONGS_TO` edge, which is the virtual node of a domain.

The upsert of an edge needs its ends, and the tombstone of a function needs each edge at it to have
been tombstoned in the same delivery. The second check reads the keys that were tombstoned so far,
not what was upserted since: an edge that a delivery removes, puts back and then deprives of an end
is stranded, and no other is (`applyAll_resolved_iff`). `SyncState.admitted` is the part of a
delivery that takes effect, read off the identities and the versions that the store holds.
-/

namespace Memplex

open Lib

/-! ## The invariant -/

/-- The ends of an edge that must be functions. -/
def edgeEnds (parts : String × String × String) : List String :=
  parts.1 :: if parts.2.2 = belongsTo then [] else [parts.2.1]

/-- Both ends of every live edge are live functions. -/
def BusinessState.Connected (b : BusinessState) : Prop :=
  ∀ e ∈ b.edges, b.functions.contains e.source = true ∧ b.functions.contains e.target = true

/-- The ends of every live edge are live functions, but for the virtual node of a domain. -/
def BusinessState.Resolved (b : BusinessState) : Prop :=
  ∀ e ∈ b.edges, ∀ i ∈ edgeEnds e.parts, b.functions.contains i = true

instance (b : BusinessState) : Decidable b.Connected := by
  unfold BusinessState.Connected; infer_instance

instance (b : BusinessState) : Decidable b.Resolved := by
  unfold BusinessState.Resolved; infer_instance

theorem BusinessState.Connected.resolved {b : BusinessState} (h : b.Connected) : b.Resolved := by
  intro e he i hi
  obtain ⟨hsource, htarget⟩ := h e he
  rcases List.mem_cons.mp hi with rfl | hi
  · exact hsource
  · split_ifs at hi with hbelongs
    · exact absurd hi (by simp)
    · rw [List.mem_singleton.mp hi]
      exact htarget

/-! ## What takes effect -/

theorem lawfulIdentity : LawfulBEq (String × String) := inferInstance

attribute [local instance] lawfulIdentity

/-- The events of a delivery that take effect: `known` are the identities that the inbox answers and
`held` the versions of the entities. -/
def admitted : List (String × String) → (Entity → Option SyncVersion) → List SyncEvent →
    List SyncEvent
  | _, _, [] => []
  | known, held, e :: es =>
    if e.identity ∈ known then admitted known held es
    else if ∃ v ∈ held e.entity, e.version ≤ v then admitted (known ++ [e.identity]) held es
    else e :: admitted (known ++ [e.identity])
      (fun k => if e.entity = k then some e.version else held k) es

/-- The version that an entity holds. -/
def SyncState.held (s : SyncState) (k : Entity) : Option SyncVersion :=
  (s.entityVersions.get? k).map VersionRow.version

/-- The events that take effect on a store. -/
def SyncState.admitted (s : SyncState) (events : List SyncEvent) : List SyncEvent :=
  Memplex.admitted s.identities s.held events

/-- Applied events one after the other, with the edges that were tombstoned among them. -/
def applyAll (env : Env) (clock : SyncEvent → String) (b : BusinessState)
    (edgeTombstones : List SyncEntityKey) (events : List SyncEvent) :
    Except PyError (BusinessState × List SyncEntityKey) :=
  events.foldlM (fun st e => applyBusinessEvent env (clock e) st.1 st.2 e) (b, edgeTombstones)

theorem applyAll_cons {env : Env} {clock : SyncEvent → String} {b : BusinessState}
    {ts : List SyncEntityKey} {e : SyncEvent} {es : List SyncEvent} :
    applyAll env clock b ts (e :: es) =
      (applyBusinessEvent env (clock e) b ts e >>= fun st => applyAll env clock st.1 st.2 es) := by
  rw [applyAll, List.foldlM_cons]
  rfl

/-- A run that ends with one more event. -/
theorem applyAll_concat {env : Env} {clock : SyncEvent → String} {b : BusinessState}
    {ts : List SyncEntityKey} {es : List SyncEvent} {e : SyncEvent}
    {r : BusinessState × List SyncEntityKey} :
    applyAll env clock b ts (es ++ [e]) = .ok r ↔ ∃ st, applyAll env clock b ts es = .ok st ∧
      applyBusinessEvent env (clock e) st.1 st.2 e = .ok r := by
  have hone : ∀ st, [e].foldlM (fun st e => applyBusinessEvent env (clock e) st.1 st.2 e) st =
      applyBusinessEvent env (clock e) st.1 st.2 e := by
    intro st
    simp
  rw [applyAll, List.foldlM_append, Except.bind_ok]
  simp only [hone]
  rfl

/-- The versions after an append. -/
theorem SyncState.held_appended (s : SyncState) (e : SyncEvent) :
    (s.appended e).held = fun k => if e.entity = k then some e.version else s.held k := by
  funext k
  have hkey : (SyncState.versionRow e s.nextStreamSeq).entity = e.entity := rfl
  rw [held, appended, Table.get?_set, hkey]
  split_ifs
  · rfl
  · rfl

section Loop

variable {cfg : SyncConfig} {env : Env} {clock : SyncEvent → String}

/-- An event that is accepted is applied, and is known from then on. -/
theorem accept_applies {st st' : ApplyState} {e : SyncEvent}
    (h : st.accept cfg env (clock e) e = .ok st') :
    applyBusinessEvent env (clock e) st.store.business st.edgeTombstones e =
        .ok (st'.store.business, st'.edgeTombstones) ∧
      st'.store.sync.identities = st.store.sync.identities ++ [e.identity] ∧
      st'.store.sync.held =
        fun k => if e.entity = k then some e.version else st.store.sync.held k := by
  obtain ⟨⟨b', ts'⟩, hbusiness, h⟩ := Except.bind_ok.mp h
  obtain ⟨⟨sync', seq⟩, happend, heq⟩ := Except.bind_ok.mp h
  cases Except.ok.inj heq
  obtain ⟨rfl, -, -, -⟩ := SyncState.appendEvent_ok happend
  exact ⟨hbusiness, List.map_append, SyncState.held_appended st.store.sync e⟩

/-- An accepted event is the first that takes effect. -/
theorem accept_admitted {st st₁ : ApplyState} {e : SyncEvent} {events : List SyncEvent}
    {r : BusinessState × List SyncEntityKey} (hnew : e.identity ∉ st.store.sync.identities)
    (hnewer : ¬∃ v ∈ st.store.sync.held e.entity, e.version ≤ v)
    (h : st.accept cfg env (clock e) e = .ok st₁)
    (hrest : applyAll env clock st₁.store.business st₁.edgeTombstones
      (st₁.store.sync.admitted events) = .ok r) :
    applyAll env clock st.store.business st.edgeTombstones
      (st.store.sync.admitted (e :: events)) = .ok r := by
  obtain ⟨hbusiness, hids, hheld⟩ := accept_applies h
  rw [SyncState.admitted, admitted, if_neg hnew, if_neg hnewer, applyAll_cons, hbusiness, ← hids,
    ← hheld]
  exact hrest

/-- The loop over a delivery applies the events that take effect, and no others. -/
theorem applyEvents_admitted {events : List SyncEvent} {st st' : ApplyState}
    (h : events.foldlM (ApplyState.applyEvent cfg env clock) st = .ok st') :
    applyAll env clock st.store.business st.edgeTombstones (st.store.sync.admitted events) =
      .ok (st'.store.business, st'.edgeTombstones) := by
  induction events generalizing st with
  | nil =>
    cases Except.ok.inj h
    rfl
  | cons e events ih =>
    rw [List.foldlM_cons] at h
    obtain ⟨st₁, hstep, hrest⟩ := Except.bind_ok.mp h
    have hrest := ih hrest
    unfold ApplyState.applyEvent at hstep
    split at hstep
    next row hrow =>
      -- The inbox answers.
      cases Except.ok.inj hstep
      obtain ⟨hmem, hident⟩ := findRow_some hrow
      have hknown : e.identity ∈ st.store.sync.identities := hident ▸ List.mem_map_of_mem hmem
      rw [SyncState.admitted, admitted, if_pos hknown]
      exact hrest
    next hnone =>
      have hnew : e.identity ∉ st.store.sync.identities := by
        intro hmem
        obtain ⟨row, hrow, hident⟩ := List.mem_map.mp hmem
        exact findRow_eq_none.mp hnone row hrow hident
      split at hstep
      next current hcurrent =>
        have hheld : st.store.sync.held e.entity = some current.version := by
          rw [SyncState.held, hcurrent, Option.map_some]
        split_ifs at hstep with hle
        · -- The event is not newer, and is known from then on.
          cases Except.ok.inj hstep
          have hids : (st.reject e).store.sync.identities =
              st.store.sync.identities ++ [e.identity] := List.map_append
          have hold : ∃ v ∈ st.store.sync.held e.entity, e.version ≤ v :=
            ⟨current.version, hheld, hle⟩
          rw [SyncState.admitted, admitted, if_neg hnew, if_pos hold, ← hids]
          exact hrest
        · refine accept_admitted hnew ?_ hstep hrest
          rintro ⟨v, hv, hv'⟩
          cases Option.some.inj (hheld.symm.trans hv)
          exact hle hv'
      next hcurrent =>
        refine accept_admitted hnew ?_ hstep hrest
        rintro ⟨v, hv, -⟩
        rw [SyncState.held, hcurrent] at hv
        exact absurd hv (by simp)

end Loop

/-! ## One event -/

theorem validateEntityId_eq {text name s : String}
    (h : validateEntityId (.str text) name = .ok s) : s = text := by
  obtain ⟨t, hexact, h⟩ := Except.bind_ok.mp h
  obtain ⟨_, -, heq⟩ := Except.bind_ok.mp h
  obtain ⟨_, -, hexact⟩ := Except.bind_ok.mp hexact
  obtain ⟨_, -, htext⟩ := Except.bind_ok.mp hexact
  exact (Except.ok.inj heq).symm.trans (Except.ok.inj htext).symm

/-- The key of an edge names its parts. -/
theorem SyncEntityKey.edge_ok {source target edgeType : String} {k : SyncEntityKey}
    (h : SyncEntityKey.edge (.str source) (.str target) (.str edgeType) = .ok k) :
    k.edgeParts = some (source, target, edgeType) := by
  obtain ⟨s, hs, h⟩ := Except.bind_ok.mp h
  obtain ⟨t, ht, h⟩ := Except.bind_ok.mp h
  obtain ⟨r, hr, h⟩ := Except.bind_ok.mp h
  rw [validateEntityId_eq hs, validateEntityId_eq ht, validateEntityId_eq hr] at h
  unfold ofShape at h
  split_ifs at h
  cases Except.ok.inj h
  rfl

/-- The kind and the name of what an event changes. -/
def SyncEvent.address (e : SyncEvent) : SyncNodeType × EntityShape :=
  (e.nodeType, e.entityKey.shape)

/-- The address of a function. -/
def functionAddress (functionId : String) : SyncNodeType × EntityShape :=
  (.function, .node functionId)

/-- The address of an edge. -/
def edgeAddress (parts : String × String × String) : SyncNodeType × EntityShape :=
  (.edge, .edge parts.1 parts.2.1 parts.2.2)

theorem SyncEvent.address_edge {e : SyncEvent} {parts : String × String × String} :
    e.address = edgeAddress parts ↔ e.entityKey.edgeParts = some parts := by
  obtain ⟨source, target, edgeType⟩ := parts
  rw [SyncEntityKey.edgeParts]
  constructor
  · intro h
    have hs : e.entityKey.shape = .edge source target edgeType := (Prod.mk.inj h).2
    rw [hs]
  · intro h
    cases hs : e.entityKey.shape with
    | node nodeId =>
      rw [hs] at h
      exact absurd h (by simp)
    | edge s t r =>
      rw [hs] at h
      cases Option.some.inj h
      exact Prod.ext (e.edge_iff.mpr ⟨source, target, edgeType, hs⟩) hs

/-- What one applied event does to functions and edges, and what it has found. -/
inductive Relinks (b : BusinessState) (ts : List SyncEntityKey) (e : SyncEvent) :
    BusinessState → List SyncEntityKey → Prop where
  /-- An edge goes, and the delivery remembers it. -/
  | unlink {parts : String × String × String} (hparts : e.entityKey.edgeParts = some parts)
      (hchange : e.change.isTombstone = true) :
      Relinks b ts e { b with edges := removeEdge b.edges parts } (e.entityKey :: ts)
  /-- An edge comes, between functions that are there. -/
  | link {edge : GraphEdge} (hparts : e.entityKey.edgeParts = some edge.parts)
      (hchange : e.change.isTombstone = false)
      (hends : ∀ i ∈ edgeEnds edge.parts, b.functions.contains i = true) :
      Relinks b ts e { b with edges := removeEdge b.edges edge.parts ++ [edge] } ts
  /-- A node comes or goes; before a function goes, the edges at it were remembered. -/
  | node {b' : BusinessState} (hparts : e.entityKey.edgeParts = none) (hedges : b'.edges = b.edges)
      (hfunctions : ∀ i, b'.functions.contains i =
        if e.address = functionAddress i then !e.change.isTombstone else b.functions.contains i)
      (hincident : ∀ i, e.address = functionAddress i → e.change.isTombstone = true →
        ∀ g ∈ b.edges, g.source = i ∨ g.target = i → ∃ k ∈ ts, k.edgeParts = some g.parts) :
      Relinks b ts e b' ts

theorem BusinessState.contains_record (b : BusinessState) (i : String) :
    b.functions.contains i = (b.record .function i).isSome := by
  rw [record, Option.isSome_map]
  rfl

/-- The functions after a change of one record. -/
theorem contains_of_record {b b' : BusinessState} {e : SyncEvent} {nodeId : String}
    {r : Option NodeRecord} (hshape : e.entityKey.shape = .node nodeId)
    (hrecord : ∀ t i, b'.record t i = if e.nodeType = t ∧ nodeId = i then r else b.record t i)
    (i : String) : b'.functions.contains i =
      if e.address = functionAddress i then r.isSome else b.functions.contains i := by
  have haddress : e.address = functionAddress i ↔ e.nodeType = .function ∧ nodeId = i := by
    rw [SyncEvent.address, functionAddress, hshape, Prod.mk.injEq, EntityShape.node.injEq]
  rw [BusinessState.contains_record, BusinessState.contains_record, hrecord]
  by_cases h : e.nodeType = .function ∧ nodeId = i
  · rw [if_pos h, if_pos (haddress.mpr h)]
  · rw [if_neg h, if_neg (mt haddress.mp h)]

/-- Before a function goes, the delivery has removed each edge at it. -/
theorem checkIncidentEdges_ok {b : BusinessState} {ts : List SyncEntityKey} {nodeId : String}
    (h : checkIncidentEdges b ts .function nodeId = .ok ()) :
    ∀ g ∈ b.edges, g.source = nodeId ∨ g.target = nodeId → ∃ k ∈ ts, k.edgeParts = some g.parts := by
  intro g hg hend
  rw [checkIncidentEdges, if_pos rfl] at h
  have hone := forM_ok.mp h g hg
  rw [checkIncidentEdge, if_pos hend] at hone
  obtain ⟨k, hkey, hmem⟩ := Except.bind_ok.mp hone
  exact ⟨k, require_ok.mp hmem, SyncEntityKey.edge_ok hkey⟩

theorem applyBusinessEvent_relinks {env : Env} {now : String} {b b' : BusinessState}
    {ts ts' : List SyncEntityKey} {e : SyncEvent}
    (h : applyBusinessEvent env now b ts e = .ok (b', ts')) : Relinks b ts e b' ts' := by
  unfold applyBusinessEvent at h
  cases hs : e.entityKey.shape with
  | node nodeId =>
    have hparts : e.entityKey.edgeParts = none := by rw [SyncEntityKey.edgeParts, hs]
    have hnode : e.nodeType ≠ .edge := by
      rw [ne_eq, e.edge_iff, hs]
      simp
    rw [hs] at h
    cases hc : e.change with
    | tombstone =>
      rw [hc] at h
      obtain ⟨_, hcheck, heq⟩ := Except.bind_ok.mp h
      cases Except.ok.inj heq
      refine .node hparts (b.drop_edges e.nodeType nodeId) (fun i => ?_) ?_
      · rw [contains_of_record hs (r := none)
          (fun t i => BusinessState.record_drop b e.nodeType t nodeId i), hc]
        rfl
      · intro i haddress _
        obtain ⟨htype, hshape⟩ := Prod.mk.inj haddress
        rw [htype] at hcheck
        cases EntityShape.node.inj (hs.symm.trans hshape)
        exact checkIncidentEdges_ok hcheck
    | upsert payload =>
      rw [hc] at h
      obtain ⟨node, hnorm, h⟩ := Except.bind_ok.mp h
      obtain ⟨b₁, hput, heq⟩ := Except.bind_ok.mp h
      cases Except.ok.inj heq
      obtain ⟨htype, hnid⟩ := normalise_ok hnode hnorm
      have hrecord : ∀ t i, b'.record t i =
          if e.nodeType = t ∧ nodeId = i then some node else b.record t i := fun t i => by
        rw [BusinessState.record_put hput, htype, hnid]
      refine .node hparts (BusinessState.put_edges hput) (fun i => ?_) ?_
      · rw [contains_of_record hs hrecord, hc]
        rfl
      · rw [hc]
        exact fun _ _ htombstone => absurd htombstone (by simp [Change.isTombstone])
  | edge source target edgeType =>
    have hparts : e.entityKey.edgeParts = some (source, target, edgeType) := by
      rw [SyncEntityKey.edgeParts, hs]
    rw [hs] at h
    cases hc : e.change with
    | tombstone =>
      rw [hc] at h
      cases Except.ok.inj h
      exact .unlink hparts (by rw [hc]; rfl)
    | upsert payload =>
      rw [hc] at h
      obtain ⟨b₁, hupsert, heq⟩ := Except.bind_ok.mp h
      cases Except.ok.inj heq
      obtain ⟨⟨weight, evidence, createdAt⟩, -, hupsert⟩ := Except.bind_ok.mp hupsert
      obtain ⟨_, hsource, hupsert⟩ := Except.bind_ok.mp hupsert
      obtain ⟨_, htarget, hupsert⟩ := Except.bind_ok.mp hupsert
      obtain ⟨_, -, heq⟩ := Except.bind_ok.mp hupsert
      cases Except.ok.inj heq
      have hends : e.entityKey.edgeParts = some (GraphEdge.parts
        ⟨source, target, edgeType, weight, evidence, some createdAt⟩) := hparts
      refine .link hends (by rw [hc]; rfl) fun i hi => ?_
      rcases List.mem_cons.mp hi with rfl | hi
      · exact require_ok.mp hsource
      · split_ifs at hi with hbelongs
        · exact absurd hi (by simp)
        · rw [List.mem_singleton.mp hi]
          exact (require_ok.mp htarget).resolve_right hbelongs

/-! ## The events of a delivery -/

/-- The last of some events at an address. -/
def lastAt (address : SyncNodeType × EntityShape) (es : List SyncEvent) : Option SyncEvent :=
  findRow SyncEvent.address address es.reverse

theorem lastAt_concat (address : SyncNodeType × EntityShape) (es : List SyncEvent) (e : SyncEvent) :
    lastAt address (es ++ [e]) = if e.address = address then some e else lastAt address es := by
  rw [lastAt, List.reverse_append, List.reverse_singleton, List.singleton_append, findRow_cons]
  rfl

theorem lastAt_some {address : SyncNodeType × EntityShape} {es : List SyncEvent} {e : SyncEvent}
    (h : lastAt address es = some e) : e ∈ es ∧ e.address = address := by
  obtain ⟨hmem, haddress⟩ := findRow_some h
  exact ⟨List.mem_reverse.mp hmem, haddress⟩

theorem lastAt_isSome {address : SyncNodeType × EntityShape} {es : List SyncEvent} :
    (lastAt address es).isSome ↔ ∃ e ∈ es, e.address = address := by
  rw [lastAt, findRow_isSome]
  simp only [List.mem_reverse]

/-- The last of some events about a function removes it. -/
def Removed (es : List SyncEvent) (functionId : String) : Prop :=
  ∃ e ∈ lastAt (functionAddress functionId) es, e.change.isTombstone = true

instance (es : List SyncEvent) (functionId : String) : Decidable (Removed es functionId) := by
  unfold Removed; infer_instance

/-- An event strands its edge: it is the last about this edge and puts it there, and the last event
about an end of the edge removes that function. -/
def SyncEvent.Strands (es : List SyncEvent) (u : SyncEvent) : Prop :=
  lastAt u.address es = some u ∧ u.change.isTombstone = false ∧
    ∃ parts ∈ u.entityKey.edgeParts, ∃ i ∈ edgeEnds parts, Removed es i

instance (es : List SyncEvent) (u : SyncEvent) : Decidable (u.Strands es) := by
  unfold SyncEvent.Strands; infer_instance

theorem Removed.concat {es : List SyncEvent} {e : SyncEvent} {i : String} (h : Removed es i)
    (hother : e.address ≠ functionAddress i) : Removed (es ++ [e]) i := by
  rw [Removed, lastAt_concat, if_neg hother]
  exact h

/-- What a run of applied events has made of functions and edges. -/
structure Relinked (b : BusinessState) (es : List SyncEvent) (b' : BusinessState)
    (ts : List SyncEntityKey) : Prop where
  /-- A function is live when its last event is an upsert, or when it was. -/
  functions : ∀ i, b'.functions.contains i =
    ((lastAt (functionAddress i) es).map fun e => !e.change.isTombstone).getD
      (b.functions.contains i)
  /-- An edge with an event is live exactly when its last one is an upsert. -/
  edges : ∀ parts, ∀ u ∈ lastAt (edgeAddress parts) es,
    (∃ g ∈ b'.edges, g.parts = parts) ↔ u.change.isTombstone = false
  /-- What the delivery remembers is the key of one of its events. -/
  remembered : ∀ k ∈ ts, ∃ e ∈ es, e.entityKey = k
  /-- The end of a live edge is live, unless its last event has removed it and the delivery has
  an event about the edge. -/
  ends : ∀ g ∈ b'.edges, ∀ i ∈ edgeEnds g.parts, b'.functions.contains i = true ∨
    Removed es i ∧ (lastAt (edgeAddress g.parts) es).isSome

theorem relinked_nil {b : BusinessState} (h : b.Resolved) : Relinked b [] b [] where
  functions _ := rfl
  edges _ u hu := absurd hu (by simp [lastAt])
  remembered _ hk := absurd hk (by simp)
  ends g hg i hi := .inl (h g hg i hi)

theorem edgeAddress_ne (parts : String × String × String) (i : String) :
    edgeAddress parts ≠ functionAddress i := fun h => SyncNodeType.noConfusion (Prod.mk.inj h).1

theorem edgeAddress_inj {parts parts' : String × String × String}
    (h : edgeAddress parts = edgeAddress parts') : parts = parts' := by
  obtain ⟨hs, ht, hr⟩ := EntityShape.edge.inj (Prod.mk.inj h).2
  exact Prod.ext hs (Prod.ext ht hr)

section Step

variable {b b₁ b₂ : BusinessState} {es : List SyncEvent} {e : SyncEvent}
  {ts ts' : List SyncEntityKey}

/-- The functions after one more event. -/
theorem Relinked.functions_step (h : Relinked b es b₁ ts) (hstep : Relinks b₁ ts e b₂ ts')
    (i : String) : b₂.functions.contains i =
      ((lastAt (functionAddress i) (es ++ [e])).map fun e => !e.change.isTombstone).getD
        (b.functions.contains i) := by
  rw [lastAt_concat]
  have hedge : ∀ parts, e.entityKey.edgeParts = some parts → e.address ≠ functionAddress i := by
    intro parts hparts
    rw [SyncEvent.address_edge.mpr hparts]
    exact edgeAddress_ne parts i
  cases hstep with
  | unlink hparts _ =>
    rw [if_neg (hedge _ hparts)]
    exact h.functions i
  | link hparts _ _ =>
    rw [if_neg (hedge _ hparts)]
    exact h.functions i
  | node _ _ hfunctions _ =>
    rw [hfunctions]
    split_ifs
    · rfl
    · exact h.functions i

/-- The edges after one more event. -/
theorem Relinked.edges_step (h : Relinked b es b₁ ts) (hstep : Relinks b₁ ts e b₂ ts')
    (parts : String × String × String) {u : SyncEvent}
    (hu : u ∈ lastAt (edgeAddress parts) (es ++ [e])) :
    (∃ g ∈ b₂.edges, g.parts = parts) ↔ u.change.isTombstone = false := by
  rw [lastAt_concat] at hu
  cases hstep with
  | @unlink parts' hparts hchange =>
    rw [SyncEvent.address_edge.mpr hparts] at hu
    split_ifs at hu with haddress
    · cases edgeAddress_inj haddress
      cases Option.mem_some.mp hu
      simp [removeEdge, hchange]
    · have hne : parts ≠ parts' := fun hp => haddress (hp ▸ rfl)
      rw [← h.edges parts u hu]
      refine exists_congr fun g => ?_
      simp only [removeEdge, List.mem_filter, decide_eq_true_eq]
      exact ⟨fun ⟨⟨hg, _⟩, hp⟩ => ⟨hg, hp⟩, fun ⟨hg, hp⟩ => ⟨⟨hg, hp ▸ hne⟩, hp⟩⟩
  | @link edge hparts hchange _ =>
    rw [SyncEvent.address_edge.mpr hparts] at hu
    split_ifs at hu with haddress
    · cases edgeAddress_inj haddress
      cases Option.mem_some.mp hu
      exact iff_of_true ⟨edge, List.mem_append_right _ (List.mem_singleton_self _), rfl⟩ hchange
    · have hne : parts ≠ edge.parts := fun hp => haddress (hp ▸ rfl)
      rw [← h.edges parts u hu]
      refine exists_congr fun g => ?_
      simp only [removeEdge, List.mem_append, List.mem_filter, decide_eq_true_eq,
        List.mem_singleton]
      constructor
      · rintro ⟨⟨hg, -⟩ | rfl, hp⟩
        · exact ⟨hg, hp⟩
        · exact absurd hp.symm hne
      · rintro ⟨hg, hp⟩
        exact ⟨.inl ⟨hg, hp ▸ hne⟩, hp⟩
  | node hparts hedges _ _ =>
    have hother : e.address ≠ edgeAddress parts := by
      rw [ne_eq, SyncEvent.address_edge, hparts]
      simp
    rw [if_neg hother] at hu
    rw [hedges]
    exact h.edges parts u hu

/-- The ends of the edges after one more event. -/
theorem Relinked.ends_step (h : Relinked b es b₁ ts) (hstep : Relinks b₁ ts e b₂ ts') :
    ∀ g ∈ b₂.edges, ∀ i ∈ edgeEnds g.parts, b₂.functions.contains i = true ∨
      Removed (es ++ [e]) i ∧ (lastAt (edgeAddress g.parts) (es ++ [e])).isSome := by
  -- An event elsewhere takes nothing from an end that was removed.
  have hkeep : ∀ g ∈ b₁.edges, ∀ i ∈ edgeEnds g.parts, e.address ≠ functionAddress i →
      b₁.functions.contains i = true ∨
        Removed (es ++ [e]) i ∧ (lastAt (edgeAddress g.parts) (es ++ [e])).isSome := by
    intro g hg i hi hother
    refine (h.ends g hg i hi).imp_right fun ⟨hremoved, hsome⟩ => ⟨hremoved.concat hother, ?_⟩
    obtain ⟨u, hu, haddress⟩ := lastAt_isSome.mp hsome
    exact lastAt_isSome.mpr ⟨u, List.mem_append_left _ hu, haddress⟩
  have hedge : ∀ parts i, e.entityKey.edgeParts = some parts → e.address ≠ functionAddress i := by
    intro parts i hparts
    rw [SyncEvent.address_edge.mpr hparts]
    exact edgeAddress_ne parts i
  cases hstep with
  | unlink hparts _ =>
    intro g hg i hi
    exact hkeep g (List.mem_filter.mp hg).1 i hi (hedge _ i hparts)
  | link hparts _ hends =>
    intro g hg i hi
    rcases List.mem_append.mp hg with hold | hnew
    · exact hkeep g (List.mem_filter.mp hold).1 i hi (hedge _ i hparts)
    · cases List.mem_singleton.mp hnew
      exact .inl (hends i hi)
  | node hparts hedges hfunctions hincident =>
    intro g hg i hi
    rw [hedges] at hg
    rw [hfunctions]
    by_cases haddress : e.address = functionAddress i
    · rw [if_pos haddress]
      cases hchange : e.change.isTombstone with
      | false => exact .inl rfl
      | true =>
        -- The delivery had removed the edge before, so that it has an event about it.
        have hend : g.source = i ∨ g.target = i := by
          rcases List.mem_cons.mp hi with rfl | hi
          · exact .inl rfl
          · split_ifs at hi
            · exact absurd hi (by simp)
            · exact .inr (List.mem_singleton.mp hi).symm
        obtain ⟨k, hk, hkparts⟩ := hincident i haddress hchange g hg hend
        obtain ⟨u, hu, rfl⟩ := h.remembered k hk
        refine .inr ⟨⟨e, ?_, hchange⟩, lastAt_isSome.mpr
          ⟨u, List.mem_append_left _ hu, SyncEvent.address_edge.mpr hkparts⟩⟩
        rw [lastAt_concat, if_pos haddress]
        rfl
    · rw [if_neg haddress]
      exact hkeep g hg i hi haddress

/-- One more event. -/
theorem Relinked.step (h : Relinked b es b₁ ts) (hstep : Relinks b₁ ts e b₂ ts') :
    Relinked b (es ++ [e]) b₂ ts' where
  functions := h.functions_step hstep
  edges parts _ hu := h.edges_step hstep parts hu
  remembered k hk := by
    have hold : k ∈ ts → ∃ u ∈ es ++ [e], u.entityKey = k := by
      intro hk
      obtain ⟨u, hu, hkey⟩ := h.remembered k hk
      exact ⟨u, List.mem_append_left _ hu, hkey⟩
    cases hstep with
    | unlink _ _ =>
      rcases List.mem_cons.mp hk with rfl | hk
      · exact ⟨e, List.mem_append_right _ (List.mem_singleton_self _), rfl⟩
      · exact hold hk
    | link _ _ _ => exact hold hk
    | node _ _ _ _ => exact hold hk
  ends := h.ends_step hstep

end Step

/-- A run of applied events. -/
theorem applyAll_relinked {env : Env} {clock : SyncEvent → String} {b b' : BusinessState}
    {es : List SyncEvent} {ts : List SyncEntityKey} (hresolved : b.Resolved)
    (h : applyAll env clock b [] es = .ok (b', ts)) : Relinked b es b' ts := by
  induction es using List.reverseRecOn generalizing b' ts with
  | nil =>
    cases Except.ok.inj h
    exact relinked_nil hresolved
  | append_singleton es e ih =>
    obtain ⟨⟨b₁, ts₁⟩, hrun, hlast⟩ := applyAll_concat.mp h
    exact (ih hrun).step (applyBusinessEvent_relinks hlast)

/-- The edges are resolved after a run exactly when none of its events strands its edge. -/
theorem applyAll_resolved_iff {env : Env} {clock : SyncEvent → String} {b b' : BusinessState}
    {es : List SyncEvent} {ts : List SyncEntityKey} (hresolved : b.Resolved)
    (h : applyAll env clock b [] es = .ok (b', ts)) :
    b'.Resolved ↔ ∀ u ∈ es, ¬u.Strands es := by
  have hrun := applyAll_relinked hresolved h
  constructor
  · rintro hafter u hu ⟨hlast, hchange, parts, hparts, i, hi, r, hr, hremoved⟩
    rw [SyncEvent.address_edge.mpr hparts] at hlast
    obtain ⟨g, hg, rfl⟩ := (hrun.edges parts u hlast).mpr hchange
    have hlive : b'.functions.contains i = true := hafter g hg i hi
    have hgone : b'.functions.contains i = false := by
      rw [hrun.functions i, Option.mem_def.mp hr, Option.map_some, hremoved]
      rfl
    rw [hgone] at hlive
    exact absurd hlive (by simp)
  · intro hnone g hg i hi
    refine (hrun.ends g hg i hi).resolve_right ?_
    rintro ⟨hremoved, hsome⟩
    obtain ⟨u, hu⟩ := Option.isSome_iff_exists.mp hsome
    obtain ⟨hmem, haddress⟩ := lastAt_some hu
    have hchange : u.change.isTombstone = false := (hrun.edges g.parts u hu).mp ⟨g, hg, rfl⟩
    exact hnone u hmem ⟨haddress ▸ hu, hchange, g.parts, SyncEvent.address_edge.mp haddress, i, hi,
      hremoved⟩

/-! ## Deliveries -/

/-- The events of a delivery that take effect: none of a repeated batch or of a confirmed page. -/
def Delivery.admitted (cfg : SyncConfig) (store : LiteStore) (d : Delivery) : List SyncEvent :=
  match d.content with
  | .batch b =>
    if (store.sync.findBatch b.batchId).isSome then [] else store.sync.admitted b.events
  | .page remoteId p =>
    if p.nextAfterSeq ≤ store.sync.confirmed cfg remoteId then []
    else store.sync.admitted p.events

section Deliveries

variable {cfg : SyncConfig} {env : Env}

/-- The records after a batch are those that its events have left. -/
theorem syncApplyBatch_admitted {sha256 : ByteArray → String} {now : Instant}
    {clock : SyncEvent → String} {s s' : LiteStore} {b : SyncBatch} {result : SyncBatchResult}
    (h : syncApplyBatch cfg env sha256 now clock s b = .ok (s', result)) :
    ∃ ts, applyAll env clock s.business []
      (Delivery.admitted cfg s ⟨.batch b, now, clock⟩) = .ok (s'.business, ts) := by
  obtain ⟨sync, hbind, h⟩ := Except.bind_ok.mp h
  obtain ⟨rfl, -⟩ := SyncState.bindTenant_ok hbind
  simp only [Delivery.admitted]
  have hbatch : SyncState.findBatch { s.sync with tenantBinding := some b.tenantId } b.batchId =
      s.sync.findBatch b.batchId := rfl
  rw [hbatch] at h
  cases hfound : s.sync.findBatch b.batchId with
  | some existing =>
    rw [hfound] at h
    obtain ⟨_, -, heq⟩ := Except.bind_ok.mp h
    cases Except.ok.inj heq
    exact ⟨[], by rw [if_pos (by simp)]; rfl⟩
  | none =>
    rw [hfound] at h
    obtain ⟨st, happly, heq⟩ := Except.bind_ok.mp h
    cases Except.ok.inj heq
    rw [if_neg (by simp)]
    exact ⟨st.edgeTombstones, applyEvents_admitted happly⟩

/-- The records after a page are those that its events have left. -/
theorem syncApplyPage_admitted {now : Instant} {clock : SyncEvent → String} {s s' : LiteStore}
    {remoteId : String} {p : SyncPage} {result : SyncApplyResult}
    (h : syncApplyPage cfg env now clock s remoteId p = .ok (s', result)) :
    ∃ ts, applyAll env clock s.business []
      (Delivery.admitted cfg s ⟨.page remoteId p, now, clock⟩) = .ok (s'.business, ts) := by
  obtain ⟨_, -, h⟩ := Except.bind_ok.mp h
  obtain ⟨_, -, h⟩ := Except.bind_ok.mp h
  obtain ⟨events, hvalid, h⟩ := Except.bind_ok.mp h
  cases validateIncomingPage_ok hvalid
  obtain ⟨sync, hbind, h⟩ := Except.bind_ok.mp h
  obtain ⟨tenant, rfl⟩ := bindPageTenant_congr hbind
  obtain ⟨_, -, h⟩ := Except.bind_ok.mp h
  obtain ⟨_, -, h⟩ := Except.bind_ok.mp h
  have hconfirmed : SyncState.confirmed { s.sync with tenantBinding := tenant } cfg remoteId =
      s.sync.confirmed cfg remoteId := rfl
  rw [hconfirmed] at h
  simp only [Delivery.admitted]
  by_cases hskip : p.nextAfterSeq ≤ s.sync.confirmed cfg remoteId
  · rw [if_pos hskip] at h ⊢
    cases Except.ok.inj h
    exact ⟨[], rfl⟩
  · rw [if_neg hskip] at h ⊢
    obtain ⟨st, happly, heq⟩ := Except.bind_ok.mp h
    cases Except.ok.inj heq
    exact ⟨st.edgeTombstones, applyEvents_admitted happly⟩

theorem deliver_admitted {sha256 : ByteArray → String} {s s' : LiteStore} {d : Delivery}
    (h : deliver cfg env sha256 s d = .ok s') :
    ∃ ts, applyAll env d.clock s.business [] (d.admitted cfg s) = .ok (s'.business, ts) := by
  obtain ⟨content, now, clock⟩ := d
  cases content with
  | batch b =>
    obtain ⟨⟨s₁, result⟩, happly, rfl⟩ := Except.map_ok h
    exact syncApplyBatch_admitted happly
  | page remoteId p =>
    obtain ⟨⟨s₁, result⟩, happly, rfl⟩ := Except.map_ok h
    exact syncApplyPage_admitted happly

/-- A delivery keeps the edges resolved exactly when none of its events strands its edge. -/
theorem deliver_resolved_iff {sha256 : ByteArray → String} {s s' : LiteStore} {d : Delivery}
    (hresolved : s.business.Resolved) (h : deliver cfg env sha256 s d = .ok s') :
    s'.business.Resolved ↔ ∀ u ∈ d.admitted cfg s, ¬u.Strands (d.admitted cfg s) := by
  obtain ⟨ts, hrun⟩ := deliver_admitted h
  exact applyAll_resolved_iff hresolved hrun

/-- A delivery that strands no edge keeps the edges resolved. -/
theorem deliver_resolved {sha256 : ByteArray → String} {s s' : LiteStore} {d : Delivery}
    (hresolved : s.business.Resolved)
    (hstrands : ∀ u ∈ d.admitted cfg s, ¬u.Strands (d.admitted cfg s))
    (h : deliver cfg env sha256 s d = .ok s') : s'.business.Resolved :=
  (deliver_resolved_iff hresolved h).mpr hstrands

end Deliveries

/-! ## Sample deliveries -/

theorem function_ne_edge : SyncNodeType.function ≠ .edge := by decide

theorem exactString_peer : ExactString "peer" := sampleFactA.version.origin_valid

/-- A function with a domain. -/
def sampleDomainFunction : SyncEvent :=
  sampleEvent .function "ef" "00000000-0000-4000-8000-00000000e001" 42
    [("id", .str "ef"), ("name", .str "ef"), ("domain", .str "d")] function_ne_edge
    (by decide +kernel) (by decide +kernel) (by decide +kernel) (by decide) (by decide +kernel)
    (by decide +kernel)

/-- The relation between the function and the virtual node of its domain. -/
def sampleBelongsTo : SyncEvent where
  nodeType := .edge
  entityKey := ⟨.edge "ef" "domain_d" belongsTo, by decide +kernel, by decide +kernel⟩
  version := ⟨sampleTime 43 (by decide), "peer", "00000000-0000-4000-8000-00000000e002",
    exactString_peer, by decide +kernel⟩
  scope := sampleScope
  change := .upsert [("weight", .int 1), ("evidence", .arr []),
    ("created_at", .str "2024-01-01T00:00:00.000000Z")]
  kind_agrees := by decide +kernel
  payload_json := by decide +kernel
  payload_keyed := by decide +kernel

/-- A page that brings the function and the relation. -/
def sampleDomainPage : SyncPage where
  items := [⟨1, sampleDomainFunction⟩, ⟨2, sampleBelongsTo⟩]
  snapshotSeq := 2
  nextAfterSeq := 2
  hasMore := false
  ordered := by decide
  continues := rfl

/-- The relation to a domain is no edge between two functions. -/
theorem sample_not_connected :
    ¬∀ (s s' : LiteStore) (d : Delivery), s.business.Connected →
      deliver (sampleConfig "local") sampleEnv (fun _ => "") s d = .ok s' →
      s'.business.Connected := by
  intro h
  have hrun : (deliver (sampleConfig "local") sampleEnv (fun _ => "") .empty
      (samplePageDelivery "p" sampleDomainPage "2024")).toOption.isSome = true := by decide +kernel
  obtain ⟨s', hs'⟩ := Except.exists_ok hrun
  have hconnected := h .empty s' _ (by decide +kernel) hs'
  have hbroken : ∀ s ∈ (deliver (sampleConfig "local") sampleEnv (fun _ => "") .empty
      (samplePageDelivery "p" sampleDomainPage "2024")).toOption, ¬s.business.Connected := by
    decide +kernel
  exact hbroken s' (by rw [hs']; rfl) hconnected

/-- The edges of the domain page are resolved. -/
theorem sample_resolved :
    ∃ s', deliver (sampleConfig "local") sampleEnv (fun _ => "") .empty
      (samplePageDelivery "p" sampleDomainPage "2024") = .ok s' ∧ s'.business.edges ≠ [] ∧
      s'.business.Resolved := by
  have hrun : (deliver (sampleConfig "local") sampleEnv (fun _ => "") .empty
      (samplePageDelivery "p" sampleDomainPage "2024")).toOption.isSome = true := by decide +kernel
  obtain ⟨s', hs'⟩ := Except.exists_ok hrun
  have hedges : ∀ s ∈ (deliver (sampleConfig "local") sampleEnv (fun _ => "") .empty
      (samplePageDelivery "p" sampleDomainPage "2024")).toOption, s.business.edges ≠ [] := by
    decide +kernel
  exact ⟨s', hs', hedges s' (by rw [hs']; rfl),
    deliver_resolved (by decide +kernel) (by decide +kernel) hs'⟩

/-- An event about the edge between the two functions. -/
def sampleCalls (change : Change) (eventId : String) (second : ℕ) (huuid : CanonicalUuid eventId)
    (hsecond : second < 60) (hjson : assertJsonValue change.payload = .ok ())
    (hkeyed : change.payload.wellKeyed = true) : SyncEvent where
  nodeType := .edge
  entityKey := ⟨.edge "ef" "eg" "CALLS", by decide +kernel, by decide +kernel⟩
  version := ⟨sampleTime second hsecond, "peer", eventId, exactString_peer, huuid⟩
  scope := sampleScope
  change := change
  kind_agrees := by decide +kernel
  payload_json := hjson
  payload_keyed := hkeyed

/-- The payload of the edge. -/
def sampleCallsPayload : Change :=
  .upsert [("weight", .int 1), ("evidence", .arr []),
    ("created_at", .str "2024-01-01T00:00:00.000000Z")]

/-- The function at the end of the edge. -/
def sampleCallee : SyncEvent :=
  sampleEvent .function "eg" "00000000-0000-4000-8000-00000000e003" 44
    [("id", .str "eg"), ("name", .str "eg")] function_ne_edge
    (by decide +kernel) (by decide +kernel) (by decide +kernel) (by decide) (by decide +kernel)
    (by decide +kernel)

/-- The function at the end of the edge is removed. -/
def sampleCalleeGone : SyncEvent where
  nodeType := .function
  entityKey := sampleCallee.entityKey
  version := ⟨sampleTime 48 (by decide), "peer", "00000000-0000-4000-8000-00000000e007",
    exactString_peer, by decide +kernel⟩
  scope := sampleScope
  change := .tombstone
  kind_agrees := sampleCallee.kind_agrees
  payload_json := rfl
  payload_keyed := by decide

/-- A page that removes the edge, puts it back and removes its target. -/
def sampleStrandingPage : SyncPage where
  items := [⟨1, sampleDomainFunction⟩, ⟨2, sampleCallee⟩,
    ⟨3, sampleCalls sampleCallsPayload "00000000-0000-4000-8000-00000000e004" 45
      (by decide +kernel) (by decide) (by decide +kernel) (by decide +kernel)⟩,
    ⟨4, sampleCalls .tombstone "00000000-0000-4000-8000-00000000e005" 46
      (by decide +kernel) (by decide) rfl (by decide)⟩,
    ⟨5, sampleCalls sampleCallsPayload "00000000-0000-4000-8000-00000000e006" 47
      (by decide +kernel) (by decide) (by decide +kernel) (by decide +kernel)⟩,
    ⟨6, sampleCalleeGone⟩]
  snapshotSeq := 6
  nextAfterSeq := 6
  hasMore := false
  ordered := by decide
  continues := rfl

example : ∃ s ∈ (deliver (sampleConfig "local") sampleEnv (fun _ => "") .empty
    (samplePageDelivery "p" sampleStrandingPage "2024")).toOption, ¬s.business.Resolved := by
  decide +kernel

end Memplex
