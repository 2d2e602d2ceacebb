import Memplex.Sync.Follow

/-!
# Last writer wins

The store that receives node events is a last-writer-wins register: at every entity it holds the
version and the record of the newest event it was offered. `Tracks` relates a store to the set of
events it has seen through such a register. It is what `Follows` says of a store that captures
nothing and sees events of nodes alone (`Follows.tracks`), so that the two runs of
`deliverAll_converges` end in registers that were offered the same set.
-/

namespace Memplex

open Lib

/-! ## What an entity holds -/

/-- A record is what an event stores: nothing for a tombstone, and for an upsert its payload as it
was normalised at some reading of the clock. -/
def SyncEvent.Stores (env : Env) (e : SyncEvent) (r : Option NodeRecord) : Prop :=
  match e.change with
  | .tombstone => r = none
  | .upsert payload => ∃ now nodeId node, e.entityKey.nodeId = some nodeId ∧
      normalise env now e.nodeType nodeId e.scope payload = .ok node ∧ r = some node

/-- A store holds at `k` what its newest event there left. -/
def Holds (env : Env) (s : LiteStore) (k : Entity) : Option SyncEvent → Prop
  | none => s.sync.stamp k = none ∧ s.business.lookup k = none
  | some e => s.sync.stamp k = some e.stamp ∧ e.Stores env (s.business.lookup k)

/-- A store has seen exactly the events of `seen`: its inbox knows them, and it holds the newest of
them at each entity. -/
structure Tracks (env : Env) (s : LiteStore) (seen : Set SyncEvent) : Prop where
  /-- The register that the store simulates. -/
  register : ∃ cur : Entity → Option SyncEvent,
    (∀ k, IsLatest SyncEvent.entity SyncEvent.version seen k (cur k)) ∧ ∀ k, Holds env s k (cur k)
  /-- The inbox has the identities of the events. -/
  inbox : ∀ i, (∃ r ∈ s.sync.inbox, r.identity = i) ↔ ∃ e ∈ seen, e.identity = i

/-- The events of the set are about nodes. -/
def NodeEvents (seen : Set SyncEvent) : Prop := ∀ e ∈ seen, e.nodeType ≠ .edge

/-- A node event has a node key. -/
theorem SyncEvent.node_shape {e : SyncEvent} (h : e.nodeType ≠ .edge) :
    ∃ nodeId, e.entityKey.shape = .node nodeId ∧ e.entityKey.nodeId = some nodeId := by
  cases hs : e.entityKey.shape with
  | node nodeId => exact ⟨nodeId, rfl, by rw [SyncEntityKey.nodeId, hs]⟩
  | edge s t r => exact absurd (e.edge_iff.mpr ⟨s, t, r, hs⟩) h

/-- The record of an entity, for a key that names a node. -/
theorem BusinessState.lookup_node {b : BusinessState} {k : Entity} {nodeId : String}
    (h : k.2.shape = .node nodeId) : b.lookup k = b.record k.1 nodeId := by
  have hid : k.2.nodeId = some nodeId := by rw [SyncEntityKey.nodeId, h]
  rw [lookup, hid, Option.bind_some]

/-- An entity without an entry has no node. -/
theorem BusinessState.lookup_none {b : BusinessState} {k : Entity} (h : b.entry k = none) :
    b.lookup k = none := by
  cases hs : k.2.shape with
  | node nodeId =>
    rw [entry_node hs, Option.map_eq_none_iff] at h
    rw [lookup_node hs, h]
  | edge source target edgeType => rw [lookup, SyncEntityKey.nodeId, hs, Option.bind_none]

/-- What a node event leaves is what it stores. -/
theorem SyncEvent.Leaves.stores {env : Env} {e : SyncEvent} {b : BusinessState}
    (h : e.Leaves env (b.entry e.entity)) (hnode : e.nodeType ≠ .edge) :
    e.Stores env (b.lookup e.entity) := by
  obtain ⟨nodeId, hs, hid⟩ := e.node_shape hnode
  have hshape : e.entity.2.shape = .node nodeId := hs
  rw [BusinessState.entry_node hshape] at h
  rw [BusinessState.lookup_node hshape]
  cases hc : e.change with
  | tombstone =>
    rw [SyncEvent.Leaves, hc] at h
    rw [SyncEvent.Stores, hc]
    exact Option.map_eq_none_iff.mp h
  | upsert payload =>
    rw [SyncEvent.Leaves, hc, hs] at h
    rw [SyncEvent.Stores, hc]
    obtain ⟨now, node, hnorm, hrecord⟩ := h
    obtain ⟨r, hr, hsame⟩ := Option.map_eq_some_iff.mp hrecord
    exact ⟨now, nodeId, node, hid, hnorm, EntityRecord.node.inj hsame ▸ hr⟩

/-- A store that follows node events, and has captured none, tracks them. -/
theorem Follows.tracks {env : Env} {s : LiteStore} {seen : Set SyncEvent}
    (h : Follows True env s ∅ seen) (hnode : NodeEvents seen) : Tracks env s seen where
  register := by
    obtain ⟨cur, hlatest, hholds⟩ := h.register
    refine ⟨cur, hlatest, fun k => ?_⟩
    obtain ⟨hstamp, hleft⟩ := hholds k
    have hnewest := hlatest k
    cases hc : cur k with
    | none =>
      rw [hc] at hstamp hleft
      exact ⟨hstamp, BusinessState.lookup_none (hleft trivial)⟩
    | some e =>
      rw [hc] at hstamp hleft hnewest
      obtain ⟨hseen, rfl, -⟩ := hnewest
      exact ⟨hstamp, (hleft trivial).stores (hnode e hseen)⟩
  inbox i := by
    constructor
    · rintro ⟨r, hr, rfl⟩
      exact h.inbox _ (List.mem_map_of_mem hr)
    · rintro ⟨e, he, rfl⟩
      rcases h.known e he with hown | hin
      · exact absurd hown (Set.notMem_empty e)
      · exact List.mem_map.mp hin

/-! ## Convergence -/

/-- An event whose record takes no time from the clock. -/
def SyncEvent.Timed (e : SyncEvent) : Prop :=
  match e.change with
  | .tombstone => True
  | .upsert payload => e.nodeType ≠ .function ∨ (payload.getD "created_at" .null).truthy = true

/-- Two records that one event stores differ in the times that the clock filled in, at most. -/
theorem SyncEvent.Stores.agree {env : Env} {e : SyncEvent} {r r' : Option NodeRecord}
    (h : e.Stores env r) (h' : e.Stores env r') :
    r.map NodeRecord.withoutTimes = r'.map NodeRecord.withoutTimes ∧ (e.Timed → r = r') := by
  cases hc : e.change with
  | tombstone =>
    simp only [SyncEvent.Stores, hc] at h h'
    rw [h, h']
    exact ⟨rfl, fun _ => rfl⟩
  | upsert payload =>
    simp only [SyncEvent.Stores, hc] at h h'
    obtain ⟨now, nodeId, node, hnid, hnorm, rfl⟩ := h
    obtain ⟨now', nodeId', node', hnid', hnorm', rfl⟩ := h'
    cases Option.some.inj (hnid.symm.trans hnid')
    obtain ⟨hsame, htimed⟩ := normalise_clock hnorm hnorm'
    refine ⟨congrArg some hsame, fun ht => congrArg some (htimed ?_)⟩
    simpa only [SyncEvent.Timed, hc] using ht

/-- A store that was empty tracks in the end what it was offered. -/
theorem deliverAll_empty {cfg : SyncConfig} {env : Env} {sha256 : ByteArray → String}
    {ds : List Delivery} {s : LiteStore} {events : List SyncEvent}
    (hoffered : ∀ e, e ∈ offered cfg env sha256 .empty ds ↔ e ∈ events)
    (hnode : NodeEvents {e | e ∈ events}) (hid : Identified {e | e ∈ events})
    (hsha : CollisionFree sha256 (Delivery.batches ds))
    (hrun : deliverAll cfg env sha256 .empty ds = .ok s) : Tracks env s {e | e ∈ events} := by
  have hset : {e | e ∈ offered cfg env sha256 .empty ds} = {e | e ∈ events} := Set.ext hoffered
  have hrem : Remembers sha256 .empty ∅ (Delivery.batches ds) := fun row hrow => by
    simp [LiteStore.empty, SyncState.empty] at hrow
  have h := deliverAll_follows (follows_empty True env) hrem hsha subset_rfl
    (by rwa [hset, Set.empty_union]) hrun
  rw [hset, Set.empty_union] at h
  exact h.tracks hnode

/-- Last writer wins: two runs on an empty store that are offered the same node events, in any
order, grouping and repetition, end with the same version, tombstone flag and event id of every
entity, and with the record of its newest event. The records are the same but for the times that a
function without a creation time takes from the clock. -/
theorem deliverAll_converges {cfg cfg' : SyncConfig} {env : Env} {sha256 : ByteArray → String}
    {ds ds' : List Delivery} {s s' : LiteStore} {events : List SyncEvent}
    (hnode : NodeEvents {e | e ∈ events}) (hid : Identified {e | e ∈ events})
    (hoffered : ∀ e, e ∈ offered cfg env sha256 .empty ds ↔ e ∈ events)
    (hoffered' : ∀ e, e ∈ offered cfg' env sha256 .empty ds' ↔ e ∈ events)
    (hsha : CollisionFree sha256 (Delivery.batches ds))
    (hsha' : CollisionFree sha256 (Delivery.batches ds'))
    (hrun : deliverAll cfg env sha256 .empty ds = .ok s)
    (hrun' : deliverAll cfg' env sha256 .empty ds' = .ok s') (k : Entity) :
    s.sync.stamp k = s'.sync.stamp k ∧
      (∃ cur, IsLatest SyncEvent.entity SyncEvent.version {e | e ∈ events} k cur ∧
        Holds env s k cur ∧ Holds env s' k cur) ∧
      (s.business.lookup k).map NodeRecord.withoutTimes =
        (s'.business.lookup k).map NodeRecord.withoutTimes ∧
      ((∀ e ∈ events, e.entity = k → e.Timed) → s.business.lookup k = s'.business.lookup k) := by
  obtain ⟨cur, hlatest, hholds⟩ := (deliverAll_empty hoffered hnode hid hsha hrun).register
  obtain ⟨cur', hlatest', hholds'⟩ := (deliverAll_empty hoffered' hnode hid hsha' hrun').register
  -- The newest event of the set is one event, so that both stores hold it.
  have hcur : cur' k = cur k := (hlatest' k).unique hid.versionsDetermine (hlatest k)
  have h := hholds k
  have h' := hholds' k
  rw [hcur] at h'
  have hnewest := hlatest k
  cases hc : cur k with
  | none =>
    rw [hc] at h h' hnewest
    exact ⟨h.1.trans h'.1.symm, ⟨none, hnewest, h, h'⟩, by rw [h.2, h'.2],
      fun _ => h.2.trans h'.2.symm⟩
  | some e =>
    rw [hc] at h h' hnewest
    obtain ⟨hsame, htimed⟩ := h.2.agree h'.2
    exact ⟨h.1.trans h'.1.symm, ⟨some e, hnewest, h, h'⟩, hsame,
      fun ht => htimed (ht e hnewest.1 hnewest.2.1)⟩

/-! ## Sample runs -/

/-- A second of the first minute of 2024. -/
def sampleTime (second : ℕ) (h : second < 60) : Timestamp :=
  ⟨2024, 1, 1, 0, 0, second, 0, by decide, by decide, by decide, by decide, by decide, by decide,
    by decide, by decide, h, by decide⟩

/-- A scope that only a user sees. -/
def sampleScope : SyncScope :=
  ⟨"t", "u", none, .user, none, none, by decide, by decide, by decide, by decide, by decide,
    by decide, by decide⟩

/-- The text functions on plain lower-case names; no time is parsed. -/
def sampleEnv : Env := ⟨fun s => s, fun s => s, fun _ => none⟩

/-- A repository with the default limits. -/
def sampleConfig (localNodeId : String) : SyncConfig :=
  ⟨true, localNodeId, 100000, 8, 900, 1000000, 2, 1, 86400, 86400⟩

/-- An event of the node `peer` about a node, with the id alone as its payload. -/
def sampleEvent (nodeType : SyncNodeType) (nodeId eventId : String) (second : ℕ) (payload : Members)
    (hnode : nodeType ≠ .edge) (hids : (EntityShape.node nodeId).Ids)
    (hsize : (EntityShape.node nodeId).text.length ≤ maxEntityKeyBytes)
    (huuid : CanonicalUuid eventId) (hsecond : second < 60)
    (hjson : assertJsonValue (.obj payload) = .ok ())
    (hkeyed : (Json.obj payload : Value).wellKeyed = true) : SyncEvent where
  nodeType := nodeType
  entityKey := ⟨.node nodeId, hids, hsize⟩
  version := ⟨sampleTime second hsecond, "peer", eventId, by decide, huuid⟩
  scope := sampleScope
  change := .upsert payload
  kind_agrees := ⟨fun h => absurd h hnode, fun h => absurd h (by
    simp [SyncEntityKey.isEdge, SyncEntityKey.edgeParts])⟩
  payload_json := hjson
  payload_keyed := hkeyed

/-- The fact `a`. -/
def sampleFactA : SyncEvent :=
  sampleEvent .fact "a" "00000000-0000-4000-8000-000000000001" 0 [("id", .str "a")] (by decide)
    (by decide +kernel) (by decide +kernel) (by decide +kernel) (by decide) (by decide +kernel)
    (by decide +kernel)

/-- The fact `b`, under the event id of `sampleFactA`. -/
def sampleFactB : SyncEvent :=
  sampleEvent .fact "b" "00000000-0000-4000-8000-000000000001" 1 [("id", .str "b")] (by decide)
    (by decide +kernel) (by decide +kernel) (by decide +kernel) (by decide) (by decide +kernel)
    (by decide +kernel)

/-- A function without a creation time. -/
def sampleFunction : SyncEvent :=
  sampleEvent .function "f" "00000000-0000-4000-8000-000000000002" 2
    [("id", .str "f"), ("name", .str "f")] (by decide)
    (by decide +kernel) (by decide +kernel) (by decide +kernel) (by decide) (by decide +kernel)
    (by decide +kernel)

/-- A page of one event at the front of a stream. -/
def samplePage (event : SyncEvent) : SyncPage where
  items := [⟨1, event⟩]
  snapshotSeq := 1
  nextAfterSeq := 1
  hasMore := false
  ordered := ⟨⟨Nat.one_pos, le_rfl⟩, trivial⟩
  continues := rfl

/-- A page without events, at the same place in the stream. -/
def sampleEmptyPage : SyncPage where
  items := []
  snapshotSeq := 1
  nextAfterSeq := 1
  hasMore := false
  ordered := trivial
  continues := rfl

/-- The delivery of a page of a peer, while the clock stands at `now`. -/
def samplePageDelivery (remoteId : String) (p : SyncPage) (now : String) : Delivery :=
  ⟨.page remoteId p, 0, fun _ => now⟩

/-- The run of a repository on an empty store, up to an entity: its stamp and its record there. -/
def sampleOutcome (ds : List Delivery) (k : Entity) :
    Option (Option (SyncVersion × Bool × String) × Option NodeRecord) :=
  match deliverAll (sampleConfig "local") sampleEnv (fun _ => "") .empty ds with
  | .ok s => some (s.sync.stamp k, s.business.lookup k)
  | .error _ => none

/-- The events of deliveries. -/
def deliveredEvents (ds : List Delivery) : List SyncEvent := ds.flatMap Delivery.events

/-- Two runs that deliver the same node events, with one payload at most for each version of an
entity, and end without error, but differ at an entity. -/
def Diverges (ds ds' : List Delivery) (k : Entity) : Prop :=
  ((∀ e ∈ deliveredEvents ds, e ∈ deliveredEvents ds') ∧
      ∀ e ∈ deliveredEvents ds', e ∈ deliveredEvents ds) ∧
    (∀ e ∈ deliveredEvents ds, e.nodeType ≠ .edge) ∧
    (∀ e ∈ deliveredEvents ds, ∀ e' ∈ deliveredEvents ds,
      e.entity = e'.entity → e.version = e'.version → e = e') ∧
    (sampleOutcome ds k).isSome ∧ (sampleOutcome ds' k).isSome ∧
    sampleOutcome ds k ≠ sampleOutcome ds' k

instance (ds ds' : List Delivery) (k : Entity) : Decidable (Diverges ds ds' k) := by
  unfold Diverges; infer_instance

/-- Three ways for runs to diverge: two events under one identity, of which the second is taken for
a repetition of the first; a page at a position that is confirmed already; and a function without a
creation time at two readings of the clock. -/
theorem runs_diverge :
    Diverges
      [samplePageDelivery "p" (samplePage sampleFactA) "",
        samplePageDelivery "q" (samplePage sampleFactB) ""]
      [samplePageDelivery "q" (samplePage sampleFactB) "",
        samplePageDelivery "p" (samplePage sampleFactA) ""]
      sampleFactA.entity ∧
    Diverges
      [samplePageDelivery "p" (samplePage sampleFactA) "",
        samplePageDelivery "p" sampleEmptyPage ""]
      [samplePageDelivery "p" sampleEmptyPage "",
        samplePageDelivery "p" (samplePage sampleFactA) ""]
      sampleFactA.entity ∧
    Diverges [samplePageDelivery "p" (samplePage sampleFunction) "2024"]
      [samplePageDelivery "p" (samplePage sampleFunction) "2025"] sampleFunction.entity := by
  decide +kernel

/-- Pages that bring a fact and a function, in this order. -/
def sampleRun : List Delivery :=
  [samplePageDelivery "p" (samplePage sampleFactA) "2024",
    samplePageDelivery "q" (samplePage sampleFunction) "2024"]

/-- The pages of `sampleRun` the other way round and later, the last one twice. -/
def sampleRerun : List Delivery :=
  [samplePageDelivery "q" (samplePage sampleFunction) "2025",
    samplePageDelivery "p" (samplePage sampleFactA) "2025",
    samplePageDelivery "p" (samplePage sampleFactA) "2026"]

/-- Pages are no batches, so that no two digests collide. -/
theorem collisionFree_of_pages {sha256 : ByteArray → String} {ds : List Delivery}
    (h : ∀ d ∈ ds, ∃ remoteId p, d.content = .page remoteId p) :
    CollisionFree sha256 (Delivery.batches ds) := by
  rintro b ⟨d, hd, hb⟩
  obtain ⟨remoteId, p, hp⟩ := h d hd
  exact absurd (hb.symm.trans hp) (by simp)

theorem sampleRun_converges :
    ∃ s s', deliverAll (sampleConfig "x") sampleEnv (fun _ => "") .empty sampleRun = .ok s ∧
      deliverAll (sampleConfig "y") sampleEnv (fun _ => "") .empty sampleRerun = .ok s' ∧
      s.sync.stamp sampleFunction.entity = s'.sync.stamp sampleFunction.entity := by
  have hrun : (deliverAll (sampleConfig "x") sampleEnv (fun _ => "") .empty
      sampleRun).toOption.isSome = true := by decide +kernel
  have hrun' : (deliverAll (sampleConfig "y") sampleEnv (fun _ => "") .empty
      sampleRerun).toOption.isSome = true := by decide +kernel
  obtain ⟨s, hs⟩ := Except.exists_ok hrun
  obtain ⟨s', hs'⟩ := Except.exists_ok hrun'
  have hnode : ∀ e ∈ [sampleFactA, sampleFunction], e.nodeType ≠ .edge := by decide +kernel
  have hid : ∀ e ∈ [sampleFactA, sampleFunction], ∀ e' ∈ [sampleFactA, sampleFunction],
      e.identity = e'.identity → e = e' := by decide +kernel
  have hoffered : offered (sampleConfig "x") sampleEnv (fun _ => "") .empty sampleRun =
      [sampleFactA, sampleFunction] := by decide +kernel
  have hoffered' : offered (sampleConfig "y") sampleEnv (fun _ => "") .empty sampleRerun =
      [sampleFunction, sampleFactA] := by decide +kernel
  have hpages : ∀ d ∈ sampleRun, ∃ remoteId p, d.content = .page remoteId p := by
    simp [sampleRun, samplePageDelivery]
  have hpages' : ∀ d ∈ sampleRerun, ∃ remoteId p, d.content = .page remoteId p := by
    simp [sampleRerun, samplePageDelivery]
  refine ⟨s, s', hs, hs', (deliverAll_converges hnode hid (fun e => ?_) (fun e => ?_)
    (collisionFree_of_pages hpages) (collisionFree_of_pages hpages') hs hs' _).1⟩
  · rw [hoffered]
  · rw [hoffered']
    exact (List.Perm.swap _ _ []).mem_iff

end Memplex
