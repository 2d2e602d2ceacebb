import Memplex.Sync.Snapshots

/-!
# Versions under skewed clocks

Peers that edit entities of their own and take what the others send. A peer makes the version of an
edit from its own clock, and only the path of deliveries compares versions: an edit behind the
version that its entity holds already moves the entity back, and whoever holds that version rejects
the edit. `Ordered` says of a run that no edit is behind, and `versions_rise_iff` that this decides
whether the versions of a run only rise, edits overtake what their peer has seen, and peers that
have seen the same events agree.
-/

namespace Memplex

open Lib

/-! ## Peers -/

/-- A change of one entity, as `capture_node` and `capture_edge` are given it. -/
structure LocalChange where
  nodeType : SyncNodeType
  entityKey : SyncEntityKey
  scope : SyncScope
  change : Change
  kind_agrees : (nodeType = .edge) ↔ entityKey.isEdge = true
  payload_json : assertJsonValue change.payload = .ok ()
  payload_keyed : change.payload.wellKeyed = true

/-- The event that `capture_node` and `capture_edge` make of a change, at a version. -/
def LocalChange.event (c : LocalChange) (version : SyncVersion) : SyncEvent where
  nodeType := c.nodeType
  entityKey := c.entityKey
  version := version
  scope := c.scope
  change := c.change
  kind_agrees := c.kind_agrees
  payload_json := c.payload_json
  payload_keyed := c.payload_keyed

/-- What happens at a peer: an edit, with the reading of its clock and a fresh id, or a delivery. -/
inductive PeerTurn where
  | edit (business : BusinessState) (change : LocalChange) (clock : Timestamp) (eventId : String)
      (event_valid : CanonicalUuid eventId)
  | deliver (d : Delivery)

/-- Peers that capture what is edited there. -/
structure PeerNet (ι : Type*) where
  cfg : ι → SyncConfig
  env : Env
  sha256 : ByteArray → String
  captures : ∀ i, (cfg i).captureRequired = true
  named : ∀ i, ExactString (cfg i).localNodeId

/-- A peer: its store, the events it has seen, and those of them that it has captured itself. -/
structure Peer where
  store : LiteStore
  own : Set SyncEvent
  seen : Set SyncEvent

/-- The events that a peer captures. -/
def Arrival.captured : Arrival → Set SyncEvent
  | .capture _ e => {e}
  | .deliver _ => ∅

/-- The events that a store sees. -/
def Arrival.brings (cfg : SyncConfig) (s : LiteStore) : Arrival → Set SyncEvent
  | .capture _ e => {e}
  | .deliver d => {e | e ∈ d.offers cfg s}

/-- The events of an arrival. -/
def Arrival.events : Arrival → List SyncEvent
  | .capture _ e => [e]
  | .deliver d => d.events

/-- The batches among what arrives. -/
def Arrival.batches : Arrival → Set SyncBatch
  | .capture _ _ => ∅
  | .deliver d => {b | d.content = .batch b}

namespace PeerNet

variable {ι : Type*} (net : PeerNet ι)

/-- What arrives at a peer by a turn. The version of an edit is made of the reading of the local
clock, the local node and the fresh id. -/
def arrival (i : ι) : PeerTurn → Arrival
  | .edit business change clock eventId valid => .capture business
      (change.event ⟨clock, (net.cfg i).localNodeId, eventId, net.named i, valid⟩)
  | .deliver d => .deliver d

/-- The store after an arrival, unless it raises. -/
def taken (i : ι) (p : Peer) (a : Arrival) : Except PyError LiteStore :=
  a.op.apply (net.cfg i) net.env net.sha256 p.store

/-- A peer after an arrival. -/
def take (i : ι) (p : Peer) (a : Arrival) : Peer :=
  match net.taken i p a with
  | .ok store => ⟨store, p.own ∪ a.captured, p.seen ∪ a.brings (net.cfg i) p.store⟩
  | .error _ => p

variable [DecidableEq ι]

/-- The peers after a turn of one of them. -/
def turn (peers : ι → Peer) (t : ι × PeerTurn) : ι → Peer :=
  Function.update peers t.1 (net.take t.1 (peers t.1) (net.arrival t.1 t.2))

/-- A run: turns in any order. -/
def run (peers : ι → Peer) (ts : List (ι × PeerTurn)) : ι → Peer := ts.foldl net.turn peers

/-- The beginning: nothing was written anywhere. -/
def start (_ : ι) : Peer := ⟨.empty, ∅, ∅⟩

/-- A condition holds at every turn of a run. -/
def Along (P : (ι → Peer) → ι → Arrival → Prop) (peers : ι → Peer) :
    List (ι × PeerTurn) → Prop
  | [] => True
  | t :: ts => P peers t.1 (net.arrival t.1 t.2) ∧ Along P (net.turn peers t) ts

omit [DecidableEq ι] in
/-- The events of a run. -/
def events (ts : List (ι × PeerTurn)) : Set SyncEvent :=
  {e | ∃ t ∈ ts, e ∈ (net.arrival t.1 t.2).events}

omit [DecidableEq ι] in
/-- The batches of a run. -/
def batches (ts : List (ι × PeerTurn)) : Set SyncBatch :=
  {b | ∃ t ∈ ts, b ∈ (net.arrival t.1 t.2).batches}

end PeerNet

/-! ## What is asked of a run -/

/-- No version is lower than it was. -/
def Rises (s s' : SyncState) : Prop :=
  ∀ k row, s.entityVersions.get? k = some row →
    ∃ row', s'.entityVersions.get? k = some row' ∧ row.version ≤ row'.version

/-- Where an event is the latest of its entity, a later one that is new takes its place. -/
def Overtakes (env : Env) (e r : SyncEvent) : Prop :=
  ∀ cfg clock (st st' : ApplyState) row, st.store.sync.entityVersions.get? e.entity = some row →
    row.version = r.version → e.identity ∉ st.store.sync.identities →
    st.applyEvent cfg env clock e = .ok st' →
    st'.store.sync.stamp e.entity = some e.stamp ∧ e.Leaves env (st'.store.business.entry e.entity)

namespace PeerNet

variable {ι : Type*} [DecidableEq ι] (net : PeerNet ι)

/-- An event is captured. -/
def Captures (peers : ι → Peer) (i : ι) (a : Arrival) (business : BusinessState) (e : SyncEvent) :
    Prop :=
  a = .capture business e ∧ (net.taken i (peers i) a).toOption.isSome = true

/-- The version that a captured event is given is not lower than that which its entity has. -/
def Ordered (peers : ι → Peer) (i : ι) (a : Arrival) : Prop :=
  ∀ business e, net.Captures peers i a business e →
    ∀ row, (peers i).store.sync.entityVersions.get? e.entity = some row → row.version ≤ e.version

/-- What is stored with a captured event is what the event leaves where it is applied. -/
def Faithful (peers : ι → Peer) (i : ι) (a : Arrival) : Prop :=
  ∀ business e, net.Captures peers i a business e →
    e.Leaves net.env (business.entry e.entity) ∧
      ∀ k, e.entity ≠ k → business.entry k = (peers i).store.business.entry k

/-- No version becomes lower at any peer. -/
def Rising (peers : ι → Peer) (i : ι) (a : Arrival) : Prop :=
  ∀ j, Rises (peers j).store.sync
    (Function.update peers i (net.take i (peers i) a) j).store.sync

/-- A captured event is not discarded where an event is held that its peer had seen before. -/
def Heard (peers : ι → Peer) (i : ι) (a : Arrival) : Prop :=
  ∀ business e, net.Captures peers i a business e →
    ∀ r ∈ (peers i).seen, r.entity = e.entity → r ≠ e → Overtakes net.env e r

omit [DecidableEq ι] in
/-- Peers that have seen the same events hold the same versions. -/
def SameVersions (peers : ι → Peer) : Prop :=
  ∀ i j, (peers i).seen = (peers j).seen →
    ∀ k, (peers i).store.sync.stamp k = (peers j).store.sync.stamp k

omit [DecidableEq ι] in
/-- Peers that have seen the same events hold the same records, but for the times that a function
without a creation time takes from the clock. -/
def SameRecords (peers : ι → Peer) : Prop :=
  ∀ i j, (peers i).seen = (peers j).seen →
    ∀ k, ((peers i).store.business.entry k).map EntityRecord.withoutTimes =
        ((peers j).store.business.entry k).map EntityRecord.withoutTimes ∧
      ((∀ e ∈ (peers i).seen, e.entity = k → e.Timed) →
        (peers i).store.business.entry k = (peers j).store.business.entry k)

end PeerNet

/-! ## Versions that rise -/

namespace Rises

theorem of_eq {s s' : SyncState} (h : s'.entityVersions = s.entityVersions) : Rises s s' :=
  fun k row hrow => ⟨row, by rwa [h], le_rfl⟩

theorem trans {s s₁ s' : SyncState} (h : Rises s s₁) (h' : Rises s₁ s') : Rises s s' := by
  intro k row hrow
  obtain ⟨row₁, hrow₁, hle⟩ := h k row hrow
  obtain ⟨row', hrow', hle'⟩ := h' k row₁ hrow₁
  exact ⟨row', hrow', hle.trans hle'⟩

/-- An append lowers no version exactly if its event is not behind its entity. -/
theorem appended_iff {s s' : SyncState} {e : SyncEvent}
    (hversions : s'.entityVersions = (s.appended e).entityVersions) :
    Rises s s' ↔ ∀ row, s.entityVersions.get? e.entity = some row → row.version ≤ e.version := by
  have hkey : (SyncState.versionRow e s.nextStreamSeq).entity = e.entity := rfl
  have hget : ∀ k, s'.entityVersions.get? k = if e.entity = k then
      some (SyncState.versionRow e s.nextStreamSeq) else s.entityVersions.get? k := by
    intro k
    rw [hversions, SyncState.appended, Table.get?_set, hkey]
  constructor
  · intro h row hrow
    obtain ⟨row', hrow', hle⟩ := h e.entity row hrow
    rw [hget, if_pos rfl] at hrow'
    cases Option.some.inj hrow'
    exact hle
  · intro h k row hrow
    by_cases hk : e.entity = k
    · subst hk
      exact ⟨_, (hget _).trans (if_pos rfl), h row hrow⟩
    · exact ⟨row, ((hget k).trans (if_neg hk)).trans hrow, le_rfl⟩

end Rises

section Applying

variable {cfg : SyncConfig} {env : Env} {clock : SyncEvent → String} {st st' : ApplyState}
  {e : SyncEvent}

/-- What is accepted is appended, and leaves its record. -/
theorem accept_ok {now : String} (h : st.accept cfg env now e = .ok st') :
    st'.store.sync.entityVersions = (st.store.sync.appended e).entityVersions ∧
      e.Leaves env (st'.store.business.entry e.entity) := by
  obtain ⟨⟨b', ts'⟩, hbusiness, h⟩ := Except.bind_ok.mp h
  obtain ⟨⟨sync', seq⟩, happend, heq⟩ := Except.bind_ok.mp h
  cases Except.ok.inj heq
  obtain ⟨rfl, -, -, -⟩ := SyncState.appendEvent_ok happend
  exact ⟨rfl, (applyBusinessEvent_leaves hbusiness).1⟩

/-- The step: one round of the loop over a delivery. -/
theorem applyEvent_rises (h : st.applyEvent cfg env clock e = .ok st') :
    Rises st.store.sync st'.store.sync := by
  unfold ApplyState.applyEvent at h
  split at h
  · cases Except.ok.inj h
    exact .of_eq rfl
  · split at h
    next current hcur =>
      split_ifs at h with hle
      · cases Except.ok.inj h
        exact .of_eq rfl
      · refine (Rises.appended_iff (accept_ok h).1).mpr fun row hrow => ?_
        cases Option.some.inj (hcur.symm.trans hrow)
        exact (not_le.mp hle).le
    next hnone =>
      refine (Rises.appended_iff (accept_ok h).1).mpr fun row hrow => ?_
      exact absurd (hnone.symm.trans hrow) (by simp)

/-- The run over the events of one delivery. -/
theorem foldlM_rises (events : List SyncEvent)
    (h : events.foldlM (ApplyState.applyEvent cfg env clock) st = .ok st') :
    Rises st.store.sync st'.store.sync := by
  induction events generalizing st with
  | nil =>
    cases Except.ok.inj h
    exact .of_eq rfl
  | cons e events ih =>
    rw [List.foldlM_cons] at h
    obtain ⟨st₁, hstep, hrest⟩ := Except.bind_ok.mp h
    exact (applyEvent_rises hstep).trans (ih hrest)

/-- A new event that is above its entity takes its place. -/
theorem applyEvent_overtakes {row : VersionRow}
    (hrow : st.store.sync.entityVersions.get? e.entity = some row)
    (hlt : row.version < e.version) (hnew : e.identity ∉ st.store.sync.identities)
    (h : st.applyEvent cfg env clock e = .ok st') :
    st'.store.sync.stamp e.entity = some e.stamp ∧
      e.Leaves env (st'.store.business.entry e.entity) := by
  unfold ApplyState.applyEvent at h
  split at h
  next known hknown =>
    obtain ⟨hmem, hident⟩ := findRow_some hknown
    exact absurd (hident ▸ List.mem_map_of_mem hmem) hnew
  next =>
    rw [hrow] at h
    simp only [if_neg (not_le.mpr hlt)] at h
    obtain ⟨hversions, hleaves⟩ := accept_ok h
    have hstamp := SyncState.stamp_appended st.store.sync e e.entity
    rw [if_pos rfl] at hstamp
    refine ⟨?_, hleaves⟩
    rw [← hstamp, SyncState.stamp, SyncState.stamp, hversions]

/-- A delivery lowers no version. -/
theorem deliver_rises {sha256 : ByteArray → String} {s s' : LiteStore} {d : Delivery}
    (h : deliver cfg env sha256 s d = .ok s') : Rises s.sync s'.sync := by
  obtain ⟨content, now, clock⟩ := d
  cases content with
  | batch b =>
    obtain ⟨⟨s₁, result⟩, happly, rfl⟩ := Except.map_ok h
    obtain ⟨sync, hbind, hrest⟩ := Except.bind_ok.mp happly
    obtain ⟨rfl, -⟩ := SyncState.bindTenant_ok hbind
    split at hrest
    · obtain ⟨_, -, heq⟩ := Except.bind_ok.mp hrest
      cases Except.ok.inj heq
      exact .of_eq rfl
    · obtain ⟨st, hrun, heq⟩ := Except.bind_ok.mp hrest
      cases Except.ok.inj heq
      exact foldlM_rises b.events hrun
  | page remoteId p =>
    obtain ⟨⟨s₁, result⟩, happly, rfl⟩ := Except.map_ok h
    obtain ⟨_, -, hrun⟩ := Except.bind_ok.mp happly
    obtain ⟨_, -, hrun⟩ := Except.bind_ok.mp hrun
    obtain ⟨events, -, hrun⟩ := Except.bind_ok.mp hrun
    obtain ⟨sync, hbind, hrun⟩ := Except.bind_ok.mp hrun
    obtain ⟨tenant, rfl⟩ := bindPageTenant_congr hbind
    obtain ⟨_, -, hrun⟩ := Except.bind_ok.mp hrun
    obtain ⟨_, -, hrun⟩ := Except.bind_ok.mp hrun
    split_ifs at hrun
    · cases Except.ok.inj hrun
      exact .of_eq rfl
    · obtain ⟨st, hevents, heq⟩ := Except.bind_ok.mp hrun
      cases Except.ok.inj heq
      exact foldlM_rises events hevents

end Applying

namespace PeerNet

variable {ι : Type*} (net : PeerNet ι)

/-- A peer after an arrival that does not raise. -/
theorem take_ok {i : ι} {p : Peer} {a : Arrival} {store : LiteStore}
    (h : net.taken i p a = .ok store) :
    net.take i p a = ⟨store, p.own ∪ a.captured, p.seen ∪ a.brings (net.cfg i) p.store⟩ := by
  rw [take, h]

/-- A captured event is appended. -/
theorem captures_ok {peers : ι → Peer} {i : ι} {a : Arrival} {business : BusinessState}
    {e : SyncEvent} (h : net.Captures peers i a business e) :
    ∃ sync, (peers i).store.sync.captureLocalEvent (net.cfg i) e = .ok sync ∧
      sync.entityVersions = ((peers i).store.sync.appended e).entityVersions ∧
      net.take i (peers i) a =
        ⟨⟨business, sync⟩, (peers i).own ∪ {e}, (peers i).seen ∪ {e}⟩ := by
  obtain ⟨rfl, hok⟩ := h
  obtain ⟨store, hstore⟩ := Except.exists_ok hok
  obtain ⟨sync, hsync, rfl⟩ := Except.map_ok hstore
  refine ⟨sync, hsync, ?_, net.take_ok hstore⟩
  rw [SyncState.captureLocalEvent_ok (net.captures i) hsync]

variable [DecidableEq ι]

/-- The step: a turn lowers no version exactly if its edit is not behind. -/
theorem rising_iff (peers : ι → Peer) (i : ι) (a : Arrival) :
    net.Rising peers i a ↔ net.Ordered peers i a := by
  constructor
  · intro h business e hcap
    obtain ⟨sync, -, hversions, htake⟩ := net.captures_ok hcap
    have hrise := h i
    rw [Function.update_self, htake] at hrise
    exact (Rises.appended_iff hversions).mp hrise
  · intro h j
    by_cases hj : j = i
    · subst hj
      rw [Function.update_self]
      cases htaken : net.taken j (peers j) a with
      | error err =>
        rw [take, htaken]
        exact .of_eq rfl
      | ok store =>
        rw [net.take_ok htaken]
        cases a with
        | deliver d => exact deliver_rises htaken
        | capture business e =>
          have hcap : net.Captures peers j (.capture business e) business e :=
            ⟨rfl, by rw [htaken]; rfl⟩
          obtain ⟨sync, -, hversions, htake⟩ := net.captures_ok hcap
          rw [net.take_ok htaken] at htake
          cases (Peer.mk.inj htake).1
          exact (Rises.appended_iff hversions).mpr (h business e hcap)
    · rw [Function.update_of_ne hj]
      exact .of_eq rfl

/-! ## Conditions along a run -/

variable {net} {P Q : (ι → Peer) → ι → Arrival → Prop} {peers : ι → Peer}
  {ts : List (ι × PeerTurn)}

theorem Along.and (h : net.Along P peers ts) (h' : net.Along Q peers ts) :
    net.Along (fun peers i a => P peers i a ∧ Q peers i a) peers ts := by
  induction ts generalizing peers with
  | nil => trivial
  | cons t ts ih => exact ⟨⟨h.1, h'.1⟩, ih h.2 h'.2⟩

/-- Run rule: an invariant that every turn keeps under a condition, and under which the turn has a
further property. -/
theorem Along.run {I : (ι → Peer) → Prop}
    (hstep : ∀ peers, ∀ t ∈ ts, I peers → P peers t.1 (net.arrival t.1 t.2) →
      I (net.turn peers t) ∧ Q peers t.1 (net.arrival t.1 t.2))
    (h : net.Along P peers ts) (hinv : I peers) :
    I (net.run peers ts) ∧ net.Along Q peers ts := by
  induction ts generalizing peers with
  | nil => exact ⟨hinv, trivial⟩
  | cons t ts ih =>
    obtain ⟨hinv', hq⟩ := hstep peers t (List.mem_cons_self ..) hinv h.1
    obtain ⟨hend, hrest⟩ := ih (fun peers t ht => hstep peers t (List.mem_cons_of_mem _ ht)) h.2 hinv'
    exact ⟨hend, hq, hrest⟩

theorem Along.imp (h : net.Along P peers ts) (himp : ∀ peers i a, P peers i a → Q peers i a) :
    net.Along Q peers ts :=
  (h.run (I := fun _ => True) (fun peers t _ _ hp => ⟨trivial, himp peers t.1 _ hp⟩) trivial).2

end PeerNet

/-! ## What peers have seen -/

/-- What an event leaves at two readings of the clock. -/
theorem SyncEvent.Leaves.agree {env : Env} {e : SyncEvent} {r r' : Option EntityRecord}
    (h : e.Leaves env r) (h' : e.Leaves env r') :
    r.map EntityRecord.withoutTimes = r'.map EntityRecord.withoutTimes ∧ (e.Timed → r = r') := by
  cases hc : e.change with
  | tombstone =>
    rw [SyncEvent.Leaves, hc] at h h'
    rw [h, h']
    exact ⟨rfl, fun _ => rfl⟩
  | upsert payload =>
    cases hs : e.entityKey.shape with
    | node nodeId =>
      rw [SyncEvent.Leaves, hc, hs] at h h'
      obtain ⟨now, node, hnorm, rfl⟩ := h
      obtain ⟨now', node', hnorm', rfl⟩ := h'
      obtain ⟨hsame, htimed⟩ := normalise_clock hnorm hnorm'
      refine ⟨congrArg (fun r => some (EntityRecord.node r)) hsame, fun ht => ?_⟩
      rw [SyncEvent.Timed, hc] at ht
      rw [htimed ht]
    | edge source target edgeType =>
      rw [SyncEvent.Leaves, hc, hs] at h h'
      obtain ⟨weight, evidence, createdAt, hpayload, rfl⟩ := h
      obtain ⟨weight', evidence', createdAt', hpayload', rfl⟩ := h'
      cases Except.ok.inj (hpayload.symm.trans hpayload')
      exact ⟨rfl, fun _ => rfl⟩

/-- Two stores that hold the newest events of one set hold the same versions and records. -/
theorem Registers.agree {records : Prop} {env : Env} {s s' : LiteStore} {seen : Set SyncEvent}
    (h : Registers records env s seen) (h' : Registers records env s' seen)
    (hid : Identified seen) (k : Entity) :
    s.sync.stamp k = s'.sync.stamp k ∧ (records →
      (s.business.entry k).map EntityRecord.withoutTimes =
          (s'.business.entry k).map EntityRecord.withoutTimes ∧
        ((∀ e ∈ seen, e.entity = k → e.Timed) → s.business.entry k = s'.business.entry k)) := by
  obtain ⟨cur, hlatest, hholds⟩ := h
  obtain ⟨cur', hlatest', hholds'⟩ := h'
  have hcur : cur' k = cur k := (hlatest' k).unique hid.versionsDetermine (hlatest k)
  obtain ⟨hstamp, hleft⟩ := hholds k
  obtain ⟨hstamp', hleft'⟩ := hholds' k
  rw [hcur] at hstamp' hleft'
  refine ⟨hstamp.trans hstamp'.symm, fun hr => ?_⟩
  have hnewest := hlatest k
  cases hc : cur k with
  | none =>
    rw [hc] at hleft hleft'
    have hsame : s.business.entry k = s'.business.entry k := (hleft hr).trans (hleft' hr).symm
    exact ⟨congrArg _ hsame, fun _ => hsame⟩
  | some e =>
    rw [hc] at hleft hleft' hnewest
    obtain ⟨hsame, htimed⟩ := (hleft hr).agree (hleft' hr)
    exact ⟨hsame, fun ht => htimed (ht e hnewest.1 hnewest.2.1)⟩

/-- What a store follows that an event was seen at: no version there is below it. -/
theorem Registers.seen_le {records : Prop} {env : Env} {s : LiteStore} {seen : Set SyncEvent}
    (h : Registers records env s seen) {r : SyncEvent} (hr : r ∈ seen) :
    ∃ row, s.sync.entityVersions.get? r.entity = some row ∧ r.version ≤ row.version := by
  obtain ⟨cur, hlatest, hholds⟩ := h
  have hnewest := hlatest r.entity
  have hstamp := (hholds r.entity).1
  cases hc : cur r.entity with
  | none =>
    rw [hc] at hnewest
    exact absurd rfl (hnewest r hr)
  | some c =>
    rw [hc] at hnewest hstamp
    obtain ⟨row, hrow, hsame⟩ := Option.map_eq_some_iff.mp hstamp
    have hversion : row.version = c.version := congrArg Prod.fst hsame
    exact ⟨row, hrow, hversion ▸ hnewest.2.2 r hr rfl⟩

/-- A peer follows what it has seen, which is some of the events of a run. -/
structure Peer.Attends (records : Prop) (env : Env) (sha256 : ByteArray → String)
    (events : Set SyncEvent) (batches : Set SyncBatch) (p : Peer) : Prop where
  follows : Follows records env p.store p.own p.seen
  remembers : Remembers sha256 p.store p.seen batches
  among : p.seen ⊆ events

namespace PeerNet

variable {ι : Type*} {net : PeerNet ι} {records : Prop} {events : Set SyncEvent}
  {batches : Set SyncBatch}

/-- The step: a peer attends to what arrives, where an edit is not behind. -/
theorem take_attends {peers : ι → Peer} {i : ι} {a : Arrival}
    (h : (peers i).Attends records net.env net.sha256 events batches) (hid : Identified events)
    (hsha : CollisionFree net.sha256 batches) (hevents : ∀ e ∈ a.events, e ∈ events)
    (hbatches : a.batches ⊆ batches) (hordered : net.Ordered peers i a)
    (hfaithful : records → net.Faithful peers i a) :
    (net.take i (peers i) a).Attends records net.env net.sha256 events batches := by
  cases htaken : net.taken i (peers i) a with
  | error err =>
    rw [take, htaken]
    exact h
  | ok store =>
    cases a with
    | capture business e =>
      have hcap : net.Captures peers i (.capture business e) business e :=
        ⟨rfl, by rw [htaken]; rfl⟩
      obtain ⟨sync, hsync, -, htake⟩ := net.captures_ok hcap
      rw [htake, Set.union_singleton, Set.union_singleton]
      have he : e ∈ events := hevents e (List.mem_singleton_self e)
      exact {
        follows := capture_follows h.follows (net.captures i) (hordered business e hcap)
          (fun hr => hfaithful hr business e hcap) hsync
        remembers := by
          refine h.remembers.mono ?_ (Set.subset_insert _ _)
          rw [SyncState.captureLocalEvent_ok (net.captures i) hsync]
          rfl
        among := Set.insert_subset he h.among }
    | deliver d =>
      rw [net.take_ok htaken]
      have hoffers : {e | e ∈ d.offers (net.cfg i) (peers i).store} ⊆ events := by
        intro e he
        have he : e ∈ d.offers (net.cfg i) (peers i).store := he
        rw [Delivery.offers] at he
        split_ifs at he
        · exact absurd he List.not_mem_nil
        · exact hevents e he
      have hall : (peers i).seen ∪ {e | e ∈ d.offers (net.cfg i) (peers i).store} ⊆ events :=
        Set.union_subset h.among hoffers
      obtain ⟨hfollows, hremembers⟩ := deliver_follows h.follows h.remembers hsha
        (fun b hb => hbatches hb) (fun x hx y hy => hid x (hall hx) y (hall hy)) htaken
      rw [Arrival.captured, Set.union_empty]
      exact ⟨hfollows, hremembers, hall⟩

/-- An edit that is not behind overtakes what its peer has seen. -/
theorem heard_of_ordered {peers : ι → Peer} {i : ι} {a : Arrival}
    (h : (peers i).Attends records net.env net.sha256 events batches) (hid : Identified events)
    (hevents : ∀ e ∈ a.events, e ∈ events) (hordered : net.Ordered peers i a) : net.Heard peers i a := by
  intro business e hcap r hr hentity hne cfg clock st st' row hrow hversion hnew hstep
  obtain ⟨stored, hstored, hle⟩ := h.follows.register.seen_le hr
  rw [hentity] at hstored
  have hre : r.version ≤ e.version := hle.trans (hordered business e hcap stored hstored)
  have he : e ∈ events := by
    obtain ⟨rfl, -⟩ := hcap
    exact hevents e (List.mem_singleton_self e)
  -- A version names its event, so that the two versions differ.
  have hne' : r.version ≠ e.version := by
    intro hsame
    refine hne (hid r (h.among hr) e he ?_)
    simp only [SyncEvent.identity, SyncEvent.originNodeId, SyncEvent.eventId, hsame]
  refine applyEvent_overtakes hrow ?_ hnew hstep
  rw [hversion]
  exact lt_of_le_of_ne hre hne'

variable [DecidableEq ι]

/-- The run: every peer attends to what it has seen, where no edit is behind. -/
theorem run_attends (records : Prop) {ts : List (ι × PeerTurn)} (hid : Identified (net.events ts))
    (hsha : CollisionFree net.sha256 (net.batches ts)) (hordered : net.Along net.Ordered start ts)
    (hfaithful : records → net.Along net.Faithful start ts) :
    (∀ i, (net.run start ts i).Attends records net.env net.sha256 (net.events ts)
      (net.batches ts)) ∧ net.Along net.Heard start ts := by
  have halong : net.Along (fun peers i a => net.Ordered peers i a ∧
      (records → net.Faithful peers i a)) start ts := by
    by_cases hr : records
    · exact (hordered.and (hfaithful hr)).imp fun _ _ _ h => ⟨h.1, fun _ => h.2⟩
    · exact hordered.imp fun _ _ _ h => ⟨h, fun hr' => absurd hr' hr⟩
  refine halong.run (I := fun peers => ∀ i, (peers i).Attends records net.env net.sha256
    (net.events ts) (net.batches ts)) (fun peers t ht hinv hp => ?_) fun i => ?_
  · have hevents : ∀ e ∈ (net.arrival t.1 t.2).events, e ∈ net.events ts := fun e he =>
      ⟨t, ht, he⟩
    have hbatches : (net.arrival t.1 t.2).batches ⊆ net.batches ts := fun b hb => ⟨t, ht, hb⟩
    refine ⟨fun j => ?_, heard_of_ordered (hinv t.1) hid hevents hp.1⟩
    rw [turn]
    by_cases hj : j = t.1
    · subst hj
      rw [Function.update_self]
      exact take_attends (hinv _) hid hsha hevents hbatches hp.1 hp.2
    · rw [Function.update_of_ne hj]
      exact hinv j
  · exact ⟨follows_empty records net.env, fun row hrow => absurd hrow List.not_mem_nil,
      Set.empty_subset _⟩

/-- Versions never move backwards, edits overtake what was seen before them, and peers that have
seen the same events agree on their versions, exactly in the runs in which no edit is given a
version below that of its entity. In these runs the peers agree on the records as well, if what is
stored with an edit is what its event leaves elsewhere. -/
theorem versions_rise_iff (net : PeerNet ι) (ts : List (ι × PeerTurn))
    (hid : Identified (net.events ts)) (hsha : CollisionFree net.sha256 (net.batches ts)) :
    (net.Along net.Rising start ts ∧ net.Along net.Heard start ts ∧
        SameVersions (net.run start ts) ↔ net.Along net.Ordered start ts) ∧
      (net.Along net.Ordered start ts → net.Along net.Faithful start ts →
        SameRecords (net.run start ts)) := by
  refine ⟨⟨fun h => h.1.imp fun peers i a => (net.rising_iff peers i a).mp, fun h => ?_⟩,
    fun h hfaithful i j hseen k => ?_⟩
  · obtain ⟨hattends, hheard⟩ := run_attends False hid hsha h (fun hf => hf.elim)
    refine ⟨h.imp fun peers i a => (net.rising_iff peers i a).mpr, hheard, fun i j hseen k => ?_⟩
    have hi := (hattends i).follows.register
    rw [hseen] at hi
    have hseen_id : Identified (net.run start ts j).seen := fun x hx y hy =>
      hid x ((hattends j).among hx) y ((hattends j).among hy)
    exact (hi.agree (hattends j).follows.register hseen_id k).1
  · obtain ⟨hattends, -⟩ := run_attends True hid hsha h (fun _ => hfaithful)
    have hi := (hattends i).follows.register
    rw [hseen] at hi ⊢
    have hseen_id : Identified (net.run start ts j).seen := fun x hx y hy =>
      hid x ((hattends j).among hx) y ((hattends j).among hy)
    exact (hi.agree (hattends j).follows.register hseen_id k).2 trivial

/-! ## Sample runs -/

instance (peers : ι → Peer) (i : ι) : (a : Arrival) → Decidable (net.Ordered peers i a)
  | .deliver d => isTrue fun business e hcap => absurd hcap.1 (by simp)
  | .capture business e =>
    decidable_of_iff ((net.taken i (peers i) (.capture business e)).toOption.isSome = true →
      ∀ row ∈ (peers i).store.sync.entityVersions.get? e.entity, row.version ≤ e.version) (by
        constructor
        · rintro h business' e' ⟨heq, hok⟩
          cases heq
          exact h hok
        · exact fun h hok => h business e ⟨rfl, hok⟩)

instance decidableAlong (P : (ι → Peer) → ι → Arrival → Prop)
    [∀ peers i a, Decidable (P peers i a)] :
    ∀ peers ts, Decidable (net.Along P peers ts)
  | _, [] => isTrue trivial
  | peers, t :: ts =>
    have := decidableAlong P (net.turn peers t) ts
    inferInstanceAs (Decidable (_ ∧ _))

end PeerNet

/-- Two peers. -/
def samplePeers : PeerNet Bool where
  cfg i := sampleConfig (if i then "peer" else "other")
  env := sampleEnv
  sha256 _ := ""
  captures _ := rfl
  named i := by cases i <;> decide

/-- The fact `a`, as a third node has written it half a minute later. -/
def sampleRemote : SyncEvent :=
  { sampleFactA with
    version := ⟨sampleTime 30 (by decide), "third", "00000000-0000-4000-8000-000000000003",
      by decide, by decide +kernel⟩ }

/-- The records of a store that has the fact `a`. -/
def sampleRecords : BusinessState :=
  match applyBusinessEvent sampleEnv "" .empty [] sampleFactA with
  | .ok (business, _) => business
  | .error _ => .empty

/-- The peer edits the fact `a`, when its clock shows a second of the minute. -/
def sampleEdit (second : Fin 60) : PeerTurn :=
  .edit sampleRecords ⟨sampleFactA.nodeType, sampleFactA.entityKey, sampleFactA.scope,
      sampleFactA.change, sampleFactA.kind_agrees, sampleFactA.payload_json,
      sampleFactA.payload_keyed⟩
    (sampleTime second.1 second.2) sampleFactA.eventId sampleFactA.version.event_valid

/-- The delivery of the page of one event. -/
def sampleDelivery (remoteId : String) (event : SyncEvent) : PeerTurn :=
  .deliver (samplePageDelivery remoteId (samplePage event) "")

/-- Both peers take what the third node has written, and one of them edits it while its clock is
behind. -/
def skewedTurns : List (Bool × PeerTurn) :=
  [(true, sampleDelivery "third" sampleRemote), (false, sampleDelivery "third" sampleRemote),
    (true, sampleEdit 0), (false, sampleDelivery "peer" sampleFactA)]

/-- The version of the edited fact goes back, and the other peer discards the edit: both know both
events, and they hold different versions. -/
theorem skewed_edit_discarded :
    Identified (samplePeers.events skewedTurns) ∧
      CollisionFree samplePeers.sha256 (samplePeers.batches skewedTurns) ∧
      ¬ samplePeers.Along samplePeers.Rising PeerNet.start skewedTurns ∧
      sampleRemote.identity ∈ (samplePeers.run PeerNet.start skewedTurns true).store.sync.identities ∧
      sampleRemote.identity ∈
        (samplePeers.run PeerNet.start skewedTurns false).store.sync.identities ∧
      sampleFactA.identity ∈ (samplePeers.run PeerNet.start skewedTurns false).store.sync.identities ∧
      (samplePeers.run PeerNet.start skewedTurns true).store.sync.stamp sampleFactA.entity =
        some sampleFactA.stamp ∧
      (samplePeers.run PeerNet.start skewedTurns false).store.sync.stamp sampleFactA.entity =
        some sampleRemote.stamp := by
  have hevents : ∀ t ∈ skewedTurns, ∀ e ∈ (samplePeers.arrival t.1 t.2).events,
      ∀ t' ∈ skewedTurns, ∀ e' ∈ (samplePeers.arrival t'.1 t'.2).events,
        e.identity = e'.identity → e = e' := by decide +kernel
  have hordered : ¬ samplePeers.Along samplePeers.Ordered PeerNet.start skewedTurns := by
    decide +kernel
  refine ⟨fun e ⟨t, ht, he⟩ e' ⟨t', ht', he'⟩ => hevents t ht e he t' ht' e' he', ?_,
    fun h => hordered (h.imp fun peers i a => (samplePeers.rising_iff peers i a).mp),
    by decide +kernel, by decide +kernel, by decide +kernel, by decide +kernel,
    by decide +kernel⟩
  rintro b ⟨t, ht, hb⟩
  simp only [skewedTurns, List.mem_cons, List.not_mem_nil, or_false] at ht
  rcases ht with rfl | rfl | rfl | rfl <;> cases hb

/-- The same edit, when the clock of its peer is ahead. -/
def levelTurns : List (Bool × PeerTurn) :=
  [(true, sampleDelivery "third" sampleRemote), (true, sampleEdit 45)]

theorem level_edit_rises :
    samplePeers.Along samplePeers.Rising PeerNet.start levelTurns ∧
      samplePeers.Along samplePeers.Heard PeerNet.start levelTurns ∧
      PeerNet.SameVersions (samplePeers.run PeerNet.start levelTurns) := by
  have hevents : ∀ t ∈ levelTurns, ∀ e ∈ (samplePeers.arrival t.1 t.2).events,
      ∀ t' ∈ levelTurns, ∀ e' ∈ (samplePeers.arrival t'.1 t'.2).events,
        e.identity = e'.identity → e = e' := by decide +kernel
  have hbatches : CollisionFree samplePeers.sha256 (samplePeers.batches levelTurns) := by
    rintro b ⟨t, ht, hb⟩
    simp only [levelTurns, List.mem_cons, List.not_mem_nil, or_false] at ht
    rcases ht with rfl | rfl <;> cases hb
  exact (PeerNet.versions_rise_iff samplePeers levelTurns
    (fun e ⟨t, ht, he⟩ e' ⟨t', ht', he'⟩ => hevents t ht e he t' ht' e' he') hbatches).1.mpr
    (by decide +kernel)

end Memplex
