import Memplex.Lib.LengthCache
import Memplex.Sync.Stream

/-!
# The caches of the repository

`_append_event` looks a known event id up in a set, and the place of a version row in a dictionary,
instead of going through the outbox and the version rows. Both are kept from one append to the next,
under the length of the list that they were computed from. They are not dropped when the lists are
replaced: when a mutation is rolled back, or the commit of a peer is loaded.

Here they stand beside the lists (`Repo`), and `Repo.Agrees` says that they answer as the lists do;
an append is then the one of `SyncState.appendEvent` (`append_simulates`). What a cache was computed
from is what the last append that looked at the list has left, so that a list of the same length may
be taken for that one. `caches_agree_iff` says that nothing else goes wrong.
-/

namespace Memplex

open Lib

/-! ## The caches -/

/-- The cache of the event ids of an outbox. -/
def idCache : LengthCache OutboxRow (Finset String) where
  build rows := (rows.map fun r => r.event.eventId).toFinset
  count := Finset.card

/-- The cache of the places of version rows. -/
def positionCache : LengthCache VersionRow (Positions Entity) where
  build := Positions.ofRows VersionRow.entity
  count := Positions.len

/-- A repository with its caches. The version rows are in `versions`, and not in `sync`: a place
that is out of date may put two rows under one entity. -/
structure Repo where
  store : LiteStore
  versions : List VersionRow
  eventIds : Option (Finset String)
  positions : Option (Positions Entity)

/-- A state that the store has accepted: the event ids of its outbox are distinct. -/
def LoadedSync : Type := { s : SyncState // (s.outbox.map fun r => r.event.eventId).Nodup }

namespace Repo

variable (r : Repo)

/-- The set in which an event id is looked up. -/
def knownIds : Finset String := idCache.current r.eventIds r.store.sync.outbox

/-- The places at which version rows are looked up. -/
def currentPositions : Positions Entity := positionCache.current r.positions r.versions

/-- The resident lists are replaced, and the caches stay. -/
def install (business : BusinessState) (s : LoadedSync) : Repo :=
  { r with
    store := ⟨business, { s.1 with entityVersions := .empty }⟩
    versions := s.1.entityVersions.rows }

/-- A repository that has just been opened. -/
def opened (business : BusinessState) (s : LoadedSync) : Repo :=
  install ⟨.empty, [], none, none⟩ business s

/-- The version row of an event is put in the place of the one of its entity, or at the end. -/
def putVersion (row : VersionRow) : Repo :=
  match r.currentPositions.index row.entity with
  | none =>
    { r with
      versions := r.versions ++ [row]
      positions := some (r.currentPositions.add row.entity) }
  | some i => { r with versions := r.versions.set i row, positions := some r.currentPositions }

/-- The state with the event in the stream, apart from its version row. -/
def streamed (s : SyncState) (event : SyncEvent) : SyncState :=
  { s.appended event with entityVersions := s.entityVersions }

/-- `_append_event`, with what it leaves where it raises. -/
def append (cfg : SyncConfig) (event : SyncEvent) : Repo × Except PyError ℕ :=
  match r.store.sync.bindTenant event.scope.tenantId with
  | .error e => (r, .error e)
  | .ok sync =>
    let looked : Repo :=
      { r with store := { r.store with sync := sync }, eventIds := some r.knownIds }
    if event.eventId ∈ r.knownIds then (looked, .error (valueError "event_id already exists"))
    else
      match sync.assertQuota cfg (sync.fanOut event.originNodeId).length with
      | .error e => (looked, .error e)
      | .ok _ =>
        (putVersion
          { r with
            store := { r.store with sync := streamed sync event }
            eventIds := some (insert event.eventId r.knownIds) }
          (SyncState.versionRow event sync.nextStreamSeq), .ok sync.nextStreamSeq)

/-- The caches answer as the lists do. -/
def Agrees : Prop :=
  (∀ eventId, eventId ∈ r.knownIds ↔
    ∃ row ∈ r.store.sync.outbox, row.event.eventId = eventId) ∧
  ∀ k : Entity, r.currentPositions.index k = r.versions.findIdx? fun row => row.entity = k

end Repo

/-- The repository stands for a state of the stream with its version rows. -/
def Repo.Holds (r : Repo) (s : SyncState) : Prop :=
  r.store.sync = { s with entityVersions := .empty } ∧ r.versions = s.entityVersions.rows

/-! ## Runs -/

/-- An operation by which no event comes in. -/
def Upkeep : Type := { op : RepoOp // ∀ a : Arrival, op ≠ a.op }

/-- What happens to a repository: an append, an operation by which no event comes in, and a list
that takes the place of the resident one, when a mutation is rolled back or the commit of a peer is
loaded. -/
inductive RepoStep where
  | append (event : SyncEvent)
  | operation (op : Upkeep)
  | install (business : BusinessState) (s : LoadedSync)

section Run

variable (cfg : SyncConfig) (env : Env) (sha256 : ByteArray → String)

/-- One step. -/
def Repo.step (r : Repo) : RepoStep → Repo
  | .append event => (r.append cfg event).1
  | .operation op => { r with store := op.1.step cfg env sha256 r.store }
  | .install business s => r.install business s

/-- Some steps. -/
def Repo.run (r : Repo) (steps : List RepoStep) : Repo :=
  steps.foldl (Repo.step cfg env sha256) r

/-- The lists as the last append that looked at them has left them. -/
structure Seen where
  outbox : Option (List OutboxRow)
  versions : Option (List VersionRow)

/-- What has been seen after a step. An append that is refused has seen the outbox, unless it is for
another tenant, but not the version rows. -/
def Seen.after (seen : Seen) (r : Repo) : RepoStep → Seen
  | .append event =>
    { outbox := match r.store.sync.bindTenant event.scope.tenantId with
        | .error _ => seen.outbox
        | .ok _ => some (r.append cfg event).1.store.sync.outbox
      versions := match (r.append cfg event).2 with
        | .error _ => seen.versions
        | .ok _ => some (r.append cfg event).1.versions }
  | .operation _ => seen
  | .install _ _ => seen

/-- A repository, with what its appends have seen. -/
structure Watched where
  repo : Repo
  seen : Seen

/-- One step. -/
def Watched.step (w : Watched) (a : RepoStep) : Watched :=
  ⟨w.repo.step cfg env sha256 a, w.seen.after cfg w.repo a⟩

/-- The run of a repository that has just been opened. -/
def watched (business : BusinessState) (s : LoadedSync) (steps : List RepoStep) : Watched :=
  steps.foldl (Watched.step cfg env sha256) ⟨.opened business s, ⟨none, none⟩⟩

/-- The lists of a repository are not taken for the ones that were seen: where an outbox has the
length of the one that was seen, it has the same event ids, and where version rows have, they have
the same entities at the same places. -/
def Seen.Distinguishes (seen : Seen) (r : Repo) : Prop :=
  (∀ rows ∈ seen.outbox, rows.length = r.store.sync.outbox.length →
    ∀ eventId, (∃ row ∈ rows, row.event.eventId = eventId) ↔
      ∃ row ∈ r.store.sync.outbox, row.event.eventId = eventId) ∧
  ∀ rows ∈ seen.versions, rows.length = r.versions.length →
    rows.map VersionRow.entity = r.versions.map VersionRow.entity

/-- A step that is not an append leaves lists that are not taken for the ones that were seen. -/
def Distinguished (w : Watched) (a : RepoStep) : Prop :=
  (∀ event, a ≠ .append event) → w.seen.Distinguishes (w.repo.step cfg env sha256 a)

end Run

/-! ## An append where the caches agree -/

theorem count_idCache {rows : List OutboxRow}
    (h : (rows.map fun r => r.event.eventId).Nodup) :
    idCache.count (idCache.build rows) = rows.length := by
  calc (rows.map fun r => r.event.eventId).toFinset.card
      = (rows.map fun r => r.event.eventId).length := List.toFinset_card_of_nodup h
    _ = rows.length := List.length_map _

theorem mem_idCache {rows : List OutboxRow} {eventId : String} :
    eventId ∈ idCache.build rows ↔ ∃ row ∈ rows, row.event.eventId = eventId := by
  simp [idCache]

theorem count_positionCache (rows : List VersionRow) :
    positionCache.count (positionCache.build rows) = rows.length := Positions.len_ofRows rows

namespace Repo

variable {r : Repo}

/-- Caches that agree with the lists hold what would be computed from them. -/
theorem agrees_iff (h : (r.versions.map VersionRow.entity).Nodup) :
    r.Agrees ↔ r.knownIds = idCache.build r.store.sync.outbox ∧
      r.currentPositions = positionCache.build r.versions := by
  refine and_congr ?_ ⟨fun hindex => ?_, fun heq k => ?_⟩
  · rw [Finset.ext_iff]
    exact forall_congr' fun eventId => by rw [mem_idCache]
  · refine Positions.ext ?_ fun k => (hindex k).trans (Positions.index_ofRows h k).symm
    exact (LengthCache.count_current (count_positionCache r.versions)).trans
      (count_positionCache r.versions).symm
  · rw [heq]
    exact Positions.index_ofRows h k

/-- Where the places agree, a row goes where a scan would put it. -/
theorem putVersion_eq {row : VersionRow} (h : (r.versions.map VersionRow.entity).Nodup)
    (hpos : r.currentPositions = positionCache.build r.versions) :
    r.putVersion row =
      { r with
        versions := upsertRow VersionRow.entity row r.versions
        positions := some (positionCache.build (upsertRow VersionRow.entity row r.versions)) } := by
  unfold putVersion
  rw [hpos]
  cases hindex : (positionCache.build r.versions).index row.entity with
  | none =>
    rw [Positions.upsertRow_of_index_none h hindex]
    exact congrArg (fun p => { r with versions := r.versions ++ [row], positions := some p })
      (Positions.ofRows_append r.versions row).symm
  | some i =>
    have hsame : positionCache.build (upsertRow VersionRow.entity row r.versions) =
        positionCache.build r.versions := Positions.ofRows_upsertRow h hindex
    rw [hsame, Positions.upsertRow_of_index_some h hindex]

theorem putVersion_store (r : Repo) (row : VersionRow) : (r.putVersion row).store = r.store := by
  unfold putVersion
  split <;> rfl

theorem putVersion_versions {row : VersionRow} (h : (r.versions.map VersionRow.entity).Nodup)
    (hpos : r.currentPositions = positionCache.build r.versions) :
    (r.putVersion row).versions = upsertRow VersionRow.entity row r.versions := by
  rw [putVersion_eq h hpos]

/-- What an append does where the caches agree with the lists. -/
theorem append_cases (h : (r.versions.map VersionRow.entity).Nodup) (hr : r.Agrees)
    (cfg : SyncConfig) (event : SyncEvent) :
    (∃ e, r.store.sync.bindTenant event.scope.tenantId = .error e ∧
      r.append cfg event = (r, .error e)) ∨
    ∃ sync, r.store.sync.bindTenant event.scope.tenantId = .ok sync ∧
      ((∃ e, r.append cfg event =
          ({ r with
              store := { r.store with sync := sync }
              eventIds := some (idCache.build sync.outbox) }, .error e)) ∨
        ((∀ row ∈ sync.outbox, row.event.eventId ≠ event.eventId) ∧
          r.append cfg event =
            ({ store := { r.store with sync := streamed sync event }
               versions := upsertRow VersionRow.entity
                (SyncState.versionRow event sync.nextStreamSeq) r.versions
               eventIds := some (idCache.build (streamed sync event).outbox)
               positions := some (positionCache.build (upsertRow VersionRow.entity
                (SyncState.versionRow event sync.nextStreamSeq) r.versions)) },
              .ok sync.nextStreamSeq))) := by
  obtain ⟨hids, hpos⟩ := (agrees_iff h).mp hr
  unfold append
  cases hbind : r.store.sync.bindTenant event.scope.tenantId with
  | error e => exact .inl ⟨e, rfl, rfl⟩
  | ok sync =>
    refine .inr ⟨sync, rfl, ?_⟩
    have hsame : r.store.sync.outbox = sync.outbox := by
      rw [(SyncState.bindTenant_ok hbind).1]
    rw [hsame] at hids
    rw [hids]
    dsimp only
    by_cases hknown : event.eventId ∈ idCache.build sync.outbox
    · exact .inl ⟨_, if_pos hknown⟩
    · rw [if_neg hknown]
      cases sync.assertQuota cfg (sync.fanOut event.originNodeId).length with
      | error e => exact .inl ⟨e, rfl⟩
      | ok _ =>
        refine .inr ⟨fun row hrow heq => hknown (mem_idCache.mpr ⟨row, hrow, heq⟩), ?_⟩
        have hinsert : insert event.eventId (idCache.build sync.outbox) =
            idCache.build (streamed sync event).outbox := by
          ext eventId
          rw [Finset.mem_insert, mem_idCache, mem_idCache]
          simp [streamed, SyncState.appended, or_comm, eq_comm]
        rw [hinsert]
        exact congrArg (fun r' => (r', Except.ok sync.nextStreamSeq)) (putVersion_eq h hpos)

/-- Where the caches agree with the lists, an append is the one that looks into the rows. -/
theorem append_simulates {s : SyncState} (hs : r.Holds s) (hr : r.Agrees) (cfg : SyncConfig)
    (event : SyncEvent) :
    (r.append cfg event).2 = (s.appendEvent cfg event).map Prod.snd ∧
      ∀ s' seq, s.appendEvent cfg event = .ok (s', seq) → (r.append cfg event).1.Holds s' := by
  obtain ⟨hsync, hversions⟩ := hs
  have h : (r.versions.map VersionRow.entity).Nodup := hversions ▸ s.entityVersions.nodup
  obtain ⟨hids, hpos⟩ := (agrees_iff h).mp hr
  have hbind : r.store.sync.bindTenant event.scope.tenantId =
      (s.bindTenant event.scope.tenantId).map fun s => { s with entityVersions := .empty } := by
    rw [hsync]
    unfold SyncState.bindTenant
    cases htenant : s.tenantBinding with
    | none => rfl
    | some current =>
      dsimp only
      split_ifs
      · simp [Except.map, htenant]
      · rfl
  unfold append SyncState.appendEvent
  rw [hbind, hids]
  cases hs' : s.bindTenant event.scope.tenantId with
  | error e => exact ⟨rfl, fun _ _ heq => by cases heq⟩
  | ok sync =>
    have hout : r.store.sync.outbox = sync.outbox := by
      rw [hsync, (SyncState.bindTenant_ok hs').1]
    have hrows : sync.entityVersions = s.entityVersions := by
      rw [(SyncState.bindTenant_ok hs').1]
    have hknown : event.eventId ∈ idCache.build r.store.sync.outbox ↔
        ¬ ∀ row ∈ sync.outbox, row.event.eventId ≠ event.eventId := by
      rw [mem_idCache, hout]
      simp
    by_cases hfresh : ∀ row ∈ sync.outbox, row.event.eventId ≠ event.eventId
    · have hreq : require (∀ row ∈ sync.outbox, row.event.eventId ≠ event.eventId)
          (valueError "event_id already exists") = .ok () := if_pos hfresh
      simp only [Except.map, bind, Except.bind, hreq]
      rw [if_neg fun hin => hknown.mp hin hfresh]
      have hquota : ({ sync with entityVersions := .empty } : SyncState).assertQuota cfg
          (({ sync with entityVersions := .empty } : SyncState).fanOut
            event.originNodeId).length =
          sync.assertQuota cfg (sync.fanOut event.originNodeId).length := rfl
      rw [hquota]
      cases sync.assertQuota cfg (sync.fanOut event.originNodeId).length with
      | error e => exact ⟨rfl, fun _ _ heq => by cases heq⟩
      | ok _ =>
        refine ⟨rfl, fun s' seq heq => ?_⟩
        obtain ⟨rfl, rfl⟩ := Prod.mk.inj (Except.ok.inj heq)
        have hrows' : r.versions = sync.entityVersions.rows := hversions.trans (hrows ▸ rfl)
        dsimp only
        constructor
        · rw [putVersion_store]
          rfl
        · refine (putVersion_versions ?_ ?_).trans ?_
          · exact h
          · exact hpos
          · exact congrArg (upsertRow VersionRow.entity _) hrows'
    · have hreq : require (∀ row ∈ sync.outbox, row.event.eventId ≠ event.eventId)
          (valueError "event_id already exists") = .error _ := if_neg hfresh
      simp only [Except.map, bind, Except.bind, hreq]
      rw [if_pos (hknown.mpr hfresh)]
      exact ⟨rfl, fun _ _ heq => by cases heq⟩

end Repo

/-! ## Runs of a repository -/

section Runs

variable {cfg : SyncConfig} {env : Env} {sha256 : ByteArray → String}

/-- An operation by which no event comes in takes rows from the outbox at most. -/
theorem upkeep_outbox (op : Upkeep) (s : LiteStore) :
    (op.1.step cfg env sha256 s).sync.outbox.Sublist s.sync.outbox := by
  obtain ⟨op, hop⟩ := op
  unfold RepoOp.step
  split
  next s' happly =>
    cases op with
    | createSnapshot now remoteId consumerId requestId limit tenantId events snapshotId =>
      obtain ⟨⟨sync, p⟩, hrun, rfl⟩ := Except.map_ok happly
      exact (SyncState.createSnapshot_aside hrun).quiet.outbox ▸ List.Sublist.refl _
    | readSnapshot now =>
      cases Except.ok.inj happly
      exact List.Sublist.refl _
    | base op =>
      cases op with
      | capture business event => exact absurd rfl (hop (.capture business event))
      | deliver d => exact absurd rfl (hop (.deliver d))
      | registerTarget now targetId bootstrap =>
        obtain ⟨sync, hrun, rfl⟩ := Except.map_ok happly
        exact (registerTarget_stream hrun).1 ▸ List.Sublist.refl _
      | setTargetEnabled targetId enabled =>
        obtain ⟨sync, hrun, rfl⟩ := Except.map_ok happly
        exact (setTargetEnabled_stream hrun).1 ▸ List.Sublist.refl _
      | claim now leaseId targetId limit leaseSeconds =>
        obtain ⟨⟨sync, handed⟩, hrun, rfl⟩ := Except.map_ok happly
        exact (claim_quiet hrun).outbox ▸ List.Sublist.refl _
      | ackBatch now deliveries receipts =>
        obtain ⟨sync, hrun, rfl⟩ := Except.map_ok happly
        exact (ackBatch_quiet hrun).outbox ▸ List.Sublist.refl _
      | fail clock delivery errorCode now =>
        obtain ⟨sync, hrun, rfl⟩ := Except.map_ok happly
        exact (endLease_quiet (failed_key cfg errorCode now) hrun).outbox ▸ List.Sublist.refl _
      | deadLetter clock delivery errorCode now =>
        obtain ⟨sync, hrun, rfl⟩ := Except.map_ok happly
        exact (endLease_quiet (f := SyncState.deadLettered errorCode now) (fun _ => rfl)
          hrun).outbox ▸ List.Sublist.refl _
      | replayDeadLetter now targetId eventId =>
        obtain ⟨⟨sync, found⟩, hrun, rfl⟩ := Except.map_ok happly
        exact (replayDeadLetter_quiet hrun).outbox ▸ List.Sublist.refl _
      | page now remoteId consumerId cursor limit =>
        obtain ⟨⟨sync, p⟩, hrun, rfl⟩ := Except.map_ok happly
        exact (page_quiet hrun).outbox ▸ List.Sublist.refl _
      | compact now limit =>
        obtain ⟨⟨sync, n⟩, hrun, rfl⟩ := Except.map_ok happly
        obtain ⟨-, -, heq⟩ := Except.bind_ok.mp hrun
        cases Except.ok.inj heq
        dsimp only [SyncState.dropEvents]
        split
        · exact List.Sublist.refl _
        · exact List.filter_sublist
  · exact List.Sublist.refl _

namespace Watched

/-- The caches are what was computed from the lists that were seen, and neither these nor the
resident ones have anything twice. -/
structure Sound (w : Watched) : Prop where
  eventIds : w.repo.eventIds = w.seen.outbox.map idCache.build
  positions : w.repo.positions = w.seen.versions.map positionCache.build
  seen_ids : ∀ rows ∈ w.seen.outbox, (rows.map fun r => r.event.eventId).Nodup
  seen_entities : ∀ rows ∈ w.seen.versions, (rows.map VersionRow.entity).Nodup
  ids_nodup : (w.repo.store.sync.outbox.map fun r => r.event.eventId).Nodup
  entities_nodup : (w.repo.versions.map VersionRow.entity).Nodup

variable {w : Watched}

/-- The caches agree with the lists exactly if these are not taken for the ones that were seen. -/
theorem Sound.agrees_iff (hw : w.Sound) : w.repo.Agrees ↔ w.seen.Distinguishes w.repo := by
  rw [Repo.agrees_iff hw.entities_nodup]
  refine and_congr ?_ ?_
  · unfold Repo.knownIds
    rw [hw.eventIds]
    cases hseen : w.seen.outbox with
    | none => exact iff_of_true rfl nofun
    | some rows =>
      rw [Option.map_some, LengthCache.current_eq_build_iff (count_idCache (hw.seen_ids rows hseen))]
      simp [Finset.ext_iff, mem_idCache]
  · unfold Repo.currentPositions
    rw [hw.positions]
    cases hseen : w.seen.versions with
    | none => exact iff_of_true rfl nofun
    | some rows =>
      rw [Option.map_some, LengthCache.current_eq_build_iff (count_positionCache rows)]
      have hsame := Positions.ofRows_eq_iff (hw.seen_entities rows hseen) hw.entities_nodup
      simpa [positionCache] using forall_congr' fun _ => hsame

/-- An append from a state where the caches agree leaves one where they do. -/
theorem Sound.append (hw : w.Sound) (hagree : w.repo.Agrees) (event : SyncEvent) :
    (w.step cfg env sha256 (.append event)).Sound ∧
      (w.step cfg env sha256 (.append event)).repo.Agrees := by
  have hstep : ∀ {r : Repo} {res : Except PyError ℕ}, w.repo.append cfg event = (r, res) →
      w.step cfg env sha256 (.append event) =
        ⟨r, { outbox := match w.repo.store.sync.bindTenant event.scope.tenantId with
                | .error _ => w.seen.outbox
                | .ok _ => some r.store.sync.outbox
              versions := match res with
                | .error _ => w.seen.versions
                | .ok _ => some r.versions }⟩ := by
    intro r res heq
    simp only [Watched.step, Repo.step, Seen.after, heq]
  suffices h : (w.step cfg env sha256 (.append event)).Sound ∧
      (w.step cfg env sha256 (.append event)).seen.Distinguishes
        (w.step cfg env sha256 (.append event)).repo from ⟨h.1, h.1.agrees_iff.mpr h.2⟩
  obtain ⟨hdistOutbox, hdistVersions⟩ := hw.agrees_iff.mp hagree
  rcases Repo.append_cases hw.entities_nodup hagree cfg event with
    ⟨e, hbind, heq⟩ | ⟨sync, hbind, ⟨e, heq⟩ | ⟨hfresh, heq⟩⟩
  · -- The event is of another tenant.
    rw [hstep heq, hbind]
    exact ⟨hw, hdistOutbox, hdistVersions⟩
  all_goals
    have hout : sync.outbox = w.repo.store.sync.outbox := by
      rw [(SyncState.bindTenant_ok hbind).1]
    have hids : (sync.outbox.map fun r => r.event.eventId).Nodup := hout ▸ hw.ids_nodup
    rw [hstep heq, hbind]
  · -- The event is refused once the outbox has been looked at.
    refine ⟨⟨rfl, hw.positions, ?_, hw.seen_entities, hids, hw.entities_nodup⟩, ?_, hdistVersions⟩
    · rintro rows ⟨⟩
      exact hids
    · rintro rows ⟨⟩ -
      exact fun _ => Iff.rfl
  · have hids' : ((Repo.streamed sync event).outbox.map fun r => r.event.eventId).Nodup := by
      change ((sync.outbox ++ [_]).map _).Nodup
      rw [List.map_append, List.nodup_append]
      refine ⟨hids, by simp, ?_⟩
      rintro a ha b hb rfl
      obtain ⟨row, hrow, hid⟩ := List.mem_map.mp ha
      exact hfresh row hrow (hid.trans (List.mem_singleton.mp hb))
    have hentities := nodup_upsertRow (r := SyncState.versionRow event sync.nextStreamSeq)
      hw.entities_nodup
    refine ⟨⟨rfl, rfl, ?_, ?_, hids', hentities⟩, ?_, ?_⟩
    · rintro rows ⟨⟩
      exact hids'
    · rintro rows ⟨⟩
      exact hentities
    · rintro rows ⟨⟩ -
      exact fun _ => Iff.rfl
    · rintro rows ⟨⟩ -
      rfl

variable (cfg env sha256) in
/-- A step that is not an append leaves the caches with what was seen. -/
theorem Sound.replaced (hw : w.Sound) {a : RepoStep} (ha : ∀ event, a ≠ .append event) :
    (w.step cfg env sha256 a).Sound ∧ (w.step cfg env sha256 a).seen = w.seen := by
  cases a with
  | append event => exact absurd rfl (ha event)
  | operation op =>
    exact ⟨⟨hw.eventIds, hw.positions, hw.seen_ids, hw.seen_entities,
      hw.ids_nodup.sublist ((upkeep_outbox op w.repo.store).map _), hw.entities_nodup⟩, rfl⟩
  | install business s =>
    exact ⟨⟨hw.eventIds, hw.positions, hw.seen_ids, hw.seen_entities, s.2,
      s.1.entityVersions.nodup⟩, rfl⟩

theorem sound_opened (business : BusinessState) (s : LoadedSync) :
    (⟨.opened business s, ⟨none, none⟩⟩ : Watched).Sound :=
  ⟨rfl, rfl, nofun, nofun, s.2, s.1.entityVersions.nodup⟩

end Watched

variable (cfg env sha256)

/-- What is watched of a run is the run. -/
theorem watched_repo (business : BusinessState) (s : LoadedSync) (steps : List RepoStep) :
    (watched cfg env sha256 business s steps).repo =
      (Repo.opened business s).run cfg env sha256 steps := by
  unfold watched Repo.run
  generalize Repo.opened business s = r
  generalize (⟨none, none⟩ : Seen) = seen
  induction steps generalizing r seen with
  | nil => rfl
  | cons a steps ih => exact ih _ _

/-- The caches of a repository answer as its lists do in all states of a run, exactly if no step of
the run, from an operation that drops rows, a mutation that is rolled back or a commit of a peer,
leaves an outbox or version rows that have the length, but not the event ids, or not the entities at
their places, of those that the last append to look at them has left. -/
theorem caches_agree_iff (business : BusinessState) (s : LoadedSync) (steps : List RepoStep) :
    (∀ done, done <+: steps → ((Repo.opened business s).run cfg env sha256 done).Agrees) ↔
      ∀ done a, done ++ [a] <+: steps →
        Distinguished cfg env sha256 (watched cfg env sha256 business s done) a := by
  have hrun := forall_reached_iff (Watched.step cfg env sha256)
    (fun w => w.Sound ∧ w.repo.Agrees) (fun w => w.repo.Agrees)
    (Distinguished cfg env sha256) (fun w hw => hw.2) ?_ ?_
    ⟨Watched.sound_opened business s, (Watched.sound_opened business s).agrees_iff.mpr
      ⟨nofun, nofun⟩⟩ steps
  · refine Iff.trans (forall₂_congr fun done _ => ?_) hrun
    rw [← watched_repo]
    rfl
  all_goals intro w a hw
  · by_cases ha : ∃ event, a = .append event
    · obtain ⟨event, rfl⟩ := ha
      exact iff_of_true (fun h => absurd rfl (h event)) (hw.1.append hw.2 event).2
    · have ha : ∀ event, a ≠ .append event := fun event heq => ha ⟨event, heq⟩
      obtain ⟨hsound, hseen⟩ := hw.1.replaced cfg env sha256 ha
      rw [hsound.agrees_iff, hseen]
      exact ⟨fun h => h ha, fun h _ => h⟩
  · intro hagree
    refine ⟨?_, hagree⟩
    by_cases ha : ∃ event, a = .append event
    · obtain ⟨event, rfl⟩ := ha
      exact (hw.1.append hw.2 event).1
    · exact (hw.1.replaced cfg env sha256 fun event heq => ha ⟨event, heq⟩).1

/-- A state of the stream with one event in it. -/
def sampleStreamed (event : SyncEvent) : SyncState :=
  { SyncState.empty.appended event with tenantBinding := some event.scope.tenantId }

/-- An event is captured and rolled back, and a peer commits another one: the repository knows the
event that was rolled back, and not the one in its outbox. -/
def sampleRolledBack : List RepoStep :=
  [.append sampleFactA, .install .empty ⟨.empty, List.nodup_nil⟩,
    .install .empty ⟨sampleStreamed sampleFunction, List.nodup_singleton _⟩]

/-- A repository that has just been opened appends an event as the rows have it. -/
theorem append_simulates_opened :
    ((Repo.opened .empty ⟨.empty, List.nodup_nil⟩).append (sampleConfig "peer") sampleFactA).2 =
      (SyncState.empty.appendEvent (sampleConfig "peer") sampleFactA).map Prod.snd :=
  (Repo.append_simulates ⟨rfl, rfl⟩
    ((Repo.agrees_iff (r := .opened .empty ⟨.empty, List.nodup_nil⟩) List.nodup_nil).mpr
      ⟨rfl, rfl⟩) _ _).1

theorem caches_stale :
    ¬ ((Repo.opened .empty ⟨.empty, List.nodup_nil⟩).run (sampleConfig "peer") sampleEnv
      (fun _ => "") sampleRolledBack).Agrees := by
  rintro ⟨hids, -⟩
  have hknown := (hids sampleFactA.eventId).mp (by decide +kernel)
  revert hknown
  decide +kernel

end Runs

end Memplex
