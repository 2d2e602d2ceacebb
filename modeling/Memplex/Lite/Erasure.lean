import Memplex.Lite.Belongs
import Memplex.Lite.Principals
import Memplex.Lite.Reads

/-!
# The erasure of a store

`LiteMemoryStore.clear` reads the files again if they have changed, empties the resident
collections, records a tombstone for every node and every edge, and commits what is left. It holds
the lock of the writers throughout, so that the commit finds the files unchanged and folds nothing
back in (`clearStore_ok`). The one collection that it does not empty is that of the paragraphs: they
are written back, found by every search that considers them, and no peer is told of their end.

`LiteInstance` is an instance outside a batch of deferred commits, and `LiteDisk` the files that it
shares with others.
-/

namespace Memplex

open Lib Lib.Mutator

/-! ## Instances and files -/

/-- The committed files, and the sizes and times that tell this version of them from others. -/
structure LiteDisk where
  files : StoreFiles
  stamp : ℕ

/-- An open store. -/
structure LiteInstance where
  memory : LiteMemory
  /-- Whether `_committed_pair` is there. -/
  committed : Bool
  /-- `_pair_fingerprint`. -/
  fingerprint : Option ℕ

/-- What one call meets beside the state: the clock, the ids of its events, whether the commit
audits what it writes, and how the durable write ends. -/
structure ClearRun where
  now : Timestamp
  /-- The time and the id of the `n`-th event. -/
  events : ℕ → Timestamp × String
  audit : Bool
  /-- The stamp of the files that are written, or the error. -/
  write : Except PyError ℕ

/-- `_raw_memory` and `_raw_changelog`. -/
def LiteMemory.rawPair (m : LiteMemory) : StoreFiles where
  memory :=
    [("schema_version", .int 2),
      ("functions", .arr (m.functions.rows.map fun f => .obj f.toDict)),
      ("edges", .arr (m.edges.map fun e => .obj (serializeEdge e))),
      ("observations", .arr (m.observations.map fun o => .obj o.toDict)),
      ("facts", .arr (m.facts.rows.map fun f => .obj f.toDict)),
      ("preferences", .arr (m.preferences.rows.map fun p => .obj p.toDict)),
      ("paragraphs", .arr (m.paragraphs.rows.map fun row => .obj row.2))]
  sync := some m.store.sync
  changelog := m.changelog.map fun e => .obj (serializeEvent e)
  legacy := false

/-- The paragraphs of a pair. -/
def readParagraphs (pair : LitePair) : Except PyError Paragraphs := do
  let rows ← (← pair.items "paragraphs").mapM fun raw => do
    validateRawParagraph (← requireDict raw (valueError "invalid Lite paragraph"))
  return rows.foldl (fun t row => t.set (textOf (row.getD "id" .null), row)) .empty

/-- `_publish_pair`. -/
def publishPair (env : Env) (now : Timestamp) (files : StoreFiles) : Except PyError LiteMemory := do
  let d ← decodePair env now files.pair
  return .publish env d (← readParagraphs files.pair)

/-- A store that is loaded from the files. -/
def openStore (env : Env) (now : Timestamp) (files : StoreFiles) : Except PyError LiteMemory := do
  publishPair env now (← load env now files)

namespace LiteInstance

variable (W : LiteWriter) (run : ClearRun)

/-- `_pair_files_unchanged`. -/
def pairFilesUnchanged (inst : LiteInstance) (disk : LiteDisk) : Bool :=
  inst.fingerprint = some disk.stamp

/-- `_reload_for_mutation`. -/
def reloadForMutation (inst : LiteInstance) (disk : LiteDisk) : Except PyError LiteInstance := do
  if inst.committed && inst.pairFilesUnchanged disk then return inst
  else
    let m ← publishPair W.env run.now disk.files
    return ⟨m, true, some disk.stamp⟩

/-- The base of a commit, where it was not verified: what it has and the resident state has not is
folded in. -/
def foldBase (inst : LiteInstance) (disk : LiteDisk) (m : LiteMemory) :
    Except PyError LiteMemory := do
  if inst.committed && inst.pairFilesUnchanged disk then return m
  else
    let base ← decodePair W.env run.now disk.files.pair
    return m.foldMissingFromBase base (← readParagraphs disk.files.pair)

/-- The decoding of a target that is audited. -/
def auditTarget (target : StoreFiles) : Except PyError Unit :=
  if run.audit then (decodePair W.env run.now target.pair).map fun _ => () else .ok ()

/-- `_commit_current_state`, outside a batch. -/
def commitCurrentState (inst : LiteInstance) (disk : LiteDisk) :
    Except PyError (LiteInstance × LiteDisk) := do
  let m ← W.validateResidentGraph inst.memory
  let m ← inst.foldBase W run disk m
  let target := m.rawPair
  auditTarget W run target
  target.validateMemoryPayload
  let stamp ← run.write
  return (⟨m.rebuildEdgeIndex, true, some stamp⟩, ⟨target, stamp⟩)

end LiteInstance

/-! ## Tombstones -/

/-- A record whose end is captured: its kind, its key, and the node that gives it its scope. -/
structure Ended where
  nodeType : SyncNodeType
  key : Except PyError SyncEntityKey
  scope : MemoryNode

/-- `capture_node` and `capture_edge`, for a tombstone. -/
def SyncState.captureTombstone (cfg : SyncConfig) (run : ClearRun) (s : SyncState)
    (ended : Ended × ℕ) : Except PyError SyncState :=
  if cfg.captureRequired = false then .ok s
  else do
    let eventId := Value.ofOptStr (some (run.events ended.2).2)
    let key ← ended.1.key
    let version ← SyncVersion.create (run.events ended.2).1 (.str cfg.localNodeId) eventId
    let scope ← scopeFromNode ended.1.scope
    let event ← SyncEvent.create (.int 1) eventId (.str cfg.localNodeId) ended.1.nodeType key
      .tombstone (.str version.text) scope .null
    s.captureLocalEvent cfg event

/-- The tombstone of a node. -/
def Ended.node (nodeType : SyncNodeType) (n : MemoryNode) : Ended :=
  ⟨nodeType, SyncEntityKey.node (.str n.id), n⟩

/-- The tombstone of an edge, in the scope of the function that it leaves. -/
def Ended.edge (functions : Functions) (e : GraphEdge) : Option Ended :=
  (functions.get? e.source).map fun f =>
    ⟨.edge, SyncEntityKey.edge (.str e.source) (.str e.target) (.str e.edgeType), f.toMemoryNode⟩

namespace LiteMemory

variable (m : LiteMemory)

/-- The records that `clear` captures, in their order. -/
def ended : List Ended :=
  m.edges.filterMap (Ended.edge m.functions) ++
    m.functions.rows.map (fun f => .node .function f.toMemoryNode) ++
    m.facts.rows.map (fun f => .node .fact f.toMemoryNode) ++
    m.preferences.rows.map (fun p => .node .preference p.toMemoryNode) ++
    m.observations.map fun o => .node .observation o.toMemoryNode

end LiteMemory

/-- `clear`. -/
def LiteInstance.clearStore (W : LiteWriter) (run : ClearRun) (inst : LiteInstance)
    (disk : LiteDisk) : Except PyError (LiteInstance × LiteDisk) := do
  let inst ← inst.reloadForMutation W run disk
  let out ← W.clear.result inst.memory
  let sync ← inst.memory.ended.zipIdx.foldlM (SyncState.captureTombstone W.cfg run)
    out.2.store.sync
  { inst with memory := { out.2 with store := { out.2.store with sync := sync } } }
    |>.commitCurrentState W run disk

/-! ## What a capture leaves -/

/-- The latest version of an entity is its end. -/
def SyncState.Deleted (s : SyncState) (entity : Entity) : Prop :=
  ∃ v, s.entityVersions.get? entity = some v ∧ v.deleted = true

/-- A tombstone is of the kind and the key that it was made for. -/
theorem SyncEvent.create_tombstone {eventId origin version : Value} {nodeType : SyncNodeType}
    {key : SyncEntityKey} {scope : SyncScope} {event : SyncEvent}
    (h : SyncEvent.create (.int 1) eventId origin nodeType key .tombstone version scope .null =
      .ok event) : event.entity = (nodeType, key) ∧ event.change = .tombstone := by
  obtain ⟨_, -, h⟩ := Except.bind_ok.mp h
  obtain ⟨_, -, h⟩ := Except.bind_ok.mp h
  obtain ⟨_, -, h⟩ := Except.bind_ok.mp h
  obtain ⟨_, -, h⟩ := Except.bind_ok.mp h
  obtain ⟨_, -, h⟩ := Except.bind_ok.mp h
  obtain ⟨change, hchange, h⟩ := Except.bind_ok.mp h
  have htombstone : Change.tombstone = change := Except.ok.inj hchange
  subst htombstone
  split_ifs at h
  · split at h
    · cases h
    · have hevent := Except.ok.inj h
      rw [← hevent]
      exact ⟨rfl, rfl⟩
  · cases h

/-- A captured tombstone ends its entity, and brings no other back. -/
theorem SyncState.captureTombstone_ok {cfg : SyncConfig} {run : ClearRun} {s s' : SyncState}
    {ended : Ended × ℕ} (hcfg : cfg.captureRequired = true)
    (h : s.captureTombstone cfg run ended = .ok s') :
    ∃ key, ended.1.key = .ok key ∧ s'.Deleted (ended.1.nodeType, key) ∧
      ∀ entity, s.Deleted entity → s'.Deleted entity := by
  unfold captureTombstone at h
  rw [hcfg, if_neg (by simp)] at h
  obtain ⟨key, hkey, h⟩ := Except.bind_ok.mp h
  obtain ⟨version, -, h⟩ := Except.bind_ok.mp h
  obtain ⟨scope, -, h⟩ := Except.bind_ok.mp h
  obtain ⟨event, hevent, h⟩ := Except.bind_ok.mp h
  obtain ⟨hentity, hchange⟩ := SyncEvent.create_tombstone hevent
  have hs' := captureLocalEvent_ok hcfg h
  have hversions : s'.entityVersions =
      s.entityVersions.set (versionRow event s.nextStreamSeq) := by rw [hs']; rfl
  have hget : ∀ entity, s'.entityVersions.get? entity =
      if (ended.1.nodeType, key) = entity then some (versionRow event s.nextStreamSeq)
      else s.entityVersions.get? entity := by
    intro entity
    rw [hversions, Table.get?_set, ← hentity]
    rfl
  have hdeleted : (versionRow event s.nextStreamSeq).deleted = true := by
    rw [versionRow, hchange]
    rfl
  refine ⟨key, hkey, ⟨_, (hget _).trans (if_pos rfl), hdeleted⟩, ?_⟩
  rintro entity ⟨v, hv, hvdeleted⟩
  by_cases hsame : (ended.1.nodeType, key) = entity
  · exact ⟨_, (hget entity).trans (if_pos hsame), hdeleted⟩
  · exact ⟨v, (hget entity).trans ((if_neg hsame).trans hv), hvdeleted⟩

/-- After all captures every record has ended. -/
theorem captureTombstones_ok {cfg : SyncConfig} {run : ClearRun}
    (hcfg : cfg.captureRequired = true) {records : List (Ended × ℕ)} {s s' : SyncState}
    (h : records.foldlM (SyncState.captureTombstone cfg run) s = .ok s') :
    (∀ r ∈ records, ∃ key, r.1.key = .ok key ∧ s'.Deleted (r.1.nodeType, key)) ∧
      ∀ entity, s.Deleted entity → s'.Deleted entity := by
  induction records generalizing s with
  | nil =>
    have hs : s = s' := Except.ok.inj h
    subst hs
    exact ⟨fun r hr => (List.not_mem_nil hr).elim, fun _ hd => hd⟩
  | cons r records ih =>
    rw [List.foldlM_cons] at h
    obtain ⟨s₁, hstep, hrest⟩ := Except.bind_ok.mp h
    obtain ⟨key, hkey, hdeleted, hkept⟩ := SyncState.captureTombstone_ok hcfg hstep
    obtain ⟨hall, hrestKept⟩ := ih hrest
    refine ⟨List.forall_mem_cons.mpr ⟨⟨key, hkey, hrestKept _ hdeleted⟩, hall⟩, fun entity hd => ?_⟩
    exact hrestKept entity (hkept entity hd)

/-! ## What `clear` leaves -/

/-- `clear`, up to its capture. -/
theorem clear_result {W : LiteWriter} {m m' : LiteMemory} {u : Unit}
    (h : W.clear.result m = .ok (u, m')) :
    m'.store.business = { BusinessState.empty with paragraphs := m.paragraphs } ∧
      m'.changelog = [] ∧ m'.store.sync = m.store.sync ∧
      ∀ e ∈ m.edges, m.functions.contains e.source = true := by
  unfold LiteWriter.clear at h
  simp only [result_bind, result_ofStep, result_get, result_set, result_orRaise] at h
  obtain ⟨⟨_, checked⟩, hstep, h⟩ := Except.bind_ok.mp h
  obtain ⟨checked', hvalid, heq⟩ := Except.bind_ok.mp hstep
  have hsame : checked' = checked := congrArg Prod.snd (Except.ok.inj heq)
  subst hsame
  obtain ⟨⟨found, _⟩, hget, h⟩ := Except.bind_ok.mp h
  cases hget
  obtain ⟨⟨_, emptied⟩, hset, h⟩ := Except.bind_ok.mp h
  cases hset
  obtain ⟨_, hsources, h⟩ := Except.bind_ok.mp h
  have hm' : _ = m' := congrArg Prod.snd (Except.ok.inj h)
  obtain ⟨pending, rfl⟩ := LiteWriter.validateResidentGraph_ok hvalid
  rw [← hm']
  exact ⟨rfl, rfl, rfl, require_ok.mp hsources⟩

namespace LiteInstance

variable {W : LiteWriter} {run : ClearRun} {inst inst' : LiteInstance} {disk disk' : LiteDisk}

/-- After a reload the committed pair is there, and the files are those it was read from. -/
theorem reloadForMutation_ok (h : inst.reloadForMutation W run disk = .ok inst') :
    (inst'.committed && inst'.pairFilesUnchanged disk) = true := by
  unfold reloadForMutation at h
  split_ifs at h with hfresh
  · rw [← Except.ok.inj h]
    exact hfresh
  · obtain ⟨m, -, heq⟩ := Except.bind_ok.mp h
    rw [← Except.ok.inj heq]
    simp [pairFilesUnchanged]

/-- A commit on files that are unchanged writes the resident state as it is. -/
theorem commitCurrentState_ok (hfresh : (inst.committed && inst.pairFilesUnchanged disk) = true)
    (h : inst.commitCurrentState W run disk = .ok (inst', disk')) :
    inst'.memory.store = inst.memory.store ∧ inst'.memory.changelog = inst.memory.changelog ∧
      disk'.files = inst'.memory.rawPair ∧ disk'.files.validateMemoryPayload = .ok () := by
  obtain ⟨m, hchecked, h⟩ := Except.bind_ok.mp h
  obtain ⟨pending, rfl⟩ := LiteWriter.validateResidentGraph_ok hchecked
  obtain ⟨m, hfolded, h⟩ := Except.bind_ok.mp h
  rw [foldBase, if_pos hfresh] at hfolded
  obtain rfl := (Except.ok.inj hfolded).symm
  obtain ⟨_, -, h⟩ := Except.bind_ok.mp h
  obtain ⟨_, hvalid, h⟩ := Except.bind_ok.mp h
  obtain ⟨stamp, -, heq⟩ := Except.bind_ok.mp h
  obtain ⟨rfl, rfl⟩ := Prod.mk.inj (Except.ok.inj heq)
  exact ⟨rfl, rfl, rfl, hvalid⟩

/-- What `clear` leaves when it returns: the paragraphs that were there, and what the captures have
made of the sync state. -/
theorem clearStore_ok (h : inst.clearStore W run disk = .ok (inst', disk')) :
    ∃ inst₀ sync, inst.reloadForMutation W run disk = .ok inst₀ ∧
      inst₀.memory.ended.zipIdx.foldlM (SyncState.captureTombstone W.cfg run)
        inst₀.memory.store.sync = .ok sync ∧
      inst'.memory.store =
        ⟨{ BusinessState.empty with paragraphs := inst₀.memory.paragraphs }, sync⟩ ∧
      inst'.memory.changelog = [] ∧ disk'.files = inst'.memory.rawPair ∧
      disk'.files.validateMemoryPayload = .ok () := by
  obtain ⟨inst₀, hreload, h⟩ := Except.bind_ok.mp h
  obtain ⟨⟨_, cleared⟩, hclear, h⟩ := Except.bind_ok.mp h
  obtain ⟨sync, hsync, h⟩ := Except.bind_ok.mp h
  obtain ⟨hbusiness, hchangelog, hkept, -⟩ := clear_result hclear
  have hfresh := reloadForMutation_ok hreload
  obtain ⟨hstore, hlog, hfiles, hvalid⟩ := commitCurrentState_ok (by exact hfresh) h
  refine ⟨inst₀, sync, hreload, ?_, ?_, hlog.trans hchangelog, hfiles, hvalid⟩
  · rw [← hkept]
    exact hsync
  · rw [hstore, ← hbusiness]

end LiteInstance

/-! ## Complete erasure -/

/-- A row that binds the identity of a tenant and an owner. -/
def paragraphBound (row : Members) : Bool :=
  ["tenant_id", "owner_subject_id"].all fun name =>
    (asString (row.getD name .null)).any fun s => s ≠ ""

/-- The records of a store that peers are told of, by kind and key: a node or an edge without an
identity has `clear` raise where changes are captured. -/
def LiteMemory.boundRecords (m : LiteMemory) :
    List (SyncNodeType × Except PyError SyncEntityKey) :=
  m.ended.map (fun r => (r.nodeType, r.key)) ++
    (m.paragraphs.rows.filter fun row => paragraphBound row.2).map fun row =>
      (.paragraph, SyncEntityKey.node (.str row.1))

/-- Nothing of what a store held is found after its erasure. -/
structure Erased (W : LiteWriter) (before : LiteMemory) (inst : LiteInstance) (disk : LiteDisk) :
    Prop where
  /-- No call on the instance returns anything that was there. -/
  same : ∀ op, ∀ r ∈ inst.memory.read op, ¬ before.Holds r
  /-- No call on a store that is loaded from the files does. -/
  loaded : ∀ now opened, openStore W.env now disk.files = .ok opened →
    ∀ op, ∀ r ∈ opened.read op, ¬ before.Holds r
  /-- Where changes are captured, every record with an identity has ended. -/
  tombstoned : W.cfg.captureRequired = true → ∀ r ∈ before.boundRecords,
    ∃ key, r.2 = .ok key ∧ inst.memory.store.sync.Deleted (r.1, key)

/-- A paragraph of a store without other records is read. -/
theorem LiteMemory.read_paragraph {m : LiteMemory} {paragraphs : Paragraphs}
    (h : m.store.business = { BusinessState.empty with paragraphs := paragraphs })
    {row : String × Members} (hrow : row ∈ paragraphs.rows) :
    StoreRecord.paragraph (.obj row.2) ∈ m.read (.readContextNodes [row.1]) := by
  have hget : paragraphs.get? row.1 = some row := (Table.mem_rows_iff paragraphs row).mp hrow
  have hcontext : m.contextNode row.1 = some (.paragraph (.obj row.2)) := by
    unfold contextNode findObservation
    simp only [functions, facts, preferences, observations, LiteMemory.paragraphs, h, hget]
    rfl
  exact List.mem_filterMap.mpr ⟨row.1, List.mem_singleton_self _, hcontext⟩

/-- A store without records holds nothing. -/
theorem LiteMemory.not_holds {m : LiteMemory} (h : m.store.business = .empty)
    (hlog : m.changelog = []) (r : StoreRecord) : ¬ m.Holds r := by
  obtain ⟨⟨business, sync⟩, changelog, edgesByNode, domainById, pending⟩ := m
  dsimp only at h hlog
  subst h hlog
  cases r with
  | paragraph row => exact fun ⟨_, _, hmem, _⟩ => List.not_mem_nil hmem
  | function f => exact List.not_mem_nil
  | edge e => exact List.not_mem_nil
  | observation o => exact List.not_mem_nil
  | fact f => exact List.not_mem_nil
  | preference p => exact List.not_mem_nil
  | event e => exact List.not_mem_nil

/-- The documents of a store without records hold nothing. -/
theorem openStore_empty {env : Env} {now : Timestamp} {m opened : LiteMemory}
    (h : m.store.business = .empty) (hlog : m.changelog = [])
    (hvalid : m.rawPair.validateMemoryPayload = .ok ())
    (hopen : openStore env now m.rawPair = .ok opened) (r : StoreRecord) : ¬ opened.Holds r := by
  obtain ⟨files, hload, hpublish⟩ := Except.bind_ok.mp hopen
  have hfiles : files = m.rawPair := by
    obtain ⟨_, -, hload⟩ := Except.bind_ok.mp hload
    obtain ⟨_, -, hload⟩ := Except.bind_ok.mp hload
    exact (Except.ok.inj hload).symm
  subst hfiles
  obtain ⟨d, hd, hpublish⟩ := Except.bind_ok.mp hpublish
  obtain ⟨paragraphs, hparagraphs, heq⟩ := Except.bind_ok.mp hpublish
  have hopened : opened = .publish env d paragraphs := (Except.ok.inj heq).symm
  -- Each list of the documents has an element for each record of its collection.
  have hnone : ∀ r, ¬ m.rawPair.pair.Has env now r := by
    have hempty : ∀ {α β : Type} {g : α → β} {xs : List α} {x : β}, xs = [] → x ∉ xs.map g := by
      rintro α β g xs x rfl hx
      exact List.not_mem_nil hx
    intro r hr
    cases hr with
    | node hraw _ => exact hempty (congrArg (fun b => b.functions.rows) h) hraw
    | edge hraw _ => exact hempty (congrArg BusinessState.edges h) hraw
    | observation hraw _ => exact hempty (congrArg BusinessState.observations h) hraw
    | fact hraw _ => exact hempty (congrArg (fun b => b.facts.rows) h) hraw
    | preference hraw _ => exact hempty (congrArg (fun b => b.preferences.rows) h) hraw
    | paragraph hraw => exact hempty (congrArg (fun b => b.paragraphs.rows) h) hraw
    | event hraw _ => exact hempty hlog hraw
  have hdecoded : ∀ r, ¬ d.Mem r := fun r hr =>
    hnone r ((decodePair_mem (StoreFiles.listed hvalid) hd r).mp hr).1
  have hrows : paragraphs.rows = [] := by
    obtain ⟨items, hitems, hread⟩ := Except.bind_ok.mp hparagraphs
    have hitemsNil : items = [] := by
      have hmap : Except.ok (m.paragraphs.rows.map fun row => (.obj row.2 : Value)) =
          (.ok items : Except PyError (List Value)) := hitems
      rw [LiteMemory.paragraphs, h] at hmap
      exact (Except.ok.inj hmap).symm
    subst hitemsNil
    exact congrArg Table.rows (Except.ok.inj hread).symm
  subst hopened
  cases r with
  | paragraph row =>
    rintro ⟨id, members, hmem, -⟩
    have hmem : (id, members) ∈ paragraphs.rows := hmem
    rw [hrows] at hmem
    exact List.not_mem_nil hmem
  | function f => exact hdecoded (.function f)
  | edge e => exact hdecoded (.edge e)
  | observation o => exact hdecoded (.observation o)
  | fact f => exact hdecoded (.fact f)
  | preference p => exact hdecoded (.preference p)
  | event e => exact hdecoded (.event e)

/-- The records that were captured have ended, and all others that peers are told of are
paragraphs. -/
theorem ended_tombstoned {W : LiteWriter} {run : ClearRun} {before : LiteMemory} {s s' : SyncState}
    (hcfg : W.cfg.captureRequired = true) (hnone : before.paragraphs.rows = [])
    (h : before.ended.zipIdx.foldlM (SyncState.captureTombstone W.cfg run) s = .ok s') :
    ∀ r ∈ before.boundRecords, ∃ key, r.2 = .ok key ∧ s'.Deleted (r.1, key) := by
  intro r hr
  unfold LiteMemory.boundRecords at hr
  rw [hnone, List.filter_nil, List.map_nil, List.append_nil] at hr
  obtain ⟨e, he, rfl⟩ := List.mem_map.mp hr
  obtain ⟨n, hn⟩ := List.mem_iff_getElem?.mp he
  exact (captureTombstones_ok hcfg h).1 (e, n) (List.mem_zipIdx_iff_getElem?.mpr hn)

/-- A store is erased by `clear` exactly when it had no paragraphs. -/
theorem clear_erases_iff {W : LiteWriter} {run : ClearRun} {inst inst₀ inst' : LiteInstance}
    {disk disk' : LiteDisk} (hreload : inst.reloadForMutation W run disk = .ok inst₀)
    (hclear : inst.clearStore W run disk = .ok (inst', disk')) :
    Erased W inst₀.memory inst' disk' ↔ inst₀.memory.paragraphs.rows = [] := by
  obtain ⟨found, sync, hfound, hsync, hstore, hlog, hfiles, hvalid⟩ :=
    LiteInstance.clearStore_ok hclear
  obtain rfl : found = inst₀ := Except.ok.inj (hfound.symm.trans hreload)
  have hbusiness : inst'.memory.store.business =
      { BusinessState.empty with paragraphs := found.memory.paragraphs } := by rw [hstore]
  constructor
  · intro herased
    refine List.eq_nil_iff_forall_not_mem.mpr fun row hrow => ?_
    exact herased.same _ _ (LiteMemory.read_paragraph hbusiness hrow)
      ⟨row.1, row.2, hrow, rfl⟩
  · intro hnone
    have hempty : inst'.memory.store.business = .empty := by
      rw [hbusiness]
      have htable : found.memory.paragraphs = .empty := by
        cases hp : found.memory.paragraphs with
        | mk rows nodup =>
          rw [hp] at hnone
          subst hnone
          rfl
      rw [htable]
      rfl
    have hholds := LiteMemory.not_holds hempty hlog
    refine ⟨fun op r hr _ => hholds r (LiteMemory.read_held hr), ?_, fun hcfg => ?_⟩
    · intro now opened hopen op r hr _
      rw [hfiles] at hopen hvalid
      exact openStore_empty hempty hlog hvalid hopen r (LiteMemory.read_held hr)
    · have hsyncEq : inst'.memory.store.sync = sync := by rw [hstore]
      rw [hsyncEq]
      exact ended_tombstoned hcfg hnone hsync

/-! ## A function and a paragraph -/

/-- One call whose commit succeeds. -/
def graphRun : ClearRun := ⟨graphTime, fun _ => (graphTime, ""), false, .ok 2⟩

/-- A store of one function and one edge, as it was committed. -/
def graphInstance : LiteInstance := ⟨graphMemory, true, some 1⟩

/-- A store without a paragraph is erased. -/
theorem graph_erased :
    ∃ inst' disk',
      graphInstance.clearStore graphWriter graphRun ⟨graphMemory.rawPair, 1⟩ = .ok (inst', disk') ∧
        Erased graphWriter graphMemory inst' disk' := by
  have hreload : graphInstance.reloadForMutation graphWriter graphRun ⟨graphMemory.rawPair, 1⟩ =
      .ok graphInstance := rfl
  obtain ⟨⟨inst', disk'⟩, hclear⟩ := Except.exists_ok (show (graphInstance.clearStore graphWriter
    graphRun ⟨graphMemory.rawPair, 1⟩).toOption.isSome = true from rfl)
  exact ⟨inst', disk', hclear, (clear_erases_iff hreload hclear).mpr rfl⟩

/-- The store with the paragraph that its function came from. -/
def statedMemory : LiteMemory :=
  graphMemory.setBusiness { graphMemory.store.business with
    paragraphs := Table.empty.set ("p1", [("id", .str "p1"), ("raw_text", .str "Login")]) }

/-- The paragraph is still read after the store has been cleared. -/
theorem stated_not_erased :
    ∃ inst' disk',
      LiteInstance.clearStore graphWriter graphRun ⟨statedMemory, true, some 1⟩
          ⟨statedMemory.rawPair, 1⟩ = .ok (inst', disk') ∧
        ¬ Erased graphWriter statedMemory inst' disk' := by
  refine ⟨_, _, rfl, fun h => ?_⟩
  have hrow : ("p1", [("id", .str "p1"), ("raw_text", .str "Login")]) ∈
      statedMemory.paragraphs.rows := List.mem_singleton_self _
  exact h.same (.readContextNodes ["p1"]) _ (LiteMemory.read_paragraph rfl hrow)
    ⟨_, _, hrow, rfl⟩

end Memplex
