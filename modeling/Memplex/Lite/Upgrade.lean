import Memplex.Lite.Reread
import Memplex.Lite.Validation

/-!
# The upgrade of historical documents

A store reads documents of two earlier layouts: with version 1 of the schema, and without any. It
decodes them, writes what it has decoded as documents of version 2, and commits these before it
works on them (`load`). `LitePair.Has` is what a pair of documents holds, and `decodePair_mem` that
all of it is decoded, the paragraphs apart; what was decoded is read again from what is written
(`Decoded.Rereads`). So an upgrade carries everything over, with one exception: the paragraphs,
which both earlier layouts may have, are not in the new documents (`upgrade_carries_iff`).
-/

namespace Memplex

open Lib

/-! ## What the durability layer accepts -/

/-- `_MEMORY_OPTIONAL_COLLECTION_KEYS`. -/
def memoryOptionalCollectionKeys : List String :=
  ["observations", "facts", "preferences", "paragraphs"]

/-- `_MEMORY_V1_REQUIRED_KEYS`. -/
def memoryV1RequiredKeys : List String := ["schema_version", "functions", "edges"]

/-- `_MEMORY_V1_ALLOWED_KEYS`. -/
def memoryV1AllowedKeys : List String := memoryV1RequiredKeys ++ memoryOptionalCollectionKeys

/-- The two documents of a store, out of their envelopes; a memory document without envelope is a
legacy one. The `sync` subtree is kept apart. -/
structure StoreFiles where
  memory : Members
  sync : Option SyncState
  changelog : List Value
  legacy : Bool

namespace StoreFiles

variable (files : StoreFiles)

/-- The value of `schema_version`. -/
def schemaVersion : Option Value := files.memory.get? "schema_version"

/-- The collections that are no list. -/
def misshapen : List String :=
  (["functions", "edges"] ++ memoryOptionalCollectionKeys).filter fun name =>
    match files.memory.get? name with
    | none => false
    | some (.arr _) => false
    | some _ => true

/-- `_validate_memory_payload`. -/
def validateMemoryPayload : Except PyError Unit := do
  let keys := files.memory.keys
  match files.schemaVersion with
  | none =>
    require (files.legacy = true ∧ files.sync = none ∧
        (∀ k ∈ ["functions", "edges"], k ∈ keys) ∧
        ∀ k ∈ keys, k ∈ ["functions", "edges"] ++ memoryOptionalCollectionKeys)
      ⟨.liteStorageIntegrityError, "missing or unknown Lite memory payload schema"⟩
  | some version =>
    if version = .int 2 then
      match files.sync with
      | none => .error (invalidLite "memory payload schema")
      | some sync => do
        require ((∀ k ∈ memoryV1RequiredKeys, k ∈ keys) ∧ ∀ k ∈ keys, k ∈ memoryV1AllowedKeys)
          (invalidLite "memory payload schema")
        sync.validate "memory"
    else if version = .int 1 then
      require (files.sync = none ∧ (∀ k ∈ memoryV1RequiredKeys, k ∈ keys) ∧
          ∀ k ∈ keys, k ∈ memoryV1AllowedKeys)
        (invalidLite "memory payload collection keys")
    else
      .error ⟨.liteStorageIntegrityError, "unsupported or invalid Lite memory payload schema"⟩
  require (files.misshapen = []) (invalidLite "memory payload collection")

/-- The pair that the documents are. -/
def pair : LitePair :=
  ⟨files.memory, files.sync.getD .empty, files.changelog, files.legacy⟩

/-- The documents are of an earlier layout: they have no transactions, or version 1 of the schema. A
recognized G002 document has version 1 too. -/
def historical : Bool := files.legacy || decide (files.schemaVersion = some (.int 1))

end StoreFiles

/-! ## The upgrade -/

/-- `_canonical_historical_pair`. -/
def canonicalHistoricalPair (d : Decoded) : StoreFiles where
  memory :=
    [("schema_version", .int 2),
      ("functions", .arr (d.functions.rows.map fun f => .obj f.toDict)),
      ("edges", .arr (d.edges.rows.map fun e => .obj (serializeEdge e))),
      ("observations", .arr (d.observations.rows.map fun o => .obj o.toDict)),
      ("facts", .arr (d.facts.rows.map fun f => .obj f.toDict)),
      ("preferences", .arr (d.preferences.rows.map fun p => .obj p.toDict))]
  sync := some .empty
  changelog := d.changelog.map fun e => .obj (serializeEvent e)
  legacy := false

section Load

variable (env : Env) (now : Timestamp)

/-- `_load`, as far as the documents go: the ones that are committed when it returns. -/
def load (files : StoreFiles) : Except PyError StoreFiles := do
  files.validateMemoryPayload
  let decoded ← decodePair env now files.pair
  if files.historical then
    let target := canonicalHistoricalPair decoded
    let _ ← decodePair env now target.pair
    target.validateMemoryPayload
    return target
  else
    return files

/-! ## What a pair holds -/

/-- Something that the documents of a store hold. -/
inductive StoreRecord where
  | function (f : Function)
  | edge (e : GraphEdge)
  | observation (o : Observation)
  | fact (f : Fact)
  | preference (p : Preference)
  | paragraph (row : Value)
  | event (e : ChangelogEvent)

/-- The record that an element of `functions` stands for: in a historical document of all nodes,
one of its memory type. -/
inductive NodeOf (legacy g002 : Bool) (raw : Value) : StoreRecord → Prop where
  | fact {f : Fact} (hg : g002 = true) (htype : rawMemoryType raw = .str "fact")
      (h : decodeFact false true raw = .ok f) : NodeOf legacy g002 raw (.fact f)
  | preference {p : Preference} (hg : g002 = true) (htype : rawMemoryType raw = .str "preference")
      (h : decodePreference false true raw = .ok p) : NodeOf legacy g002 raw (.preference p)
  | observation {o : Observation} (hg : g002 = true)
      (htype : rawMemoryType raw = .str "observation")
      (h : decodeObservation false true raw = .ok o) : NodeOf legacy g002 raw (.observation o)
  | function {f : Function}
      (hother : g002 = true → ∀ t ∈ ["fact", "preference", "observation"],
        rawMemoryType raw ≠ .str t)
      (h : decodeFunction env now legacy g002 raw = .ok f) : NodeOf legacy g002 raw (.function f)

/-- The elements of a collection of the memory document. -/
def LitePair.list (pair : LitePair) (name : String) : List Value :=
  match pair.memory.getD name (.arr []) with
  | .arr items => items
  | _ => []

/-- A historical document with all nodes among its functions. -/
def LitePair.g002 (pair : LitePair) : Bool := !pair.legacy && isRecognizedG002 pair.memory

/-- What a pair holds: what its raw records decode to, and its paragraphs. -/
inductive LitePair.Has (pair : LitePair) : StoreRecord → Prop where
  | node {raw : Value} {r : StoreRecord} (hraw : raw ∈ pair.list "functions")
      (h : NodeOf env now pair.legacy pair.g002 raw r) : pair.Has r
  | edge {raw : Value} {e : GraphEdge} (hraw : raw ∈ pair.list "edges")
      (h : decodeEdge env pair.legacy raw = .ok e) : pair.Has (.edge e)
  | observation {raw : Value} {o : Observation} (hraw : raw ∈ pair.list "observations")
      (h : decodeObservation pair.legacy false raw = .ok o) : pair.Has (.observation o)
  | fact {raw : Value} {f : Fact} (hraw : raw ∈ pair.list "facts")
      (h : decodeFact pair.legacy false raw = .ok f) : pair.Has (.fact f)
  | preference {raw : Value} {p : Preference} (hraw : raw ∈ pair.list "preferences")
      (h : decodePreference pair.legacy false raw = .ok p) : pair.Has (.preference p)
  | paragraph {row : Value} (hraw : row ∈ pair.list "paragraphs") : pair.Has (.paragraph row)
  | event {raw : Value} {e : ChangelogEvent} (hraw : raw ∈ pair.changelog)
      (h : deserializeEvent env raw = .ok e) : pair.Has (.event e)

end Load

/-- The record is among those that were decoded. -/
def Decoded.Mem (d : Decoded) : StoreRecord → Prop
  | .function f => f ∈ d.functions.rows
  | .edge e => e ∈ d.edges.rows
  | .observation o => o ∈ d.observations.rows
  | .fact f => f ∈ d.facts.rows
  | .preference p => p ∈ d.preferences.rows
  | .paragraph _ => False
  | .event e => e ∈ d.changelog

/-! ## Decoding a collection -/

section Collection

variable {ν κ : Type} [DecidableEq κ] {key : ν → κ} {duplicate : PyError}
  {decode : Value → Except PyError ν} {t t' : Table key}

/-- A record that is entered is the last one. -/
theorem loadRow_ok {r : ν} (h : loadRow duplicate t r = .ok t') : t'.rows = t.rows ++ [r] := by
  obtain ⟨_, hnew, heq⟩ := Except.bind_ok.mp h
  have hnone : t.get? (key r) = none := Option.isNone_iff_eq_none.mp (by
    simpa [Table.contains] using require_ok.mp hnew)
  rw [← Except.ok.inj heq]
  change upsertRow key r t.rows = _
  rw [upsertRow, if_neg]
  rintro ⟨x, hx, hkey⟩
  exact findRow_eq_none.mp hnone x hx hkey

/-- A record under a new key is entered. -/
theorem loadRow_new (duplicate : PyError) {r : ν} (h : ∀ x ∈ t.rows, key x ≠ key r) :
    ∃ t', loadRow duplicate t r = .ok t' := by
  have hnone : t.get? (key r) = none := findRow_eq_none.mpr h
  refine ⟨_, Except.bind_ok.mpr ⟨(), require_ok.mpr ?_, rfl⟩⟩
  rw [Table.contains, hnone]
  rfl

/-- Records under distinct new keys are entered one after the other. -/
theorem foldlM_loadRow {rows : List ν} (h : ((t.rows ++ rows).map key).Nodup) :
    rows.foldlM (loadRow duplicate) t = .ok ⟨t.rows ++ rows, h⟩ := by
  induction rows generalizing t with
  | nil => exact congrArg Except.ok (Table.ext (List.append_nil _).symm)
  | cons r rows ih =>
    have hnew : ∀ x ∈ t.rows, key x ≠ key r := by
      intro x hx
      rw [List.map_append, List.nodup_append] at h
      exact h.2.2 _ (List.mem_map_of_mem hx) _ (List.mem_map_of_mem (List.mem_cons_self ..))
    obtain ⟨t', ht'⟩ := loadRow_new duplicate hnew
    have hrows := loadRow_ok ht'
    have hrest : t'.rows ++ rows = t.rows ++ r :: rows := by rw [hrows, List.append_assoc]; rfl
    rw [List.foldlM_cons]
    refine Except.bind_ok.mpr ⟨t', ht', ?_⟩
    rw [ih (by rwa [hrest])]
    exact congrArg Except.ok (Table.ext hrest)

/-- Records that are written, and decode to what they were, are loaded again. -/
theorem loadItems_written {g : ν → Value} (h : ∀ r ∈ t.rows, decode (g r) = .ok r) :
    loadItems duplicate decode .empty (t.rows.map g) = .ok t := by
  have hload : ∀ (rows : List ν) (t' : Table key), (∀ r ∈ rows, decode (g r) = .ok r) →
      loadItems duplicate decode t' (rows.map g) = rows.foldlM (loadRow duplicate) t' := by
    intro rows
    induction rows with
    | nil => exact fun _ _ => rfl
    | cons r rows ih =>
      intro t' h
      obtain ⟨hr, hrows⟩ := List.forall_mem_cons.mp h
      rw [List.map_cons, List.foldlM_cons, loadItems, List.foldlM_cons, hr]
      exact congrArg (loadRow duplicate t' r >>= ·) (funext fun t'' => ih t'' hrows)
  rw [hload t.rows .empty h, foldlM_loadRow (t := .empty) t.nodup]
  rfl

/-- The rows of a table are entered into an empty one. -/
theorem loadRows_empty : loadRows duplicate .empty t = .ok t := by
  rw [loadRows, foldlM_loadRow (t := .empty) t.nodup]
  rfl

/-- What is in a table after a collection was loaded into it. -/
theorem mem_loadItems {items : List Value} (h : loadItems duplicate decode t items = .ok t')
    (r : ν) : r ∈ t'.rows ↔ r ∈ t.rows ∨ ∃ raw ∈ items, decode raw = .ok r := by
  induction items generalizing t with
  | nil =>
    obtain rfl : t = t' := Except.ok.inj h
    simp
  | cons raw items ih =>
    rw [loadItems, List.foldlM_cons] at h
    obtain ⟨t₁, hfirst, h⟩ := Except.bind_ok.mp h
    obtain ⟨x, hx, hload⟩ := Except.bind_ok.mp hfirst
    rw [ih h, loadRow_ok hload, List.mem_append, List.mem_singleton, List.exists_mem_cons_iff, hx,
      Except.ok.injEq, eq_comm (a := x), or_assoc]

/-- What is in a table after another one was entered into it. -/
theorem mem_loadRows {new : Table key} (h : loadRows duplicate t new = .ok t') (r : ν) :
    r ∈ t'.rows ↔ r ∈ t.rows ∨ r ∈ new.rows := by
  rw [loadRows] at h
  generalize new.rows = rows at h
  induction rows generalizing t with
  | nil =>
    obtain rfl : t = t' := Except.ok.inj h
    simp
  | cons x rows ih =>
    rw [List.foldlM_cons] at h
    obtain ⟨t₁, hfirst, h⟩ := Except.bind_ok.mp h
    rw [ih h, loadRow_ok hfirst, List.mem_append, List.mem_singleton, List.mem_cons, or_assoc]

end Collection

/-! ## Decoding a pair -/

section Pair

variable {env : Env} {now : Timestamp}

/-- An element of `functions` stands for one record at most. -/
theorem NodeOf.unique {legacy g002 : Bool} {raw : Value} {r r' : StoreRecord}
    (h : NodeOf env now legacy g002 raw r) (h' : NodeOf env now legacy g002 raw r') : r = r' := by
  cases h <;> cases h' <;> simp_all

/-- What was decoded after one element of `functions`. -/
theorem loadNode_mem {legacy g002 : Bool} {acc acc' : Decoded} {raw : Value}
    (h : loadNode env now legacy g002 acc raw = .ok acc') (r : StoreRecord) :
    acc'.Mem r ↔ acc.Mem r ∨ NodeOf env now legacy g002 raw r := by
  suffices hone : ∃ x, NodeOf env now legacy g002 raw x ∧ (acc'.Mem r ↔ acc.Mem r ∨ r = x) by
    obtain ⟨x, hx, hmem⟩ := hone
    rw [hmem]
    exact or_congr_right ⟨fun h => h ▸ hx, fun h => h.unique hx⟩
  unfold loadNode at h
  split_ifs at h with hfact hpreference hobservation
  · obtain ⟨f, hf, h⟩ := Except.bind_ok.mp h
    obtain ⟨facts, hload, heq⟩ := Except.bind_ok.mp h
    rw [← Except.ok.inj heq]
    simp only [Bool.and_eq_true, decide_eq_true_eq] at hfact
    refine ⟨_, .fact hfact.1 hfact.2 hf, ?_⟩
    cases r <;> simp [Decoded.Mem, loadRow_ok hload]
  · obtain ⟨p, hp, h⟩ := Except.bind_ok.mp h
    obtain ⟨preferences, hload, heq⟩ := Except.bind_ok.mp h
    rw [← Except.ok.inj heq]
    simp only [Bool.and_eq_true, decide_eq_true_eq] at hpreference
    refine ⟨_, .preference hpreference.1 hpreference.2 hp, ?_⟩
    cases r <;> simp [Decoded.Mem, loadRow_ok hload]
  · obtain ⟨o, ho, h⟩ := Except.bind_ok.mp h
    obtain ⟨observations, hload, heq⟩ := Except.bind_ok.mp h
    rw [← Except.ok.inj heq]
    simp only [Bool.and_eq_true, decide_eq_true_eq] at hobservation
    refine ⟨_, .observation hobservation.1 hobservation.2 ho, ?_⟩
    cases r <;> simp [Decoded.Mem, loadRow_ok hload]
  · obtain ⟨f, hf, h⟩ := Except.bind_ok.mp h
    obtain ⟨functions, hload, heq⟩ := Except.bind_ok.mp h
    rw [← Except.ok.inj heq]
    simp only [Bool.and_eq_true, decide_eq_true_eq, not_and] at hfact hpreference hobservation
    refine ⟨_, .function (fun hg => ?_) hf, ?_⟩
    · simp only [List.forall_mem_cons]
      exact ⟨hfact hg, hpreference hg, hobservation hg, nofun⟩
    · cases r <;> simp [Decoded.Mem, loadRow_ok hload]

/-- What was decoded after all elements of `functions`. -/
theorem foldlM_loadNode_mem {legacy g002 : Bool} {items : List Value} {acc acc' : Decoded}
    (h : items.foldlM (loadNode env now legacy g002) acc = .ok acc') (r : StoreRecord) :
    acc'.Mem r ↔ acc.Mem r ∨ ∃ raw ∈ items, NodeOf env now legacy g002 raw r := by
  induction items generalizing acc with
  | nil =>
    obtain rfl : acc = acc' := Except.ok.inj h
    simp
  | cons raw items ih =>
    rw [List.foldlM_cons] at h
    obtain ⟨acc₁, hfirst, h⟩ := Except.bind_ok.mp h
    rw [ih h, loadNode_mem hfirst, List.exists_mem_cons_iff, or_assoc]

/-- The collections of a pair are lists. -/
def LitePair.Listed (pair : LitePair) : Prop :=
  ∀ name ∈ ["functions", "edges", "observations", "facts", "preferences"],
    pair.items name = .ok (pair.list name)

/-- What a pair decodes to is what it holds, its paragraphs apart. -/
theorem decodePair_mem {pair : LitePair} {d : Decoded} (hlisted : pair.Listed)
    (h : decodePair env now pair = .ok d) (r : StoreRecord) :
    d.Mem r ↔ pair.Has env now r ∧ ∀ row, r ≠ .paragraph row := by
  simp only [LitePair.Listed, List.forall_mem_cons] at hlisted
  obtain ⟨hl1, hl2, hl3, hl4, hl5, -⟩ := hlisted
  obtain ⟨nodes, hnodes, h⟩ := Except.bind_ok.mp h
  obtain ⟨acc, hacc, h⟩ := Except.bind_ok.mp h
  obtain ⟨edgeItems, hedgeItems, h⟩ := Except.bind_ok.mp h
  obtain ⟨edges, hedges, h⟩ := Except.bind_ok.mp h
  obtain ⟨_, -, h⟩ := Except.bind_ok.mp h
  obtain ⟨observationItems, hobservationItems, h⟩ := Except.bind_ok.mp h
  obtain ⟨observations, hobservations, h⟩ := Except.bind_ok.mp h
  obtain ⟨factItems, hfactItems, h⟩ := Except.bind_ok.mp h
  obtain ⟨facts, hfacts, h⟩ := Except.bind_ok.mp h
  obtain ⟨preferenceItems, hpreferenceItems, h⟩ := Except.bind_ok.mp h
  obtain ⟨preferences, hpreferences, h⟩ := Except.bind_ok.mp h
  obtain ⟨observations', hobservations', h⟩ := Except.bind_ok.mp h
  obtain ⟨facts', hfacts', h⟩ := Except.bind_ok.mp h
  obtain ⟨preferences', hpreferences', h⟩ := Except.bind_ok.mp h
  obtain ⟨changelog, hchangelog, h⟩ := Except.bind_ok.mp h
  obtain ⟨_, -, heq⟩ := Except.bind_ok.mp h
  have hnodeList : nodes = pair.list "functions" := Except.ok.inj (hnodes.symm.trans hl1)
  have hedgeList : edgeItems = pair.list "edges" := Except.ok.inj (hedgeItems.symm.trans hl2)
  have hobservationList : observationItems = pair.list "observations" :=
    Except.ok.inj (hobservationItems.symm.trans hl3)
  have hfactList : factItems = pair.list "facts" := Except.ok.inj (hfactItems.symm.trans hl4)
  have hpreferenceList : preferenceItems = pair.list "preferences" :=
    Except.ok.inj (hpreferenceItems.symm.trans hl5)
  subst hnodeList hedgeList hobservationList hfactList hpreferenceList
  have hnode : acc.Mem r ↔ ∃ raw ∈ pair.list "functions",
      NodeOf env now pair.legacy pair.g002 raw r := by
    rw [foldlM_loadNode_mem hacc, or_iff_right]
    · rfl
    · cases r <;> simp [Decoded.Mem, Table.empty]
  rw [← Except.ok.inj heq]
  cases r with
  | function f =>
    refine hnode.trans ⟨fun ⟨_, hraw, h⟩ => ⟨.node hraw h, nofun⟩, fun ⟨h, _⟩ => ?_⟩
    cases h with
    | node hraw h => exact ⟨_, hraw, h⟩
  | edge e =>
    refine (mem_loadItems hedges e).trans ⟨?_, fun ⟨h, _⟩ => ?_⟩
    · rintro (hno | ⟨_, hraw, h⟩)
      · exact (List.not_mem_nil hno).elim
      · exact ⟨.edge hraw h, nofun⟩
    · cases h with
      | node _ h => exact nomatch h
      | edge hraw h => exact .inr ⟨_, hraw, h⟩
  | observation o =>
    have hmem := (mem_loadRows hobservations' o).trans (or_congr hnode
      (mem_loadItems hobservations o))
    refine hmem.trans ⟨?_, fun ⟨h, _⟩ => ?_⟩
    · rintro (⟨_, hraw, h⟩ | hno | ⟨_, hraw, h⟩)
      · exact ⟨.node hraw h, nofun⟩
      · exact (List.not_mem_nil hno).elim
      · exact ⟨.observation hraw h, nofun⟩
    · cases h with
      | node hraw h => exact .inl ⟨_, hraw, h⟩
      | observation hraw h => exact .inr (.inr ⟨_, hraw, h⟩)
  | fact f =>
    have hmem := (mem_loadRows hfacts' f).trans (or_congr hnode (mem_loadItems hfacts f))
    refine hmem.trans ⟨?_, fun ⟨h, _⟩ => ?_⟩
    · rintro (⟨_, hraw, h⟩ | hno | ⟨_, hraw, h⟩)
      · exact ⟨.node hraw h, nofun⟩
      · exact (List.not_mem_nil hno).elim
      · exact ⟨.fact hraw h, nofun⟩
    · cases h with
      | node hraw h => exact .inl ⟨_, hraw, h⟩
      | fact hraw h => exact .inr (.inr ⟨_, hraw, h⟩)
  | preference p =>
    have hmem := (mem_loadRows hpreferences' p).trans (or_congr hnode
      (mem_loadItems hpreferences p))
    refine hmem.trans ⟨?_, fun ⟨h, _⟩ => ?_⟩
    · rintro (⟨_, hraw, h⟩ | hno | ⟨_, hraw, h⟩)
      · exact ⟨.node hraw h, nofun⟩
      · exact (List.not_mem_nil hno).elim
      · exact ⟨.preference hraw h, nofun⟩
    · cases h with
      | node hraw h => exact .inl ⟨_, hraw, h⟩
      | preference hraw h => exact .inr (.inr ⟨_, hraw, h⟩)
  | paragraph row => exact ⟨False.elim, fun h => h.2 row rfl⟩
  | event e =>
    refine (Except.mem_mapM hchangelog e).trans ⟨fun ⟨_, hraw, h⟩ => ⟨.event hraw h, nofun⟩,
      fun ⟨h, _⟩ => ?_⟩
    cases h with
    | node _ h => exact nomatch h
    | event hraw h => exact ⟨_, hraw, h⟩

/-! ## The new documents -/

/-- The functions of a document that is not a historical one of all nodes. -/
theorem foldlM_loadNode_functions {legacy : Bool} {items : List Value} {acc : Decoded} :
    items.foldlM (loadNode env now legacy false) acc =
      (loadItems (valueError "duplicate Lite Function id") (decodeFunction env now legacy false)
        acc.functions items).map fun functions => { acc with functions := functions } := by
  induction items generalizing acc with
  | nil => rfl
  | cons raw items ih =>
    rw [List.foldlM_cons, loadItems, List.foldlM_cons]
    unfold loadNode
    simp only [Bool.false_and, Bool.false_eq_true, if_false]
    cases decodeFunction env now legacy false raw with
    | error e => rfl
    | ok f =>
      change (loadRow _ acc.functions f >>= _) >>= _ =
        (loadRow _ acc.functions f >>= _).map _
      cases loadRow (valueError "duplicate Lite Function id") acc.functions f with
      | error e => rfl
      | ok functions => exact ih

/-- The records that were decoded are all read back from what is written of them. -/
structure Decoded.Rereads (env : Env) (now : Timestamp) (d : Decoded) : Prop where
  functions : ∀ f ∈ d.functions.rows, decodeFunction env now false false (.obj f.toDict) = .ok f
  edges : ∀ e ∈ d.edges.rows, decodeEdge env false (.obj (serializeEdge e)) = .ok e
  observations : ∀ o ∈ d.observations.rows, decodeObservation false false (.obj o.toDict) = .ok o
  facts : ∀ f ∈ d.facts.rows, decodeFact false false (.obj f.toDict) = .ok f
  preferences : ∀ p ∈ d.preferences.rows, decodePreference false false (.obj p.toDict) = .ok p
  changelog : ∀ e ∈ d.changelog, deserializeEvent env (.obj (serializeEvent e)) = .ok e

/-- The new documents decode to the records that they were written from. -/
theorem Decoded.Rereads.decodePair {d : Decoded} (h : d.Rereads env now)
    (hgraph : validateBelongsToEdges env d.functions d.edges.rows = .ok ()) :
    decodePair env now (canonicalHistoricalPair d).pair = .ok { d with sync := .empty } := by
  have hnodes : (d.functions.rows.map fun f => (Json.obj f.toDict : Value)).foldlM
      (loadNode env now false false) ⟨.empty, .empty, .empty, .empty, .empty, [], .empty⟩ =
      .ok ⟨d.functions, .empty, .empty, .empty, .empty, [], .empty⟩ := by
    rw [foldlM_loadNode_functions, loadItems_written h.functions]
    rfl
  exact Except.bind_ok.mpr ⟨_, rfl, Except.bind_ok.mpr ⟨_, hnodes, Except.bind_ok.mpr ⟨_, rfl,
    Except.bind_ok.mpr ⟨d.edges, loadItems_written h.edges, Except.bind_ok.mpr ⟨(), hgraph,
    Except.bind_ok.mpr ⟨_, rfl, Except.bind_ok.mpr ⟨_, loadItems_written h.observations,
    Except.bind_ok.mpr ⟨_, rfl, Except.bind_ok.mpr ⟨_, loadItems_written h.facts,
    Except.bind_ok.mpr ⟨_, rfl, Except.bind_ok.mpr ⟨_, loadItems_written h.preferences,
    Except.bind_ok.mpr ⟨_, loadRows_empty, Except.bind_ok.mpr ⟨_, loadRows_empty,
    Except.bind_ok.mpr ⟨_, loadRows_empty, Except.bind_ok.mpr ⟨_, Except.mapM_map h.changelog,
    Except.bind_ok.mpr ⟨(), require_ok.mpr nofun, rfl⟩⟩⟩⟩⟩⟩⟩⟩⟩⟩⟩⟩⟩⟩⟩⟩

/-! ## What an upgrade carries over -/

/-- The elements of the collections of a document have distinct keys, as it has. -/
theorem wellKeyed_of_mem_list {pair : LitePair} (hkeyed : (Json.obj pair.memory : Value).wellKeyed)
    {name : String} {raw : Value} (hraw : raw ∈ pair.list name) : raw.wellKeyed = true := by
  have hlist := wellKeyed_getD name (.arr []) hkeyed rfl
  unfold LitePair.list at hraw
  revert hlist hraw
  cases pair.memory.getD name (.arr []) with
  | arr items => exact fun hraw hlist => (Json.wellKeyed_arr items).mp hlist raw hraw
  | _ => exact fun hraw => (List.not_mem_nil hraw).elim

/-- What was decoded from a document is read back from what is written of it, at any time. -/
theorem Decoded.rereads (henv : env.ReadsBack) {pair : LitePair} {d : Decoded}
    (hlisted : pair.Listed) (hkeyed : (Json.obj pair.memory : Value).wellKeyed = true)
    (h : Memplex.decodePair env now pair = .ok d) (later : Timestamp) : d.Rereads env later := by
  have hkey : ∀ {name raw}, raw ∈ pair.list name → raw.wellKeyed = true :=
    wellKeyed_of_mem_list hkeyed
  have hmem := fun r => decodePair_mem hlisted h r
  constructor
  · intro f hf
    obtain ⟨hhas, -⟩ := (hmem (.function f)).mp hf
    cases hhas with
    | node hraw hnode =>
      cases hnode with
      | function _ hdecode => exact Function.decodeFunction_toDict henv (hkey hraw) hdecode
  · intro e he
    obtain ⟨hhas, -⟩ := (hmem (.edge e)).mp he
    cases hhas with
    | node _ hnode => exact nomatch hnode
    | edge _ hdecode => exact decodeEdge_serialize henv hdecode
  · intro o ho
    obtain ⟨hhas, -⟩ := (hmem (.observation o)).mp ho
    cases hhas with
    | node hraw hnode =>
      cases hnode with
      | observation _ _ hdecode => exact decodeObservation_toDict (hkey hraw) hdecode
    | observation hraw hdecode => exact decodeObservation_toDict (hkey hraw) hdecode
  · intro f hf
    obtain ⟨hhas, -⟩ := (hmem (.fact f)).mp hf
    cases hhas with
    | node hraw hnode =>
      cases hnode with
      | fact _ _ hdecode => exact decodeFact_toDict (hkey hraw) hdecode
    | fact hraw hdecode => exact decodeFact_toDict (hkey hraw) hdecode
  · intro p hp
    obtain ⟨hhas, -⟩ := (hmem (.preference p)).mp hp
    cases hhas with
    | node hraw hnode =>
      cases hnode with
      | preference _ _ hdecode => exact decodePreference_toDict (hkey hraw) hdecode
    | preference hraw hdecode => exact decodePreference_toDict (hkey hraw) hdecode
  · intro e he
    obtain ⟨hhas, -⟩ := (hmem (.event e)).mp he
    cases hhas with
    | node _ hnode => exact nomatch hnode
    | event _ hdecode => exact deserializeEvent_serialize henv hdecode

/-- The collections of accepted documents are lists. -/
theorem StoreFiles.misshapen_eq {files : StoreFiles}
    (h : files.validateMemoryPayload = .ok ()) : files.misshapen = [] := by
  unfold validateMemoryPayload at h
  dsimp only at h
  split at h
  · obtain ⟨_, -, h⟩ := Except.bind_ok.mp h
    exact require_ok.mp h
  · split_ifs at h
    · split at h
      · cases h
      · obtain ⟨_, -, h⟩ := Except.bind_ok.mp h
        obtain ⟨_, -, h⟩ := Except.bind_ok.mp h
        exact require_ok.mp h
    · obtain ⟨_, -, h⟩ := Except.bind_ok.mp h
      exact require_ok.mp h
    · cases h

theorem StoreFiles.listed {files : StoreFiles} (h : files.validateMemoryPayload = .ok ()) :
    files.pair.Listed := by
  have hshape := List.filter_eq_nil_iff.mp (misshapen_eq h)
  have hitems : ∀ name ∈ ["functions", "edges"] ++ memoryOptionalCollectionKeys,
      files.pair.items name = .ok (files.pair.list name) := by
    intro name hname
    have hone := hshape name hname
    unfold LitePair.items LitePair.list Members.getD
    change pyIter ((files.memory.get? name).getD (.arr [])) = .ok (match
      (files.memory.get? name).getD (.arr []) with
      | .arr items => items
      | _ => [])
    revert hone
    cases files.memory.get? name with
    | none => exact fun _ => rfl
    | some v =>
      cases v with
      | arr items => exact fun _ => rfl
      | _ => exact fun hone => absurd rfl hone
  simp only [LitePair.Listed, List.forall_mem_cons]
  exact ⟨hitems _ (by decide), hitems _ (by decide), hitems _ (by decide), hitems _ (by decide),
    hitems _ (by decide), nofun⟩

/-- The new documents are accepted. -/
theorem canonicalHistoricalPair_valid (d : Decoded) :
    (canonicalHistoricalPair d).validateMemoryPayload = .ok () := by
  have hsync : SyncState.empty.validate "memory" = .ok () := by decide
  have hkeys : (canonicalHistoricalPair d).memory.keys =
      ["schema_version", "functions", "edges", "observations", "facts", "preferences"] := rfl
  have hversion : (canonicalHistoricalPair d).schemaVersion = some (.int 2) := rfl
  have hshape : (canonicalHistoricalPair d).misshapen = [] := rfl
  have hkept : (canonicalHistoricalPair d).sync = some .empty := rfl
  unfold StoreFiles.validateMemoryPayload
  dsimp only
  rw [hversion]
  dsimp only
  rw [if_pos rfl, hkept, hkeys]
  exact Except.bind_ok.mpr ⟨(), require_ok.mpr (by decide), Except.bind_ok.mpr ⟨(), hsync,
    require_ok.mpr hshape⟩⟩

/-- An upgrade commits what the records of the documents are written as, and no paragraphs. -/
theorem load_historical {files target : StoreFiles} (hhistorical : files.historical = true)
    (h : load env now files = .ok target) :
    ∃ d, decodePair env now files.pair = .ok d ∧ target = canonicalHistoricalPair d := by
  obtain ⟨_, -, h⟩ := Except.bind_ok.mp h
  obtain ⟨d, hd, h⟩ := Except.bind_ok.mp h
  rw [if_pos hhistorical] at h
  obtain ⟨_, -, h⟩ := Except.bind_ok.mp h
  obtain ⟨_, -, heq⟩ := Except.bind_ok.mp h
  exact ⟨d, hd, (Except.ok.inj heq).symm⟩

theorem canonicalHistoricalPair_paragraph (d : Decoded) (row : Value) :
    ¬ (canonicalHistoricalPair d).pair.Has env now (.paragraph row) := by
  intro h
  cases h with
  | node _ hnode => exact nomatch hnode
  | paragraph hrow => exact List.not_mem_nil hrow

/-- Documents of the present layout. -/
def StoreFiles.Current (files : StoreFiles) : Prop :=
  files.schemaVersion = some (.int 2) ∧ files.legacy = false ∧
    files.validateMemoryPayload = .ok ()

/-- The upgrade of documents of an earlier layout leaves documents of the present one that hold all
that the earlier ones held, whenever they are read, exactly when their records decode and there are
no paragraphs among them. -/
theorem upgrade_carries_iff (henv : env.ReadsBack) {files : StoreFiles}
    (hkeyed : (Json.obj files.memory : Value).wellKeyed = true)
    (hvalid : files.validateMemoryPayload = .ok ()) (hhistorical : files.historical = true) :
    (∃ target, load env now files = .ok target ∧ target.Current ∧
        ∀ later r, files.pair.Has env now r → target.pair.Has env later r) ↔
      (∃ d, decodePair env now files.pair = .ok d) ∧ files.pair.list "paragraphs" = [] := by
  constructor
  · rintro ⟨target, hload, -, hcarried⟩
    obtain ⟨d, hd, rfl⟩ := load_historical hhistorical hload
    refine ⟨⟨d, hd⟩, List.eq_nil_iff_forall_not_mem.mpr fun row hrow => ?_⟩
    exact canonicalHistoricalPair_paragraph d row (hcarried now _ (.paragraph hrow))
  · rintro ⟨⟨d, hd⟩, hnone⟩
    have hlisted := StoreFiles.listed hvalid
    have hnew := canonicalHistoricalPair_valid d
    have hreread : ∀ later, decodePair env later (canonicalHistoricalPair d).pair =
        .ok { d with sync := .empty } := fun later =>
      (Decoded.rereads henv hlisted hkeyed hd later).decodePair (decodePair_graph hd)
    refine ⟨canonicalHistoricalPair d, ?_, ⟨rfl, rfl, hnew⟩, fun later r hr => ?_⟩
    · refine Except.bind_ok.mpr ⟨(), hvalid, Except.bind_ok.mpr ⟨d, hd, ?_⟩⟩
      rw [if_pos hhistorical]
      exact Except.bind_ok.mpr ⟨_, hreread now, Except.bind_ok.mpr ⟨(), hnew, rfl⟩⟩
    · have hother : ∀ row, r ≠ .paragraph row := by
        rintro row rfl
        cases hr with
        | node _ hnode => exact nomatch hnode
        | paragraph hrow => rw [hnone] at hrow; exact List.not_mem_nil hrow
      have hmem : d.Mem r := (decodePair_mem hlisted hd r).mpr ⟨hr, hother⟩
      have hsame : Decoded.Mem { d with sync := .empty } r ↔ d.Mem r := by cases r <;> rfl
      exact ((decodePair_mem (StoreFiles.listed hnew) (hreread later) r).mp (hsame.mpr hmem)).1

end Pair

/-! ## Two documents -/

theorem upgradeTime_valid : validTime 2026 1 1 0 0 0 0 := by decide

/-- A reading of the clock. -/
def upgradeTime : Timestamp := ⟨2026, 1, 1, 0, 0, 0, 0, upgradeTime_valid⟩

/-- An environment for documents without times. -/
def timelessEnv : Env := ⟨id, id, fun _ => none⟩

theorem timelessEnv_readsBack : timelessEnv.ReadsBack :=
  ⟨fun _ _ h => absurd h (by simp [timelessEnv]), fun _ _ h => absurd h (by simp [timelessEnv])⟩

/-- A document without envelope, of one function and one edge. -/
def legacyFiles : StoreFiles where
  memory :=
    [("functions", .arr [.obj [("id", .str "login"), ("name", .str "Login")]]),
      ("edges", .arr [.obj [("source", .str "login"), ("target", .str "session"),
        ("edge_type", .str "DEPENDS_ON")]])]
  sync := none
  changelog := []
  legacy := true

/-- The upgrade of a document without envelope. -/
theorem upgrade_carries_legacy :
    ∃ target, load timelessEnv upgradeTime legacyFiles = .ok target ∧ target.Current ∧
      ∀ later r, legacyFiles.pair.Has timelessEnv upgradeTime r →
        target.pair.Has timelessEnv later r :=
  (upgrade_carries_iff timelessEnv_readsBack (by decide) (by decide) rfl).mpr ⟨⟨_, rfl⟩, rfl⟩

/-- A document of version 1 with one paragraph. -/
def paragraphFiles : StoreFiles where
  memory :=
    [("schema_version", .int 1), ("functions", .arr []), ("edges", .arr []),
      ("paragraphs", .arr [.obj [("id", .str "p1"), ("raw_text", .str "Login needs a session.")]])]
  sync := none
  changelog := []
  legacy := false

/-- The upgrade of a document of version 1 loses its paragraph. -/
theorem upgrade_loses_paragraph :
    paragraphFiles.validateMemoryPayload = .ok () ∧ paragraphFiles.historical = true ∧
      (∃ target, load timelessEnv upgradeTime paragraphFiles = .ok target ∧ target.Current) ∧
      ¬ ∃ target, load timelessEnv upgradeTime paragraphFiles = .ok target ∧
        ∀ later r, paragraphFiles.pair.Has timelessEnv upgradeTime r →
          target.pair.Has timelessEnv later r := by
  refine ⟨by decide, rfl, ⟨_, rfl, rfl, rfl, canonicalHistoricalPair_valid _⟩, ?_⟩
  rintro ⟨target, hload, hcarried⟩
  obtain ⟨d, -, rfl⟩ := load_historical rfl hload
  exact canonicalHistoricalPair_paragraph d _
    (hcarried upgradeTime _ (.paragraph (List.mem_singleton_self _)))

end Memplex
