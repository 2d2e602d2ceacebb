import Memplex.Lib.Directory
import Memplex.Lite.Documents
import Memplex.Py.Dumps

/-!
# The durable pair of a lite store

`LiteDurability` keeps the memory document and the changelog document of a store in two files, and
the journal of a commit in a third. A commit publishes the journal, which holds the pair before it
and the pair that it writes, then replaces the two files, and takes the journal away. A load that
finds a journal completes its commit first, unless a file is neither what the journal's base has in
it nor what its target has.

The members of a dictionary have no order for the program; `keyOrdered` says of a document that the
model has them in the order of their keys, as the files have them. SHA-256, the check of the `sync`
subtree, and the semantic validator that the store hands over are parameters, `PairChecks`.
-/

namespace Memplex.Durability

open Lib

/-! ## Documents -/

mutual

/-- The members of every dictionary stand in the order of their keys. -/
def keyOrdered : Value → Bool
  | .arr items => keyOrderedItems items
  | .obj members =>
    decide ((members.map Prod.fst).Pairwise (· < ·)) && keyOrderedMembers members
  | _ => true

/-- `keyOrdered` on the elements of a list. -/
def keyOrderedItems : List Value → Bool
  | [] => true
  | x :: xs => keyOrdered x && keyOrderedItems xs

/-- `keyOrdered` on the values of a dictionary. -/
def keyOrderedMembers : Members → Bool
  | [] => true
  | (_, x) :: ms => keyOrdered x && keyOrderedMembers ms

end

/-- The JSON value is a list. -/
def isList : Value → Bool
  | .arr _ => true
  | _ => false

/-- The JSON value is a dictionary. -/
def isDict : Value → Bool
  | .obj _ => true
  | _ => false

/-- `LiteStorageIntegrityError(message)`. -/
def integrityError (message : String) : PyError := ⟨.liteStorageIntegrityError, message⟩

/-- `except (KeyError, TypeError, ValueError)`, and `LiteStorageIntegrityError` where it is named:
another error takes the place of these. -/
def raiseFrom {α : Type} (kinds : List ErrorKind) (e : PyError) (x : Except PyError α) :
    Except PyError α :=
  x.mapError fun e' => if e'.kind ∈ kinds then e else e'

/-- `LitePair`. -/
structure DurablePair where
  memory : Value
  changelog : Value
  generation : ℕ
  transactionId : String
deriving DecidableEq

namespace DurablePair

/-- `_empty_sync_state()`. -/
def emptySyncState : Value :=
  .obj [("batches", .arr []), ("compacted_through", Value.int 0), ("cursors", .arr []),
    ("deliveries", .arr []), ("entity_versions", .arr []), ("inbound_cursors", .arr []),
    ("inbox", .arr []), ("next_stream_seq", Value.int 1), ("outbox", .arr []),
    ("retention_floor", Value.int 0), ("snapshot_items", .arr []), ("snapshots", .arr []),
    ("targets", .arr []), ("tenant_binding", .null)]

/-- The pair of a store without files. -/
def empty : DurablePair where
  memory := .obj [("edges", .arr []), ("facts", .arr []), ("functions", .arr []),
    ("observations", .arr []), ("preferences", .arr []), ("schema_version", Value.int 2),
    ("sync", emptySyncState)]
  changelog := .arr []
  generation := 0
  transactionId := "empty"

/-- The documents have their members in order. -/
def Ordered (pair : DurablePair) : Prop :=
  keyOrdered pair.memory = true ∧ keyOrdered pair.changelog = true

instance (pair : DurablePair) : Decidable pair.Ordered := by unfold Ordered; infer_instance

end DurablePair

/-- A text of 64 characters out of `0123456789abcdef`. -/
def isDigest (s : String) : Bool :=
  s.toList.length = 64 && s.toList.all fun c => "0123456789abcdef".toList.contains c

/-- What the protocol takes from elsewhere. -/
structure PairChecks where
  /-- The digest of a document, by its canonical text. -/
  sha256 : Value → String
  /-- A digest is written in 64 hexadecimal digits. -/
  sha256_digest : ∀ v, isDigest (sha256 v) = true
  /-- `_validate_sync_state`. -/
  validateSyncState : Value → Except PyError Unit
  /-- `_validate_semantics`. -/
  validateSemantics : DurablePair → Except PyError Unit
  /-- The pair of a store without files passes. -/
  empty_semantics : validateSemantics .empty = .ok ()

/-! ## The memory document -/

/-- `_MEMORY_OPTIONAL_COLLECTION_KEYS`. -/
def memoryOptionalCollectionKeys : List String :=
  ["observations", "facts", "preferences", "paragraphs"]

/-- The collections of a memory document. -/
def memoryCollectionKeys : List String := ["functions", "edges"] ++ memoryOptionalCollectionKeys

/-- `required <= keys <= allowed`. -/
def keysBetween (d : Members) (required allowed : List String) : Bool :=
  (required.all fun k => d.keys.contains k) && d.keys.all fun k => allowed.contains k

/-- The check of the collections. -/
def checkCollections : Members → Except PyError Unit
  | [] => .ok ()
  | (name, v) :: ms => do
    require (memoryCollectionKeys.contains name = false ∨ isList v = true)
      (integrityError ("invalid Lite memory payload collection: " ++ name))
    checkCollections ms

/-- `_validate_memory_payload`. -/
def PairChecks.validateMemoryPayload (C : PairChecks) (allowLegacyMissingSchema : Bool)
    (memory : Value) : Except PyError Unit :=
  match memory with
  | .obj d =>
    match Members.get? d "schema_version" with
    | none => do
      require (allowLegacyMissingSchema = true ∧
          keysBetween d ["functions", "edges"] memoryCollectionKeys = true)
        (integrityError "missing or unknown Lite memory payload schema")
      checkCollections d
    | some (Value.int 2) => do
      require (keysBetween d ["schema_version", "functions", "edges", "sync"]
          (["schema_version", "sync"] ++ memoryCollectionKeys) = true)
        (integrityError "invalid Lite memory payload schema")
      C.validateSyncState (Members.getD d "sync" .null)
      checkCollections d
    | some (Value.int 1) => do
      require (keysBetween d ["schema_version", "functions", "edges"]
          (["schema_version"] ++ memoryCollectionKeys) = true)
        (integrityError "invalid Lite memory payload collection keys")
      checkCollections d
    | some _ => .error (integrityError "unsupported or invalid Lite memory payload schema")
  | _ => .error (integrityError "invalid Lite memory payload")

/-! ## Fields -/

/-- `_require_exact_keys`. -/
def requireExactKeys (v : Value) (keys : List String) (label : String) : Except PyError Members :=
  match v with
  | .obj d => do
    require (hasKeys d keys = true) (integrityError ("invalid Lite " ++ label ++ " schema"))
    return d
  | _ => .error (integrityError ("invalid Lite " ++ label ++ " schema"))

/-- `_require_format_version`. -/
def requireFormatVersion (v : Value) (label : String) : Except PyError Unit :=
  require (v = Value.int 2)
    (integrityError ("unsupported or invalid Lite " ++ label ++ " format_version"))

/-- `_require_generation`. -/
def requireGeneration (v : Value) (label : String) : Except PyError ℕ :=
  match v with
  | Value.int i => do
    require (0 ≤ i) (integrityError ("invalid Lite " ++ label ++ " generation"))
    return i.toNat
  | _ => .error (integrityError ("invalid Lite " ++ label ++ " generation"))

/-- `_require_transaction_id`. -/
def requireTransactionId (v : Value) (label : String) : Except PyError String :=
  match v with
  | .str s => do
    require (s ≠ "") (integrityError ("invalid Lite " ++ label ++ " transaction_id"))
    return s
  | _ => .error (integrityError ("invalid Lite " ++ label ++ " transaction_id"))

/-- `_require_digest`. -/
def requireDigest (v : Value) (label : String) : Except PyError String :=
  match v with
  | .str s => do
    require (isDigest s = true) (integrityError ("invalid Lite " ++ label ++ " digest"))
    return s
  | _ => .error (integrityError ("invalid Lite " ++ label ++ " digest"))

/-! ## Records and envelopes -/

/-- The record of a pair. -/
structure PairRecord where
  generation : ℕ
  transactionId : String
  memoryDigest : String
  changelogDigest : String
  crossDigest : String
deriving DecidableEq

/-- The record as a document. -/
def PairRecord.toValue (r : PairRecord) : Value :=
  .obj [("changelog_digest", .str r.changelogDigest), ("cross_digest", .str r.crossDigest),
    ("generation", Value.int r.generation), ("memory_digest", .str r.memoryDigest),
    ("transaction_id", .str r.transactionId)]

/-- `_PAIR_RECORD_KEYS`. -/
def pairRecordKeys : List String :=
  ["generation", "transaction_id", "memory_digest", "changelog_digest", "cross_digest"]

/-- `_validated_pair_record`. -/
def validatedPairRecord (v : Value) (label : String) : Except PyError PairRecord := do
  let d ← requireExactKeys v pairRecordKeys (label ++ " record")
  let generation ← requireGeneration (d.getD "generation" .null) label
  let transactionId ← requireTransactionId (d.getD "transaction_id" .null) label
  let memoryDigest ← requireDigest (d.getD "memory_digest" .null) label
  let changelogDigest ← requireDigest (d.getD "changelog_digest" .null) label
  let crossDigest ← requireDigest (d.getD "cross_digest" .null) label
  return ⟨generation, transactionId, memoryDigest, changelogDigest, crossDigest⟩

/-- `_validate_transition`. -/
def validateTransition (base target : DurablePair) : Except PyError Unit := do
  require (isDict base.memory = true ∧ isList base.changelog = true)
    (integrityError "invalid Lite base pair")
  require (isDict target.memory = true ∧ isList target.changelog = true)
    (integrityError "invalid Lite target pair")
  require (base.transactionId ≠ "") (integrityError "invalid Lite base transaction_id")
  require (target.transactionId ≠ "") (integrityError "invalid Lite target transaction_id")
  require (target.generation = base.generation + 1 ∧ target.transactionId ≠ base.transactionId)
    (integrityError "invalid Lite journal generation/transaction transition")

/-- One of the two files of a pair: the payload, and the digest of the other's. -/
def envelope (pair : DurablePair) (payload : Value) (peerDigest : String) : Value :=
  .obj [("format_version", Value.int 2), ("generation", Value.int pair.generation),
    ("payload", payload), ("peer_digest", .str peerDigest),
    ("transaction_id", .str pair.transactionId)]

/-- `_ENVELOPE_KEYS`. -/
def envelopeKeys : List String :=
  ["format_version", "generation", "transaction_id", "payload", "peer_digest"]

/-- `_JOURNAL_KEYS`. -/
def journalKeys : List String :=
  ["format_version", "base_record", "base_memory", "base_changelog", "target", "target_record"]

/-- `_JOURNAL_TARGET_KEYS`. -/
def journalTargetKeys : List String := ["memory", "changelog", "generation", "transaction_id"]

/-- The journal of a commit. -/
def journalOf (base target : DurablePair) (baseRecord targetRecord : PairRecord) : Value :=
  .obj [("base_changelog", base.changelog), ("base_memory", base.memory),
    ("base_record", baseRecord.toValue), ("format_version", Value.int 2),
    ("target", .obj [("changelog", target.changelog), ("generation", Value.int target.generation),
      ("memory", target.memory), ("transaction_id", .str target.transactionId)]),
    ("target_record", targetRecord.toValue)]

namespace PairChecks

variable (C : PairChecks)

/-- `_digest`. -/
def digest (v : Value) : Except PyError String := (canonicalJson v).map C.sha256

/-- `_pair_record`. -/
def pairRecord (pair : DurablePair) : Except PyError PairRecord := do
  let memoryDigest ← C.digest pair.memory
  let changelogDigest ← C.digest pair.changelog
  let crossDigest := C.sha256 (.obj [("changelog_digest", .str changelogDigest),
    ("generation", Value.int pair.generation), ("memory_digest", .str memoryDigest),
    ("transaction_id", .str pair.transactionId)])
  return ⟨pair.generation, pair.transactionId, memoryDigest, changelogDigest, crossDigest⟩

/-- `_envelopes`. -/
def envelopes (pair : DurablePair) : Except PyError (Value × Value) := do
  C.validateMemoryPayload (decide (pair.transactionId = "legacy")) pair.memory
  let memoryDigest ← C.digest pair.memory
  let changelogDigest ← C.digest pair.changelog
  return (envelope pair pair.memory changelogDigest, envelope pair pair.changelog memoryDigest)

end PairChecks

/-! ## Files -/

/-- The three files. -/
inductive PairName where
  | memory
  | changelog
  | journal
deriving DecidableEq

/-- What a file holds: a document, or nothing that is JSON. -/
abbrev PairFile := Option Value

/-- The files as they show, and as a crash may leave them. -/
abbrev PairDirectory := Directory PairName PairFile

/-- A step of the protocol on the files. -/
abbrev PairOp := DirOp PairName PairFile

/-- The file under a name. -/
def shown (d : PairDirectory) (name : PairName) : Option PairFile := (d name).current

/-- `_read`. -/
def readFile (file : PairFile) : Except PyError Value :=
  match file with
  | some v => .ok v
  | none => .error (integrityError "invalid Lite persistence file")

/-- A document with a format version. -/
def isEnvelope : Value → Bool
  | .obj d => Members.has d "format_version"
  | _ => false

namespace PairChecks

variable (C : PairChecks)

/-- The part of `_decode_pair` that reads two envelopes. -/
def decodeEnvelopes (memoryDoc changelogDoc : Value) : Except PyError DurablePair := do
  let m ← requireExactKeys memoryDoc envelopeKeys "memory envelope"
  let c ← requireExactKeys changelogDoc envelopeKeys "changelog envelope"
  requireFormatVersion (m.getD "format_version" .null) "memory envelope"
  requireFormatVersion (c.getD "format_version" .null) "changelog envelope"
  let memoryGeneration ← requireGeneration (m.getD "generation" .null) "memory envelope"
  let changelogGeneration ← requireGeneration (c.getD "generation" .null) "changelog envelope"
  let memoryTx ← requireTransactionId (m.getD "transaction_id" .null) "memory envelope"
  let changelogTx ← requireTransactionId (c.getD "transaction_id" .null) "changelog envelope"
  require (memoryGeneration = changelogGeneration ∧ memoryTx = changelogTx)
    (integrityError "Lite pair generation mismatch without journal")
  let changelogDigest ← C.digest (c.getD "payload" .null)
  let memoryDigest ← C.digest (m.getD "payload" .null)
  require (m.getD "peer_digest" .null = .str changelogDigest ∧
      c.getD "peer_digest" .null = .str memoryDigest)
    (integrityError "Lite pair cross-digest mismatch without journal")
  require (isList (c.getD "payload" .null) = true) (typeError "payload")
  C.validateMemoryPayload false (m.getD "payload" .null)
  return ⟨m.getD "payload" .null, c.getD "payload" .null, memoryGeneration, memoryTx⟩

/-- `_decode_pair`. -/
def decodePair (memoryDoc changelogDoc : Value) : Except PyError DurablePair :=
  if isEnvelope memoryDoc = false ∧ isEnvelope changelogDoc = false then do
    require (isList changelogDoc = true) (integrityError "legacy Lite pair has invalid shape")
    C.validateMemoryPayload true memoryDoc
    return ⟨memoryDoc, changelogDoc, 0, "legacy"⟩
  else if isEnvelope memoryDoc = false ∨ isEnvelope changelogDoc = false then
    .error (integrityError "Lite pair generation mismatch without journal")
  else
    raiseFrom [.keyError, .typeError, .valueError] (integrityError "invalid Lite pair envelope")
      (C.decodeEnvelopes memoryDoc changelogDoc)

/-! ## Recovery -/

/-- The target of a journal, and the record of its base. -/
def journalTarget (journal : Value) : Except PyError (DurablePair × PairRecord) := do
  let d ← requireExactKeys journal journalKeys "durable journal"
  requireFormatVersion (d.getD "format_version" .null) "journal"
  let t ← requireExactKeys (d.getD "target" .null) journalTargetKeys "journal target"
  let generation ← requireGeneration (t.getD "generation" .null) "journal target"
  let transactionId ← requireTransactionId (t.getD "transaction_id" .null) "journal target"
  let target : DurablePair :=
    ⟨t.getD "memory" .null, t.getD "changelog" .null, generation, transactionId⟩
  require (isList target.changelog = true) (typeError "journal target payload")
  C.validateMemoryPayload false target.memory
  let expected ← validatedPairRecord (d.getD "target_record" .null) "journal target"
  let record ← C.pairRecord target
  -- Two records have one text exactly when they are equal.
  require (expected = record) (valueError "digest")
  let baseRecord ← validatedPairRecord (d.getD "base_record" .null) "journal base"
  return (target, baseRecord)

/-- The member of a document that is a dictionary. -/
def memberOf (doc : Value) (key : String) : Value :=
  match doc with
  | .obj d => Members.getD d key .null
  | _ => .null

/-- The base and the target of a journal, as far as `_recover_locked` reads the journal alone. -/
def readJournal (journal : Value) : Except PyError (DurablePair × DurablePair) := do
  let kinds := [.keyError, .typeError, .valueError, .liteStorageIntegrityError]
  let invalid := integrityError "invalid Lite durable journal"
  let (target, baseRecord) ← raiseFrom kinds invalid (C.journalTarget journal)
  let base : DurablePair := ⟨memberOf journal "base_memory", memberOf journal "base_changelog",
    baseRecord.generation, baseRecord.transactionId⟩
  let record ← C.pairRecord base
  require (record = baseRecord) invalid
  require (isList base.changelog = true) invalid
  C.validateMemoryPayload (decide (base.transactionId = "legacy")) base.memory
  raiseFrom [.liteStorageIntegrityError] invalid (validateTransition base target)
  C.validateSemantics base
  C.validateSemantics target
  return (base, target)

/-- `_matches`: the document is the base's, or the target's. -/
def matchesSide (legacyBase : Bool) (document baseDoc targetDoc basePayload : Value) :
    Except PyError Bool := do
  let encoded ← canonicalJson document
  if encoded = (← canonicalJson baseDoc) then return true
  if encoded = (← canonicalJson targetDoc) then return true
  if legacyBase then return encoded = (← canonicalJson basePayload)
  return false

/-- The check of one file: it is there and matches, or it is not there and the base is the pair of a
store without files. -/
def checkSide (base : DurablePair) (file : Option PairFile)
    (baseDoc targetDoc basePayload : Value) : Except PyError Unit := do
  let foreign := integrityError "stale or foreign Lite journal cannot overwrite pair"
  match file with
  | some file =>
    let document ← readFile file
    let same ← matchesSide (base.transactionId = "legacy") document baseDoc targetDoc basePayload
    require (same = true) foreign
  | none => require (base.transactionId = "empty" ∧ base.generation = 0) foreign

/-- Replacing the two files, and taking the journal away. -/
def finishOps (memoryDoc changelogDoc : Value) : List PairOp :=
  [.replace .memory (some memoryDoc), .sync, .replace .changelog (some changelogDoc), .sync, .sync,
    .unlink .journal, .sync]

/-- `_recover_locked`: its steps on the files. -/
def recover (files : PairName → Option PairFile) : Except PyError (List PairOp) :=
  match files .journal with
  | none => .ok []
  | some file => do
    let journal ← readFile file
    let (base, target) ← C.readJournal journal
    let (baseMemory, baseChangelog) ← C.envelopes base
    let (memoryDoc, changelogDoc) ← C.envelopes target
    checkSide base (files .memory) baseMemory memoryDoc base.memory
    checkSide base (files .changelog) baseChangelog changelogDoc base.changelog
    return finishOps (← canonicalJson memoryDoc) (← canonicalJson changelogDoc)

/-! ## Loading and committing -/

/-- What `_load_authoritative_locked` makes of the two files. -/
def readPair (files : PairName → Option PairFile) : Except PyError DurablePair :=
  match files .memory, files .changelog with
  | none, none => .ok .empty
  | some memoryFile, some changelogFile => do
    let pair ← C.decodePair (← readFile memoryFile) (← readFile changelogFile)
    C.validateSemantics pair
    return pair
  | _, _ => .error (integrityError "Lite memory/changelog pair is incomplete without journal")

/-- `_load_authoritative_locked`, where no SQLite store has the authority: the files after the
recovery, and the pair in them. -/
def load (d : PairDirectory) : Except PyError (PairDirectory × DurablePair) := do
  let ops ← C.recover (shown d)
  let d := d.run ops
  return (d, ← C.readPair (shown d))

/-- What a call of `commit_locked` says of its arguments. -/
structure CommitCall where
  /-- The files are known to hold the base. -/
  baseVerified : Bool
  /-- The record of the base. -/
  baseRecord : Option PairRecord
  /-- The semantic validator has accepted the target. -/
  targetValidated : Bool

/-- What `commit_locked` does of a load, where the caller has not observed the base: the steps of
the recovery. The pairs are compared as documents, where the program compares with `==`, for which
`1` and `1.0` are one number. -/
def reload (d : PairDirectory) (base : DurablePair) : Except PyError (List PairOp) := do
  let recovery ← C.recover (shown d)
  let current ← C.readPair (shown (d.run recovery))
  require (current = base) (integrityError "Lite authoritative state changed before commit")
  return recovery

/-- The record of the base that the journal has. -/
def baseRecordOf (call : CommitCall) (base : DurablePair) : Except PyError PairRecord :=
  match call.baseVerified, call.baseRecord with
  | true, some record => .ok record
  | _, _ => C.pairRecord base

/-- `commit_locked`: its steps on the files. -/
def commitLocked (call : CommitCall) (d : PairDirectory) (base target : DurablePair) :
    Except PyError (List PairOp) := do
  let recovery ← (if call.baseVerified then .ok [] else C.reload d base)
  C.validateMemoryPayload (decide (base.transactionId = "legacy")) base.memory
  C.validateMemoryPayload false target.memory
  validateTransition base target
  (if call.targetValidated then .ok () else C.validateSemantics target)
  let (memoryDoc, changelogDoc) ← C.envelopes target
  let targetRecord ← C.pairRecord target
  let baseRecord ← C.baseRecordOf call base
  let journal ← canonicalJson (journalOf base target baseRecord targetRecord)
  let memoryDoc ← canonicalJson memoryDoc
  let changelogDoc ← canonicalJson changelogDoc
  return recovery ++ ([.replace .journal (some journal), .sync] ++
    finishOps memoryDoc changelogDoc)

end PairChecks

end Memplex.Durability
