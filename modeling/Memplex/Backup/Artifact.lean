import Memplex.Backup.Manifest
import Memplex.Lib.Exits

/-!
# Publishing a backup

`BackupArtifactWriter.publish` writes a payload and its signed manifest into a temporary directory
of the root, and renames it to the id of the backup, which no directory may have yet.
`open_verified_backup_artifact` accepts a directory with these two files in it, if the manifest is
signed with the key, and the payload is the one that it describes.

Every call to the system may raise (`PublishRun.fails`). The root belongs to the writer: nobody else
renames in it while it publishes, so that what fails of the check of its identity is the `lstat`.
A descriptor is given up even where closing it raises, as on the two systems that `publish` can
rename on.
-/

namespace Memplex

open Lib

/-! ## Files -/

/-- What stands under a name in an artifact. -/
inductive FileEntry where
  /-- A regular file. -/
  | file (bytes : ByteArray)
  /-- Anything else: a link, a directory, a device. -/
  | other
deriving DecidableEq

/-- The entries of an artifact, as they are listed. -/
abbrev ArtifactFiles := List (String × FileEntry)

/-- What stands under a name in the root. -/
inductive RootEntry where
  | directory (files : ArtifactFiles)
  | other
deriving DecidableEq

/-- The root of the artifacts. -/
abbrev BackupRoot := String → Option RootEntry

/-- `_PUBLISHED_PAYLOAD_NAME`. -/
def publishedPayloadName : String := "payload.dump"

/-- `_PUBLISHED_MANIFEST_NAME`. -/
def publishedManifestName : String := "manifest.json"

/-- `_MAX_MANIFEST_BYTES`. -/
def maxManifestBytes : ℕ := 1024 * 1024

/-- `_MANIFEST_INPUT_KEYS`. -/
def manifestInputKeys : List String :=
  manifestKeys.filter fun key => !(["payload_sha256", "payload_size", "key_id",
    "signature"].contains key)

/-- Bytes one after the other. -/
def joinBytes (pieces : List ByteArray) : ByteArray := pieces.foldl (· ++ ·) .empty

/-- The hashes, as texts of hexadecimal digits. -/
structure BackupHashes where
  sha256 : ByteArray → String
  hmacSha256 : ByteArray → ByteArray → String
  sha256_text : ∀ data, Sha256Text (sha256 data)
  hmac_text : ∀ key data, Sha256Text (hmacSha256 key data)

/-! ## Signing and verifying -/

namespace BackupManifest

variable (H : BackupHashes)

/-- `signed`, with a key of 32 bytes. -/
def signed (m : BackupManifest) (key : ByteArray) : Except PyError BackupManifest := do
  let bytes ← m.canonicalUnsignedBytes
  return { m with signature := H.hmacSha256 key bytes }

/-- `verify`, with a key of 32 bytes. -/
def verify (m : BackupManifest) (key : ByteArray) : Except PyError Unit := do
  let bytes ← m.canonicalUnsignedBytes
  require (H.hmacSha256 key bytes = m.signature)
    ⟨.backupIntegrityError, "backup_signature_invalid"⟩

end BackupManifest

/-- `BackupIntegrityError("backup_artifact_invalid")`. -/
def invalidArtifact : PyError := ⟨.backupIntegrityError, "backup_artifact_invalid"⟩

/-- The bytes of a regular file. -/
def readRegular (files : ArtifactFiles) (name : String) : Except PyError ByteArray :=
  match (findRow Prod.fst name files).map Prod.snd with
  | some (.file bytes) => .ok bytes
  | _ => .error invalidArtifact

/-- What a directory lists. -/
def listDirectory : Option RootEntry → Except PyError ArtifactFiles
  | some (.directory files) => .ok files
  | _ => .error invalidArtifact

/-- `open_verified_backup_artifact`, on what stands under the path: the manifest and the payload. -/
def openVerified (H : BackupHashes) (entry : Option RootEntry) (key : ByteArray) :
    Except PyError (BackupManifest × ByteArray) :=
  Except.mapError (fun e => if e.kind = .backupConfigurationError then e else invalidArtifact) do
    require (key.size = 32) ⟨.backupConfigurationError, "backup_signing_key_invalid"⟩
    let files ← listDirectory entry
    require ((files.map Prod.fst).length = 2 ∧ publishedManifestName ∈ files.map Prod.fst ∧
      publishedPayloadName ∈ files.map Prod.fst) invalidArtifact
    let data ← readRegular files publishedManifestName
    require (data.size ≤ maxManifestBytes) invalidArtifact
    let manifest ← manifestFromJson data
    require (manifest.payloadName = publishedPayloadName) invalidArtifact
    manifest.verify H key
    let payload ← readRegular files publishedPayloadName
    require (payload.size = manifest.payloadSize) invalidArtifact
    require (H.sha256 payload = manifest.payloadSha256) invalidArtifact
    return (manifest, payload)

/-! ## The writer -/

/-- `BackupArtifactWriter`: what its constructor lets through. -/
structure BackupArtifactWriter where
  key : ByteArray
  keyId : String
  maxBytes : ℕ
  key_size : key.size = 32
  keyId_text : ManifestText keyId
  maxBytes_pos : 0 < maxBytes

namespace BackupArtifactWriter

variable (W : BackupArtifactWriter) (H : BackupHashes)

/-- What the writer adds to the fields that it is given, which have other keys. -/
def addedFields (payload : ByteArray) : Members :=
  [("payload_sha256", .str (H.sha256 payload)), ("payload_size", Value.int payload.size),
    ("key_id", .str W.keyId), ("signature", .str (String.ofList (List.replicate 64 '0')))]

/-- The manifest of a payload. -/
def manifestOf (fields : Members) (payload : ByteArray) : Except PyError BackupManifest := do
  let manifest ← BackupManifest.fromMembers (fields ++ W.addedFields H payload)
  manifest.signed H W.key

end BackupArtifactWriter

/-- The calls of `publish` to the system, and the checks of the root. -/
inductive PublishCall where
  | openSource
  | makeRoot
  | openRoot
  | chmodRoot
  | matchRoot (time : ℕ)
  | makeTemporary
  | openTemporary
  | chmodTemporary
  | create (name : String)
  | chmod (name : String)
  | read (chunk : ℕ)
  | write (name : String) (chunk piece : ℕ)
  | sync (name : String)
  | close (name : String)
  | syncTemporary
  | rename
  | closeTemporary
  | syncRoot
  | unlink (name : String)
  | removeTemporary
deriving DecidableEq

/-- What the system does in one run of `publish`. -/
structure PublishRun where
  /-- The calls that raise. -/
  fails : PublishCall → Bool
  /-- `os.name == "posix"`. -/
  posix : Bool
  /-- The C library can rename without replacing. -/
  renameNoreplace : Bool
  /-- The digits of the temporary name. -/
  uuidHex : String
  /-- The payload in the chunks that are read, and each of them in the pieces that are written. -/
  chunks : List (List ByteArray)
  /-- The pieces in which the manifest is written. -/
  pieces : ByteArray → List ByteArray
  join_pieces : ∀ data, joinBytes (pieces data) = data

/-- The root, and the local variables of `publish` that its exits read. -/
structure PublishState where
  root : BackupRoot
  /-- `temporary_name is not None`. -/
  named : Bool
  /-- The directory that is open under `temporary_fd`, by its name in the root. -/
  descriptor : Option String
  renamed : Bool

/-- The state with an entry under a name of the root. -/
def PublishState.withEntry (s : PublishState) (name : String) (entry : Option RootEntry) :
    PublishState :=
  { s with root := Function.update s.root name entry }

namespace PublishState

variable {s : PublishState} {name name' : String} {entry : Option RootEntry}

@[simp] theorem withEntry_self : (s.withEntry name entry).root name = entry :=
  Function.update_self ..

theorem withEntry_of_ne (h : name' ≠ name) : (s.withEntry name entry).root name' = s.root name' :=
  Function.update_of_ne h ..

end PublishState

/-- `OSError`. -/
def osError : PyError := ⟨.osError, ""⟩

/-- `BackupConfigurationError("backup_atomic_publish_unsupported")`. -/
def publishUnsupported : PyError :=
  ⟨.backupConfigurationError, "backup_atomic_publish_unsupported"⟩

/-- `BackupIntegrityError("backup_publish_failed")`. -/
def publishFailed : PyError := ⟨.backupIntegrityError, "backup_publish_failed"⟩

/-- `BackupIntegrityError("backup_publish_outcome_unknown")`. -/
def publishOutcomeUnknown : PyError :=
  ⟨.backupIntegrityError, "backup_publish_outcome_unknown"⟩

namespace PublishRun

open Mutator

variable (R : PublishRun)

/-- The payload. -/
def payload : ByteArray := joinBytes R.chunks.flatten

/-- `f".backup-{uuid.uuid4().hex}.tmp"`. -/
def temporaryName : String := ".backup-" ++ R.uuidHex ++ ".tmp"

/-- A call to the system. -/
def call (c : PublishCall) : Mutator PyError PublishState Unit :=
  orRaise (require (R.fails c = false) osError)

/-- A change of the files of the temporary directory. -/
def inTemporary (f : ArtifactFiles → Except PyError ArtifactFiles) :
    Mutator PyError PublishState Unit :=
  ofStep fun s =>
    match s.root R.temporaryName with
    | some (.directory files) =>
      (f files).map fun files => s.withEntry R.temporaryName (some (.directory files))
    | _ => .error osError

/-- Creating a file with `O_EXCL`. -/
def createFile (name : String) : Mutator PyError PublishState Unit := do
  R.call (.create name)
  R.inTemporary fun files => do
    require (name ∉ files.map Prod.fst) osError
    return files ++ [(name, .file .empty)]
  R.call (.chmod name)

/-- The files with more bytes at the end of one. -/
def appendTo (name : String) (data : ByteArray) (files : ArtifactFiles) : ArtifactFiles :=
  files.map fun f =>
    match f.2 with
    | .file bytes => if f.1 = name then (f.1, .file (bytes ++ data)) else f
    | .other => f

/-- `os.write`, until the view is empty. -/
def writePieces (name : String) (chunk : ℕ) : ℕ → List ByteArray →
    Mutator PyError PublishState Unit
  | _, [] => pure ()
  | i, piece :: pieces => do
    R.call (.write name chunk i)
    R.inTemporary fun files => .ok (appendTo name piece files)
    writePieces name chunk (i + 1) pieces

/-- Copying the payload, chunk by chunk, with the size so far. -/
def copyPayload (maxBytes : ℕ) : ℕ → ℕ → List (List ByteArray) →
    Mutator PyError PublishState Unit
  | i, _, [] => R.call (.read i)
  | i, size, chunk :: chunks => do
    R.call (.read i)
    orRaise (require (size + (joinBytes chunk).size ≤ maxBytes)
      ⟨.backupIntegrityError, "backup_payload_too_large"⟩)
    R.writePieces publishedPayloadName i 0 chunk
    copyPayload maxBytes (i + 1) (size + (joinBytes chunk).size) chunks

/-- `fsync` and `close`. -/
def finishFile (name : String) : Mutator PyError PublishState Unit := do
  R.call (.sync name)
  R.call (.close name)

/-- `_rename_directory_noreplace`. -/
def renameDirectory (name : String) : Mutator PyError PublishState Unit := do
  orRaise (require (R.renameNoreplace = true) publishUnsupported)
  R.call .rename
  ofStep fun s => do
    require (s.root name = none) osError
    return (s.withEntry name (s.root R.temporaryName)).withEntry R.temporaryName none

/-- `manifest_fields.get("backup_id")`. -/
def backupIdOf (fields : Members) : Except PyError String :=
  match fields.getD "backup_id" .null with
  | .str backupId => .ok backupId
  | _ => .error invalidManifest

/-- `publish` up to the temporary directory. -/
def makeTemporary (fields : Members) : Mutator PyError PublishState String := do
  orRaise (require (fields.keys ⊆ manifestInputKeys ∧ manifestInputKeys ⊆ fields.keys)
    invalidManifest)
  R.call .openSource
  R.call .makeRoot
  orRaise (require (R.posix = true) publishUnsupported)
  R.call .openRoot
  R.call .chmodRoot
  R.call (.matchRoot 0)
  let backupId ← orRaise (backupIdOf fields)
  modify fun s => { s with named := true }
  R.call .makeTemporary
  ofStep fun s => do
    require (s.root R.temporaryName = none) osError
    return s.withEntry R.temporaryName (some (.directory []))
  R.call .openTemporary
  modify fun s => { s with descriptor := some R.temporaryName }
  R.call .chmodTemporary
  return backupId

/-- `publish` from there to the rename. -/
def writeArtifact (H : BackupHashes) (W : BackupArtifactWriter) (fields : Members) :
    Mutator PyError PublishState Unit := do
  R.createFile publishedPayloadName
  R.copyPayload W.maxBytes 0 0 R.chunks
  R.finishFile publishedPayloadName
  let manifest ← orRaise (W.manifestOf H fields R.payload)
  R.createFile publishedManifestName
  let encoded ← orRaise manifest.canonicalBytes
  R.writePieces publishedManifestName 0 0 (R.pieces encoded)
  R.finishFile publishedManifestName
  R.call .syncTemporary
  R.call (.matchRoot 1)

/-- `publish`, without its exits. -/
def body (H : BackupHashes) (W : BackupArtifactWriter) (fields : Members) :
    Mutator PyError PublishState String := do
  let backupId ← R.makeTemporary fields
  R.writeArtifact H W fields
  R.renameDirectory backupId
  modify fun s => { s with renamed := true, descriptor := none }
  R.call .closeTemporary
  modify fun s => { s with named := false }
  R.call .syncRoot
  R.call (.matchRoot 2)
  return backupId

/-- The root without one file of a directory. -/
def unlinkMember (root : BackupRoot) (directory name : String) : BackupRoot :=
  match root directory with
  | some (.directory files) =>
    if R.fails (.unlink name) then root
    else Function.update root directory
      (some (.directory (files.filter fun f => f.1 ≠ name)))
  | _ => root

/-- `_cleanup_temporary_artifact`. -/
def cleanup (s : PublishState) : BackupRoot :=
  let root :=
    match s.descriptor with
    | some directory =>
      R.unlinkMember (R.unlinkMember s.root directory publishedManifestName) directory
        publishedPayloadName
    | none => s.root
  if R.fails .removeTemporary = false ∧ root R.temporaryName = some (.directory []) then
    Function.update root R.temporaryName none
  else root

/-- `publish`: what it returns or raises, and the root that it leaves. -/
def publish (H : BackupHashes) (W : BackupArtifactWriter) (fields : Members) (root : BackupRoot) :
    Except PyError String × BackupRoot :=
  match R.body H W fields ⟨root, false, none, false⟩ with
  | .ok backupId s => (.ok backupId, s.root)
  | .error e s =>
    let left := if s.named then R.cleanup s else s.root
    if e.kind = .backupConfigurationError then (.error e, left)
    else if s.renamed then (.error publishOutcomeUnknown, left)
    else (.error publishFailed, left)

end PublishRun

end Memplex
