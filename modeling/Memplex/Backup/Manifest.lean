import Memplex.Py.Loads
import Memplex.Protocol.Keys
import Memplex.Protocol.Time
import Memplex.Py.Dumps
import Mathlib.Data.List.DropRight

/-!
# The manifest of a backup

`BackupManifest.fromDict` is the only way into a manifest, for the writer of an artifact and for its
reader: `fromMembers_eq_ok` says which dictionaries pass, and what comes out. A manifest is written as
canonical JSON with sorted keys and read back with duplicate keys refused. What passed reads back
from its bytes as it was (`manifestFromJson_canonicalBytes`), and the bytes that are signed determine
everything but the signature (`canonicalUnsignedBytes_inj`).
-/

namespace Memplex

open Lib Lib.Json

/-- `_invalid_manifest`. -/
def invalidManifest : PyError := ⟨.backupIntegrityError, "backup_manifest_invalid"⟩

/-- The characters that `str.strip` takes off. -/
def isSpace (c : Char) : Bool :=
  ('\t' ≤ c && c ≤ '\r') || ('\x1c' ≤ c && c ≤ ' ') || c = '\x85' || c = '\xa0' || c = '\u1680' ||
    ('\u2000' ≤ c && c ≤ '\u200a') || c = '\u2028' || c = '\u2029' || c = '\u202f' || c = '\u205f' ||
    c = '\u3000'

/-- `text.strip()`. -/
def strip (text : List Char) : List Char := (text.dropWhile isSpace).rdropWhile isSpace

/-- The text of a manifest field. -/
def ManifestText (s : String) : Prop := s ≠ "" ∧ strip s.toList = s.toList ∧ '\x00' ∉ s.toList

instance (s : String) : Decidable (ManifestText s) := by unfold ManifestText; infer_instance

/-- `_require_string`. -/
def requireString : Value → Except PyError String
  | .str s => do
    require (ManifestText s) invalidManifest
    return s
  | _ => .error invalidManifest

/-- A name without a directory: then it is its own `PurePath(value).name`. -/
def Basename (s : String) : Prop :=
  '/' ∉ s.toList ∧ '\\' ∉ s.toList ∧ s ≠ "." ∧ s ≠ ".."

instance (s : String) : Decidable (Basename s) := by unfold Basename; infer_instance

/-- `_require_nonnegative_int`. -/
def requireNonnegativeInt : Value → Except PyError ℕ
  | .int i => do
    require (0 ≤ i) invalidManifest
    return i.toNat
  | _ => .error invalidManifest

/-- `^[0-9a-f]{64}$`. -/
def Sha256Text (s : String) : Prop := s.toList.length = 64 ∧ ∀ c ∈ s.toList, isLowerHex c = true

instance (s : String) : Decidable (Sha256Text s) := by unfold Sha256Text; infer_instance

/-- A field that is a string and passes a check. -/
def requireField (members : Members) (key : String) (check : String → Prop) [DecidablePred check] :
    Except PyError String := do
  let text ← requireString (members.getD key .null)
  require (check text) invalidManifest
  return text

/-- The consistency of the backups of a backend. -/
def expectedConsistency (backend : String) : String :=
  if backend = "postgres" then "pg_dump_snapshot" else "lite_pair_generation"

/-- A signed description of one payload. -/
@[ext] structure BackupManifest where
  formatVersion : ℕ
  backupId : String
  createdAt : String
  backend : String
  database : String
  schema : String
  migrationVersion : ℕ
  payloadName : String
  payloadSha256 : String
  payloadSize : ℕ
  pgDumpVersion : String
  serverVersion : String
  consistency : String
  keyId : String
  signature : String
deriving DecidableEq

/-- `_MANIFEST_KEYS`. -/
def manifestKeys : List String :=
  ["format_version", "backup_id", "created_at", "backend", "database", "schema",
    "migration_version", "payload_name", "payload_sha256", "payload_size", "pg_dump_version",
    "server_version", "consistency", "key_id", "signature"]

namespace BackupManifest

/-- `from_dict`, on a dictionary. -/
def fromMembers (raw : Members) : Except PyError BackupManifest := do
  require (raw.keys ⊆ manifestKeys ∧ manifestKeys ⊆ raw.keys) invalidManifest
  let formatVersion ← requireNonnegativeInt (raw.getD "format_version" .null)
  require (formatVersion = 1) invalidManifest
  let backupId ← requireField raw "backup_id" CanonicalUuid
  let createdAt ← requireField raw "created_at" fun text => (timeFromWire text.toList).isSome
  let backend ← requireField raw "backend" fun text => text = "postgres" ∨ text = "lite"
  let database ← requireField raw "database" fun _ => True
  let schema ← requireField raw "schema" fun _ => True
  let migrationVersion ← requireNonnegativeInt (raw.getD "migration_version" .null)
  let payloadName ← requireField raw "payload_name" Basename
  let payloadSha256 ← requireField raw "payload_sha256" Sha256Text
  let payloadSize ← requireNonnegativeInt (raw.getD "payload_size" .null)
  let pgDumpVersion ← requireField raw "pg_dump_version" fun _ => True
  let serverVersion ← requireField raw "server_version" fun _ => True
  let consistency ← requireField raw "consistency" fun text => text = expectedConsistency backend
  let keyId ← requireField raw "key_id" fun _ => True
  let signature ← requireField raw "signature" Sha256Text
  return ⟨formatVersion, backupId, createdAt, backend, database, schema, migrationVersion,
    payloadName, payloadSha256, payloadSize, pgDumpVersion, serverVersion, consistency, keyId,
    signature⟩

/-- `from_dict`. -/
def fromDict : Value → Except PyError BackupManifest
  | .obj raw => fromMembers raw
  | _ => .error invalidManifest

/-- `to_dict`. -/
def toDict (m : BackupManifest) : Members :=
  [("format_version", .int m.formatVersion), ("backup_id", .str m.backupId),
    ("created_at", .str m.createdAt), ("backend", .str m.backend), ("database", .str m.database),
    ("schema", .str m.schema), ("migration_version", .int m.migrationVersion),
    ("payload_name", .str m.payloadName), ("payload_sha256", .str m.payloadSha256),
    ("payload_size", .int m.payloadSize), ("pg_dump_version", .str m.pgDumpVersion),
    ("server_version", .str m.serverVersion), ("consistency", .str m.consistency),
    ("key_id", .str m.keyId), ("signature", .str m.signature)]

/-- `unsigned_dict`. -/
def unsignedDict (m : BackupManifest) : Members := m.toDict.filter fun f => f.1 ≠ "signature"

/-- What `from_dict` lets through. -/
structure Valid (m : BackupManifest) : Prop where
  formatVersion : m.formatVersion = 1
  backupId : ManifestText m.backupId ∧ CanonicalUuid m.backupId
  createdAt : ManifestText m.createdAt ∧ (timeFromWire m.createdAt.toList).isSome = true
  backend : ManifestText m.backend ∧ (m.backend = "postgres" ∨ m.backend = "lite")
  database : ManifestText m.database
  schema : ManifestText m.schema
  payloadName : ManifestText m.payloadName ∧ Basename m.payloadName
  payloadSha256 : ManifestText m.payloadSha256 ∧ Sha256Text m.payloadSha256
  pgDumpVersion : ManifestText m.pgDumpVersion
  serverVersion : ManifestText m.serverVersion
  consistency : ManifestText m.consistency ∧ m.consistency = expectedConsistency m.backend
  keyId : ManifestText m.keyId
  signature : ManifestText m.signature ∧ Sha256Text m.signature

end BackupManifest

/-! ## What passes -/

theorem requireString_ok {v : Value} {s : String} :
    requireString v = .ok s ↔ v = .str s ∧ ManifestText s := by
  cases v with
  | str t =>
    simp only [requireString, Except.bind_ok, require_ok]
    constructor
    · rintro ⟨-, ht, heq⟩
      cases heq
      exact ⟨rfl, ht⟩
    · rintro ⟨heq, ht⟩
      cases heq
      exact ⟨(), ht, rfl⟩
  | _ => simp [requireString]

theorem requireNonnegativeInt_ok {v : Value} {n : ℕ} :
    requireNonnegativeInt v = .ok n ↔ v = .int n := by
  cases v with
  | num x =>
    cases x with
    | int i =>
      simp only [requireNonnegativeInt, Except.bind_ok, require_ok]
      constructor
      · rintro ⟨-, hi, heq⟩
        cases heq
        rw [Int.toNat_of_nonneg hi]
      · intro heq
        cases heq
        exact ⟨(), Int.natCast_nonneg n, rfl⟩
    | float x => simp [requireNonnegativeInt]
  | _ => simp [requireNonnegativeInt]

theorem getD_null_eq {members : Members} {key : String} {v : Value} (hv : v ≠ .null) :
    members.getD key .null = v ↔ members.get? key = some v := by
  rw [Members.getD]
  cases members.get? key with
  | none => simp [hv.symm]
  | some w => simp

theorem requireNonnegativeInt_getD {members : Members} {key : String} {n : ℕ} :
    requireNonnegativeInt (members.getD key .null) = .ok n ↔ members.get? key = some (.int n) := by
  rw [requireNonnegativeInt_ok, getD_null_eq (by simp)]

theorem requireField_ok {members : Members} {key s : String} {check : String → Prop}
    [DecidablePred check] : requireField members key check = .ok s ↔
      members.get? key = some (.str s) ∧ ManifestText s ∧ check s := by
  simp only [requireField, Except.bind_ok, requireString_ok, require_ok]
  rw [← getD_null_eq (by simp)]
  constructor
  · rintro ⟨t, ⟨hget, htext⟩, -, hcheck, heq⟩
    cases heq
    exact ⟨hget, htext, hcheck⟩
  · rintro ⟨hget, htext, hcheck⟩
    exact ⟨s, ⟨hget, htext⟩, (), hcheck, rfl⟩

namespace BackupManifest

variable {m m' : BackupManifest}

/-- A dictionary passes as a manifest exactly where it has the fields of the manifest and no other,
and the manifest is valid. -/
theorem fromMembers_eq_ok {raw : Members} : fromMembers raw = .ok m ↔
    (raw.keys ⊆ manifestKeys ∧ manifestKeys ⊆ raw.keys) ∧
      (∀ f ∈ m.toDict, raw.get? f.1 = some f.2) ∧ m.Valid := by
  simp only [fromMembers, Except.bind_ok, require_ok, requireNonnegativeInt_getD, requireField_ok]
  constructor
  · rintro ⟨-, hkeys, _, hformat, -, hone, _, ⟨hid, hidText⟩, _, ⟨hcreated, hcreatedText⟩, _,
      ⟨hbackend, hbackendText⟩, _, ⟨hdatabase, hdatabaseText, -⟩, _, ⟨hschema, hschemaText, -⟩, _,
      hmigration, _, ⟨hname, hnameText⟩, _, ⟨hsha, hshaText⟩, _, hsize, _, ⟨hdump, hdumpText, -⟩, _,
      ⟨hserver, hserverText, -⟩, _, ⟨hconsistency, hconsistencyText⟩, _, ⟨hkey, hkeyText, -⟩, _,
      ⟨hsignature, hsignatureText⟩, heq⟩
    cases heq
    refine ⟨hkeys, ?_, ⟨hone, hidText, hcreatedText, hbackendText, hdatabaseText, hschemaText,
      hnameText, hshaText, hdumpText, hserverText, hconsistencyText, hkeyText, hsignatureText⟩⟩
    simp only [toDict, List.forall_mem_cons, List.not_mem_nil, false_imp_iff, implies_true, and_true]
    exact ⟨hformat, hid, hcreated, hbackend, hdatabase, hschema, hmigration, hname, hsha, hsize,
      hdump, hserver, hconsistency, hkey, hsignature⟩
  · rintro ⟨hkeys, hget, hvalid⟩
    simp only [toDict, List.forall_mem_cons, List.not_mem_nil, false_imp_iff, implies_true,
      and_true] at hget
    obtain ⟨hformat, hid, hcreated, hbackend, hdatabase, hschema, hmigration, hname, hsha, hsize,
      hdump, hserver, hconsistency, hkey, hsignature⟩ := hget
    exact ⟨(), hkeys, _, hformat, (), hvalid.formatVersion, _, ⟨hid, hvalid.backupId⟩, _,
      ⟨hcreated, hvalid.createdAt⟩, _, ⟨hbackend, hvalid.backend⟩, _,
      ⟨hdatabase, hvalid.database, trivial⟩, _, ⟨hschema, hvalid.schema, trivial⟩, _, hmigration, _,
      ⟨hname, hvalid.payloadName⟩, _, ⟨hsha, hvalid.payloadSha256⟩, _, hsize, _,
      ⟨hdump, hvalid.pgDumpVersion, trivial⟩, _, ⟨hserver, hvalid.serverVersion, trivial⟩, _,
      ⟨hconsistency, hvalid.consistency⟩, _, ⟨hkey, hvalid.keyId, trivial⟩, _,
      ⟨hsignature, hvalid.signature⟩, rfl⟩

/-! ## Bytes -/

end BackupManifest

/-- An integer that `str` refuses. -/
def isLongInt : Num → Bool
  | .int i => intMaxStrDigits < (Nat.toDigits 10 i.natAbs).length
  | .float _ => false

/-- The text that `json.dumps` writes for a number. -/
def dumpsNum : Num → List Char
  | .int i => strInt i
  | .float (.finite d) => reprFloat d
  | .float (.inf neg) => NumTok.signText neg ++ "Infinity".toList
  | .float .nan => "NaN".toList

/-- `_canonical_bytes`, of a dictionary without dictionaries in it. -/
def canonicalBytes (raw : Members) : Except PyError ByteArray := do
  require (isJsonValue (.obj raw) = true)
    (valueError "Out of range float values are not JSON compliant")
  require ((Json.obj raw).anyNum isLongInt = false)
    (valueError "Exceeds the limit (4300 digits) for integer string conversion")
  return (String.ofList (write dumpsNum (.obj (sortMembers raw)))).toByteArray

/-- `manifest_from_json`. -/
def manifestFromJson (data : ByteArray) : Except PyError BackupManifest :=
  match String.fromUTF8? data with
  | none => .error invalidManifest
  | some text =>
    match loads text.toList with
    | none => .error invalidManifest
    | some tokens => do
      require (tokens.wellKeyed = true) invalidManifest
      require (tokens.anyNum isLongToken = false)
        (valueError "Exceeds the limit (4300 digits) for integer string conversion")
      BackupManifest.fromDict (tokens.map plainNum)

/-- A field of a manifest: an integer or a string. -/
def IsField (v : Value) : Prop := (∃ i, v = .int i) ∨ ∃ s, v = .str s

/-- Fields read back from their text as their tokens. -/
theorem loads_fields {fields : Members} (h : ∀ f ∈ fields, IsField f.2) :
    loads (write dumpsNum (.obj fields)) = some ((Json.obj fields).map numToken) := by
  refine loads_write _ ((all_obj _ _).mpr fun f hf => ?_)
  rcases h f hf with ⟨i, hi⟩ | ⟨s, hs⟩
  · rw [hi]
    exact reads_of_text (intTok_wellFormed i) (strInt_eq i)
  · rw [hs]
    trivial

/-- The tokens of fields are the numbers of fields. -/
theorem map_plainNum_fields {fields : Members} (h : ∀ f ∈ fields, IsField f.2) :
    ((Json.obj fields).map numToken).map plainNum = Json.obj fields := by
  rw [map_obj, map_obj, List.map_map]
  congr 1
  refine (List.map_congr_left fun f hf => ?_).trans (List.map_id fields)
  obtain ⟨key, v⟩ := f
  rcases h _ hf with ⟨i, hi⟩ | ⟨s, hs⟩
  · cases hi
    simp [plainNum_numToken]
  · cases hs
    simp

/-- The tokens of fields are not longer than the fields. -/
theorem anyNum_isLongToken {fields : Members} (h : ∀ f ∈ fields, IsField f.2)
    (hshort : (Json.obj fields).anyNum isLongInt = false) :
    ((Json.obj fields).map numToken).anyNum isLongToken = false := by
  rw [anyNum_obj_eq_false] at hshort
  rw [map_obj, anyNum_obj_eq_false]
  intro m hm
  obtain ⟨f, hf, rfl⟩ := List.mem_map.mp hm
  have hlong := hshort f hf
  rcases h f hf with ⟨i, hi⟩ | ⟨s, hs⟩
  · rw [hi] at hlong ⊢
    exact hlong
  · rw [hs]
    rfl

/-- The tokens of fields have the keys of the fields. -/
theorem wellKeyed_fields {fields : Members} (h : ∀ f ∈ fields, IsField f.2)
    (hnodup : (fields.map Prod.fst).Nodup) :
    ((Json.obj fields).map numToken).wellKeyed = true := by
  rw [map_obj, wellKeyed_obj]
  refine ⟨by rwa [List.map_map], fun m hm => ?_⟩
  obtain ⟨f, hf, rfl⟩ := List.mem_map.mp hm
  rcases h f hf with ⟨i, hi⟩ | ⟨s, hs⟩
  · rw [hi]
    rfl
  · rw [hs]
    rfl

theorem canonicalBytes_ok {raw : Members} {bytes : ByteArray} (h : canonicalBytes raw = .ok bytes) :
    (Json.obj raw).anyNum isLongInt = false ∧
      bytes = (String.ofList (write dumpsNum (.obj (sortMembers raw)))).toByteArray := by
  obtain ⟨_, -, h⟩ := Except.bind_ok.mp h
  obtain ⟨_, hshort, heq⟩ := Except.bind_ok.mp h
  exact ⟨require_ok.mp hshort, (Except.ok.inj heq).symm⟩

/-- Fields with one text are the same fields. -/
theorem canonicalBytes_inj {raw raw' : Members} {bytes : ByteArray}
    (hfields : ∀ f ∈ raw, IsField f.2) (hfields' : ∀ f ∈ raw', IsField f.2)
    (h : canonicalBytes raw = .ok bytes) (h' : canonicalBytes raw' = .ok bytes) :
    sortMembers raw = sortMembers raw' := by
  have hsorted : ∀ {raw : Members}, (∀ f ∈ raw, IsField f.2) →
      ∀ f ∈ sortMembers raw, IsField f.2 := fun hf f hmem =>
    hf f ((sortMembers_perm _).mem_iff.mp hmem)
  obtain ⟨-, rfl⟩ := canonicalBytes_ok h
  have hbytes := (canonicalBytes_ok h').2
  have htext := String.ofList_injective (String.toByteArray_inj.mp hbytes)
  have hread := loads_fields (hsorted hfields)
  rw [htext, loads_fields (hsorted hfields')] at hread
  have hmap := congrArg (Json.map plainNum) (Option.some.inj hread)
  rw [map_plainNum_fields (hsorted hfields), map_plainNum_fields (hsorted hfields')] at hmap
  exact (Json.obj.inj hmap).symm

namespace BackupManifest

variable {m m' : BackupManifest}

/-- `canonical_bytes`. -/
def canonicalBytes (m : BackupManifest) : Except PyError ByteArray := Memplex.canonicalBytes m.toDict

/-- `canonical_unsigned_bytes`. -/
def canonicalUnsignedBytes (m : BackupManifest) : Except PyError ByteArray :=
  Memplex.canonicalBytes m.unsignedDict

theorem toDict_isField (m : BackupManifest) : ∀ f ∈ m.toDict, IsField f.2 := by
  simp only [toDict, List.forall_mem_cons, List.not_mem_nil, false_imp_iff, implies_true, and_true]
  simp [IsField]

theorem toDict_keys (m : BackupManifest) : m.toDict.map Prod.fst = manifestKeys := rfl

theorem manifestKeys_nodup : manifestKeys.Nodup := by decide

/-- Fields with the keys of a manifest read back from their bytes as the manifest. -/
theorem manifestFromJson_fields (hvalid : m.Valid) {raw : Members}
    (hkeys : raw.map Prod.fst = manifestKeys) (hfields : ∀ f ∈ raw, IsField f.2)
    (hraw : ∀ f ∈ m.toDict, f ∈ raw) {bytes : ByteArray}
    (h : Memplex.canonicalBytes raw = .ok bytes) : manifestFromJson bytes = .ok m := by
  obtain ⟨hshort, hbytes⟩ := canonicalBytes_ok h
  have hnodup : (raw.map Prod.fst).Nodup := hkeys ▸ manifestKeys_nodup
  have hperm := sortMembers_perm raw
  have hsorted : ∀ f ∈ sortMembers raw, IsField f.2 := fun f hf => hfields f (hperm.mem_iff.mp hf)
  have hsortedKeys : ((sortMembers raw).map Prod.fst).Nodup :=
    (hperm.map Prod.fst).nodup_iff.mpr hnodup
  have hsortedShort : (Json.obj (sortMembers raw)).anyNum isLongInt = false := by
    rw [anyNum_obj_eq_false] at hshort ⊢
    exact fun f hf => hshort f (hperm.mem_iff.mp hf)
  have hsame : Members.keys (sortMembers raw) ⊆ manifestKeys ∧
      manifestKeys ⊆ Members.keys (sortMembers raw) := by
    rw [← hkeys]
    exact ⟨(hperm.map Prod.fst).subset, (hperm.map Prod.fst).symm.subset⟩
  rw [hbytes, manifestFromJson, fromUTF8?_toByteArray]
  dsimp only
  rw [String.toList_ofList, loads_fields hsorted]
  dsimp only
  refine Except.bind_ok.mpr ⟨(), require_ok.mpr (wellKeyed_fields hsorted hsortedKeys), ?_⟩
  refine Except.bind_ok.mpr ⟨(), require_ok.mpr (anyNum_isLongToken hsorted hsortedShort), ?_⟩
  rw [map_plainNum_fields hsorted]
  refine fromMembers_eq_ok.mpr ⟨hsame, fun f hf => ?_, hvalid⟩
  rw [get?_sortMembers hnodup, Members.get?, findRow_of_mem hnodup (hraw f hf)]
  rfl

/-- A manifest that passed reads back from its bytes as it was. -/
theorem manifestFromJson_canonicalBytes (hvalid : m.Valid) {bytes : ByteArray}
    (h : m.canonicalBytes = .ok bytes) : manifestFromJson bytes = .ok m :=
  manifestFromJson_fields hvalid m.toDict_keys m.toDict_isField (fun _ hf => hf) h

/-- The bytes that are signed determine everything but the signature. -/
theorem canonicalUnsignedBytes_inj {bytes : ByteArray} (h : m.canonicalUnsignedBytes = .ok bytes)
    (h' : m'.canonicalUnsignedBytes = .ok bytes) (hsignature : m.signature = m'.signature) :
    m = m' := by
  have hfields : ∀ m : BackupManifest, ∀ f ∈ m.unsignedDict, IsField f.2 := fun m f hf =>
    m.toDict_isField f (List.mem_of_mem_filter hf)
  have hsorted := canonicalBytes_inj (hfields m) (hfields m') h h'
  have hperm : m.unsignedDict.Perm m'.unsignedDict :=
    ((sortMembers_perm _).symm.trans (List.Perm.of_eq hsorted)).trans (sortMembers_perm _)
  have hsub : ∀ f ∈ m.unsignedDict, f ∈ m'.unsignedDict := fun f hf => hperm.subset hf
  simp [unsignedDict, toDict] at hsub
  obtain ⟨hformat, hid, hcreated, hbackend, hdatabase, hschema, hmigration, hname, hsha, hsize,
    hdump, hserver, hconsistency, hkey⟩ := hsub
  exact BackupManifest.ext hformat hid hcreated hbackend hdatabase hschema hmigration hname hsha hsize
    hdump hserver hconsistency hkey hsignature

end BackupManifest

end Memplex
