import Memplex.Protocol.Ingress
import Memplex.Py.Loads

/-!
# Cursors of the pull stream

A cursor carries its claims as canonical JSON and a keyed digest of it, both as base64url. The codec
signs with the active key, under whose id it puts the claims, and takes back what any key of its
ring has signed, for the bindings that the caller expects and before the claims expire.

Decoding is strict: it compares the canonical bytes of the claims that it read with the bytes that
it read them from, so that a token that decodes is the one token of its claims (`decode_eq_ok`).
-/

namespace Memplex.Cursor

open Lib Lib.Json

/-! ## Claims -/

/-- `_require_exact_int`, with minimum zero. -/
def requireExactInt (value : Value) (name : String) : Except PyError ℕ :=
  match value with
  | .int i => do
    require (0 ≤ i) (valueError (name ++ " must be >= 0"))
    return i.toNat
  | _ => .error (typeError (name ++ " must be an exact int"))

/-- `_time_from_wire`. -/
def timeFromWire (value : Value) (name : String) : Except PyError Timestamp := do
  let text ← requireExactString value name false
  match Memplex.timeFromWire text.toList with
  | none => .error (valueError (name ++ " must use canonical UTC microseconds"))
  | some time => .ok time

/-- `SyncSnapshotAnchor`. -/
structure SyncSnapshotAnchor where
  nodeType : SyncNodeType
  entityKey : SyncEntityKey
  /-- The constructor's check. -/
  kind_agrees : nodeType = .edge ↔ entityKey.isEdge = true

namespace SyncSnapshotAnchor

/-- `SyncSnapshotAnchor.from_dict`. -/
def fromDict (value : Value) : Except PyError SyncSnapshotAnchor := do
  let data ← exactDict value ["node_type", "entity_key"] "snapshot anchor"
  match SyncNodeType.ofValue (field data "node_type") with
  | none => .error (valueError "snapshot anchor uses unknown node type")
  | some nodeType =>
    let entityKey ← SyncEntityKey.parse (field data "entity_key")
    if h : nodeType = .edge ↔ entityKey.isEdge = true then return ⟨nodeType, entityKey, h⟩
    else .error (valueError "snapshot anchor node type and key kind must agree")

/-- `anchor.to_dict()`. -/
def toDict (a : SyncSnapshotAnchor) : Members :=
  [("node_type", .str a.nodeType.value), ("entity_key", .str a.entityKey.text)]

end SyncSnapshotAnchor

/-- What the constructor of claims checks. -/
structure ClaimsValid (keyId tenantBinding remoteBinding consumerBinding : String)
    (afterSeq snapshotSeq : ℕ) (snapshotId : Option String)
    (snapshotAfter : Option SyncSnapshotAnchor) (issuedAt expiresAt : Timestamp) : Prop where
  key : ExactString keyId
  tenant : ExactString tenantBinding
  remote : ExactString remoteBinding
  consumer : ExactString consumerBinding
  ordered : afterSeq ≤ snapshotSeq
  snapshot : ∀ s ∈ snapshotId, ExactString s
  /-- A snapshot has an id and an anchor. -/
  together : snapshotId.isNone = snapshotAfter.isNone
  expires : issuedAt < expiresAt

instance (keyId tenantBinding remoteBinding consumerBinding : String) (afterSeq snapshotSeq : ℕ)
    (snapshotId : Option String) (snapshotAfter : Option SyncSnapshotAnchor)
    (issuedAt expiresAt : Timestamp) :
    Decidable (ClaimsValid keyId tenantBinding remoteBinding consumerBinding afterSeq snapshotSeq
      snapshotId snapshotAfter issuedAt expiresAt) :=
  decidable_of_iff (ExactString keyId ∧ ExactString tenantBinding ∧ ExactString remoteBinding ∧
      ExactString consumerBinding ∧ afterSeq ≤ snapshotSeq ∧ (∀ s ∈ snapshotId, ExactString s) ∧
      snapshotId.isNone = snapshotAfter.isNone ∧ issuedAt < expiresAt)
    ⟨fun ⟨h1, h2, h3, h4, h5, h6, h7, h8⟩ => ⟨h1, h2, h3, h4, h5, h6, h7, h8⟩,
      fun ⟨h1, h2, h3, h4, h5, h6, h7, h8⟩ => ⟨h1, h2, h3, h4, h5, h6, h7, h8⟩⟩

/-- `SyncCursorClaims`, without the version, which is always one. -/
structure SyncCursorClaims where
  keyId : String
  tenantBinding : String
  remoteBinding : String
  consumerBinding : String
  afterSeq : ℕ
  snapshotSeq : ℕ
  snapshotId : Option String
  snapshotAfter : Option SyncSnapshotAnchor
  issuedAt : Timestamp
  expiresAt : Timestamp
  valid : ClaimsValid keyId tenantBinding remoteBinding consumerBinding afterSeq snapshotSeq
    snapshotId snapshotAfter issuedAt expiresAt

namespace SyncCursorClaims

/-- The keys of claims on the wire. -/
def wireKeys : List String :=
  ["version", "key_id", "tenant_binding", "remote_binding", "consumer_binding", "after_seq",
    "snapshot_seq", "snapshot_id", "snapshot_after", "issued_at", "expires_at"]

/-- `SyncCursorClaims(...)`, with an anchor and times that are built already. -/
def create (version keyId tenantBinding remoteBinding consumerBinding afterSeq snapshotSeq
    snapshotId : Value) (snapshotAfter : Option SyncSnapshotAnchor)
    (issuedAt expiresAt : Timestamp) : Except PyError SyncCursorClaims := do
  require (version = .int SyncEvent.protocolVersion) (valueError "unsupported cursor version")
  let keyId ← requireExactString keyId "key_id" false
  let tenantBinding ← requireExactString tenantBinding "tenant_binding" false
  let remoteBinding ← requireExactString remoteBinding "remote_binding" false
  let consumerBinding ← requireExactString consumerBinding "consumer_binding" false
  let afterSeq ← requireExactInt afterSeq "after_seq"
  let snapshotSeq ← requireExactInt snapshotSeq "snapshot_seq"
  require (afterSeq ≤ snapshotSeq) (valueError "after_seq cannot exceed snapshot_seq")
  let snapshotId ← optionalExactString snapshotId "snapshot_id"
  require (snapshotId.isNone = snapshotAfter.isNone)
    (valueError "snapshot cursor id and anchor must be both present or absent")
  require (issuedAt < expiresAt) (valueError "expires_at must follow issued_at")
  if h : ClaimsValid keyId tenantBinding remoteBinding consumerBinding afterSeq snapshotSeq
      snapshotId snapshotAfter issuedAt expiresAt then
    return ⟨keyId, tenantBinding, remoteBinding, consumerBinding, afterSeq, snapshotSeq, snapshotId,
      snapshotAfter, issuedAt, expiresAt, h⟩
  else .error (valueError "claims are invalid")

/-- The anchor of claims, or `None`. -/
def optionalAnchor : Value → Except PyError (Option SyncSnapshotAnchor)
  | .null => .ok none
  | v => (SyncSnapshotAnchor.fromDict v).map some

/-- An anchor, or `None`, on the wire. -/
def anchorDict : Option SyncSnapshotAnchor → Value
  | none => .null
  | some a => .obj a.toDict

/-- `claims.to_dict()`. -/
def toDict (c : SyncCursorClaims) : Members :=
  [("version", .int SyncEvent.protocolVersion), ("key_id", .str c.keyId),
    ("tenant_binding", .str c.tenantBinding), ("remote_binding", .str c.remoteBinding),
    ("consumer_binding", .str c.consumerBinding), ("after_seq", .int c.afterSeq),
    ("snapshot_seq", .int c.snapshotSeq), ("snapshot_id", .ofOptStr c.snapshotId),
    ("snapshot_after", anchorDict c.snapshotAfter),
    ("issued_at", .str (String.ofList (timeToWire c.issuedAt))),
    ("expires_at", .str (String.ofList (timeToWire c.expiresAt)))]

/-- `SyncCursorClaims.from_dict`. -/
def fromDict (value : Value) : Except PyError SyncCursorClaims := do
  let data ← exactDict value wireKeys "cursor claims"
  let snapshotAfter ← optionalAnchor (field data "snapshot_after")
  let issuedAt ← timeFromWire (field data "issued_at") "issued_at"
  let expiresAt ← timeFromWire (field data "expires_at") "expires_at"
  create (field data "version") (field data "key_id") (field data "tenant_binding")
    (field data "remote_binding") (field data "consumer_binding") (field data "after_seq")
    (field data "snapshot_seq") (field data "snapshot_id") snapshotAfter issuedAt expiresAt

end SyncCursorClaims

/-! ## The codec -/

/-- Bytes, as a key, a message or a digest. -/
abbrev Bytes := List UInt8

/-- `hmac.new(key, message, hashlib.sha256).digest()`. -/
abbrev Hmac := Bytes → Bytes → Bytes

/-- `_validate_secret`. -/
def validateSecret (value : Value) (name : String) : Except PyError Bytes := do
  let text ← requireExactString value name false
  require (32 ≤ (utf8 text).length) (valueError (name ++ " must be at least 32 bytes"))
  return utf8 text

/-- `SyncCursorCodec`: the ring of keys, one of which is active. -/
structure SyncCursorCodec where
  activeKeyId : String
  activeSecret : Bytes
  keys : Table (Prod.fst : String × Bytes → String)
  active_exact : ExactString activeKeyId
  /-- The active key is one of the ring. -/
  active_mem : keys.get? activeKeyId = some (activeKeyId, activeSecret)

namespace SyncCursorCodec

/-- `self._keys.get(key_id)`. -/
def secret (c : SyncCursorCodec) (keyId : String) : Option Bytes :=
  (c.keys.get? keyId).map Prod.snd

/-- The codec with one more previous key. -/
def addPrevious (c : SyncCursorCodec) (keyId secret : Value) : Except PyError SyncCursorCodec := do
  let keyId ← requireExactString keyId "previous key id" false
  if h : keyId = c.activeKeyId then .error (valueError "previous keys cannot replace active key")
  else
    let secret ← validateSecret secret "previous secret"
    return { c with
      keys := c.keys.set (keyId, secret)
      active_mem := by rw [Table.get?_set, if_neg h, c.active_mem] }

/-- `SyncCursorCodec(...)`. -/
def create (activeKeyId activeSecret : String)
    (previousKeys : Table (Prod.fst : String × String → String)) :
    Except PyError SyncCursorCodec := do
  let keyId ← requireExactString (.str activeKeyId) "active_key_id" false
  let secret ← validateSecret (.str activeSecret) "active_secret"
  if h : ExactString keyId then
    previousKeys.rows.foldlM (fun c key => c.addPrevious (.str key.1) (.str key.2))
      { activeKeyId := keyId
        activeSecret := secret
        keys := Table.empty.set (keyId, secret)
        active_exact := h
        active_mem := by rw [Table.get?_set, if_pos rfl] }
  else .error (valueError "active_key_id must be non-empty")

end SyncCursorCodec

/-- The claims under the id of a key. -/
def SyncCursorClaims.withKey (claims : SyncCursorClaims) (keyId : String) (h : ExactString keyId) :
    SyncCursorClaims :=
  { claims with keyId := keyId, valid := { claims.valid with key := h } }

/-- The token of claims that a secret signs. -/
def signed (hmac : Hmac) (secret : Bytes) (claims : SyncCursorClaims) : Except PyError String := do
  let payload ← canonicalJsonBytes (.obj claims.toDict)
  let bytes := payload.data.toList
  return String.ofList (b64urlEncode bytes ++ '.' :: b64urlEncode (hmac secret bytes))

namespace SyncCursorCodec

variable (hmac : Hmac)

/-- `encode`. -/
def encode (c : SyncCursorCodec) (claims : SyncCursorClaims) : Except PyError String :=
  if claims.keyId ≠ c.activeKeyId then
    signed hmac c.activeSecret (claims.withKey c.activeKeyId c.active_exact)
  else signed hmac c.activeSecret claims

/-- The body of `decode`, at the time `now`. -/
def decodeBody (c : SyncCursorCodec) (token : Value)
    (tenantBinding remoteBinding consumerBinding : String) (now : Timestamp) :
    Except PyError SyncCursorClaims := do
  let text ← requireExactString token "cursor" false
  match text.toList.splitOn '.' with
  | [first, second] =>
    let payload ← b64urlDecode first "cursor payload"
    let signature ← b64urlDecode second "cursor signature"
    match ofUtf8 payload with
    | none => .error (valueError "invalid utf-8")
    | some decoded =>
      let raw ← jsonLoads decoded.toList
      let claims ← SyncCursorClaims.fromDict raw
      let canonical ← canonicalJsonBytes (.obj claims.toDict)
      require (canonical.data.toList = payload) (valueError "noncanonical cursor")
      match c.secret claims.keyId with
      | none => .error (valueError "invalid signature")
      | some secret =>
        require (signature = hmac secret payload) (valueError "invalid signature")
        let tenant ← requireExactString (.str tenantBinding) "tenant_binding" false
        require (claims.tenantBinding = tenant) (valueError "binding mismatch")
        let remote ← requireExactString (.str remoteBinding) "remote_binding" false
        require (claims.remoteBinding = remote) (valueError "binding mismatch")
        let consumer ← requireExactString (.str consumerBinding) "consumer_binding" false
        require (claims.consumerBinding = consumer) (valueError "binding mismatch")
        require (now < claims.expiresAt) (valueError "cursor expired")
        return claims
  | _ => .error (valueError "invalid cursor")

/-- `decode`: every fault is an invalid cursor. -/
def decode (c : SyncCursorCodec) (token : Value)
    (tenantBinding remoteBinding consumerBinding : String) (now : Timestamp) :
    Except PyError SyncCursorClaims :=
  match c.decodeBody hmac token tenantBinding remoteBinding consumerBinding now with
  | .ok claims => .ok claims
  | .error e =>
    if e.kind = .syncCursorExpired then .error e else .error ⟨.syncCursorExpired, "invalid_cursor"⟩

end SyncCursorCodec

/-! ## Claims on the wire -/

/-- Integers are received as they are. -/
theorem received_eq_sortKeys {v : Value} (h : v.All SafeInt) : received v = sortKeys v := by
  rw [received]
  refine map_eq_self ((all_sortKeys h).mono fun n hn => ?_)
  obtain ⟨i, rfl, -⟩ := hn
  rfl

/-- A value of texts and integers, whose dictionaries have distinct keys. -/
def IntForm (v : Value) : Prop := v.All SafeInt ∧ v.wellKeyed = true

theorem intForm_str (s : String) : IntForm (.str s) := ⟨trivial, rfl⟩

theorem intForm_int {i : ℤ} (h : i.natAbs ≤ maxJavascriptSafeInteger) : IntForm (.int i) :=
  ⟨⟨i, rfl, h⟩, rfl⟩

theorem intForm_optStr (o : Option String) : IntForm (.ofOptStr o) := by
  cases o <;> exact ⟨trivial, rfl⟩

theorem intForm_obj {members : Members} (hd : (members.map Prod.fst).Nodup)
    (h : ∀ m ∈ members, IntForm m.2) : IntForm (.obj members) :=
  ⟨(all_obj _ _).mpr fun m hm => (h m hm).1, (wellKeyed_obj _).mpr ⟨hd, fun m hm => (h m hm).2⟩⟩

theorem requireExactInt_natCast (n : ℕ) (name : String) :
    requireExactInt (.int n) name = .ok n := by
  rw [requireExactInt]
  exact Except.bind_ok.mpr ⟨(), require_ok.mpr (Int.natCast_nonneg n), rfl⟩

/-- The text of a time is a string of the protocol. -/
theorem timeToWire_exact (t : Timestamp) : ExactString (String.ofList (timeToWire t)) := by
  have hfields : ∀ (format : List (ℕ × Char)) (ns : List ℕ), (∀ f ∈ format, f.2 ≠ '\x00') →
      '\x00' ∉ writeFields format ns := by
    intro format
    induction format with
    | nil => exact fun ns _ => List.not_mem_nil
    | cons f format ih =>
      intro ns hformat
      cases ns with
      | nil => exact List.not_mem_nil
      | cons n ns =>
        rw [writeFields, List.mem_append, List.mem_cons, not_or, not_or]
        exact ⟨fun h => absurd (fixedDigits_isDigit f.1 n _ h) (by decide),
          (hformat f List.mem_cons_self).symm, ih ns fun g hg => hformat g (List.mem_cons_of_mem _ hg)⟩
  constructor
  · intro h
    have hlist : timeToWire t = [] := by simpa using congrArg String.toList h
    exact absurd hlist (by simp [timeToWire, wireFormat, Timestamp.key, writeFields])
  · rw [String.toList_ofList]
    exact hfields wireFormat t.key (by decide)

/-- The round trip of times. -/
theorem timeFromWire_text (t : Timestamp) (name : String) :
    timeFromWire (.str (String.ofList (timeToWire t))) name = .ok t := by
  rw [timeFromWire, requireExactString_str (timeToWire_exact t)]
  simp only [bind, Except.bind, String.toList_ofList, timeFromWire_timeToWire]

namespace SyncSnapshotAnchor

/-- The round trip of anchors. -/
theorem fromDict_received (a : SyncSnapshotAnchor) :
    fromDict (received (.obj a.toDict)) = .ok a := by
  have hd : (a.toDict.map Prod.fst).Nodup := by
    show ["node_type", "entity_key"].Nodup
    decide
  have hfield : ∀ {k : String} {v : Value}, (k, v) ∈ a.toDict →
      field (receivedMembers a.toDict) k = received v := fun h => field_received hd h
  rw [fromDict, exactDict_received 
    (show a.toDict.map Prod.fst = ["node_type", "entity_key"] from rfl)]
  simp only [bind, Except.bind]
  rw [hfield (k := "node_type") (v := .str a.nodeType.value) (by simp [toDict]),
    hfield (k := "entity_key") (v := .str a.entityKey.text) (by simp [toDict])]
  have htype : SyncNodeType.ofValue (received (.str a.nodeType.value)) = some a.nodeType :=
    SyncNodeType.ofValue_value a.nodeType
  have hkey : SyncEntityKey.parse (received (.str a.entityKey.text)) = .ok a.entityKey :=
    SyncEntityKey.parse_text a.entityKey
  rw [htype]
  dsimp only
  rw [hkey]
  exact dif_pos a.kind_agrees

end SyncSnapshotAnchor

namespace SyncCursorClaims

/-- Claims are built again from their fields. -/
theorem create_self (c : SyncCursorClaims) :
    create (.int SyncEvent.protocolVersion) (.str c.keyId) (.str c.tenantBinding)
      (.str c.remoteBinding) (.str c.consumerBinding) (.int c.afterSeq) (.int c.snapshotSeq)
      (.ofOptStr c.snapshotId) c.snapshotAfter c.issuedAt c.expiresAt = .ok c := by
  obtain ⟨k, t, r, n, a, q, i, s, x, e, hv⟩ := c
  simp only [create, requireExactString_str hv.key, requireExactString_str hv.tenant,
    requireExactString_str hv.remote, requireExactString_str hv.consumer, requireExactInt_natCast,
    optionalExactString_ofOptStr hv.snapshot, require, if_pos hv.ordered, if_pos hv.together,
    if_pos hv.expires, if_true, bind, Except.bind]
  exact dif_pos hv

/-- The round trip of the anchor. -/
theorem optionalAnchor_received (o : Option SyncSnapshotAnchor) :
    optionalAnchor (received (anchorDict o)) = .ok o := by
  cases o with
  | none => rfl
  | some a =>
    rw [anchorDict, received_obj, optionalAnchor, ← received_obj, a.fromDict_received]
    · rfl
    · exact fun h => nomatch h

/-- The round trip of claims. -/
theorem fromDict_received (c : SyncCursorClaims) :
    fromDict (received (.obj c.toDict)) = .ok c := by
  have hd : (c.toDict.map Prod.fst).Nodup := by
    show wireKeys.Nodup
    decide
  have hfield : ∀ {k : String} {v : Value}, (k, v) ∈ c.toDict →
      field (receivedMembers c.toDict) k = received v := fun h => field_received hd h
  rw [fromDict, exactDict_received (show c.toDict.map Prod.fst = wireKeys from rfl)]
  simp only [bind, Except.bind]
  rw [hfield (k := "version") (v := .int SyncEvent.protocolVersion) (by simp [toDict]),
    hfield (k := "key_id") (v := .str c.keyId) (by simp [toDict]),
    hfield (k := "tenant_binding") (v := .str c.tenantBinding) (by simp [toDict]),
    hfield (k := "remote_binding") (v := .str c.remoteBinding) (by simp [toDict]),
    hfield (k := "consumer_binding") (v := .str c.consumerBinding) (by simp [toDict]),
    hfield (k := "after_seq") (v := .int c.afterSeq) (by simp [toDict]),
    hfield (k := "snapshot_seq") (v := .int c.snapshotSeq) (by simp [toDict]),
    hfield (k := "snapshot_id") (v := .ofOptStr c.snapshotId) (by simp [toDict]),
    hfield (k := "snapshot_after") (v := anchorDict c.snapshotAfter) (by simp [toDict]),
    hfield (k := "issued_at") (v := .str (String.ofList (timeToWire c.issuedAt)))
      (by simp [toDict]),
    hfield (k := "expires_at") (v := .str (String.ofList (timeToWire c.expiresAt)))
      (by simp [toDict]),
    optionalAnchor_received, received_ofOptStr]
  have htime : ∀ (t : Timestamp) (name : String),
      timeFromWire (received (.str (String.ofList (timeToWire t)))) name = .ok t :=
    timeFromWire_text
  simp only [htime]
  exact c.create_self

/-- Claims are canonical JSON data where their positions are. -/
theorem assertJsonValue_toDict {c : SyncCursorClaims} :
    assertJsonValue (.obj c.toDict) = .ok () ↔ c.snapshotSeq ≤ maxJavascriptSafeInteger := by
  have hstr : ∀ {s : String}, ExactString s → assertJsonValue (.str s) = .ok () := fun h =>
    require_ok.mpr h.2
  have hseq : ∀ n : ℕ, assertJsonValue (.int n) = .ok () ↔ n ≤ maxJavascriptSafeInteger :=
    fun n => require_ok
  have hopt : ∀ {o : Option String}, (∀ s ∈ o, ExactString s) →
      assertJsonValue (.ofOptStr o) = .ok () := by
    intro o ho
    cases o with
    | none => rfl
    | some s => exact hstr (ho s rfl)
  have hkind : ∀ t : SyncNodeType, assertJsonValue (.str t.value) = .ok () := fun t =>
    require_ok.mpr (by cases t <;> decide)
  have hanchor : assertJsonValue (anchorDict c.snapshotAfter) = .ok () := by
    cases c.snapshotAfter with
    | none => rfl
    | some a =>
      refine assertJsonValue_obj.mpr ?_
      simp only [SyncSnapshotAnchor.toDict, List.forall_mem_cons, List.not_mem_nil, false_imp_iff,
        implies_true, and_true]
      exact ⟨⟨⟨by decide, by decide⟩, hkind a.nodeType⟩,
        ⟨⟨by decide, by decide⟩, hstr a.entityKey.text_exact⟩⟩
  have htime : ∀ t : Timestamp, assertJsonValue (.str (String.ofList (timeToWire t))) = .ok () :=
    fun t => hstr (timeToWire_exact t)
  have hkeys : ∀ k ∈ wireKeys, '\x00' ∉ k.toList ∧ k ≠ "" := by decide
  rw [assertJsonValue_obj]
  simp only [toDict, List.forall_mem_cons, List.not_mem_nil, false_imp_iff, implies_true, and_true]
  constructor
  · rintro ⟨-, -, -, -, -, -, ⟨-, hsnapshot⟩, -⟩
    exact (hseq _).mp hsnapshot
  · intro h
    have hv := c.valid
    simp only [wireKeys, List.forall_mem_cons, List.not_mem_nil, false_imp_iff, implies_true,
      and_true] at hkeys
    obtain ⟨h1, h2, h3, h4, h5, h6, h7, h8, h9, h10, h11⟩ := hkeys
    exact ⟨⟨h1, rfl⟩, ⟨h2, hstr hv.key⟩, ⟨h3, hstr hv.tenant⟩, ⟨h4, hstr hv.remote⟩,
      ⟨h5, hstr hv.consumer⟩, ⟨h6, (hseq _).mpr (hv.ordered.trans h)⟩, ⟨h7, (hseq _).mpr h⟩,
      ⟨h8, hopt hv.snapshot⟩, ⟨h9, hanchor⟩, ⟨h10, htime _⟩, ⟨h11, htime _⟩⟩

/-- The fields of claims are texts and integers, each under a key of its own. -/
theorem toDict_intForm {c : SyncCursorClaims} (h : c.snapshotSeq ≤ maxJavascriptSafeInteger) :
    IntForm (.obj c.toDict) := by
  have hanchor : IntForm (anchorDict c.snapshotAfter) := by
    cases c.snapshotAfter with
    | none => exact ⟨trivial, rfl⟩
    | some a =>
      refine intForm_obj (show ["node_type", "entity_key"].Nodup by decide) ?_
      simp only [SyncSnapshotAnchor.toDict, List.forall_mem_cons, List.not_mem_nil, false_imp_iff,
        implies_true, and_true]
      exact ⟨intForm_str _, intForm_str _⟩
  refine intForm_obj (show wireKeys.Nodup by decide) ?_
  simp only [toDict, List.forall_mem_cons, List.not_mem_nil, false_imp_iff, implies_true, and_true]
  exact ⟨intForm_int (show (1 : ℕ) ≤ maxJavascriptSafeInteger by decide), intForm_str _,
    intForm_str _, intForm_str _, intForm_str _, intForm_int (c.valid.ordered.trans h),
    intForm_int h, intForm_optStr _, hanchor, intForm_str _, intForm_str _⟩

/-- Claims are read back from their canonical text. -/
theorem fromDict_sortKeys {c : SyncCursorClaims} (h : c.snapshotSeq ≤ maxJavascriptSafeInteger) :
    fromDict (sortKeys (.obj c.toDict)) = .ok c := by
  rw [← received_eq_sortKeys (toDict_intForm h).1]
  exact c.fromDict_received

end SyncCursorClaims

/-- What `_b64url_decode` takes is what `_b64url_encode` writes. -/
theorem b64urlDecode_ok {text : List Char} {name : String} {raw : List UInt8}
    (h : b64urlDecode text name = .ok raw) : text = b64urlEncode raw := by
  simp only [b64urlDecode, Except.bind_ok, require_ok] at h
  obtain ⟨-, -, -, -, h⟩ := h
  split at h
  · exact absurd h (by simp)
  · simp only [Except.bind_ok, require_ok] at h
    obtain ⟨-, heq, hraw⟩ := h
    cases hraw
    exact heq.symm

/-- The bytes of a value are those of its canonical text. -/
theorem canonicalJsonBytes_ok {v : Value} {bytes : ByteArray} :
    canonicalJsonBytes v = .ok bytes ↔
      assertJsonValue v = .ok () ∧ (String.ofList (serializeJcs v)).toByteArray = bytes := by
  rw [canonicalJsonBytes, Except.bind_ok]
  exact ⟨fun ⟨_, hv, hb⟩ => ⟨hv, Except.ok.inj hb⟩, fun ⟨hv, hb⟩ => ⟨(), hv, congrArg _ hb⟩⟩

/-- The payload of claims that a token is signed over. -/
theorem signed_ok {hmac : Hmac} {secret : Bytes} {claims : SyncCursorClaims} {token : String} :
    signed hmac secret claims = .ok token ↔
      claims.snapshotSeq ≤ maxJavascriptSafeInteger ∧
        String.ofList (b64urlEncode (utf8 (String.ofList (serializeJcs (.obj claims.toDict)))) ++
          '.' :: b64urlEncode (hmac secret
            (utf8 (String.ofList (serializeJcs (.obj claims.toDict)))))) = token := by
  rw [signed, Except.bind_ok, ← SyncCursorClaims.assertJsonValue_toDict]
  constructor
  · rintro ⟨payload, hpayload, htoken⟩
    obtain ⟨hjson, rfl⟩ := canonicalJsonBytes_ok.mp hpayload
    exact ⟨hjson, Except.ok.inj htoken⟩
  · rintro ⟨hjson, rfl⟩
    exact ⟨_, canonicalJsonBytes_ok.mpr ⟨hjson, rfl⟩, rfl⟩

/-- A text is split at a character that neither half has. -/
theorem splitOn_dot {first second : List Char} (h : '.' ∉ first) (h' : '.' ∉ second) :
    (first ++ '.' :: second).splitOn '.' = [first, second] := by
  have hparts : ['.'].intercalate [first, second] = first ++ '.' :: second := by
    simp [List.intercalate]
  rw [← hparts]
  exact List.splitOn_intercalate '.' (by simp [h, h']) (List.cons_ne_nil _ _)

/-- The letters of base64url are no dots. -/
theorem dot_not_mem (raw : List UInt8) : '.' ∉ b64urlEncode raw := fun h =>
  absurd (Base64.mem_encode raw '.' h) (by decide)

/-- The token of signed claims is a string of the protocol. -/
theorem token_exact (payload signature : Bytes) :
    ExactString (String.ofList (b64urlEncode payload ++ '.' :: b64urlEncode signature)) := by
  have hletters : ∀ raw : Bytes, '\x00' ∉ b64urlEncode raw := fun raw h =>
    absurd (Base64.mem_encode raw '\x00' h) (by decide)
  constructor
  · intro h
    have hlist := congrArg String.toList h
    rw [String.toList_ofList] at hlist
    exact List.append_ne_nil_of_right_ne_nil _ (List.cons_ne_nil _ _) hlist
  · rw [String.toList_ofList, List.mem_append, List.mem_cons, not_or, not_or]
    exact ⟨hletters _, by decide, hletters _⟩

namespace SyncCursorCodec

variable (hmac : Hmac)

/-- The tokens that the body of `decode` takes: those of the claims that it returns, under the
secret of the ring that they name, for the expected bindings and before they expire. -/
theorem decodeBody_eq_ok (hne : ∀ key message, hmac key message ≠ []) {c : SyncCursorCodec}
    {token : Value} {t r s : String} {now : Timestamp} {claims : SyncCursorClaims} :
    c.decodeBody hmac token t r s now = .ok claims ↔
      ∃ secret text, c.secret claims.keyId = some secret ∧ token = .str text ∧
        signed hmac secret claims = .ok text ∧ claims.tenantBinding = t ∧
        claims.remoteBinding = r ∧ claims.consumerBinding = s ∧ now < claims.expiresAt := by
  constructor
  · intro h
    rw [decodeBody, Except.bind_ok] at h
    obtain ⟨text, htext, h⟩ := h
    obtain ⟨rfl, -⟩ := requireExactString_ok htext
    split at h
    · rename_i first second hsplit
      simp only [Except.bind_ok] at h
      obtain ⟨payload, hpayload, signature, hsignature, h⟩ := h
      split at h
      · exact absurd h (by simp)
      · simp only [Except.bind_ok, require_ok] at h
        obtain ⟨raw, -, read, -, canonical, hcanonical, -, hsame, h⟩ := h
        split at h
        · exact absurd h (by simp)
        · rename_i secret hsecret
          simp only [Except.bind_ok, require_ok] at h
          obtain ⟨-, hsigned, tenant, htenant, -, ht, remote, hremote, -, hr, consumer, hconsumer,
            -, hs, -, hnow, heq⟩ := h
          obtain rfl : read = claims := Except.ok.inj heq
          obtain rfl : t = tenant := Json.str.inj (requireExactString_ok htenant).1
          obtain rfl : r = remote := Json.str.inj (requireExactString_ok hremote).1
          obtain rfl : s = consumer := Json.str.inj (requireExactString_ok hconsumer).1
          refine ⟨secret, text, hsecret, rfl, ?_, ht, hr, hs, hnow⟩
          -- The text is that of its two halves, and these are those of what they decode to.
          have htext : text.toList = first ++ '.' :: second := by
            have hjoin : ['.'].intercalate (text.toList.splitOn '.') = text.toList :=
              List.intercalate_splitOn '.'
            rw [hsplit] at hjoin
            simpa [List.intercalate] using hjoin.symm
          rw [b64urlDecode_ok hpayload, b64urlDecode_ok hsignature, hsigned, ← hsame] at htext
          rw [signed]
          refine Except.bind_ok.mpr ⟨canonical, hcanonical, congrArg Except.ok ?_⟩
          rw [← String.toList_inj, String.toList_ofList, htext]
    · exact absurd h (by simp)
  · rintro ⟨secret, text, hsecret, rfl, hsigned, rfl, rfl, rfl, hnow⟩
    obtain ⟨hsafe, rfl⟩ := signed_ok.mp hsigned
    obtain ⟨hint, hkeyed⟩ := SyncCursorClaims.toDict_intForm hsafe
    have hcanonical := canonicalJsonBytes_ok.mpr
      ⟨SyncCursorClaims.assertJsonValue_toDict.mpr hsafe, rfl⟩
    have hread := SyncCursorClaims.fromDict_sortKeys hsafe
    have hnonempty : String.ofList (serializeJcs (.obj claims.toDict)) ≠ "" := by
      intro h
      have hlist := congrArg String.toList h
      rw [String.toList_ofList, serializeJcs] at hlist
      exact List.cons_ne_nil _ _ hlist
    have hloads := jsonLoads_serializeJcs hint hkeyed
    have hsplit := splitOn_dot (dot_not_mem (utf8 (String.ofList (serializeJcs (.obj claims.toDict)))))
      (dot_not_mem (hmac secret (utf8 (String.ofList (serializeJcs (.obj claims.toDict))))))
    -- From here on the payload is some bytes that read as the claims.
    generalize serializeJcs (.obj claims.toDict) = payload at *
    rw [decodeBody, Except.bind_ok]
    refine ⟨_, requireExactString_str (token_exact _ _) _, ?_⟩
    rw [String.toList_ofList, hsplit]
    refine Except.bind_ok.mpr ⟨_, b64urlDecode_encode (utf8_ne_nil hnonempty) _, ?_⟩
    refine Except.bind_ok.mpr ⟨_, b64urlDecode_encode (hne _ _) _, ?_⟩
    rw [ofUtf8_utf8]
    dsimp only
    rw [String.toList_ofList]
    refine Except.bind_ok.mpr ⟨_, hloads, Except.bind_ok.mpr ⟨claims, hread, ?_⟩⟩
    refine Except.bind_ok.mpr ⟨_, hcanonical, Except.bind_ok.mpr ⟨(), require_ok.mpr rfl, ?_⟩⟩
    rw [hsecret]
    have hv := claims.valid
    exact Except.bind_ok.mpr ⟨(), require_ok.mpr rfl,
      Except.bind_ok.mpr ⟨_, requireExactString_str hv.tenant _,
      Except.bind_ok.mpr ⟨(), require_ok.mpr rfl,
      Except.bind_ok.mpr ⟨_, requireExactString_str hv.remote _,
      Except.bind_ok.mpr ⟨(), require_ok.mpr rfl,
      Except.bind_ok.mpr ⟨_, requireExactString_str hv.consumer _,
      Except.bind_ok.mpr ⟨(), require_ok.mpr rfl,
      Except.bind_ok.mpr ⟨(), require_ok.mpr hnow, rfl⟩⟩⟩⟩⟩⟩⟩⟩

/-- The tokens that `decode` takes. -/
theorem decode_eq_ok (hne : ∀ key message, hmac key message ≠ []) {c : SyncCursorCodec}
    {token : Value} {t r s : String} {now : Timestamp} {claims : SyncCursorClaims} :
    c.decode hmac token t r s now = .ok claims ↔
      ∃ secret text, c.secret claims.keyId = some secret ∧ token = .str text ∧
        signed hmac secret claims = .ok text ∧ claims.tenantBinding = t ∧
        claims.remoteBinding = r ∧ claims.consumerBinding = s ∧ now < claims.expiresAt := by
  rw [← decodeBody_eq_ok hmac hne, decode]
  split
  · next heq => rw [heq]
  · next e heq =>
    rw [heq]
    split_ifs <;> exact iff_of_false (fun h => nomatch h) fun h => nomatch h

/-- A token that `decode` refuses is refused as an expired cursor. -/
theorem decode_error {c : SyncCursorCodec} {token : Value} {t r s : String} {now : Timestamp}
    {e : PyError} (h : c.decode hmac token t r s now = .error e) : e.kind = .syncCursorExpired := by
  rw [decode] at h
  split at h
  · exact absurd h (by simp)
  · split_ifs at h with hkind
    · exact Except.error.inj h ▸ hkind
    · exact Except.error.inj h ▸ rfl

/-- The token is that of the claims under the active key. -/
theorem encode_eq (c : SyncCursorCodec) (claims : SyncCursorClaims) :
    c.encode hmac claims =
      signed hmac c.activeSecret (claims.withKey c.activeKeyId c.active_exact) := by
  rw [encode]
  split_ifs with h
  · rfl
  · have hsame : claims.withKey c.activeKeyId c.active_exact = claims := by
      obtain ⟨keyId, _⟩ := claims
      obtain rfl : keyId = c.activeKeyId := not_not.mp h
      rfl
    rw [hsame]

/-- A token is taken back by every ring that has its key. -/
theorem decode_encode (hne : ∀ key message, hmac key message ≠ []) {c c' : SyncCursorCodec}
    (hkey : c'.secret c.activeKeyId = some c.activeSecret) {claims : SyncCursorClaims}
    {token : String} (h : c.encode hmac claims = .ok token) {now : Timestamp}
    (hnow : now < claims.expiresAt) :
    c'.decode hmac (.str token) claims.tenantBinding claims.remoteBinding claims.consumerBinding
      now = .ok (claims.withKey c.activeKeyId c.active_exact) := by
  rw [encode_eq] at h
  exact (decode_eq_ok hmac hne).mpr ⟨c.activeSecret, token, hkey, rfl, h, rfl, rfl, rfl, hnow⟩

/-- One more previous key. -/
theorem addPrevious_ok {c c' : SyncCursorCodec} {keyId secret : String}
    (h : c.addPrevious (.str keyId) (.str secret) = .ok c') :
    c'.activeKeyId = c.activeKeyId ∧ c'.activeSecret = c.activeSecret ∧
      ∀ k, c'.secret k = if keyId = k then some (utf8 secret) else c.secret k := by
  rw [addPrevious, Except.bind_ok] at h
  obtain ⟨read, hread, h⟩ := h
  obtain rfl : keyId = read := Json.str.inj (requireExactString_ok hread).1
  split_ifs at h with hactive
  obtain ⟨bytes, hbytes, hc⟩ := Except.bind_ok.mp h
  obtain ⟨text, htext, hbytes⟩ := Except.bind_ok.mp hbytes
  obtain rfl : secret = text := Json.str.inj (requireExactString_ok htext).1
  obtain ⟨-, -, hbytes⟩ := Except.bind_ok.mp hbytes
  obtain rfl : utf8 secret = bytes := Except.ok.inj hbytes
  obtain rfl := Except.ok.inj hc
  refine ⟨rfl, rfl, fun k => ?_⟩
  have hget : ((c.keys.set (keyId, utf8 secret)).get? k).map Prod.snd =
      if keyId = k then some (utf8 secret) else c.secret k := by
    rw [Table.get?_set]
    split_ifs <;> rfl
  exact hget

/-- The previous keys of a ring. -/
theorem addPrevious_foldlM {keys : List (String × String)} (hd : (keys.map Prod.fst).Nodup)
    {c c' : SyncCursorCodec}
    (h : keys.foldlM (fun c key => c.addPrevious (.str key.1) (.str key.2)) c = .ok c') :
    c'.activeKeyId = c.activeKeyId ∧ c'.activeSecret = c.activeSecret ∧
      (∀ key ∈ keys, c'.secret key.1 = some (utf8 key.2)) ∧
      ∀ k ∉ keys.map Prod.fst, c'.secret k = c.secret k := by
  induction keys generalizing c with
  | nil =>
    obtain rfl := Except.ok.inj h
    exact ⟨rfl, rfl, fun _ hkey => absurd hkey List.not_mem_nil, fun _ _ => rfl⟩
  | cons key keys ih =>
    rw [List.foldlM_cons] at h
    obtain ⟨mid, hmid, h⟩ := Except.bind_ok.mp h
    rw [List.map_cons, List.nodup_cons] at hd
    obtain ⟨hid, hsecret, hkeys⟩ := addPrevious_ok hmid
    obtain ⟨hid', hsecret', hkeys', hothers⟩ := ih hd.2 h
    refine ⟨hid'.trans hid, hsecret'.trans hsecret, ?_, fun k hk => ?_⟩
    · rw [List.forall_mem_cons]
      exact ⟨by rw [hothers _ hd.1, hkeys, if_pos rfl], hkeys'⟩
    · rw [List.map_cons, List.mem_cons, not_or] at hk
      rw [hothers k hk.2, hkeys, if_neg (Ne.symm hk.1)]

/-- A ring has the keys that it was made from. -/
theorem create_ok {activeKeyId activeSecret : String}
    {previousKeys : Table (Prod.fst : String × String → String)} {c : SyncCursorCodec}
    (h : create activeKeyId activeSecret previousKeys = .ok c) :
    c.activeKeyId = activeKeyId ∧ c.activeSecret = utf8 activeSecret ∧
      ∀ key ∈ (activeKeyId, activeSecret) :: previousKeys.rows,
        c.secret key.1 = some (utf8 key.2) := by
  rw [create, Except.bind_ok] at h
  obtain ⟨keyId, hkeyId, h⟩ := h
  obtain ⟨bytes, hbytes, h⟩ := Except.bind_ok.mp h
  obtain rfl : activeKeyId = keyId := Json.str.inj (requireExactString_ok hkeyId).1
  obtain ⟨text, htext, hbytes⟩ := Except.bind_ok.mp hbytes
  obtain rfl : activeSecret = text := Json.str.inj (requireExactString_ok htext).1
  obtain ⟨-, -, hbytes⟩ := Except.bind_ok.mp hbytes
  obtain rfl : utf8 activeSecret = bytes := Except.ok.inj hbytes
  split_ifs at h with hexact
  obtain ⟨hid, hsecret, hkeys, -⟩ := addPrevious_foldlM previousKeys.nodup h
  refine ⟨hid, hsecret, ?_⟩
  rw [List.forall_mem_cons]
  have hactive : c.secret c.activeKeyId = some c.activeSecret := by
    rw [secret, c.active_mem]
    rfl
  exact ⟨by rwa [hid, hsecret] at hactive, hkeys⟩

end SyncCursorCodec

/-- A token decodes to the claims it was encoded from, under the id of the key that was active then,
with every ring that has this key and before it expires. Whatever decodes is the token of its claims
under the key of the ring that they name, for the expected bindings; everything else is refused as
an expired cursor. Where digests tell keys and messages apart, a token that decodes was signed with
that key, over its own payload. -/
theorem cursors_canonical (hmac : Hmac) (hne : ∀ key message, hmac key message ≠ []) :
    (∀ (keyId secret keyId' secret' : String)
        (previous previous' : Table (Prod.fst : String × String → String))
        (c c' : SyncCursorCodec) (claims : SyncCursorClaims) (token : String) (now : Timestamp),
      SyncCursorCodec.create keyId secret previous = .ok c →
      SyncCursorCodec.create keyId' secret' previous' = .ok c' →
      (keyId, secret) ∈ (keyId', secret') :: previous'.rows →
      c.encode hmac claims = .ok token → now < claims.expiresAt →
      c'.decode hmac (.str token) claims.tenantBinding claims.remoteBinding
        claims.consumerBinding now = .ok (claims.withKey c.activeKeyId c.active_exact)) ∧
    (∀ (c : SyncCursorCodec) (token : Value) (t r s : String) (now : Timestamp),
      (∀ claims, c.decode hmac token t r s now = .ok claims →
        ∃ secret text, c.secret claims.keyId = some secret ∧ token = .str text ∧
          signed hmac secret claims = .ok text ∧ claims.tenantBinding = t ∧
          claims.remoteBinding = r ∧ claims.consumerBinding = s ∧ now < claims.expiresAt) ∧
      ∀ e, c.decode hmac token t r s now = .error e → e.kind = .syncCursorExpired) ∧
    ((∀ key message key' message', hmac key message = hmac key' message' →
        key = key' ∧ message = message') →
      ∀ (c : SyncCursorCodec) (payload key message : Bytes) (t r s : String) (now : Timestamp)
        (claims : SyncCursorClaims),
        c.decode hmac (.str (String.ofList
          (b64urlEncode payload ++ '.' :: b64urlEncode (hmac key message)))) t r s now =
            .ok claims →
          c.secret claims.keyId = some key ∧ message = payload) := by
  refine ⟨?_, fun c token t r s now => ⟨fun claims h => (c.decode_eq_ok hmac hne).mp h,
    fun e h => c.decode_error hmac h⟩, ?_⟩
  · intro keyId secret keyId' secret' previous previous' c c' claims token now hc hc' hmem h hnow
    obtain ⟨hid, hsecret, -⟩ := SyncCursorCodec.create_ok hc
    obtain ⟨-, -, hkeys⟩ := SyncCursorCodec.create_ok hc'
    have hkey : c'.secret c.activeKeyId = some c.activeSecret := by
      rw [hid, hsecret]
      exact hkeys _ hmem
    exact SyncCursorCodec.decode_encode hmac hne hkey h hnow
  · intro hinj c payload key message t r s now claims h
    obtain ⟨secret, text, hkey, htoken, hsigned, -⟩ := (c.decode_eq_ok hmac hne).mp h
    obtain ⟨-, htext⟩ := signed_ok.mp hsigned
    -- The two halves of the token are the same on both sides.
    have hchars := congrArg String.toList (htext.trans (Json.str.inj htoken).symm)
    rw [String.toList_ofList, String.toList_ofList] at hchars
    have hhalves := congrArg (List.splitOn '.') hchars
    rw [splitOn_dot (dot_not_mem _) (dot_not_mem _),
      splitOn_dot (dot_not_mem _) (dot_not_mem _)] at hhalves
    have hpayload := Base64.encode_injective (List.cons.inj hhalves).1
    have hdigest := Base64.encode_injective (List.cons.inj (List.cons.inj hhalves).2).1
    obtain ⟨rfl, rfl⟩ := hinj _ _ _ _ hdigest
    exact ⟨hkey, hpayload⟩

/-- Claims that were issued under another key. -/
def sampleClaims : SyncCursorClaims where
  keyId := "old"
  tenantBinding := "tenant"
  remoteBinding := "peer"
  consumerBinding := "target"
  afterSeq := 1
  snapshotSeq := 2
  snapshotId := none
  snapshotAfter := none
  issuedAt := ⟨2026, 1, 1, 0, 0, 0, 0, by decide⟩
  expiresAt := ⟨2026, 1, 1, 1, 0, 0, 0, by decide⟩
  valid := by decide

/-- A ring with one key. -/
theorem sampleRing : ∃ c, SyncCursorCodec.create "new" "0123456789abcdef0123456789abcdef" .empty =
    .ok c := by
  have hsecret : validateSecret (.str "0123456789abcdef0123456789abcdef") "active_secret" =
      .ok (utf8 "0123456789abcdef0123456789abcdef") :=
    Except.bind_ok.mpr ⟨_, requireExactString_str (by decide) _,
      Except.bind_ok.mpr ⟨(), require_ok.mpr (by decide +kernel), rfl⟩⟩
  exact ⟨_, Except.bind_ok.mpr ⟨_, requireExactString_str (by decide) _,
    Except.bind_ok.mpr ⟨_, hsecret, dif_pos (by decide)⟩⟩⟩

/-- The claims have a token. -/
theorem encode_sample (hmac : Hmac) (c : SyncCursorCodec) :
    ∃ token, c.encode hmac sampleClaims = .ok token := by
  rw [SyncCursorCodec.encode_eq]
  exact ⟨_, signed_ok.mpr ⟨show 2 ≤ maxJavascriptSafeInteger by decide, rfl⟩⟩

/-- A digest that keeps the key and the message. -/
def sampleHmac : Hmac := fun key message => (key.flatMap fun b => [1, b]) ++ 0 :: message

theorem sampleHmac_ne (key message : Bytes) : sampleHmac key message ≠ [] :=
  List.append_ne_nil_of_right_ne_nil _ (List.cons_ne_nil _ _)

theorem sampleHmac_injective (key message key' message' : Bytes)
    (h : sampleHmac key message = sampleHmac key' message') : key = key' ∧ message = message' := by
  induction key generalizing key' with
  | nil =>
    cases key' with
    | nil => exact ⟨rfl, (List.cons.inj h).2⟩
    | cons b' key' => exact absurd (List.cons.inj h).1 (by decide)
  | cons b key ih =>
    cases key' with
    | nil => exact absurd (List.cons.inj h).1 (by decide)
    | cons b' key' =>
      obtain ⟨rfl, hrest⟩ := List.cons.inj (List.cons.inj h).2
      obtain ⟨rfl, hmessage⟩ := ih key' hrest
      exact ⟨rfl, hmessage⟩

/-- A token of one ring decodes with it half an hour later, and only the key of the ring signs. -/
theorem cursors_sample : ∃ c token,
    SyncCursorCodec.create "new" "0123456789abcdef0123456789abcdef" .empty = .ok c ∧
      c.encode sampleHmac sampleClaims = .ok token ∧
      c.decode sampleHmac (.str token) "tenant" "peer" "target"
        ⟨2026, 1, 1, 0, 30, 0, 0, by decide⟩ =
          .ok (sampleClaims.withKey c.activeKeyId c.active_exact) ∧
      ∀ payload key message t r s now claims, c.decode sampleHmac (.str (String.ofList
          (b64urlEncode payload ++ '.' :: b64urlEncode (sampleHmac key message)))) t r s now =
            .ok claims → c.secret claims.keyId = some key ∧ message = payload := by
  obtain ⟨c, hc⟩ := sampleRing
  obtain ⟨token, htoken⟩ := encode_sample sampleHmac c
  obtain ⟨hround, -, hsigned⟩ := cursors_canonical sampleHmac sampleHmac_ne
  exact ⟨c, token, hc, htoken,
    hround _ _ _ _ _ _ c c sampleClaims token _ hc hc List.mem_cons_self htoken (by decide),
    hsigned sampleHmac_injective c⟩

/-- Claims under the id of another key come back under that of the active one. -/
theorem key_id_replaced :
    ¬ ∀ (hmac : Hmac) (c : SyncCursorCodec) (claims : SyncCursorClaims) (token : String)
        (now : Timestamp), (∀ key message, hmac key message ≠ []) →
      c.encode hmac claims = .ok token → now < claims.expiresAt →
        c.decode hmac (.str token) claims.tenantBinding claims.remoteBinding
          claims.consumerBinding now = .ok claims := by
  intro h
  obtain ⟨c, hc⟩ := sampleRing
  obtain ⟨hid, hsecret, hkeys⟩ := SyncCursorCodec.create_ok hc
  obtain ⟨token, htoken⟩ := encode_sample sampleHmac c
  have hnow : (⟨2026, 1, 1, 0, 30, 0, 0, by decide⟩ : Timestamp) < sampleClaims.expiresAt := by
    decide
  have hkey : c.secret c.activeKeyId = some c.activeSecret := by
    rw [hid, hsecret]
    exact hkeys _ List.mem_cons_self
  have hback := SyncCursorCodec.decode_encode _ sampleHmac_ne hkey htoken hnow
  have hsame := Except.ok.inj (hback.symm.trans (h _ c sampleClaims token _ sampleHmac_ne htoken hnow))
  have hids : c.activeKeyId = "old" := congrArg SyncCursorClaims.keyId hsame
  rw [hid] at hids
  exact absurd hids (by decide)

end Memplex.Cursor
