import Memplex.Protocol.Jcs
import Memplex.Protocol.Time
import Memplex.Lib.Base64
import Memplex.Lib.Canonical

/-!
# Versions and entity keys

The two identifiers of the protocol that travel as text. A `SyncVersion` is a timestamp, an origin
node and an event id, ordered in that order; its text is `v1:` and the base64url of the canonical
JSON of the three. A `SyncEntityKey` names a node by its id or an edge by its three parts; its text
is `node:v1:` or `edge:v1:` and the base64url of the id or of the canonical JSON of the parts. Both
are built by the checks of their constructors, which the values carry, and both parsers end by
comparing the text of what they parsed with their input. The round trips `SyncVersion.parse_text`
and `SyncEntityKey.parse_text` are what makes the texts usable as identities.
-/

namespace Memplex

open Lib Lib.Json

/-! ## Bytes -/

/-- `text.encode("utf-8")`. -/
def utf8 (s : String) : List UInt8 := s.toByteArray.data.toList

/-- `raw.decode("utf-8")`. -/
def ofUtf8 (bytes : List UInt8) : Option String := String.fromUTF8? ⟨bytes.toArray⟩

@[simp] theorem fromUTF8?_toByteArray (s : String) : String.fromUTF8? s.toByteArray = some s := by
  unfold String.fromUTF8?
  rw [dif_pos s.isValidUTF8]
  rfl

theorem ofUtf8_utf8 (s : String) : ofUtf8 (utf8 s) = some s := by
  have h : (⟨(utf8 s).toArray⟩ : ByteArray) = s.toByteArray := by
    unfold utf8
    rw [Array.toArray_toList]
  rw [ofUtf8, h, fromUTF8?_toByteArray]

/-- `_b64url_encode`. -/
def b64urlEncode (raw : List UInt8) : List Char := Base64.encode raw

/-- `_b64url_decode`, on a text that is a string. -/
def b64urlDecode (text : List Char) (name : String) : Except PyError (List UInt8) := do
  require (text ≠ []) (valueError (name ++ " must be non-empty"))
  require (∀ c ∈ text, (Base64.value c).isSome) (valueError (name ++ " is not unpadded base64url"))
  match Base64.decode text with
  | none => .error (valueError (name ++ " is not base64url"))
  | some raw =>
    require (b64urlEncode raw = text) (valueError (name ++ " is not canonical base64url"))
    return raw

theorem b64urlDecode_encode {raw : List UInt8} (hne : raw ≠ []) (name : String) :
    b64urlDecode (b64urlEncode raw) name = .ok raw := by
  have hne' : b64urlEncode raw ≠ [] := fun h => hne (Base64.encode_eq_nil.mp h)
  have hall : ∀ c ∈ b64urlEncode raw, (Base64.value c).isSome := Base64.mem_encode raw
  have hdec : Base64.decode (b64urlEncode raw) = some raw := Base64.decode_encode raw
  rw [b64urlDecode, require, if_pos hne', require, if_pos hall, hdec]
  simp [require, bind, Except.bind, pure, Except.pure]

/-- `text.split(":", maxsplit=1)`, when there is a colon. -/
def splitFirstColon : List Char → Option (List Char × List Char)
  | [] => none
  | c :: cs => if c = ':' then some ([], cs)
    else (splitFirstColon cs).map fun (before, after) => (c :: before, after)

/-- `text.split(":")`. -/
def splitColon : List Char → List (List Char)
  | [] => [[]]
  | c :: cs =>
    if c = ':' then [] :: splitColon cs
    else match splitColon cs with
      | [] => [[c]]
      | part :: parts => (c :: part) :: parts

theorem splitColon_plain (cs : List Char) (h : ∀ c ∈ cs, c ≠ ':') : splitColon cs = [cs] := by
  induction cs with
  | nil => rfl
  | cons c cs ih =>
    rw [splitColon, if_neg (h c (by simp)), ih fun x hx => h x (List.mem_cons_of_mem _ hx)]

theorem splitColon_append (cs rest : List Char) (h : ∀ c ∈ cs, c ≠ ':') :
    splitColon (cs ++ ':' :: rest) = cs :: splitColon rest := by
  induction cs with
  | nil => rfl
  | cons c cs ih =>
    rw [List.cons_append, splitColon, if_neg (h c (by simp)),
      ih fun x hx => h x (List.mem_cons_of_mem _ hx)]

/-! ## Strings of the protocol -/

/-- A string that `_require_exact_string` accepts: not empty, without U+0000. -/
def ExactString (s : String) : Prop := s ≠ "" ∧ '\x00' ∉ s.toList

instance (s : String) : Decidable (ExactString s) := by unfold ExactString; infer_instance

theorem requireExactString_str {s : String} (h : ExactString s) (name : String) :
    requireExactString (.str s) name false = .ok s := by
  simp [requireExactString, assertUnicodeScalarString, require, h.1, h.2, bind, Except.bind, pure,
    Except.pure]

/-- What `_require_exact_string` returned is the string it was given, and exact. -/
theorem requireExactString_ok {v : Value} {name s : String}
    (h : requireExactString v name false = .ok s) : v = .str s ∧ ExactString s := by
  unfold requireExactString at h
  split at h
  · rename_i t
    simp only [assertUnicodeScalarString, Except.bind_ok, require_ok] at h
    obtain ⟨-, h0, -, hne, hs⟩ := h
    cases hs
    exact ⟨rfl, by simpa using hne, h0⟩
  · exact absurd h (by simp)

/-- A lower-case hexadecimal digit. -/
def isLowerHex (c : Char) : Bool := c.isDigit || ('a' ≤ c && c ≤ 'f')

/-- The text that `str(uuid.UUID(...))` produces: five groups of lower-case digits. -/
def CanonicalUuid (s : String) : Prop :=
  s.toList.length = 36 ∧ ∀ p ∈ s.toList.zipIdx,
    if p.2 = 8 ∨ p.2 = 13 ∨ p.2 = 18 ∨ p.2 = 23 then p.1 = '-' else isLowerHex p.1

instance (s : String) : Decidable (CanonicalUuid s) := by unfold CanonicalUuid; infer_instance

/-- `_require_uuid`. -/
def requireUuid (value : Value) (name : String) : Except PyError String := do
  let text ← requireExactString value name false
  require (CanonicalUuid text) (valueError (name ++ " must be a canonical UUID"))
  return text

theorem CanonicalUuid.exact {s : String} (h : CanonicalUuid s) : ExactString s := by
  obtain ⟨hlen, hchars⟩ := h
  constructor
  · rintro rfl
    simp at hlen
  · intro h0
    obtain ⟨i, hi⟩ := List.getElem?_of_mem h0
    have hc := hchars ('\x00', i) (List.mem_zipIdx_iff_getElem?.mpr hi)
    split_ifs at hc
    · simp at hc
    · exact absurd (show isLowerHex '\x00' = true from hc) (by decide)

theorem requireUuid_str {s : String} (h : CanonicalUuid s) (name : String) :
    requireUuid (.str s) name = .ok s := by
  simp [requireUuid, requireExactString_str h.exact, require, h, bind, Except.bind, pure,
    Except.pure]

theorem requireUuid_ok {v : Value} {name s : String} (h : requireUuid v name = .ok s) :
    v = .str s ∧ CanonicalUuid s := by
  simp only [requireUuid, Except.bind_ok, require_ok] at h
  obtain ⟨t, ht, -, hu, hs⟩ := h
  cases hs
  exact ⟨(requireExactString_ok ht).1, hu⟩

/-! ## Triples of strings -/

/-- The canonical JSON of three strings. -/
def tripleText (a b c : String) : List Char := serializeJcs (.arr [.str a, .str b, .str c])

/-- Reads a JSON list of three strings. A list of other values is refused here, where the program
leaves that to the constructor it passes them to. -/
def readTriple (text : String) (notJson badShape : PyError) :
    Except PyError (String × String × String) :=
  match loads text.toList with
  | none => .error notJson
  | some (.arr [.str a, .str b, .str c]) => .ok (a, b, c)
  | some _ => .error badShape

theorem readTriple_tripleText (a b c : String) (notJson badShape : PyError) :
    readTriple (String.ofList (tripleText a b c)) notJson badShape = .ok (a, b, c) := by
  have hw : tripleText a b c = write (fun _ => []) (.arr [.str a, .str b, .str c] : Value) := by
    simp [tripleText, serializeJcs, serializeItems, write, writeItems, List.intercalate,
      List.intersperse]
  have hreads : (.arr [.str a, .str b, .str c] : Value).All (Reads (fun _ => []) fun _ => .nan) := by
    simp
  have hl := loads_write _ hreads
  rw [readTriple, String.toList_ofList, hw, hl]
  simp

theorem utf8_ne_nil {s : String} (hs : s ≠ "") : utf8 s ≠ [] := by
  intro h
  have hd := ofUtf8_utf8 s
  rw [h, show ofUtf8 [] = some "" by decide +kernel] at hd
  exact hs (Option.some.inj hd).symm

theorem tripleText_ne_empty (a b c : String) : String.ofList (tripleText a b c) ≠ "" := by
  intro h
  have hl := congrArg String.toList h
  rw [String.toList_ofList] at hl
  exact absurd hl (by simp [tripleText, serializeJcs])

/-- The letters that carry three strings. -/
def encodeTriple (a b c : String) : List Char :=
  b64urlEncode (utf8 (String.ofList (tripleText a b c)))

/-- The three strings that letters carry. -/
def decodeTriple (payload : List Char) (name : String) (notJson badShape : PyError) :
    Except PyError (String × String × String) := do
  let raw ← b64urlDecode payload name
  match ofUtf8 raw with
  | none => .error notJson
  | some json => readTriple json notJson badShape

theorem decodeTriple_encodeTriple (a b c name : String) (notJson badShape : PyError) :
    decodeTriple (encodeTriple a b c) name notJson badShape = .ok (a, b, c) := by
  rw [decodeTriple, encodeTriple, b64urlDecode_encode (utf8_ne_nil (tripleText_ne_empty a b c))]
  simp only [bind, Except.bind, ofUtf8_utf8]
  exact readTriple_tripleText a b c notJson badShape

/-! ## Versions -/

/-- The totally ordered version of an event. -/
structure SyncVersion where
  /-- When the event occurred, in UTC. -/
  occurredAt : Timestamp
  /-- The node the event comes from. -/
  originNodeId : String
  /-- The event itself. -/
  eventId : String
  /-- The origin is an exact string. -/
  origin_valid : ExactString originNodeId
  /-- The event id is a canonical UUID. -/
  event_valid : CanonicalUuid eventId
deriving DecidableEq

namespace SyncVersion

/-- `_order_key`. -/
def orderKey (v : SyncVersion) : Timestamp ×ₗ String ×ₗ String :=
  toLex (v.occurredAt, toLex (v.originNodeId, v.eventId))

theorem orderKey_injective : Function.Injective orderKey := by
  rintro ⟨t, o, e, ho, he⟩ ⟨t', o', e', ho', he'⟩ h
  simp only [orderKey, EmbeddingLike.apply_eq_iff_eq, Prod.mk.injEq] at h
  obtain ⟨rfl, rfl, rfl⟩ := h
  rfl

/-- The order of versions: by time, then origin, then event id. -/
instance : LinearOrder SyncVersion := LinearOrder.lift' orderKey orderKey_injective

/-- `SyncVersion(...)`: the checks of the constructor. -/
def create (occurredAt : Timestamp) (originNodeId eventId : Value) : Except PyError SyncVersion := do
  match requireExactString originNodeId "origin_node_id" false,
    requireUuid eventId "event_id" with
  | .error e, _ => .error e
  | _, .error e => .error e
  | .ok o, .ok e =>
    if h : ExactString o ∧ CanonicalUuid e then .ok ⟨occurredAt, o, e, h.1, h.2⟩
    else .error (valueError "version has invalid shape")

theorem create_self (v : SyncVersion) :
    create v.occurredAt (.str v.originNodeId) (.str v.eventId) = .ok v := by
  rw [create, requireExactString_str v.origin_valid, requireUuid_str v.event_valid]
  exact dif_pos ⟨v.origin_valid, v.event_valid⟩

/-- The letters of the three parts. -/
def payload (v : SyncVersion) : List Char :=
  encodeTriple (String.ofList (timeToWire v.occurredAt)) v.originNodeId v.eventId

/-- `str(version)`. -/
def text (v : SyncVersion) : String := String.ofList ('v' :: '1' :: ':' :: v.payload)

/-- The version of three strings. -/
def ofTriple (time origin event : String) : Except PyError SyncVersion :=
  match timeFromWire time.toList with
  | none => .error (valueError "version timestamp must use canonical UTC microseconds")
  | some occurredAt => create occurredAt (.str origin) (.str event)

/-- `SyncVersion.parse`. -/
def parse (value : Value) : Except PyError SyncVersion := do
  let text ← requireExactString value "version" false
  match splitFirstColon text.toList with
  | none => .error (valueError "version has invalid shape")
  | some (tag, payload) =>
    require (tag = ['v', '1']) (valueError "version has invalid shape")
    let (time, origin, event) ← decodeTriple payload "version payload"
      (valueError "version payload is not canonical JSON")
      (valueError "version payload has invalid shape")
    let parsed ← ofTriple time origin event
    require (parsed.text = text) (valueError "version is not canonical")
    return parsed

theorem text_exact (v : SyncVersion) : ExactString v.text := by
  constructor
  · intro h
    have hl := congrArg String.toList h
    rw [text, String.toList_ofList] at hl
    exact absurd hl (by simp)
  · rw [text, String.toList_ofList]
    simp only [List.mem_cons]
    rintro (h | h | h | h)
    · exact absurd h (by decide)
    · exact absurd h (by decide)
    · exact absurd h (by decide)
    · exact absurd (Base64.mem_encode _ _ h) (by decide)

theorem ofTriple_self (v : SyncVersion) :
    ofTriple (String.ofList (timeToWire v.occurredAt)) v.originNodeId v.eventId = .ok v := by
  rw [ofTriple, String.toList_ofList, timeFromWire_timeToWire]
  exact v.create_self

/-- The round trip of the version codec. -/
theorem parse_text (v : SyncVersion) : parse (.str v.text) = .ok v := by
  have hsplit : splitFirstColon v.text.toList = some (['v', '1'], v.payload) := by
    rw [text, String.toList_ofList]
    simp [splitFirstColon]
  rw [parse, requireExactString_str v.text_exact]
  simp only [bind, Except.bind, hsplit, require, if_true, payload, decodeTriple_encodeTriple,
    ofTriple_self]
  rfl

/-- What parses is the text of the version it parses to. -/
theorem parse_ok {value : Value} {v : SyncVersion} (h : parse value = .ok v) :
    value = .str v.text := by
  unfold parse at h
  rw [Except.bind_ok] at h
  obtain ⟨text, htext, h⟩ := h
  rw [(requireExactString_ok htext).1]
  split at h
  · exact absurd h (by simp)
  · simp only [Except.bind_ok, require_ok] at h
    obtain ⟨-, -, -, -, parsed, -, -, ht, hp⟩ := h
    cases hp
    rw [ht]

/-- Versions and their texts are one to one. -/
theorem canonical : Canonical (fun v : SyncVersion => (Json.str v.text : Value)) parse :=
  ⟨parse_text, fun _ _ h => (parse_ok h).symm⟩

theorem text_injective : Function.Injective text := fun _ _ h =>
  canonical.render_injective (congrArg Json.str h)

end SyncVersion

/-! ## Entity keys -/

/-- What an entity key names. -/
inductive EntityShape where
  | node (nodeId : String)
  | edge (sourceId targetId edgeType : String)
deriving DecidableEq

/-- The longest id of an entity, in UTF-8 bytes. -/
def maxEntityIdBytes : ℕ := 256

/-- The longest text of an entity key. -/
def maxEntityKeyBytes : ℕ := 1200

/-- An id that `_validate_entity_id` accepts. -/
def EntityId (s : String) : Prop := ExactString s ∧ (utf8 s).length ≤ maxEntityIdBytes

instance (s : String) : Decidable (EntityId s) := by unfold EntityId; infer_instance

/-- `_validate_entity_id`. -/
def validateEntityId (value : Value) (name : String) : Except PyError String := do
  let text ← requireExactString value name false
  require ((utf8 text).length ≤ maxEntityIdBytes) (valueError (name ++ " exceeds maximum size"))
  return text

theorem validateEntityId_str {s : String} (h : EntityId s) (name : String) :
    validateEntityId (.str s) name = .ok s := by
  simp [validateEntityId, requireExactString_str h.1, require, h.2, bind, Except.bind, pure,
    Except.pure]

namespace EntityShape

/-- The kind that begins the text of a key. -/
def kind : EntityShape → List Char
  | .node _ => ['n', 'o', 'd', 'e']
  | .edge _ _ _ => ['e', 'd', 'g', 'e']

/-- The letters that carry the ids. -/
def payload : EntityShape → List Char
  | .node nodeId => b64urlEncode (utf8 nodeId)
  | .edge sourceId targetId edgeType => encodeTriple sourceId targetId edgeType

/-- `str(key)`. -/
def text (s : EntityShape) : String :=
  String.ofList (s.kind ++ ':' :: (['v', '1'] ++ ':' :: s.payload))

/-- Every id of the shape is one of an entity. -/
def Ids : EntityShape → Prop
  | .node nodeId => EntityId nodeId
  | .edge sourceId targetId edgeType => EntityId sourceId ∧ EntityId targetId ∧ EntityId edgeType

instance (s : EntityShape) : Decidable s.Ids := by
  cases s <;> (unfold Ids; infer_instance)

end EntityShape

/-- The canonical identity of a node or an edge. -/
structure SyncEntityKey where
  /-- What the key names. -/
  shape : EntityShape
  /-- Its ids are entity ids. -/
  ids : shape.Ids
  /-- Its text is within the limit. -/
  size : shape.text.length ≤ maxEntityKeyBytes
deriving DecidableEq

namespace SyncEntityKey

/-- `str(key)`. -/
def text (k : SyncEntityKey) : String := k.shape.text

/-- The size check that ends the constructor. -/
def ofShape (shape : EntityShape) : Except PyError SyncEntityKey :=
  if hi : shape.Ids then
    if hs : shape.text.length ≤ maxEntityKeyBytes then .ok ⟨shape, hi, hs⟩
    else .error (valueError "entity key exceeds maximum size")
  else .error (valueError "unknown entity key kind")

/-- `SyncEntityKey.node`. -/
def node (nodeId : Value) : Except PyError SyncEntityKey := do
  ofShape (.node (← validateEntityId nodeId "node_id"))

/-- `SyncEntityKey.edge`. -/
def edge (sourceId targetId edgeType : Value) : Except PyError SyncEntityKey := do
  let s ← validateEntityId sourceId "source_id"
  let t ← validateEntityId targetId "target_id"
  let e ← validateEntityId edgeType "edge_type"
  ofShape (.edge s t e)

/-- `edge_parts`. -/
def edgeParts (k : SyncEntityKey) : Option (String × String × String) :=
  match k.shape with
  | .node _ => none
  | .edge s t e => some (s, t, e)

/-- `node_id`. -/
def nodeId (k : SyncEntityKey) : Option String :=
  match k.shape with
  | .node n => some n
  | .edge _ _ _ => none

/-- Whether the kind of the key is `"edge"`. -/
def isEdge (k : SyncEntityKey) : Bool := k.edgeParts.isSome

/-- The key of a kind and the letters of its ids. -/
def ofPayload (kind payload : List Char) : Except PyError SyncEntityKey :=
  if kind = ['n', 'o', 'd', 'e'] then do
    let raw ← b64urlDecode payload "entity_key payload"
    match ofUtf8 raw with
    | none => .error (valueError "node id is not UTF-8")
    | some nodeId => node (.str nodeId)
  else if kind = ['e', 'd', 'g', 'e'] then do
    let (s, t, e) ← decodeTriple payload "entity_key payload"
      (valueError "edge payload is not canonical JSON")
      (valueError "edge payload must be a three-element list")
    edge (.str s) (.str t) (.str e)
  else .error (valueError "unknown entity key kind")

/-- `SyncEntityKey.parse`. -/
def parse (value : Value) : Except PyError SyncEntityKey := do
  let text ← requireExactString value "entity_key" false
  require (∀ c ∈ text.toList, c.toNat < 128) (valueError "entity key is not ASCII")
  require (text.length ≤ maxEntityKeyBytes) (valueError "entity key exceeds maximum size")
  match splitColon text.toList with
  | [kind, version, payload] =>
    require (version = ['v', '1']) (valueError "unknown entity key version")
    let parsed ← ofPayload kind payload
    require (parsed.text = text) (valueError "entity key is not canonical")
    return parsed
  | _ => .error (valueError "unknown entity key version")

theorem ofShape_self (k : SyncEntityKey) : ofShape k.shape = .ok k := by
  rw [ofShape, dif_pos k.ids, dif_pos k.size]

/-- The ids of a key are carried by letters of the alphabet. -/
theorem payload_mem (s : EntityShape) : ∀ c ∈ s.payload, (Base64.value c).isSome := by
  cases s with
  | node n => exact Base64.mem_encode _
  | edge s t e => exact Base64.mem_encode _

/-- A letter of the alphabet is an ASCII character, and none of the two that matter here. -/
theorem ascii_of_value {c : Char} (hc : (Base64.value c).isSome) :
    c.toNat < 128 ∧ c ≠ '\x00' ∧ c ≠ ':' := by
  refine ⟨?_, by rintro rfl; exact absurd hc (by decide), by rintro rfl; exact absurd hc (by decide)⟩
  by_contra hlt
  have hle : ∀ d : Char, d.toNat < 128 → ¬ c ≤ d := fun d hd hcd =>
    absurd (show c.toNat ≤ d.toNat from hcd) (by omega)
  have hne : Base64.value c = none := by
    unfold Base64.value
    rw [if_neg fun h => hle _ (by decide) h.2, if_neg fun h => hle _ (by decide) h.2,
      if_neg fun h => hle _ (by decide) h.2, if_neg (by rintro rfl; exact hlt (by decide)),
      if_neg (by rintro rfl; exact hlt (by decide))]
  rw [hne] at hc
  exact absurd hc (by simp)

theorem kind_ascii (s : EntityShape) : ∀ c ∈ s.kind, c.toNat < 128 ∧ c ≠ '\x00' ∧ c ≠ ':' := by
  cases s <;> (simp only [EntityShape.kind]; decide)

theorem text_toList (k : SyncEntityKey) :
    k.text.toList = k.shape.kind ++ ':' :: (['v', '1'] ++ ':' :: k.shape.payload) := by
  rw [text, EntityShape.text, String.toList_ofList]

/-- The text of a key is ASCII, without U+0000. -/
theorem text_ascii (k : SyncEntityKey) : ∀ c ∈ k.text.toList, c.toNat < 128 ∧ c ≠ '\x00' := by
  intro c hc
  rw [text_toList] at hc
  simp only [List.mem_append, List.mem_cons, List.not_mem_nil, or_false] at hc
  rcases hc with hc | rfl | (rfl | rfl) | rfl | hc
  · exact ⟨(kind_ascii _ c hc).1, (kind_ascii _ c hc).2.1⟩
  · decide
  · decide
  · decide
  · decide
  · exact ⟨(ascii_of_value (payload_mem _ c hc)).1, (ascii_of_value (payload_mem _ c hc)).2.1⟩

theorem text_exact (k : SyncEntityKey) : ExactString k.text := by
  refine ⟨?_, fun h0 => (k.text_ascii _ h0).2 rfl⟩
  intro h
  have ht := k.text_toList
  rw [h] at ht
  exact absurd ht (by simp)

theorem splitColon_text (k : SyncEntityKey) :
    splitColon k.text.toList = [k.shape.kind, ['v', '1'], k.shape.payload] := by
  rw [text_toList, splitColon_append _ _ fun c hc => (kind_ascii _ c hc).2.2,
    splitColon_append _ _ (by decide),
    splitColon_plain _ fun c hc => (ascii_of_value (payload_mem _ c hc)).2.2]

/-- The ids of a key come back from its kind and letters. -/
theorem ofPayload_self (k : SyncEntityKey) : ofPayload k.shape.kind k.shape.payload = .ok k := by
  have hself := k.ofShape_self
  obtain ⟨shape, ids, size⟩ := k
  cases shape with
  | node n =>
    have hid : EntityId n := ids
    have hraw := b64urlDecode_encode (utf8_ne_nil hid.1.1) "entity_key payload"
    simp only [ofPayload, EntityShape.kind, EntityShape.payload, if_true, hraw, bind, Except.bind,
      ofUtf8_utf8, node, validateEntityId_str hid]
    exact hself
  | edge s t e =>
    have hids : EntityId s ∧ EntityId t ∧ EntityId e := ids
    have hkind : ¬ ['e', 'd', 'g', 'e'] = ['n', 'o', 'd', 'e'] := by decide
    simp only [ofPayload, EntityShape.kind, EntityShape.payload, if_neg hkind, if_true,
      decodeTriple_encodeTriple, bind, Except.bind, edge, validateEntityId_str hids.1,
      validateEntityId_str hids.2.1, validateEntityId_str hids.2.2]
    exact hself

/-- The round trip of the entity key codec. -/
theorem parse_text (k : SyncEntityKey) : parse (.str k.text) = .ok k := by
  have hascii : ∀ c ∈ k.text.toList, c.toNat < 128 := fun c hc => (k.text_ascii c hc).1
  have hsize : k.text.length ≤ maxEntityKeyBytes := k.size
  rw [parse, requireExactString_str k.text_exact]
  simp only [require, if_pos hascii, if_pos hsize, bind, Except.bind, splitColon_text, if_true,
    ofPayload_self]
  rfl

/-- What parses is the text of the key it parses to. -/
theorem parse_ok {value : Value} {k : SyncEntityKey} (h : parse value = .ok k) :
    value = .str k.text := by
  simp only [parse, Except.bind_ok] at h
  obtain ⟨text, htext, -, -, -, -, h⟩ := h
  rw [(requireExactString_ok htext).1]
  split at h
  · simp only [Except.bind_ok, require_ok] at h
    obtain ⟨-, -, parsed, -, -, ht, hp⟩ := h
    cases hp
    rw [ht]
  · exact absurd h (by simp)

/-- Entity keys and their texts are one to one. -/
theorem canonical : Canonical (fun k : SyncEntityKey => (Json.str k.text : Value)) parse :=
  ⟨parse_text, fun _ _ h => (parse_ok h).symm⟩

theorem text_injective : Function.Injective text := fun _ _ h =>
  canonical.render_injective (congrArg Json.str h)

end SyncEntityKey

/-- Entity keys and versions parse from their texts, and from nothing else; so different ones have
different texts, and versions that went through their texts compare as before. -/
theorem identities_canonical :
    ((∀ k : SyncEntityKey, SyncEntityKey.parse (.str k.text) = .ok k) ∧
        (∀ (value : Value) (k : SyncEntityKey),
          SyncEntityKey.parse value = .ok k → value = .str k.text) ∧
        ∀ k l : SyncEntityKey, k.text = l.text → k = l) ∧
      ((∀ v : SyncVersion, SyncVersion.parse (.str v.text) = .ok v) ∧
        (∀ (value : Value) (v : SyncVersion),
          SyncVersion.parse value = .ok v → value = .str v.text) ∧
        ∀ v w : SyncVersion, v.text = w.text → v = w) ∧
      ∀ v w v' w' : SyncVersion, SyncVersion.parse (.str v.text) = .ok v' →
        SyncVersion.parse (.str w.text) = .ok w' → compare v' w' = compare v w := by
  refine ⟨⟨SyncEntityKey.parse_text, fun _ _ => SyncEntityKey.parse_ok,
      fun _ _ h => SyncEntityKey.text_injective h⟩,
    ⟨SyncVersion.parse_text, fun _ _ => SyncVersion.parse_ok,
      fun _ _ h => SyncVersion.text_injective h⟩, fun v w v' w' hv hw => ?_⟩
  rw [v.parse_text] at hv
  rw [w.parse_text] at hw
  cases hv
  cases hw
  rfl

end Memplex
