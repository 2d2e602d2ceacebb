import Memplex.Protocol.Events
import Memplex.Protocol.JcsReads

/-!
# The ingress of a batch

`validateIngressBatch` is the gate in front of the repository: it takes the raw bytes of a request
and their digest, reads them as JSON with duplicate keys refused and numbers kept as tokens, turns
the tokens into numbers (integers outside the payloads; inside, floats for every token with a
fraction, an exponent or more than JavaScript's integers), builds the batch, and accepts only the
canonical bytes of what it built.

A canonical text loses which numbers were floats: `received` is what a value becomes on the way,
the same value with sorted members and with an integer for every float that prints like one. Its
canonical text is the same (`serializeJcs_received`), it passes the same checks, and so the gate
accepts the bytes of every batch (`validateIngressBatch_canonicalBytes`).
-/

namespace Memplex

open Lib Lib.Json

/-! ## The gate -/

mutual

/-- `_reject_duplicate_keys`, which the reader calls on every object. -/
def rejectDuplicateKeys : Json Token → Except PyError Unit
  | .arr items => rejectDuplicateItems items
  | .obj members => do
    rejectDuplicateMembers members
    require ((members.map Prod.fst).Nodup) (valueError "duplicate JSON key")
  | _ => .ok ()

/-- `_reject_duplicate_keys` on the objects inside an array. -/
def rejectDuplicateItems : List (Json Token) → Except PyError Unit
  | [] => .ok ()
  | x :: xs => do
    rejectDuplicateKeys x
    rejectDuplicateItems xs

/-- `_reject_duplicate_keys` on the objects inside an object. -/
def rejectDuplicateMembers : List (String × Json Token) → Except PyError Unit
  | [] => .ok ()
  | (_, x) :: ms => do
    rejectDuplicateKeys x
    rejectDuplicateMembers ms

end

/-- The number that a raw token becomes. -/
def normaliseNumber (inPayload : Bool) : Token → Except PyError Num
  | .number t =>
    if inPayload then
      if t.isFloat then .ok (.float (.finite t.toDec))
      else if maxJavascriptSafeInteger < t.toInt.natAbs then .ok (.float (.finite t.toDec))
      else .ok (.int t.toInt)
    else if t.isFloat then .error (valueError "invalid literal for int() with base 10")
    else .ok (.int t.toInt)
  | .nan => .ok (.float .nan)
  | .infinity neg => .ok (.float (.inf neg))

mutual

/-- `_normalise_protocol_numbers`. -/
def normaliseProtocolNumbers (inPayload : Bool) : Json Token → Except PyError Value
  | .null => .ok .null
  | .bool b => .ok (.bool b)
  | .num t => (normaliseNumber inPayload t).map .num
  | .str s => .ok (.str s)
  | .arr items => (normaliseItems inPayload items).map .arr
  | .obj members => (normaliseMembers inPayload members).map .obj

/-- `_normalise_protocol_numbers` on the elements of a list. -/
def normaliseItems (inPayload : Bool) : List (Json Token) → Except PyError (List Value)
  | [] => .ok []
  | x :: xs => do
    let y ← normaliseProtocolNumbers inPayload x
    return y :: (← normaliseItems inPayload xs)

/-- `_normalise_protocol_numbers` on the items of a dictionary: a payload is below its key. -/
def normaliseMembers (inPayload : Bool) : List (String × Json Token) → Except PyError Members
  | [] => .ok []
  | (k, x) :: ms => do
    let y ← normaliseProtocolNumbers (inPayload || k = "payload") x
    return (k, y) :: (← normaliseMembers inPayload ms)

end

/-- The reading half of the gate, where every failure is reported alike. -/
def readIngress (raw : ByteArray) : Except PyError SyncBatch :=
  match String.fromUTF8? raw with
  | none => .error (valueError "invalid utf-8")
  | some text =>
    match loads text.toList with
    | none => .error (valueError "invalid JSON")
    | some tokens => do
      rejectDuplicateKeys tokens
      SyncBatch.fromDict (← normaliseProtocolNumbers false tokens)

/-- `validate_ingress_batch`: the validated batch, whose bytes and digest are its own. -/
def validateIngressBatch (sha256 : ByteArray → String) (raw : ByteArray) (requestSha256 : String) :
    Except PyError SyncBatch :=
  if sha256 raw ≠ requestSha256 then .error (batchRejected "invalid ingress request")
  else match readIngress raw with
    | .error _ => .error (batchRejected "invalid ingress request")
    | .ok batch =>
      if batch.canonicalBytes ≠ raw then .error (batchRejected "invalid ingress request")
      else .ok batch

/-! ## What a value becomes -/

/-- The number that a printed number is read as inside a payload. -/
def receivedNum : Num → Num
  | .int i => .int i
  | .float (.finite d) =>
    if (floatTok d).isFloat ∨ maxJavascriptSafeInteger < (floatTok d).toInt.natAbs then
      .float (.finite d)
    else .int (floatTok d).toInt
  | .float x => .float x

/-- What a value becomes between its canonical text and the reader. -/
def received (v : Value) : Value := (sortKeys v).map receivedNum

/-- `received` on the members of an object. -/
def receivedMembers (members : Members) : Members :=
  (sortByKey members).map fun m => (m.1, received m.2)

theorem received_arr (items : List Value) : received (.arr items) = .arr (items.map received) := by
  rw [received, sortKeys_arr, map_arr, List.map_map]
  rfl

theorem received_obj (members : Members) :
    received (.obj members) = .obj (receivedMembers members) := by
  rw [received, sortKeys_obj, map_obj, List.map_map]
  rfl

/-- Zero prints as the integer zero. -/
theorem floatTok_zero {d : Dec} (hd : d.mant = 0) : floatTok d = intTok 0 := by
  rw [floatTok, if_pos hd]; rfl

/-- A float that stays one has its exact value on the way back. -/
theorem floatTok_toDec_of_received {d : Dec}
    (h : (floatTok d).isFloat ∨ maxJavascriptSafeInteger < (floatTok d).toInt.natAbs) :
    (floatTok d).toDec = d := by
  by_cases hd : d.mant = 0
  · rw [floatTok_zero hd] at h
    exact absurd h (by decide)
  · exact floatTok_toDec d hd

/-- A token of a payload becomes an integer only without fraction and exponent, and in range. -/
theorem normaliseNumber_payload (t : NumTok) :
    normaliseNumber true (.number t) =
      .ok (if t.isFloat ∨ maxJavascriptSafeInteger < t.toInt.natAbs then .float (.finite t.toDec)
        else .int t.toInt) := by
  rw [normaliseNumber, if_pos rfl]
  by_cases hf : t.isFloat = true
  · rw [if_pos hf, if_pos (Or.inl hf)]
  · by_cases hl : maxJavascriptSafeInteger < t.toInt.natAbs
    · rw [if_neg hf, if_pos hl, if_pos (Or.inr hl)]
    · rw [if_neg hf, if_neg hl, if_neg (not_or.mpr ⟨hf, hl⟩)]

theorem receivedNum_float (d : Dec) :
    receivedNum (.float (.finite d)) =
      if (floatTok d).isFloat ∨ maxJavascriptSafeInteger < (floatTok d).toInt.natAbs then
        .float (.finite d)
      else .int (floatTok d).toInt := rfl

/-- A printed number of a payload is read as what `receivedNum` says. -/
theorem normaliseNumber_numTok {n : Num} (hn : SafeNum n) :
    normaliseNumber true (.number (numTok n)) = .ok (receivedNum n) := by
  match n with
  | .int i =>
    have htok : numTok (.int i) = intTok i := rfl
    have hsafe : ¬ maxJavascriptSafeInteger < i.natAbs := Nat.not_lt.mpr hn
    rw [normaliseNumber_payload, htok, intTok_toInt,
      if_neg (not_or.mpr ⟨by simp [NumTok.isFloat, intTok], hsafe⟩)]
    rfl
  | .float (.finite d) =>
    have htok : numTok (.float (.finite d)) = floatTok d := rfl
    rw [normaliseNumber_payload, htok, receivedNum_float]
    by_cases hstay : (floatTok d).isFloat ∨ maxJavascriptSafeInteger < (floatTok d).toInt.natAbs
    · rw [if_pos hstay, if_pos hstay, floatTok_toDec_of_received hstay]
    · rw [if_neg hstay, if_neg hstay]
  | .float (.inf _) => exact hn.elim
  | .float .nan => exact hn.elim

/-- The number read back prints like the number sent. -/
theorem numText_receivedNum {n : Num} (hn : SafeNum n) : numText (receivedNum n) = numText n := by
  match n with
  | .int i => rfl
  | .float (.finite d) =>
    rw [receivedNum_float]
    split_ifs with hstay
    · rfl
    · push Not at hstay
      show strInt (floatTok d).toInt = serializeJcsFloat d
      rw [serializeJcsFloat_eq, floatTok_integral d (by simpa using hstay.1)]
  | .float (.inf _) => exact hn.elim
  | .float .nan => exact hn.elim

theorem safeNum_receivedNum {n : Num} (hn : SafeNum n) : SafeNum (receivedNum n) := by
  match n with
  | .int i => exact hn
  | .float (.finite d) =>
    rw [receivedNum_float]
    split_ifs with hstay
    · trivial
    · push Not at hstay
      exact hstay.2
  | .float (.inf _) => exact hn.elim
  | .float .nan => exact hn.elim

/-- The canonical text of the received value is that of the value sent. -/
theorem serializeJcs_received {v : Value} (h : v.All SafeNum) :
    serializeJcs (received v) = serializeJcs v := by
  induction v using Json.induct with
  | null => rfl
  | bool b => cases b <;> rfl
  | num n => exact numText_receivedNum h
  | str s => rfl
  | arr items ih =>
    rw [all_arr] at h
    have htexts : (items.map received).map serializeJcs = items.map serializeJcs := by
      rw [List.map_map]
      exact List.map_congr_left fun x hx => ih x hx (h x hx)
    rw [received_arr, serializeJcs, serializeJcs, serializeItems_eq, serializeItems_eq, htexts]
  | obj members ih =>
    rw [all_obj] at h
    have htexts : (sortByKey members).map (fun m => (m.1, serializeJcs (received m.2))) =
        (sortByKey members).map fun m => (m.1, serializeJcs m.2) := by
      refine List.map_congr_left fun m hm => ?_
      have hm' := (sortByKey_perm members).mem_iff.mp hm
      rw [ih m hm' (h m hm')]
    have hsorted : sortByKey (serializeMembers (receivedMembers members)) =
        sortByKey (serializeMembers members) := by
      rw [serializeMembers_eq, serializeMembers_eq, receivedMembers, List.map_map]
      calc sortByKey ((sortByKey members).map fun m => (m.1, serializeJcs (received m.2)))
          = (sortByKey (sortByKey members)).map fun m => (m.1, serializeJcs (received m.2)) :=
            sortByKey_map (fun v => serializeJcs (received v)) (sortByKey members)
        _ = (sortByKey members).map fun m => (m.1, serializeJcs m.2) := by
            rw [sortByKey_idem, htexts]
        _ = sortByKey (members.map fun m => (m.1, serializeJcs m.2)) :=
            (sortByKey_map serializeJcs members).symm
    rw [received_obj, serializeJcs, serializeJcs, hsorted]

/-- The received value is canonical JSON data where the value sent is. -/
theorem assertJsonValue_received {v : Value} (h : assertJsonValue v = .ok ()) :
    assertJsonValue (received v) = .ok () := by
  induction v using Json.induct with
  | null => exact h
  | bool b => exact h
  | num n =>
    have hn : SafeNum (receivedNum n) := safeNum_receivedNum (all_safeNum h)
    show assertJsonValue (.num (receivedNum n)) = .ok ()
    generalize receivedNum n = r at hn
    match r with
    | .int i => rw [assertJsonValue, require_ok]; exact hn
    | .float (.finite d) => rfl
    | .float (.inf _) => exact hn.elim
    | .float .nan => exact hn.elim
  | str s => exact h
  | arr items ih =>
    rw [assertJsonValue_arr] at h
    rw [received_arr, assertJsonValue_arr]
    intro x hx
    obtain ⟨y, hy, rfl⟩ := List.mem_map.mp hx
    exact ih y hy (h y hy)
  | obj members ih =>
    rw [assertJsonValue_obj] at h
    rw [received_obj, assertJsonValue_obj]
    intro m hm
    obtain ⟨n, hn, rfl⟩ := List.mem_map.mp hm
    have hn' := (sortByKey_perm members).mem_iff.mp hn
    exact ⟨(h n hn').1, ih n hn' (h n hn').2⟩

/-- Sorting and reading keep the keys of an object. -/
theorem keys_sorted_perm {α β : Type} (members : List (String × α)) (f : α → β) :
    (((sortByKey members).map fun m => (m.1, f m.2)).map Prod.fst).Perm
      (members.map Prod.fst) := by
  rw [List.map_map]
  exact (sortByKey_perm members).map Prod.fst

theorem wellKeyed_received {v : Value} (h : v.wellKeyed = true) :
    (received v).wellKeyed = true := by
  induction v using Json.induct with
  | null => rfl
  | bool b => rfl
  | num n => rfl
  | str s => rfl
  | arr items ih =>
    rw [wellKeyed_arr] at h
    rw [received_arr, wellKeyed_arr]
    intro x hx
    obtain ⟨y, hy, rfl⟩ := List.mem_map.mp hx
    exact ih y hy (h y hy)
  | obj members ih =>
    rw [wellKeyed_obj] at h
    rw [received_obj, wellKeyed_obj]
    refine ⟨(keys_sorted_perm members received).nodup_iff.mpr h.1, fun m hm => ?_⟩
    obtain ⟨n, hn, rfl⟩ := List.mem_map.mp hm
    have hn' := (sortByKey_perm members).mem_iff.mp hn
    exact ih n hn' (h.2 n hn')

/-! ## The reader on a canonical text -/

/-- The tokens of a canonical text. -/
def tokens (v : Value) : Json Token := (sortKeys v).map fun n => .number (numTok n)

theorem tokens_arr (items : List Value) : tokens (.arr items) = .arr (items.map tokens) := by
  rw [tokens, sortKeys_arr, map_arr, List.map_map]
  rfl

theorem tokens_obj (members : Members) :
    tokens (.obj members) = .obj ((sortByKey members).map fun m => (m.1, tokens m.2)) := by
  rw [tokens, sortKeys_obj, map_obj, List.map_map]
  rfl

theorem rejectDuplicateItems_ok {items : List (Json Token)} :
    rejectDuplicateItems items = .ok () ↔ ∀ x ∈ items, rejectDuplicateKeys x = .ok () := by
  induction items with
  | nil => simp [rejectDuplicateItems]
  | cons x xs ih =>
    rw [rejectDuplicateItems, Except.bind_ok, List.forall_mem_cons, ← ih]
    exact ⟨fun ⟨_, hx, hxs⟩ => ⟨hx, hxs⟩, fun ⟨hx, hxs⟩ => ⟨(), hx, hxs⟩⟩

theorem rejectDuplicateMembers_ok {members : List (String × Json Token)} :
    rejectDuplicateMembers members = .ok () ↔
      ∀ m ∈ members, rejectDuplicateKeys m.2 = .ok () := by
  induction members with
  | nil => simp [rejectDuplicateMembers]
  | cons m ms ih =>
    rw [rejectDuplicateMembers, Except.bind_ok, List.forall_mem_cons, ← ih]
    exact ⟨fun ⟨_, hx, hxs⟩ => ⟨hx, hxs⟩, fun ⟨hx, hxs⟩ => ⟨(), hx, hxs⟩⟩

/-- The text of a dictionary has no duplicate key. -/
theorem rejectDuplicateKeys_tokens {v : Value} (h : v.wellKeyed = true) :
    rejectDuplicateKeys (tokens v) = .ok () := by
  induction v using Json.induct with
  | null => rfl
  | bool b => rfl
  | num n => rfl
  | str s => rfl
  | arr items ih =>
    rw [wellKeyed_arr] at h
    rw [tokens_arr, rejectDuplicateKeys, rejectDuplicateItems_ok]
    intro x hx
    obtain ⟨y, hy, rfl⟩ := List.mem_map.mp hx
    exact ih y hy (h y hy)
  | obj members ih =>
    rw [wellKeyed_obj] at h
    have hmembers : rejectDuplicateMembers
        ((sortByKey members).map fun m => (m.1, tokens m.2)) = .ok () := by
      rw [rejectDuplicateMembers_ok]
      intro m hm
      obtain ⟨n, hn, rfl⟩ := List.mem_map.mp hm
      have hn' := (sortByKey_perm members).mem_iff.mp hn
      exact ih n hn' (h.2 n hn')
    rw [tokens_obj, rejectDuplicateKeys, hmembers]
    exact require_ok.mpr ((keys_sorted_perm members tokens).nodup_iff.mpr h.1)

/-- Reading the elements of a list that each read as expected. -/
theorem normaliseItems_map (p : Bool) {α : Type} (items : List α) (f : α → Json Token)
    (g : α → Value) (h : ∀ x ∈ items, normaliseProtocolNumbers p (f x) = .ok (g x)) :
    normaliseItems p (items.map f) = .ok (items.map g) := by
  induction items with
  | nil => rfl
  | cons x xs ih =>
    rw [List.map_cons, normaliseItems, h x (List.mem_cons_self ..),
      ih fun y hy => h y (List.mem_cons_of_mem _ hy)]
    rfl

/-- Reading the members of an object that each read as expected. -/
theorem normaliseMembers_map (p : Bool) {α : Type} (members : List (String × α))
    (f : α → Json Token) (g : α → Value)
    (h : ∀ m ∈ members,
      normaliseProtocolNumbers (p || m.1 = "payload") (f m.2) = .ok (g m.2)) :
    normaliseMembers p (members.map fun m => (m.1, f m.2)) =
      .ok (members.map fun m => (m.1, g m.2)) := by
  induction members with
  | nil => rfl
  | cons m ms ih =>
    rw [List.map_cons, normaliseMembers, h m (List.mem_cons_self ..),
      ih fun y hy => h y (List.mem_cons_of_mem _ hy)]
    rfl

/-- Inside a payload every value reads as what it becomes. -/
theorem normalise_payload {v : Value} (h : v.All SafeNum) :
    normaliseProtocolNumbers true (tokens v) = .ok (received v) := by
  induction v using Json.induct with
  | null => rfl
  | bool b => rfl
  | num n =>
    show (normaliseNumber true (.number (numTok n))).map Json.num = .ok (.num (receivedNum n))
    rw [normaliseNumber_numTok h]
    rfl
  | str s => rfl
  | arr items ih =>
    rw [all_arr] at h
    rw [tokens_arr, received_arr, normaliseProtocolNumbers,
      normaliseItems_map true items tokens received fun x hx => ih x hx (h x hx)]
    rfl
  | obj members ih =>
    rw [all_obj] at h
    rw [tokens_obj, received_obj, normaliseProtocolNumbers,
      normaliseMembers_map true (sortByKey members) tokens received fun m hm => ?_]
    · rfl
    · have hm' := (sortByKey_perm members).mem_iff.mp hm
      rw [Bool.true_or]
      exact ih m hm' (h m hm')

/-- A dictionary outside the payloads reads as what it becomes when its values do. -/
theorem normalise_obj {members : Members}
    (h : ∀ m ∈ members,
      normaliseProtocolNumbers (m.1 = "payload") (tokens m.2) = .ok (received m.2)) :
    normaliseProtocolNumbers false (tokens (.obj members)) = .ok (received (.obj members)) := by
  rw [tokens_obj, received_obj, normaliseProtocolNumbers,
    normaliseMembers_map false (sortByKey members) tokens received fun m hm => ?_]
  · rfl
  · rw [Bool.false_or]
    exact h m ((sortByKey_perm members).mem_iff.mp hm)

/-- The protocol version is read as the integer it is. -/
theorem normalise_int (i : ℤ) :
    normaliseProtocolNumbers false (tokens (.int i)) = .ok (received (.int i)) := by
  show (normaliseNumber false (.number (intTok i))).map Json.num = _
  rw [normaliseNumber, if_neg (by simp), if_neg (by simp [NumTok.isFloat, intTok]), intTok_toInt]
  rfl

theorem normalise_optStr (p : Bool) (o : Option String) :
    normaliseProtocolNumbers p (tokens (.ofOptStr o)) = .ok (received (.ofOptStr o)) := by
  cases o <;> rfl

theorem normalise_scope (s : SyncScope) :
    normaliseProtocolNumbers false (tokens (.obj s.toDict)) = .ok (received (.obj s.toDict)) := by
  refine normalise_obj ?_
  simp only [SyncScope.toDict, List.forall_mem_cons, List.not_mem_nil, false_imp_iff, implies_true,
    and_true]
  exact ⟨rfl, rfl, normalise_optStr _ _, rfl, normalise_optStr _ _, normalise_optStr _ _⟩

theorem normalise_event (e : SyncEvent) :
    normaliseProtocolNumbers false (tokens (.obj e.toDict)) = .ok (received (.obj e.toDict)) := by
  refine normalise_obj ?_
  simp only [SyncEvent.toDict, List.forall_mem_cons, List.not_mem_nil, false_imp_iff, implies_true,
    and_true]
  exact ⟨normalise_int _, rfl, rfl, rfl, rfl, rfl, rfl, normalise_scope e.scope,
    normalise_payload (all_safeNum e.payload_json)⟩

theorem normalise_batch (b : SyncBatch) :
    normaliseProtocolNumbers false (tokens (.obj b.toDict)) = .ok (received (.obj b.toDict)) := by
  refine normalise_obj ?_
  simp only [SyncBatch.toDict, batchDict, List.forall_mem_cons, List.not_mem_nil, false_imp_iff,
    implies_true, and_true]
  refine ⟨normalise_int _, rfl, rfl, ?_⟩
  show normaliseProtocolNumbers false (tokens (.arr _)) = _
  have hitems := normaliseItems_map false b.events (fun e => tokens (.obj e.toDict))
    (fun e => received (.obj e.toDict)) fun e _ => normalise_event e
  rw [tokens_arr, received_arr, normaliseProtocolNumbers, List.map_map, List.map_map]
  exact congrArg (Except.map Json.arr) hitems

/-! ## The batch that is built -/

theorem mem_receivedMembers {members : Members} {k : String} {v : Value} (h : (k, v) ∈ members) :
    (k, received v) ∈ receivedMembers members :=
  List.mem_map.mpr ⟨(k, v), (sortByKey_perm members).mem_iff.mpr h, rfl⟩

/-- A field of a dictionary that was sent is found again under its key. -/
theorem field_received {members : Members} (hd : (members.map Prod.fst).Nodup) {k : String}
    {v : Value} (h : (k, v) ∈ members) : field (receivedMembers members) k = received v := by
  have hnodup : ((receivedMembers members).map Prod.fst).Nodup :=
    (keys_sorted_perm members received).nodup_iff.mpr hd
  have hfind : findRow Prod.fst k (receivedMembers members) = some (k, received v) :=
    findRow_of_mem hnodup (mem_receivedMembers h)
  rw [field, Members.getD, Members.get?, hfind]
  rfl

/-- A dictionary that was sent with exactly the keys of the protocol is accepted with them. -/
theorem exactDict_received {members : Members} {expected : List String}
    (hkeys : members.map Prod.fst = expected) (name : String) :
    exactDict (received (.obj members)) expected name = .ok (receivedMembers members) := by
  have hperm := keys_sorted_perm members received
  rw [hkeys] at hperm
  have hset : (∀ k ∈ Members.keys (receivedMembers members), k ∈ expected) ∧
      ∀ k ∈ expected, k ∈ Members.keys (receivedMembers members) :=
    ⟨fun _ hk => hperm.mem_iff.mp hk, fun _ hk => hperm.mem_iff.mpr hk⟩
  rw [received_obj]
  simp only [exactDict, require, if_pos hset, bind, Except.bind]
  rfl

theorem received_ofOptStr (o : Option String) : received (.ofOptStr o) = .ofOptStr o := by
  cases o <;> rfl

/-- A scope is built again as it was sent. -/
theorem scope_fromDict_received (s : SyncScope) :
    SyncScope.fromDict (received (.obj s.toDict)) = .ok s := by
  have hd : (s.toDict.map Prod.fst).Nodup := by
    show SyncScope.wireKeys.Nodup
    decide
  have hfield : ∀ {k : String} {v : Value}, (k, v) ∈ s.toDict →
      field (receivedMembers s.toDict) k = received v := fun h => field_received hd h
  rw [SyncScope.fromDict, exactDict_received (show s.toDict.map Prod.fst = SyncScope.wireKeys from rfl)]
  simp only [bind, Except.bind]
  rw [hfield (k := "tenant_id") (v := .str s.tenantId) (by simp [SyncScope.toDict]),
    hfield (k := "owner_subject_id") (v := .str s.ownerSubjectId) (by simp [SyncScope.toDict]),
    hfield (k := "workspace_id") (v := .ofOptStr s.workspaceId) (by simp [SyncScope.toDict]),
    hfield (k := "visibility") (v := .str s.visibility.value) (by simp [SyncScope.toDict]),
    hfield (k := "agent_id") (v := .ofOptStr s.agentId) (by simp [SyncScope.toDict]),
    hfield (k := "session_id") (v := .ofOptStr s.sessionId) (by simp [SyncScope.toDict]),
    received_ofOptStr, received_ofOptStr, received_ofOptStr]
  exact s.create_self

namespace Change

/-- The change whose payload is what the payload becomes. -/
def received : Change → Change
  | upsert payload => upsert (receivedMembers payload)
  | tombstone => tombstone

theorem received_payload (c : Change) : c.received.payload = Memplex.received c.payload := by
  cases c with
  | upsert payload => exact (received_obj payload).symm
  | tombstone => rfl

end Change

/-- The event whose payload is what the payload becomes. -/
def SyncEvent.received (e : SyncEvent) : SyncEvent where
  nodeType := e.nodeType
  entityKey := e.entityKey
  version := e.version
  scope := e.scope
  change := e.change.received
  kind_agrees := e.kind_agrees
  payload_json := by
    rw [Change.received_payload]
    exact assertJsonValue_received e.payload_json
  payload_keyed := by
    rw [Change.received_payload]
    exact wellKeyed_received e.payload_keyed

/-- An event is built again as it was sent, up to what its payload becomes. -/
theorem event_fromDict_received (e : SyncEvent) :
    SyncEvent.fromDict (received (.obj e.toDict)) = .ok e.received := by
  have hd : (e.toDict.map Prod.fst).Nodup := by
    show SyncEvent.wireKeys.Nodup
    decide
  have hfield : ∀ {k : String} {v : Value}, (k, v) ∈ e.toDict →
      field (receivedMembers e.toDict) k = received v := fun h => field_received hd h
  have hop : e.change.operation = e.received.change.operation := by
    show e.change.operation = e.change.received.operation
    cases e.change <;> rfl
  rw [SyncEvent.fromDict,
    exactDict_received (show e.toDict.map Prod.fst = SyncEvent.wireKeys from rfl)]
  simp only [bind, Except.bind]
  rw [hfield (k := "protocol_version") (v := .int SyncEvent.protocolVersion)
      (by simp [SyncEvent.toDict]),
    hfield (k := "event_id") (v := .str e.eventId) (by simp [SyncEvent.toDict]),
    hfield (k := "origin_node_id") (v := .str e.originNodeId) (by simp [SyncEvent.toDict]),
    hfield (k := "node_type") (v := .str e.nodeType.value) (by simp [SyncEvent.toDict]),
    hfield (k := "entity_key") (v := .str e.entityKey.text) (by simp [SyncEvent.toDict]),
    hfield (k := "operation") (v := .str e.change.operation.value) (by simp [SyncEvent.toDict]),
    hfield (k := "version") (v := .str e.version.text) (by simp [SyncEvent.toDict]),
    hfield (k := "scope") (v := .obj e.scope.toDict) (by simp [SyncEvent.toDict]),
    hfield (k := "payload") (v := e.change.payload) (by simp [SyncEvent.toDict]),
    show received (.str e.nodeType.value) = .str e.nodeType.value from rfl,
    show received (.str e.change.operation.value) = .str e.change.operation.value from rfl,
    show received (.str e.entityKey.text) = .str e.entityKey.text from rfl,
    SyncNodeType.ofValue_value, SyncOperation.ofValue_value]
  simp only [SyncEntityKey.parse_text, scope_fromDict_received]
  rw [← e.change.received_payload, hop]
  exact e.received.create_self

/-- The loop over the events does not look at payloads. -/
theorem checkBatchEvents_received (origin : String) (events : List SyncEvent) :
    ∀ (tenant : Option String) (ids : List String) (identities : List (String × String)),
      checkBatchEvents origin tenant ids identities (events.map SyncEvent.received) =
        checkBatchEvents origin tenant ids identities events := by
  induction events with
  | nil => intro _ _ _; rfl
  | cons e events ih =>
    intro tenant ids identities
    rw [List.map_cons, checkBatchEvents, checkBatchEvents]
    simp only [ih]
    rfl

/-- An event and what it becomes have one canonical text. -/
theorem serializeJcs_event_received (e : SyncEvent) :
    serializeJcs (.obj e.received.toDict) = serializeJcs (.obj e.toDict) := by
  have hop : e.received.change.operation = e.change.operation := by
    show e.change.received.operation = e.change.operation
    cases e.change <;> rfl
  have hpayload : serializeJcs e.received.change.payload = serializeJcs e.change.payload := by
    show serializeJcs e.change.received.payload = _
    rw [Change.received_payload, serializeJcs_received (all_safeNum e.payload_json)]
  refine serializeJcs_obj_congr ?_
  rw [serializeMembers_eq, serializeMembers_eq]
  simp only [SyncEvent.toDict, List.map_cons, List.map_nil, hop, hpayload]
  rfl

/-- The canonical bytes do not change with what the payloads become. -/
theorem batchBytes_received (batchId origin : String) (events : List SyncEvent) :
    batchBytes batchId origin (events.map SyncEvent.received) = batchBytes batchId origin events := by
  have hevents : serializeJcs
      (.arr ((events.map SyncEvent.received).map fun e => .obj e.toDict)) =
      serializeJcs (.arr (events.map fun e => .obj e.toDict)) := by
    refine serializeJcs_arr_congr ?_
    rw [List.map_map, List.map_map, List.map_map]
    exact List.map_congr_left fun e _ => serializeJcs_event_received e
  have hdict : serializeJcs (.obj (batchDict batchId origin (events.map SyncEvent.received))) =
      serializeJcs (.obj (batchDict batchId origin events)) := by
    refine serializeJcs_obj_congr ?_
    unfold batchDict
    rw [serializeMembers, serializeMembers, serializeMembers, serializeMembers, hevents]
    rfl
  unfold batchBytes
  rw [hdict]

/-- The batch whose payloads are what the payloads become. -/
def SyncBatch.received (b : SyncBatch) : SyncBatch where
  batchId := b.batchId
  originNodeId := b.originNodeId
  events := b.events.map SyncEvent.received
  batch_valid := b.batch_valid
  origin_valid := b.origin_valid
  nonempty := by simpa using b.nonempty
  count := by simpa using b.count
  checked := by rw [checkBatchEvents_received]; exact b.checked
  size := by rw [batchBytes_received]; exact b.size

theorem SyncBatch.received_canonicalBytes (b : SyncBatch) :
    b.received.canonicalBytes = b.canonicalBytes :=
  batchBytes_received b.batchId b.originNodeId b.events

theorem mapM_events_received (events : List SyncEvent) :
    (events.map fun e => received (.obj e.toDict)).mapM SyncEvent.fromDict =
      .ok (events.map SyncEvent.received) := by
  induction events with
  | nil => rfl
  | cons e events ih =>
    rw [List.map_cons, List.mapM_cons, event_fromDict_received, ih]
    rfl

/-- A batch is built again as it was sent, up to what its payloads become. -/
theorem batch_fromDict_received (b : SyncBatch) :
    SyncBatch.fromDict (received (.obj b.toDict)) = .ok b.received := by
  have hd : (b.toDict.map Prod.fst).Nodup := by
    show SyncBatch.wireKeys.Nodup
    decide
  have hfield : ∀ {k : String} {v : Value}, (k, v) ∈ b.toDict →
      field (receivedMembers b.toDict) k = received v := fun h => field_received hd h
  rw [SyncBatch.fromDict,
    exactDict_received (show b.toDict.map Prod.fst = SyncBatch.wireKeys from rfl)]
  simp only [bind, Except.bind]
  rw [hfield (k := "protocol_version") (v := .int SyncEvent.protocolVersion)
      (by simp [SyncBatch.toDict, batchDict]),
    hfield (k := "batch_id") (v := .str b.batchId) (by simp [SyncBatch.toDict, batchDict]),
    hfield (k := "origin_node_id") (v := .str b.originNodeId)
      (by simp [SyncBatch.toDict, batchDict]),
    hfield (k := "events") (v := .arr (b.events.map fun e => .obj e.toDict))
      (by simp [SyncBatch.toDict, batchDict]),
    received_arr, List.map_map]
  have hevents := mapM_events_received b.events
  simp only [Function.comp_def, hevents]
  exact SyncBatch.create_of_checks b.received.batch_valid b.received.origin_valid
    b.received.nonempty b.received.count b.received.checked b.received.size

/-- A wire form: its numbers are safe and its dictionaries have distinct keys. -/
def WireForm (v : Value) : Prop := v.All SafeNum ∧ v.wellKeyed = true

theorem wireForm_optStr (o : Option String) : WireForm (.ofOptStr o) := by
  cases o <;> exact ⟨trivial, rfl⟩

theorem wireForm_version : WireForm (.int SyncEvent.protocolVersion) :=
  ⟨show (1 : ℕ) ≤ maxJavascriptSafeInteger by decide, rfl⟩

theorem wireForm_obj {members : Members} (hd : (members.map Prod.fst).Nodup)
    (h : ∀ m ∈ members, WireForm m.2) : WireForm (.obj members) :=
  ⟨(all_obj _ _).mpr fun m hm => (h m hm).1, (wellKeyed_obj _).mpr ⟨hd, fun m hm => (h m hm).2⟩⟩

theorem SyncScope.toDict_wireForm (s : SyncScope) : WireForm (.obj s.toDict) := by
  refine wireForm_obj (show SyncScope.wireKeys.Nodup by decide) ?_
  simp only [SyncScope.toDict, List.forall_mem_cons, List.not_mem_nil, false_imp_iff, implies_true,
    and_true]
  exact ⟨⟨trivial, rfl⟩, ⟨trivial, rfl⟩, wireForm_optStr _, ⟨trivial, rfl⟩, wireForm_optStr _,
    wireForm_optStr _⟩

theorem SyncEvent.toDict_wireForm (e : SyncEvent) : WireForm (.obj e.toDict) := by
  refine wireForm_obj (show SyncEvent.wireKeys.Nodup by decide) ?_
  simp only [SyncEvent.toDict, List.forall_mem_cons, List.not_mem_nil, false_imp_iff, implies_true,
    and_true]
  exact ⟨wireForm_version, ⟨trivial, rfl⟩, ⟨trivial, rfl⟩, ⟨trivial, rfl⟩, ⟨trivial, rfl⟩,
    ⟨trivial, rfl⟩, ⟨trivial, rfl⟩, e.scope.toDict_wireForm,
    ⟨all_safeNum e.payload_json, e.payload_keyed⟩⟩

theorem SyncBatch.toDict_wireForm (b : SyncBatch) : WireForm (.obj b.toDict) := by
  have hevents : WireForm (.arr (b.events.map fun e => .obj e.toDict)) := by
    constructor
    · rw [all_arr]
      intro x hx
      obtain ⟨e, -, rfl⟩ := List.mem_map.mp hx
      exact e.toDict_wireForm.1
    · rw [wellKeyed_arr]
      intro x hx
      obtain ⟨e, -, rfl⟩ := List.mem_map.mp hx
      exact e.toDict_wireForm.2
  refine wireForm_obj (show SyncBatch.wireKeys.Nodup by decide) ?_
  simp only [SyncBatch.toDict, batchDict, List.forall_mem_cons, List.not_mem_nil, false_imp_iff,
    implies_true, and_true]
  exact ⟨wireForm_version, ⟨trivial, rfl⟩, ⟨trivial, rfl⟩, hevents⟩

/-- Reading the canonical bytes of a batch gives the batch, up to what its payloads become. -/
theorem readIngress_canonicalBytes (b : SyncBatch) :
    readIngress b.canonicalBytes = .ok b.received := by
  obtain ⟨hsafe, hkeyed⟩ := b.toDict_wireForm
  have hloads : loads (serializeJcs (.obj b.toDict)) = some (tokens (.obj b.toDict)) :=
    loads_serializeJcs hsafe
  have hbytes : b.canonicalBytes =
      (String.ofList (serializeJcs (.obj b.toDict))).toByteArray := rfl
  rw [readIngress, hbytes, fromUTF8?_toByteArray]
  simp only [String.toList_ofList, hloads, rejectDuplicateKeys_tokens hkeyed, normalise_batch b,
    bind, Except.bind]
  exact batch_fromDict_received b

/-- What a sender can build, the gate accepts byte for byte; and what the gate accepts are the
canonical bytes of the batch it returns, under their digest. -/
theorem validateIngressBatch_canonicalBytes (sha256 : ByteArray → String) :
    (∀ b : SyncBatch, ∃ b' : SyncBatch,
      validateIngressBatch sha256 b.canonicalBytes (b.requestDigest sha256) = .ok b' ∧
        b'.canonicalBytes = b.canonicalBytes ∧ b'.requestDigest sha256 = b.requestDigest sha256) ∧
    ∀ (raw : ByteArray) (requestSha256 : String) (b' : SyncBatch),
      validateIngressBatch sha256 raw requestSha256 = .ok b' →
        raw = b'.canonicalBytes ∧ requestSha256 = b'.requestDigest sha256 := by
  constructor
  · intro b
    have hbytes := b.received_canonicalBytes
    have hdigest : b.received.requestDigest sha256 = b.requestDigest sha256 :=
      congrArg sha256 hbytes
    refine ⟨b.received, ?_, hbytes, hdigest⟩
    have hsame : ¬ sha256 b.canonicalBytes ≠ b.requestDigest sha256 := not_not.mpr rfl
    rw [validateIngressBatch, if_neg hsame, readIngress_canonicalBytes]
    exact if_neg (not_not.mpr hbytes)
  · intro raw requestSha256 b' h
    unfold validateIngressBatch at h
    split_ifs at h with hdigest
    split at h
    · exact absurd h (by simp)
    · split_ifs at h with hraw
      cases h
      rw [not_not] at hdigest hraw
      refine ⟨hraw.symm, ?_⟩
      rw [SyncBatch.requestDigest, hraw, hdigest]

end Memplex
