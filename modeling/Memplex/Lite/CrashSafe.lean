import Memplex.Lite.Durability
import Mathlib.Data.List.Sort
import Mathlib.Data.String.Basic

/-!
# A commit that is cut short

`commit_atomic` follows a commit that is cut short after any of its steps, and recoveries that are
cut short in their turn, through the crashes that end them. What a crash leaves of the files leads
to a pair (`Leads`): they hold the pair and no journal, or the journal of a commit of the pair and
either side of each file. Finishing a commit keeps that from its first step to its last
(`UnderWay.finish`), so a recovery does too, however often it is cut short (`Attempts.leads`).

A recovery compares documents by their canonical text, and a document in the order of its keys is
its own canonical form (`canonicalJson_eq`); the first two sections are about that.
-/

namespace Memplex.Durability

open Lib

/-! ## Canonical documents -/

/-- The document is written as it is. -/
def IsCanonical (v : Value) : Prop := canonicalJson v = .ok v

theorem canonicalItems_eq {items ys : List Value}
    (ih : ∀ x ∈ items, ∀ {w}, keyOrdered x = true → canonicalJson x = .ok w → w = x)
    (hitems : keyOrderedItems items = true) (h : canonicalItems items = .ok ys) : ys = items := by
  induction items generalizing ys with
  | nil => exact (Except.ok.inj h).symm
  | cons x xs ihs =>
    rw [keyOrderedItems, Bool.and_eq_true] at hitems
    obtain ⟨y, hy, h⟩ := Except.bind_ok.mp h
    obtain ⟨rest, hrest, heq⟩ := Except.bind_ok.mp h
    rw [← Except.ok.inj heq, ih x List.mem_cons_self hitems.1 hy,
      ihs (fun z hz => ih z (List.mem_cons_of_mem _ hz)) hitems.2 hrest]

theorem canonicalMembers_eq {members ys : Members}
    (ih : ∀ m ∈ members, ∀ {w}, keyOrdered m.2 = true → canonicalJson m.2 = .ok w → w = m.2)
    (hmembers : keyOrderedMembers members = true) (h : canonicalMembers members = .ok ys) :
    ys = members := by
  induction members generalizing ys with
  | nil => exact (Except.ok.inj h).symm
  | cons m ms ihs =>
    obtain ⟨k, x⟩ := m
    rw [keyOrderedMembers, Bool.and_eq_true] at hmembers
    obtain ⟨y, hy, h⟩ := Except.bind_ok.mp h
    obtain ⟨rest, hrest, heq⟩ := Except.bind_ok.mp h
    have hx : y = x := ih (k, x) List.mem_cons_self hmembers.1 hy
    rw [← Except.ok.inj heq, hx,
      ihs (fun z hz => ih z (List.mem_cons_of_mem _ hz)) hmembers.2 hrest]

/-- Members in the order of their keys stay where they are. -/
theorem sortMembers_of_sorted {members : Members}
    (h : (members.map Prod.fst).Pairwise (· ≤ ·)) : sortMembers members = members :=
  List.Pairwise.insertionSort_eq (List.pairwise_map.mp h)

/-- A document in order is written as it is, if it is written at all. -/
theorem canonicalJson_eq {v w : Value} (hv : keyOrdered v = true) (h : canonicalJson v = .ok w) :
    w = v := by
  induction v using Json.induct generalizing w with
  | null => exact (Except.ok.inj h).symm
  | bool b => exact (Except.ok.inj h).symm
  | str s => exact (Except.ok.inj h).symm
  | num n =>
    match n with
    | .int i => exact (Except.ok.inj h).symm
    | .float (.finite d) => exact (Except.ok.inj h).symm
    | .float (.inf _) => cases h
    | .float .nan => cases h
  | arr items ih =>
    obtain ⟨ys, hys, rfl⟩ := Except.map_ok h
    rw [canonicalItems_eq (fun x hx _ => ih x hx) hv hys]
  | obj members ih =>
    obtain ⟨ys, hys, rfl⟩ := Except.map_ok h
    rw [keyOrdered, Bool.and_eq_true, decide_eq_true_eq] at hv
    rw [canonicalMembers_eq (fun m hm _ => ih m hm) hv.2 hys,
      sortMembers_of_sorted (hv.1.imp le_of_lt)]

/-- What has a digest is canonical. -/
theorem PairChecks.canonical_of_digest {C : PairChecks} {v : Value} {s : String}
    (hv : keyOrdered v = true) (h : C.digest v = .ok s) : IsCanonical v := by
  obtain ⟨w, hw, -⟩ := Except.map_ok h
  rw [canonicalJson_eq hv hw] at hw
  exact hw

theorem PairChecks.digest_of_canonical {C : PairChecks} {v : Value} (h : IsCanonical v) :
    C.digest v = .ok (C.sha256 v) := by
  rw [PairChecks.digest, h]
  rfl

theorem canonicalMembers_cons {k : String} {x : Value} {ms : Members} (hx : IsCanonical x)
    (hms : canonicalMembers ms = .ok ms) : canonicalMembers ((k, x) :: ms) = .ok ((k, x) :: ms) :=
  Except.bind_ok.mpr ⟨x, hx, Except.bind_ok.mpr ⟨ms, hms, rfl⟩⟩

/-- A dictionary of canonical values in the order of its keys is canonical. -/
theorem isCanonical_obj {members : Members} {keys : List String}
    (hsorted : keys.Pairwise (· < ·)) (hkeys : members.map Prod.fst = keys)
    (hmembers : canonicalMembers members = .ok members) : IsCanonical (.obj members) := by
  rw [IsCanonical, canonicalJson, hmembers]
  exact congrArg (fun ms => Except.ok (Json.obj ms))
    (sortMembers_of_sorted (hkeys ▸ hsorted.imp le_of_lt))

theorem isCanonical_int (i : ℤ) : IsCanonical (Value.int i) := rfl

theorem isCanonical_str (s : String) : IsCanonical (.str s) := rfl

/-- The keys of a schema in their order. -/
structure InOrder (keys order : List String) : Prop where
  sorted : order.Pairwise (· < ·)
  mem_keys : ∀ k ∈ order, k ∈ keys
  mem_order : ∀ k ∈ keys, k ∈ order

theorem recordKeys_order : InOrder pairRecordKeys
    ["changelog_digest", "cross_digest", "generation", "memory_digest", "transaction_id"] :=
  ⟨by decide, by decide, by decide⟩

theorem envelopeKeys_order : InOrder envelopeKeys
    ["format_version", "generation", "payload", "peer_digest", "transaction_id"] :=
  ⟨by decide, by decide, by decide⟩

theorem targetKeys_order : InOrder journalTargetKeys
    ["changelog", "generation", "memory", "transaction_id"] :=
  ⟨by decide, by decide, by decide⟩

theorem journalKeys_order : InOrder journalKeys
    ["base_changelog", "base_memory", "base_record", "format_version", "target",
      "target_record"] :=
  ⟨by decide, by decide, by decide⟩

/-- The record of a pair is canonical. -/
theorem PairRecord.isCanonical (r : PairRecord) : IsCanonical r.toValue := by
  refine isCanonical_obj recordKeys_order.sorted rfl ?_
  exact canonicalMembers_cons (isCanonical_str _) <| canonicalMembers_cons (isCanonical_str _) <|
    canonicalMembers_cons (isCanonical_int _) <| canonicalMembers_cons (isCanonical_str _) <|
    canonicalMembers_cons (isCanonical_str _) rfl

/-- The file of a canonical payload is canonical. -/
theorem isCanonical_envelope (pair : DurablePair) {payload : Value} (h : IsCanonical payload)
    (peer : String) : IsCanonical (envelope pair payload peer) := by
  refine isCanonical_obj envelopeKeys_order.sorted rfl ?_
  exact canonicalMembers_cons (isCanonical_int _) <| canonicalMembers_cons (isCanonical_int _) <|
    canonicalMembers_cons h <| canonicalMembers_cons (isCanonical_str _) <|
    canonicalMembers_cons (isCanonical_str _) rfl

/-- The journal of two canonical pairs is canonical. -/
theorem isCanonical_journalOf {base target : DurablePair} (hbm : IsCanonical base.memory)
    (hbc : IsCanonical base.changelog) (htm : IsCanonical target.memory)
    (htc : IsCanonical target.changelog) (r r' : PairRecord) :
    IsCanonical (journalOf base target r r') := by
  have htarget : IsCanonical (.obj [("changelog", target.changelog),
      ("generation", Value.int target.generation), ("memory", target.memory),
      ("transaction_id", .str target.transactionId)]) := by
    refine isCanonical_obj targetKeys_order.sorted rfl ?_
    exact canonicalMembers_cons htc <| canonicalMembers_cons (isCanonical_int _) <|
      canonicalMembers_cons htm <| canonicalMembers_cons (isCanonical_str _) rfl
  refine isCanonical_obj journalKeys_order.sorted rfl ?_
  exact canonicalMembers_cons hbc <| canonicalMembers_cons hbm <|
    canonicalMembers_cons r.isCanonical <| canonicalMembers_cons (isCanonical_int _) <|
    canonicalMembers_cons htarget <| canonicalMembers_cons r'.isCanonical rfl

/-- A dictionary in order whose keys are known. -/
theorem InOrder.members_eq {keys order : List String} (h : InOrder keys order) {d : Members}
    (hd : (d.map Prod.fst).Pairwise (· < ·)) (hkeys : hasKeys d keys = true) :
    d = order.map fun k => (k, d.getD k .null) := by
  rw [hasKeys, decide_eq_true_eq] at hkeys
  have hfst : d.map Prod.fst = order := List.Pairwise.eq_of_mem_iff hd h.sorted fun k =>
    ⟨fun hk => h.mem_order k (hkeys.1 k hk), fun hk => hkeys.2 k (h.mem_keys k hk)⟩
  have hnodup : (d.map Prod.fst).Nodup := hd.imp ne_of_lt
  rw [← hfst, List.map_map]
  refine (List.map_id d).symm.trans (List.map_congr_left fun m hm => ?_)
  have hget : d.getD m.1 .null = m.2 := by
    unfold Members.getD Members.get?
    rw [findRow_of_mem hnodup hm]
    rfl
  exact Prod.ext rfl hget.symm

/-! ## Reading what was written -/

theorem raiseFrom_ok {α : Type} {kinds : List ErrorKind} {e : PyError} {x : Except PyError α}
    {a : α} : raiseFrom kinds e x = .ok a ↔ x = .ok a := by
  cases x with
  | error e' =>
    constructor <;>
    · intro h
      cases h
  | ok b => exact Iff.rfl

theorem InOrder.requireExactKeys_ok {keys order : List String} (h : InOrder keys order)
    {d : Members} (hd : d.map Prod.fst = order) (label : String) :
    requireExactKeys (.obj d) keys label = .ok d := by
  have hkeys : hasKeys d keys = true := by
    subst hd
    exact decide_eq_true ⟨h.mem_keys, h.mem_order⟩
  exact Except.bind_ok.mpr ⟨(), require_ok.mpr hkeys, rfl⟩

theorem requireGeneration_ok (n : ℕ) (label : String) :
    requireGeneration (Value.int n) label = .ok n :=
  Except.bind_ok.mpr ⟨(), require_ok.mpr (Int.natCast_nonneg n), rfl⟩

theorem requireTransactionId_ok {s : String} (h : s ≠ "") (label : String) :
    requireTransactionId (.str s) label = .ok s :=
  Except.bind_ok.mpr ⟨(), require_ok.mpr h, rfl⟩

theorem requireDigest_ok {s : String} (h : isDigest s = true) (label : String) :
    requireDigest (.str s) label = .ok s :=
  Except.bind_ok.mpr ⟨(), require_ok.mpr h, rfl⟩

namespace PairChecks

variable (C : PairChecks)

/-- The record of a pair of canonical documents. -/
def recordOf (pair : DurablePair) : PairRecord where
  generation := pair.generation
  transactionId := pair.transactionId
  memoryDigest := C.sha256 pair.memory
  changelogDigest := C.sha256 pair.changelog
  crossDigest := C.sha256 (.obj [("changelog_digest", .str (C.sha256 pair.changelog)),
    ("generation", Value.int pair.generation), ("memory_digest", .str (C.sha256 pair.memory)),
    ("transaction_id", .str pair.transactionId)])

/-- The two files of a pair of canonical documents. -/
def memoryFile (pair : DurablePair) : Value :=
  envelope pair pair.memory (C.sha256 pair.changelog)

/-- The two files of a pair of canonical documents. -/
def changelogFile (pair : DurablePair) : Value :=
  envelope pair pair.changelog (C.sha256 pair.memory)

variable {C} {pair base target : DurablePair}

theorem pairRecord_ok (hm : IsCanonical pair.memory) (hc : IsCanonical pair.changelog) :
    C.pairRecord pair = .ok (C.recordOf pair) :=
  Except.bind_ok.mpr ⟨_, digest_of_canonical hm,
    Except.bind_ok.mpr ⟨_, digest_of_canonical hc, rfl⟩⟩

theorem envelopes_ok (hm : IsCanonical pair.memory) (hc : IsCanonical pair.changelog)
    (hpayload : C.validateMemoryPayload (decide (pair.transactionId = "legacy")) pair.memory =
      .ok ()) : C.envelopes pair = .ok (C.memoryFile pair, C.changelogFile pair) :=
  Except.bind_ok.mpr ⟨(), hpayload, Except.bind_ok.mpr ⟨_, digest_of_canonical hm,
    Except.bind_ok.mpr ⟨_, digest_of_canonical hc, rfl⟩⟩⟩

/-- A record is read back. -/
theorem validatedPairRecord_recordOf (h : pair.transactionId ≠ "") (label : String) :
    validatedPairRecord (C.recordOf pair).toValue label = .ok (C.recordOf pair) := by
  refine Except.bind_ok.mpr ⟨_, recordKeys_order.requireExactKeys_ok rfl _, ?_⟩
  refine Except.bind_ok.mpr ⟨_, requireGeneration_ok _ _, ?_⟩
  refine Except.bind_ok.mpr ⟨_, requireTransactionId_ok h _, ?_⟩
  refine Except.bind_ok.mpr ⟨_, requireDigest_ok (C.sha256_digest _) _, ?_⟩
  refine Except.bind_ok.mpr ⟨_, requireDigest_ok (C.sha256_digest _) _, ?_⟩
  exact Except.bind_ok.mpr ⟨_, requireDigest_ok (C.sha256_digest _) _, rfl⟩

/-- What a commit has checked of its two pairs. -/
structure Committable (C : PairChecks) (base target : DurablePair) : Prop where
  base_ordered : base.Ordered
  target_ordered : target.Ordered
  base_memory : IsCanonical base.memory
  base_changelog : IsCanonical base.changelog
  target_memory : IsCanonical target.memory
  target_changelog : IsCanonical target.changelog
  base_payload : C.validateMemoryPayload (decide (base.transactionId = "legacy")) base.memory =
    .ok ()
  target_payload : C.validateMemoryPayload false target.memory = .ok ()
  target_envelope : C.validateMemoryPayload (decide (target.transactionId = "legacy"))
    target.memory = .ok ()
  transition : validateTransition base target = .ok ()
  base_semantics : C.validateSemantics base = .ok ()
  target_semantics : C.validateSemantics target = .ok ()

/-- What a transition says of the shapes of the two pairs. -/
theorem validateTransition_ok {u : Unit} (h : validateTransition base target = .ok u) :
    isList base.changelog = true ∧ isList target.changelog = true ∧ base.transactionId ≠ "" ∧
      target.transactionId ≠ "" := by
  obtain ⟨_, hbase, h⟩ := Except.bind_ok.mp h
  obtain ⟨_, htarget, h⟩ := Except.bind_ok.mp h
  obtain ⟨_, hbaseId, h⟩ := Except.bind_ok.mp h
  obtain ⟨_, htargetId, -⟩ := Except.bind_ok.mp h
  exact ⟨(require_ok.mp hbase).2, (require_ok.mp htarget).2, require_ok.mp hbaseId,
    require_ok.mp htargetId⟩

/-- The journal of a commit. -/
def journalFile (C : PairChecks) (base target : DurablePair) : Value :=
  journalOf base target (C.recordOf base) (C.recordOf target)

/-- The journal of a commit says what its target is, and what the record of its base. -/
theorem journalTarget_journalFile (h : C.Committable base target) :
    C.journalTarget (C.journalFile base target) = .ok (target, C.recordOf base) := by
  obtain ⟨-, hlist, hbaseId, htargetId⟩ := validateTransition_ok h.transition
  refine Except.bind_ok.mpr ⟨_, journalKeys_order.requireExactKeys_ok rfl _, ?_⟩
  refine Except.bind_ok.mpr ⟨(), require_ok.mpr rfl, ?_⟩
  refine Except.bind_ok.mpr ⟨_, targetKeys_order.requireExactKeys_ok rfl _, ?_⟩
  refine Except.bind_ok.mpr ⟨_, requireGeneration_ok _ _, ?_⟩
  refine Except.bind_ok.mpr ⟨_, requireTransactionId_ok htargetId _, ?_⟩
  refine Except.bind_ok.mpr ⟨(), require_ok.mpr hlist, ?_⟩
  refine Except.bind_ok.mpr ⟨(), h.target_payload, ?_⟩
  refine Except.bind_ok.mpr ⟨_, validatedPairRecord_recordOf htargetId _, ?_⟩
  refine Except.bind_ok.mpr ⟨_, pairRecord_ok h.target_memory h.target_changelog, ?_⟩
  refine Except.bind_ok.mpr ⟨(), require_ok.mpr rfl, ?_⟩
  exact Except.bind_ok.mpr ⟨_, validatedPairRecord_recordOf hbaseId _, rfl⟩

/-- The journal of a commit is accepted. -/
theorem readJournal_journalFile (h : C.Committable base target) :
    C.readJournal (C.journalFile base target) = .ok (base, target) := by
  obtain ⟨hlist, -⟩ := validateTransition_ok h.transition
  refine Except.bind_ok.mpr ⟨_, raiseFrom_ok.mpr (journalTarget_journalFile h), ?_⟩
  refine Except.bind_ok.mpr ⟨_, pairRecord_ok h.base_memory h.base_changelog, ?_⟩
  refine Except.bind_ok.mpr ⟨(), require_ok.mpr rfl, ?_⟩
  refine Except.bind_ok.mpr ⟨(), require_ok.mpr hlist, ?_⟩
  refine Except.bind_ok.mpr ⟨(), h.base_payload, ?_⟩
  refine Except.bind_ok.mpr ⟨(), raiseFrom_ok.mpr h.transition, ?_⟩
  refine Except.bind_ok.mpr ⟨(), h.base_semantics, ?_⟩
  exact Except.bind_ok.mpr ⟨(), h.target_semantics, rfl⟩

/-! ## The two sides -/

/-- The file of one side is the base's or the target's, where the base's may be the payload alone,
or missing for the pair of a store without files. -/
def IsSide (base : DurablePair) (baseDoc targetDoc basePayload : Value) (file : Option PairFile) :
    Prop :=
  file = some (some baseDoc) ∨ file = some (some targetDoc) ∨
    (base.transactionId = "legacy" ∧ file = some (some basePayload)) ∨
    (base.transactionId = "empty" ∧ base.generation = 0 ∧ file = none)

/-- What a canonical document is compared with. -/
theorem matchesSide_eval {legacyBase : Bool} {document baseDoc targetDoc basePayload : Value}
    (hdoc : IsCanonical document) (hb : IsCanonical baseDoc) (ht : IsCanonical targetDoc)
    (hp : IsCanonical basePayload) :
    matchesSide legacyBase document baseDoc targetDoc basePayload =
      if document = baseDoc then .ok true else if document = targetDoc then .ok true
      else if legacyBase = true then .ok (decide (document = basePayload)) else .ok false := by
  have hbind : ∀ {α β : Type} (a : α) (f : α → Except PyError β), (Except.ok a >>= f) = f a :=
    fun _ _ => rfl
  rw [matchesSide, hdoc, hbind, hb, hbind, ht, hp]
  cases legacyBase <;> rfl

theorem matchesSide_ok {legacyBase : Bool} {document baseDoc targetDoc basePayload : Value}
    (hb : IsCanonical baseDoc) (ht : IsCanonical targetDoc) (hp : IsCanonical basePayload)
    (hdoc : document = baseDoc ∨ document = targetDoc ∨
      (legacyBase = true ∧ document = basePayload)) :
    matchesSide legacyBase document baseDoc targetDoc basePayload = .ok true := by
  have hcanonical : IsCanonical document := by
    rcases hdoc with rfl | rfl | ⟨-, rfl⟩
    · exact hb
    · exact ht
    · exact hp
  rw [matchesSide_eval hcanonical hb ht hp]
  split_ifs with hbase htarget hlegacy
  · rfl
  · rfl
  · have hpayload := (hdoc.resolve_left hbase).resolve_left htarget
    rw [decide_eq_true hpayload.2]
  · exact absurd ((hdoc.resolve_left hbase).resolve_left htarget).1 hlegacy

theorem checkSide_ok {baseDoc targetDoc basePayload : Value} (hb : IsCanonical baseDoc)
    (ht : IsCanonical targetDoc) (hp : IsCanonical basePayload) {file : Option PairFile}
    (h : IsSide base baseDoc targetDoc basePayload file) :
    checkSide base file baseDoc targetDoc basePayload = .ok () := by
  have hsome : ∀ document, file = some (some document) → (document = baseDoc ∨
      document = targetDoc ∨ (decide (base.transactionId = "legacy") = true ∧
        document = basePayload)) →
      checkSide base file baseDoc targetDoc basePayload = .ok () := by
    rintro document rfl hdoc
    exact Except.bind_ok.mpr ⟨document, rfl,
      Except.bind_ok.mpr ⟨true, matchesSide_ok hb ht hp hdoc, require_ok.mpr rfl⟩⟩
  rcases h with h | h | ⟨hlegacy, h⟩ | ⟨hempty, hgeneration, rfl⟩
  · exact hsome _ h (.inl rfl)
  · exact hsome _ h (.inr (.inl rfl))
  · exact hsome _ h (.inr (.inr ⟨decide_eq_true hlegacy, rfl⟩))
  · exact require_ok.mpr ⟨hempty, hgeneration⟩

/-- The files that are shown hold documents in order. -/
def FilesOrdered (files : PairName → Option PairFile) : Prop :=
  ∀ name v, files name = some (some v) → keyOrdered v = true

/-- What stands under a key of a document in order is in order. -/
theorem keyOrdered_getD {d : Members} (h : keyOrdered (.obj d) = true) (k : String) :
    keyOrdered (d.getD k .null) = true := by
  rw [keyOrdered, Bool.and_eq_true] at h
  replace h := h.2
  induction d with
  | nil => rfl
  | cons m ms ih =>
    obtain ⟨k', x⟩ := m
    rw [keyOrderedMembers, Bool.and_eq_true] at h
    unfold Members.getD Members.get? findRow
    by_cases hk : k' = k
    · simp only [hk, List.find?_cons, decide_true]
      exact h.1
    · simp only [hk, List.find?_cons, decide_false]
      exact ih h.2

/-- A dictionary with the keys of a schema. -/
theorem requireExactKeys_eq {v : Value} {keys : List String} {label : String} {m : Members}
    (h : requireExactKeys v keys label = .ok m) : v = .obj m ∧ hasKeys m keys = true := by
  match v with
  | .obj d =>
    obtain ⟨_, hkeys, heq⟩ := Except.bind_ok.mp h
    obtain rfl : d = m := Except.ok.inj heq
    exact ⟨rfl, require_ok.mp hkeys⟩
  | .null => cases h
  | .bool _ => cases h
  | .num _ => cases h
  | .str _ => cases h
  | .arr _ => cases h

theorem requireGeneration_eq {v : Value} {label : String} {n : ℕ}
    (h : requireGeneration v label = .ok n) : v = Value.int n := by
  unfold requireGeneration at h
  split at h
  · obtain ⟨_, hpos, heq⟩ := Except.bind_ok.mp h
    rw [← Except.ok.inj heq, Int.toNat_of_nonneg (require_ok.mp hpos)]
  · cases h

theorem requireTransactionId_eq {v : Value} {label s : String}
    (h : requireTransactionId v label = .ok s) : v = .str s := by
  unfold requireTransactionId at h
  split at h
  · obtain ⟨_, -, heq⟩ := Except.bind_ok.mp h
    rw [← Except.ok.inj heq]
  · cases h

/-- An envelope in order is made of its fields. -/
theorem envelope_eq {m : Members} {peer : String} (hm : keyOrdered (.obj m) = true)
    (hkeys : hasKeys m envelopeKeys = true)
    (hformat : m.getD "format_version" .null = Value.int 2)
    (hgeneration : m.getD "generation" .null = Value.int pair.generation)
    (htx : m.getD "transaction_id" .null = .str pair.transactionId)
    (hpeer : m.getD "peer_digest" .null = .str peer) :
    Json.obj m = envelope pair (m.getD "payload" .null) peer := by
  rw [keyOrdered, Bool.and_eq_true, decide_eq_true_eq] at hm
  refine congrArg Json.obj ((envelopeKeys_order.members_eq hm.1 hkeys).trans ?_)
  simp only [List.map_cons, List.map_nil, hformat, hgeneration, htx, hpeer]

/-- Two envelopes that are read are the files of the pair that they are read as. -/
theorem decodeEnvelopes_eq {m c : Value} (hm : keyOrdered m = true) (hc : keyOrdered c = true)
    (h : C.decodeEnvelopes m c = .ok pair) :
    m = C.memoryFile pair ∧ c = C.changelogFile pair ∧ pair.Ordered := by
  obtain ⟨dm, hdm, h⟩ := Except.bind_ok.mp h
  obtain ⟨dc, hdc, h⟩ := Except.bind_ok.mp h
  obtain ⟨_, hfm, h⟩ := Except.bind_ok.mp h
  obtain ⟨_, hfc, h⟩ := Except.bind_ok.mp h
  obtain ⟨gm, hgm, h⟩ := Except.bind_ok.mp h
  obtain ⟨gc, hgc, h⟩ := Except.bind_ok.mp h
  obtain ⟨tm, htm, h⟩ := Except.bind_ok.mp h
  obtain ⟨tc, htc, h⟩ := Except.bind_ok.mp h
  obtain ⟨_, hsame, h⟩ := Except.bind_ok.mp h
  obtain ⟨sc, hsc, h⟩ := Except.bind_ok.mp h
  obtain ⟨sm, hsm, h⟩ := Except.bind_ok.mp h
  obtain ⟨_, hpeer, h⟩ := Except.bind_ok.mp h
  obtain ⟨_, -, h⟩ := Except.bind_ok.mp h
  obtain ⟨_, -, h⟩ := Except.bind_ok.mp h
  obtain rfl := Except.ok.inj h
  obtain ⟨rfl, rfl⟩ := require_ok.mp hsame
  obtain ⟨hpeerm, hpeerc⟩ := require_ok.mp hpeer
  obtain ⟨rfl, hmkeys⟩ := requireExactKeys_eq hdm
  obtain ⟨rfl, hckeys⟩ := requireExactKeys_eq hdc
  have hmp := canonical_of_digest (keyOrdered_getD hm "payload") hsm
  have hcp := canonical_of_digest (keyOrdered_getD hc "payload") hsc
  rw [digest_of_canonical hmp] at hsm
  rw [digest_of_canonical hcp] at hsc
  rw [← Except.ok.inj hsc] at hpeerm
  rw [← Except.ok.inj hsm] at hpeerc
  refine ⟨?_, ?_, keyOrdered_getD hm "payload", keyOrdered_getD hc "payload"⟩
  · exact envelope_eq hm hmkeys (require_ok.mp hfm) (requireGeneration_eq hgm)
      (requireTransactionId_eq htm) hpeerm
  · exact envelope_eq hc hckeys (require_ok.mp hfc) (requireGeneration_eq hgc)
      (requireTransactionId_eq htc) hpeerc

theorem readFile_eq {file : PairFile} {v : Value} (h : readFile file = .ok v) : file = some v := by
  cases file with
  | some w => exact congrArg some (Except.ok.inj h)
  | none => cases h

/-- Two files that are read as a pair are its two sides. -/
theorem decodePair_sides {m c : Value} (hm : keyOrdered m = true) (hc : keyOrdered c = true)
    (h : C.decodePair m c = .ok pair) (targetMemory targetChangelog : Value) :
    IsSide pair (C.memoryFile pair) targetMemory pair.memory (some (some m)) ∧
      IsSide pair (C.changelogFile pair) targetChangelog pair.changelog (some (some c)) ∧
      pair.Ordered := by
  unfold decodePair at h
  split_ifs at h with hlegacy hmixed
  · obtain ⟨_, -, h⟩ := Except.bind_ok.mp h
    obtain ⟨_, -, h⟩ := Except.bind_ok.mp h
    obtain rfl := Except.ok.inj h
    exact ⟨.inr (.inr (.inl ⟨rfl, rfl⟩)), .inr (.inr (.inl ⟨rfl, rfl⟩)), hm, hc⟩
  · obtain ⟨hmemory, hchangelog, hordered⟩ := decodeEnvelopes_eq hm hc (raiseFrom_ok.mp h)
    rw [hmemory, hchangelog]
    exact ⟨.inl rfl, .inl rfl, hordered⟩

/-- The files that a pair is read from are its two sides. -/
theorem readPair_sides {files : PairName → Option PairFile} (hfiles : FilesOrdered files)
    (h : C.readPair files = .ok pair) (targetMemory targetChangelog : Value) :
    IsSide pair (C.memoryFile pair) targetMemory pair.memory (files .memory) ∧
      IsSide pair (C.changelogFile pair) targetChangelog pair.changelog (files .changelog) ∧
      pair.Ordered ∧ C.validateSemantics pair = .ok () := by
  unfold readPair at h
  match hmemory : files .memory, hchangelog : files .changelog with
  | none, none =>
    simp only [hmemory, hchangelog] at h
    obtain rfl := Except.ok.inj h
    exact ⟨.inr (.inr (.inr ⟨rfl, rfl, rfl⟩)), .inr (.inr (.inr ⟨rfl, rfl, rfl⟩)), by decide,
      C.empty_semantics⟩
  | some memoryFile, some changelogFile =>
    simp only [hmemory, hchangelog] at h
    obtain ⟨m, hm, h⟩ := Except.bind_ok.mp h
    obtain ⟨c, hc, h⟩ := Except.bind_ok.mp h
    obtain ⟨decoded, hdecoded, h⟩ := Except.bind_ok.mp h
    obtain ⟨_, hsemantics, h⟩ := Except.bind_ok.mp h
    obtain rfl := Except.ok.inj h
    obtain rfl := readFile_eq hm
    obtain rfl := readFile_eq hc
    obtain ⟨hsideMemory, hsideChangelog, hordered⟩ := decodePair_sides
      (hfiles _ _ hmemory) (hfiles _ _ hchangelog) hdecoded targetMemory targetChangelog
    exact ⟨hsideMemory, hsideChangelog, hordered, hsemantics⟩
  | none, some _ =>
    simp only [hmemory, hchangelog] at h
    cases h
  | some _, none =>
    simp only [hmemory, hchangelog] at h
    cases h

/-- The two files of a target are read as the target. -/
theorem readPair_target {files : PairName → Option PairFile} (h : C.Committable base target)
    (hmemory : files .memory = some (some (C.memoryFile target)))
    (hchangelog : files .changelog = some (some (C.changelogFile target))) :
    C.readPair files = .ok target := by
  obtain ⟨-, hlist, -, htargetId⟩ := validateTransition_ok h.transition
  have hdecoded :
      C.decodeEnvelopes (C.memoryFile target) (C.changelogFile target) = .ok target := by
    refine Except.bind_ok.mpr ⟨_, envelopeKeys_order.requireExactKeys_ok rfl _, ?_⟩
    refine Except.bind_ok.mpr ⟨_, envelopeKeys_order.requireExactKeys_ok rfl _, ?_⟩
    refine Except.bind_ok.mpr ⟨(), require_ok.mpr rfl, ?_⟩
    refine Except.bind_ok.mpr ⟨(), require_ok.mpr rfl, ?_⟩
    refine Except.bind_ok.mpr ⟨_, requireGeneration_ok _ _, ?_⟩
    refine Except.bind_ok.mpr ⟨_, requireGeneration_ok _ _, ?_⟩
    refine Except.bind_ok.mpr ⟨_, requireTransactionId_ok htargetId _, ?_⟩
    refine Except.bind_ok.mpr ⟨_, requireTransactionId_ok htargetId _, ?_⟩
    refine Except.bind_ok.mpr ⟨(), require_ok.mpr ⟨rfl, rfl⟩, ?_⟩
    refine Except.bind_ok.mpr ⟨_, digest_of_canonical h.target_changelog, ?_⟩
    refine Except.bind_ok.mpr ⟨_, digest_of_canonical h.target_memory, ?_⟩
    refine Except.bind_ok.mpr ⟨(), require_ok.mpr ⟨rfl, rfl⟩, ?_⟩
    refine Except.bind_ok.mpr ⟨(), require_ok.mpr hlist, ?_⟩
    exact Except.bind_ok.mpr ⟨(), h.target_payload, rfl⟩
  unfold readPair
  rw [hmemory, hchangelog]
  refine Except.bind_ok.mpr ⟨_, rfl, Except.bind_ok.mpr ⟨_, rfl, ?_⟩⟩
  refine Except.bind_ok.mpr ⟨target, ?_, Except.bind_ok.mpr ⟨(), h.target_semantics, rfl⟩⟩
  have henvelope : isEnvelope (C.memoryFile target) = true := rfl
  have henvelope' : isEnvelope (C.changelogFile target) = true := rfl
  unfold decodePair
  rw [henvelope, henvelope', if_neg (by decide), if_neg (by decide)]
  exact raiseFrom_ok.mpr hdecoded

/-! ## What the next load returns -/

/-- The journal of a commit, and either side of each of the two files. -/
structure Pending (C : PairChecks) (base target : DurablePair)
    (files : PairName → Option PairFile) : Prop where
  journal : ∃ j, files .journal = some (some j) ∧ C.readJournal j = .ok (base, target)
  committable : C.Committable base target
  memory : IsSide base (C.memoryFile base) (C.memoryFile target) base.memory (files .memory)
  changelog : IsSide base (C.changelogFile base) (C.changelogFile target) base.changelog
    (files .changelog)

/-- The files hold a pair, and no journal. -/
structure Done (C : PairChecks) (pair : DurablePair) (files : PairName → Option PairFile) :
    Prop where
  journal : files .journal = none
  pair : C.readPair files = .ok pair

/-- The files hold the pair, or the journal of a commit of the pair. -/
def Leads (C : PairChecks) (pair : DurablePair) (files : PairName → Option PairFile) : Prop :=
  (∃ base, C.Pending base pair files) ∨ C.Done pair files

theorem Committable.base_envelopes (h : C.Committable base target) :
    C.envelopes base = .ok (C.memoryFile base, C.changelogFile base) :=
  envelopes_ok h.base_memory h.base_changelog h.base_payload

theorem Committable.target_envelopes (h : C.Committable base target) :
    C.envelopes target = .ok (C.memoryFile target, C.changelogFile target) :=
  envelopes_ok h.target_memory h.target_changelog h.target_envelope

theorem Pending.recover {files : PairName → Option PairFile} (h : C.Pending base target files) :
    C.recover files = .ok (finishOps (C.memoryFile target) (C.changelogFile target)) := by
  obtain ⟨j, hjournal, hread⟩ := h.journal
  have hc := h.committable
  have hbm := isCanonical_envelope base hc.base_memory (C.sha256 base.changelog)
  have hbc := isCanonical_envelope base hc.base_changelog (C.sha256 base.memory)
  have htm := isCanonical_envelope target hc.target_memory (C.sha256 target.changelog)
  have htc := isCanonical_envelope target hc.target_changelog (C.sha256 target.memory)
  unfold PairChecks.recover
  rw [hjournal]
  refine Except.bind_ok.mpr ⟨j, rfl, Except.bind_ok.mpr ⟨_, hread, ?_⟩⟩
  refine Except.bind_ok.mpr ⟨_, hc.base_envelopes, ?_⟩
  refine Except.bind_ok.mpr ⟨_, hc.target_envelopes, ?_⟩
  refine Except.bind_ok.mpr ⟨(), checkSide_ok hbm htm hc.base_memory h.memory, ?_⟩
  refine Except.bind_ok.mpr ⟨(), checkSide_ok hbc htc hc.base_changelog h.changelog, ?_⟩
  exact Except.bind_ok.mpr ⟨_, htm, Except.bind_ok.mpr ⟨_, htc, rfl⟩⟩

theorem Done.recover {files : PairName → Option PairFile} (h : C.Done pair files) :
    C.recover files = .ok [] := by
  unfold PairChecks.recover
  rw [h.journal]

/-! ## Recovery on a directory -/

theorem shown_mem_versions {d d' : PairDirectory} (h : Directory.Crashed d d') (name : PairName) :
    shown d' name ∈ (d name).versions := by
  obtain ⟨file, hmem, heq⟩ := h name
  rw [shown, heq]
  exact hmem

/-- A directory in which the journal of a commit is durable, and each of the two files shows one of
its sides whatever a crash brings back. -/
structure UnderWay (C : PairChecks) (j : Value) (base target : DurablePair) (d : PairDirectory) :
    Prop where
  journal : (d .journal).versions = [some (some j)]
  memory : ∀ file ∈ (d .memory).versions,
    IsSide base (C.memoryFile base) (C.memoryFile target) base.memory file
  changelog : ∀ file ∈ (d .changelog).versions,
    IsSide base (C.changelogFile base) (C.changelogFile target) base.changelog file

variable {j : Value} {d d' d₀ : PairDirectory}

theorem keyOrdered_envelope (pair : DurablePair) {payload : Value}
    (h : keyOrdered payload = true) (peer : String) :
    keyOrdered (envelope pair payload peer) = true := by
  rw [envelope, keyOrdered, Bool.and_eq_true]
  refine ⟨decide_eq_true envelopeKeys_order.sorted, ?_⟩
  simp only [keyOrderedMembers, h, keyOrdered, Bool.and_self]

theorem Pending.underWay (hd : d.Settled) (h : C.Pending base target (shown d)) :
    ∃ j, C.readJournal j = .ok (base, target) ∧ C.UnderWay j base target d := by
  obtain ⟨j, hjournal, hread⟩ := h.journal
  have hversions : ∀ name, (d name).versions = [shown d name] := fun name => by
    rw [hd name]
    rfl
  refine ⟨j, hread, ⟨(hversions _).trans (congrArg (fun file => [file]) hjournal), ?_, ?_⟩⟩
  · intro file hfile
    rw [hversions, List.mem_singleton] at hfile
    exact hfile ▸ h.memory
  · intro file hfile
    rw [hversions, List.mem_singleton] at hfile
    exact hfile ▸ h.changelog

theorem UnderWay.pending (h : C.UnderWay j base target d) (hc : C.Committable base target)
    (hread : C.readJournal j = .ok (base, target)) (hcrash : Directory.Crashed d d') :
    C.Pending base target (shown d') := by
  have hjournal := shown_mem_versions hcrash .journal
  rw [h.journal, List.mem_singleton] at hjournal
  exact ⟨⟨j, hjournal, hread⟩, hc, h.memory _ (shown_mem_versions hcrash .memory),
    h.changelog _ (shown_mem_versions hcrash .changelog)⟩

theorem UnderWay.replace_memory (h : C.UnderWay j base target d) :
    C.UnderWay j base target (d.exec (.replace .memory (some (C.memoryFile target)))) where
  journal := h.journal
  memory := fun file hfile => by
    rcases List.mem_cons.mp hfile with rfl | hfile
    · exact .inr (.inl rfl)
    · exact h.memory file hfile
  changelog := h.changelog

theorem UnderWay.replace_changelog (h : C.UnderWay j base target d) :
    C.UnderWay j base target (d.exec (.replace .changelog (some (C.changelogFile target)))) where
  journal := h.journal
  memory := h.memory
  changelog := fun file hfile => by
    rcases List.mem_cons.mp hfile with rfl | hfile
    · exact .inr (.inl rfl)
    · exact h.changelog file hfile

theorem UnderWay.sync (h : C.UnderWay j base target d) :
    C.UnderWay j base target (d.exec .sync) where
  journal := by
    have hcurrent := (d .journal).current_mem
    rw [h.journal, List.mem_singleton] at hcurrent
    exact congrArg (fun file => [file]) hcurrent
  memory := fun file hfile => by
    rw [List.mem_singleton.mp hfile]
    exact h.memory _ (d .memory).current_mem
  changelog := fun file hfile => by
    rw [List.mem_singleton.mp hfile]
    exact h.changelog _ (d .changelog).current_mem

/-- Whatever a crash leaves of the directory leads to the pair. -/
def CrashLeads (C : PairChecks) (pair : DurablePair) (d : PairDirectory) : Prop :=
  ∀ d', Directory.Crashed d d' → C.Leads pair (shown d')

/-- Finishing a commit leads to its target from each state on the way, and ends with the target. -/
theorem UnderWay.finish (h : C.UnderWay j base target d) (hc : C.Committable base target)
    (hread : C.readJournal j = .ok (base, target)) :
    let ops := finishOps (C.memoryFile target) (C.changelogFile target)
    Directory.Always (C.CrashLeads target) ops d ∧ (d.run ops).Settled ∧
      C.Done target (shown (d.run ops)) ∧ FilesOrdered (shown (d.run ops)) := by
  have hleads : ∀ d, C.UnderWay j base target d → C.CrashLeads target d :=
    fun d hd d' hcrash => .inl ⟨base, hd.pending hc hread hcrash⟩
  have h₁ := h.replace_memory
  have h₂ := h₁.sync
  have h₃ := h₂.replace_changelog
  have h₄ := h₃.sync
  have h₅ := h₄.sync
  have hdone : ∀ files : PairName → Option PairFile, files .journal = none →
      files .memory = some (some (C.memoryFile target)) →
      files .changelog = some (some (C.changelogFile target)) → C.Done target files :=
    fun files hjournal hmemory hchangelog =>
      ⟨hjournal, readPair_target hc hmemory hchangelog⟩
  refine ⟨⟨hleads _ h, hleads _ h₁, hleads _ h₂, hleads _ h₃, hleads _ h₄, hleads _ h₅, ?_, ?_⟩,
    fun _ => rfl, hdone _ rfl rfl rfl, ?_⟩
  · -- The journal is taken away, but not durably: both files are the target's by now.
    intro d' hcrash
    have hmemory := List.mem_singleton.mp (shown_mem_versions hcrash .memory)
    have hchangelog := List.mem_singleton.mp (shown_mem_versions hcrash .changelog)
    rcases List.mem_cons.mp (shown_mem_versions hcrash .journal) with hjournal | hjournal
    · exact .inr (hdone _ hjournal hmemory hchangelog)
    · have hjournal : shown d' .journal ∈ [some (some j)] := by
        rw [← h₅.journal]
        exact hjournal
      exact .inl ⟨base, ⟨j, List.mem_singleton.mp hjournal, hread⟩, hc, .inr (.inl hmemory),
        .inr (.inl hchangelog)⟩
  · intro d' hcrash
    exact .inr (hdone _ (List.mem_singleton.mp (shown_mem_versions hcrash .journal))
      (List.mem_singleton.mp (shown_mem_versions hcrash .memory))
      (List.mem_singleton.mp (shown_mem_versions hcrash .changelog)))
  · intro name v hv
    cases name with
    | memory =>
      rw [← Option.some.inj (Option.some.inj hv)]
      exact keyOrdered_envelope target hc.target_ordered.1 _
    | changelog =>
      rw [← Option.some.inj (Option.some.inj hv)]
      exact keyOrdered_envelope target hc.target_ordered.2 _
    | journal => cases hv

/-- A recovery leads to the pair from each state on the way, and ends with the pair. -/
theorem Leads.recover (hd : d.Settled) (h : C.Leads pair (shown d)) :
    ∃ ops, C.recover (shown d) = .ok ops ∧ Directory.Always (C.CrashLeads pair) ops d ∧
      (d.run ops).Settled ∧ C.Done pair (shown (d.run ops)) ∧
      (FilesOrdered (shown d) → FilesOrdered (shown (d.run ops))) := by
  rcases h with ⟨base, hpending⟩ | hdone
  · obtain ⟨j, hread, hunder⟩ := hpending.underWay hd
    obtain ⟨halways, hsettled, hdone, hordered⟩ := hunder.finish hpending.committable hread
    exact ⟨_, hpending.recover, halways, hsettled, hdone, fun _ => hordered⟩
  · refine ⟨[], hdone.recover, fun d' hcrash => ?_, hd, hdone, id⟩
    rw [hd.crashed hcrash]
    exact .inr hdone

/-- A load returns the pair that the files lead to. -/
theorem Leads.load (hd : d.Settled) (h : C.Leads pair (shown d)) :
    ∃ d', C.load d = .ok (d', pair) := by
  obtain ⟨ops, hops, -, -, hdone, -⟩ := h.recover hd
  exact ⟨_, Except.bind_ok.mpr ⟨ops, hops, Except.bind_ok.mpr ⟨pair, hdone.pair, rfl⟩⟩⟩

/-- Recoveries one after the other, each cut short by a crash after some of its steps, or after the
last. -/
inductive Attempts (C : PairChecks) : PairDirectory → PairDirectory → Prop
  | none (d : PairDirectory) : Attempts C d d
  | cut {d d' d'' : PairDirectory} {ops : List PairOp} (k : ℕ)
      (recovery : C.recover (shown d) = .ok ops)
      (crash : Directory.Crashed (d.run (ops.take k)) d')
      (rest : Attempts C d' d'') : Attempts C d d''

/-- Recoveries that are cut short lead to the same pair. -/
theorem Attempts.leads (h : C.Attempts d d') :
    d.Settled → C.Leads pair (shown d) → d'.Settled ∧ C.Leads pair (shown d') := by
  induction h with
  | none d => exact fun hd hleads => ⟨hd, hleads⟩
  | @cut d d' d'' ops k recovery crash rest ih =>
    intro hd hleads
    obtain ⟨ops', hops', halways, -⟩ := hleads.recover hd
    obtain rfl : ops' = ops := Except.ok.inj (hops'.symm.trans recovery)
    exact ih crash.settled (halways.take k d' crash)

/-! ## What a recovery has checked -/

/-- A file that matches is one of the two sides, or the payload of a legacy base. -/
theorem matchesSide_eq {legacyBase : Bool} {document baseDoc targetDoc basePayload : Value}
    (hdoc : keyOrdered document = true) (hb : IsCanonical baseDoc) (ht : IsCanonical targetDoc)
    (hp : IsCanonical basePayload)
    (h : matchesSide legacyBase document baseDoc targetDoc basePayload = .ok true) :
    document = baseDoc ∨ document = targetDoc ∨ (legacyBase = true ∧ document = basePayload) := by
  have hcanonical : IsCanonical document := by
    obtain ⟨encoded, hencoded, -⟩ := Except.bind_ok.mp h
    exact (canonicalJson_eq hdoc hencoded ▸ hencoded : canonicalJson document = .ok document)
  rw [matchesSide_eval hcanonical hb ht hp] at h
  split_ifs at h with hbase htarget hlegacy
  · exact .inl hbase
  · exact .inr (.inl htarget)
  · exact .inr (.inr ⟨hlegacy, of_decide_eq_true (Except.ok.inj h)⟩)
  · cases h

/-- A file that passes the check is one of the sides. -/
theorem checkSide_eq {baseDoc targetDoc basePayload : Value} {file : Option PairFile}
    (hfile : ∀ v, file = some (some v) → keyOrdered v = true) (hb : IsCanonical baseDoc)
    (ht : IsCanonical targetDoc) (hp : IsCanonical basePayload) {u : Unit}
    (h : checkSide base file baseDoc targetDoc basePayload = .ok u) :
    IsSide base baseDoc targetDoc basePayload file := by
  cases file with
  | none => exact .inr (.inr (.inr ⟨(require_ok.mp h).1, (require_ok.mp h).2, rfl⟩))
  | some file =>
    obtain ⟨document, hread, hrest⟩ := Except.bind_ok.mp h
    obtain ⟨same, hsame, hsameTrue⟩ := Except.bind_ok.mp hrest
    rw [require_ok.mp hsameTrue] at hsame
    obtain rfl := readFile_eq hread
    rcases matchesSide_eq (hfile _ rfl) hb ht hp hsame with rfl | rfl | ⟨hlegacy, rfl⟩
    · exact .inl rfl
    · exact .inr (.inl rfl)
    · exact .inr (.inr (.inl ⟨of_decide_eq_true hlegacy, rfl⟩))

/-- What has a record is canonical. -/
theorem canonical_of_pairRecord {r : PairRecord} (hpair : pair.Ordered)
    (h : C.pairRecord pair = .ok r) : IsCanonical pair.memory ∧ IsCanonical pair.changelog := by
  obtain ⟨memoryDigest, hm, h⟩ := Except.bind_ok.mp h
  obtain ⟨changelogDigest, hc, -⟩ := Except.bind_ok.mp h
  exact ⟨canonical_of_digest hpair.1 hm, canonical_of_digest hpair.2 hc⟩

/-- What is accepted of a journal alone. -/
theorem readJournal_eq (hj : keyOrdered j = true) (h : C.readJournal j = .ok (base, target))
    (htarget : ∃ docs, C.envelopes target = .ok docs) : C.Committable base target := by
  obtain ⟨⟨target', baseRecord⟩, hjournal, h⟩ := Except.bind_ok.mp h
  obtain ⟨record, hbaseRecord, h⟩ := Except.bind_ok.mp h
  obtain ⟨_, -, h⟩ := Except.bind_ok.mp h
  obtain ⟨_, -, h⟩ := Except.bind_ok.mp h
  obtain ⟨_, hbasePayload, h⟩ := Except.bind_ok.mp h
  obtain ⟨_, htransition, h⟩ := Except.bind_ok.mp h
  obtain ⟨_, hbaseSemantics, h⟩ := Except.bind_ok.mp h
  obtain ⟨_, htargetSemantics, h⟩ := Except.bind_ok.mp h
  obtain ⟨rfl, rfl⟩ := Prod.mk.inj (Except.ok.inj h)
  replace hjournal := raiseFrom_ok.mp hjournal
  obtain ⟨d, hd, hjournal⟩ := Except.bind_ok.mp hjournal
  obtain ⟨_, -, hjournal⟩ := Except.bind_ok.mp hjournal
  obtain ⟨t, ht, hjournal⟩ := Except.bind_ok.mp hjournal
  obtain ⟨generation, -, hjournal⟩ := Except.bind_ok.mp hjournal
  obtain ⟨transactionId, -, hjournal⟩ := Except.bind_ok.mp hjournal
  obtain ⟨_, -, hjournal⟩ := Except.bind_ok.mp hjournal
  obtain ⟨_, htargetPayload, hjournal⟩ := Except.bind_ok.mp hjournal
  obtain ⟨expected, -, hjournal⟩ := Except.bind_ok.mp hjournal
  obtain ⟨targetRecord, htargetRecord, hjournal⟩ := Except.bind_ok.mp hjournal
  obtain ⟨_, -, hjournal⟩ := Except.bind_ok.mp hjournal
  obtain ⟨baseRecord', -, hjournal⟩ := Except.bind_ok.mp hjournal
  obtain ⟨rfl, rfl⟩ := Prod.mk.inj (Except.ok.inj hjournal)
  obtain ⟨rfl, -⟩ := requireExactKeys_eq hd
  obtain ⟨htargetDoc, -⟩ := requireExactKeys_eq ht
  have htargetOrdered : keyOrdered (.obj t) = true := htargetDoc ▸ keyOrdered_getD hj "target"
  have hbo := And.intro (keyOrdered_getD hj "base_memory") (keyOrdered_getD hj "base_changelog")
  have hto := And.intro (keyOrdered_getD htargetOrdered "memory")
    (keyOrdered_getD htargetOrdered "changelog")
  obtain ⟨hbaseMemory, hbaseChangelog⟩ := canonical_of_pairRecord ⟨hbo.1, hbo.2⟩
    hbaseRecord
  obtain ⟨htargetMemory, htargetChangelog⟩ := canonical_of_pairRecord ⟨hto.1, hto.2⟩
    htargetRecord
  obtain ⟨docs, hdocs⟩ := htarget
  obtain ⟨_, htargetEnvelope, -⟩ := Except.bind_ok.mp hdocs
  exact ⟨hbo, hto, hbaseMemory, hbaseChangelog, htargetMemory, htargetChangelog, hbasePayload,
    htargetPayload, htargetEnvelope, raiseFrom_ok.mp htransition, hbaseSemantics,
    htargetSemantics⟩

/-- A recovery finds no journal, or the journal of a commit and a side of it in each file. -/
theorem recover_cases {files : PairName → Option PairFile} (hfiles : FilesOrdered files)
    {ops : List PairOp} (h : C.recover files = .ok ops) :
    (files .journal = none ∧ ops = []) ∨ ∃ base target, C.Pending base target files := by
  unfold PairChecks.recover at h
  cases hfile : files .journal with
  | none =>
    rw [hfile] at h
    exact .inl ⟨rfl, (Except.ok.inj h).symm⟩
  | some file =>
    rw [hfile] at h
    obtain ⟨j, hj, h⟩ := Except.bind_ok.mp h
    rw [readFile_eq hj] at hfile
    obtain ⟨⟨base, target⟩, hread, h⟩ := Except.bind_ok.mp h
    obtain ⟨baseDocs, hbaseDocs, h⟩ := Except.bind_ok.mp h
    obtain ⟨targetDocs, htargetDocs, h⟩ := Except.bind_ok.mp h
    obtain ⟨_, hmemory, h⟩ := Except.bind_ok.mp h
    obtain ⟨_, hchangelog, -⟩ := Except.bind_ok.mp h
    have hc := readJournal_eq (hfiles _ _ hfile) hread ⟨_, htargetDocs⟩
    obtain rfl := Except.ok.inj (hc.base_envelopes.symm.trans hbaseDocs)
    obtain rfl := Except.ok.inj (hc.target_envelopes.symm.trans htargetDocs)
    refine .inr ⟨base, target, ⟨j, hfile, hread⟩, hc, ?_, ?_⟩
    · exact checkSide_eq (hfiles _) (isCanonical_envelope _ hc.base_memory _)
        (isCanonical_envelope _ hc.target_memory _) hc.base_memory hmemory
    · exact checkSide_eq (hfiles _) (isCanonical_envelope _ hc.base_changelog _)
        (isCanonical_envelope _ hc.target_changelog _) hc.base_changelog hchangelog

/-- The files of a load that succeeds lead to the pair that it returns. -/
theorem leads_of_load (hd : d.Settled) (hfiles : FilesOrdered (shown d))
    (h : C.load d = .ok (d', pair)) : C.Leads pair (shown d) := by
  obtain ⟨ops, hops, h⟩ := Except.bind_ok.mp h
  obtain ⟨loaded, hloaded, h⟩ := Except.bind_ok.mp h
  obtain ⟨rfl, rfl⟩ := Prod.mk.inj (Except.ok.inj h)
  rcases recover_cases hfiles hops with ⟨hjournal, rfl⟩ | ⟨base, target, hpending⟩
  · exact .inr ⟨hjournal, hloaded⟩
  · obtain ⟨ops', hops', -, -, hdone, -⟩ := Leads.recover hd (.inl ⟨base, hpending⟩)
    obtain rfl : ops' = ops := Except.ok.inj (hops'.symm.trans hops)
    obtain rfl : target = loaded := Except.ok.inj (hdone.pair.symm.trans hloaded)
    exact .inl ⟨base, hpending⟩

/-! ## A commit -/

/-- What the callers of `commit_locked` promise of its arguments. A base that they have verified is
the pair of the store: a peer's journal beside the two files would have decided for another. -/
structure CommitCall.Honest (C : PairChecks) (call : CommitCall) (d : PairDirectory)
    (base target : DurablePair) : Prop where
  /-- The caller has observed the base in the files, with no journal beside it. -/
  verified : call.baseVerified = true →
    shown d .journal = none ∧ C.readPair (shown d) = .ok base
  /-- The record is the one of the base. -/
  record : call.baseVerified = true → ∀ r, call.baseRecord = some r → C.pairRecord base = .ok r
  /-- The semantic validator has accepted the target. -/
  validated : call.targetValidated = true → C.validateSemantics target = .ok ()

/-- What a commit has found before its own steps: the files lead to the base. -/
theorem reload_leads {call : CommitCall} {recovery : List PairOp} (hd : d.Settled)
    (hfiles : FilesOrdered (shown d)) (hcall : call.Honest C d base target)
    (h : (if call.baseVerified then .ok [] else C.reload d base) = .ok recovery) :
    C.Leads base (shown d) ∧ C.recover (shown d) = .ok recovery := by
  split_ifs at h with hverified
  · obtain rfl := Except.ok.inj h
    obtain ⟨hjournal, hpair⟩ := hcall.verified hverified
    have hdone : C.Done base (shown d) := ⟨hjournal, hpair⟩
    exact ⟨.inr hdone, hdone.recover⟩
  · obtain ⟨ops, hops, hrest⟩ := Except.bind_ok.mp h
    obtain ⟨current, hcurrent, hrest⟩ := Except.bind_ok.mp hrest
    obtain ⟨_, hsame, hrest⟩ := Except.bind_ok.mp hrest
    rw [require_ok.mp hsame] at hcurrent
    rw [Except.ok.inj hrest] at hops hcurrent
    have hload : C.load d = .ok (d.run recovery, base) :=
      Except.bind_ok.mpr ⟨recovery, hops, Except.bind_ok.mpr ⟨base, hcurrent, rfl⟩⟩
    exact ⟨leads_of_load hd hfiles hload, hops⟩

/-- The steps of a commit are those of a recovery, the journal's, and those that finish it. -/
theorem commitLocked_ok {call : CommitCall} {ops : List PairOp} (hbase : base.Ordered)
    (htarget : target.Ordered) (hsemantics : C.validateSemantics base = .ok ())
    (hcall : call.Honest C d base target) {recovery : List PairOp}
    (hreload : (if call.baseVerified then .ok [] else C.reload d base) = .ok recovery)
    (h : C.commitLocked call d base target = .ok ops) :
    C.Committable base target ∧ ops = recovery ++
      ([.replace .journal (some (C.journalFile base target)), .sync] ++
        finishOps (C.memoryFile target) (C.changelogFile target)) := by
  obtain ⟨recovery', hrecovery, h⟩ := Except.bind_ok.mp h
  obtain rfl := Except.ok.inj (hreload.symm.trans hrecovery)
  obtain ⟨_, hbasePayload, h⟩ := Except.bind_ok.mp h
  obtain ⟨_, htargetPayload, h⟩ := Except.bind_ok.mp h
  obtain ⟨_, htransition, h⟩ := Except.bind_ok.mp h
  obtain ⟨_, hvalidated, h⟩ := Except.bind_ok.mp h
  obtain ⟨docs, hdocs, h⟩ := Except.bind_ok.mp h
  obtain ⟨targetRecord, htargetRecord, h⟩ := Except.bind_ok.mp h
  obtain ⟨baseRecord, hbaseRecord, h⟩ := Except.bind_ok.mp h
  obtain ⟨journal, hjournal, h⟩ := Except.bind_ok.mp h
  obtain ⟨memoryDoc, hmemoryDoc, h⟩ := Except.bind_ok.mp h
  obtain ⟨changelogDoc, hchangelogDoc, h⟩ := Except.bind_ok.mp h
  have hbaseRecord : C.pairRecord base = .ok baseRecord := by
    unfold baseRecordOf at hbaseRecord
    split at hbaseRecord
    · rename_i r hverified hr
      rw [← Except.ok.inj hbaseRecord]
      exact hcall.record hverified _ hr
    · exact hbaseRecord
  have htargetSemantics : C.validateSemantics target = .ok () := by
    split_ifs at hvalidated with hcase
    · exact hcall.validated hcase
    · exact hvalidated
  obtain ⟨hbm, hbc⟩ := canonical_of_pairRecord hbase hbaseRecord
  obtain ⟨htm, htc⟩ := canonical_of_pairRecord htarget htargetRecord
  have henvelope : C.validateMemoryPayload (decide (target.transactionId = "legacy"))
      target.memory = .ok () := by
    obtain ⟨_, henvelope, -⟩ := Except.bind_ok.mp hdocs
    exact henvelope
  have hc : C.Committable base target := ⟨hbase, htarget, hbm, hbc, htm, htc, hbasePayload,
    htargetPayload, henvelope, htransition, hsemantics, htargetSemantics⟩
  have hdocs := Except.ok.inj (hdocs.symm.trans hc.target_envelopes)
  have hbaseRecord := Except.ok.inj (hbaseRecord.symm.trans (pairRecord_ok hbm hbc))
  have htargetRecord := Except.ok.inj (htargetRecord.symm.trans (pairRecord_ok htm htc))
  rw [hbaseRecord, htargetRecord] at hjournal
  rw [hdocs] at hmemoryDoc hchangelogDoc
  have hjournal := Except.ok.inj (hjournal.symm.trans (isCanonical_journalOf hbm hbc htm htc _ _))
  have hmemoryDoc := Except.ok.inj (hmemoryDoc.symm.trans (isCanonical_envelope target htm _))
  have hchangelogDoc :=
    Except.ok.inj (hchangelogDoc.symm.trans (isCanonical_envelope target htc _))
  rw [hjournal, hmemoryDoc, hchangelogDoc] at h
  exact ⟨hc, (Except.ok.inj h).symm⟩

/-- Publishing the journal leaves the files as they were, or the commit under way. -/
theorem publish_journal (hd : d.Settled) (hc : C.Committable base target)
    (hdone : C.Done base (shown d)) (hfiles : FilesOrdered (shown d)) :
    let d₁ := d.exec (.replace .journal (some (C.journalFile base target)))
    (∀ d', Directory.Crashed d₁ d' → d' = d ∨ C.Pending base target (shown d')) ∧
      C.UnderWay (C.journalFile base target) base target (d₁.exec .sync) := by
  have hread := readJournal_journalFile hc
  obtain ⟨hmemory, hchangelog, -⟩ := readPair_sides hfiles hdone.pair (C.memoryFile target)
    (C.changelogFile target)
  have hversions : ∀ name, (d name).versions = [shown d name] := fun name => by
    rw [hd name]
    rfl
  constructor
  · intro d' hcrash
    have hkept : ∀ name, name ≠ .journal → shown d' name = shown d name := fun name hname => by
      have hmem := shown_mem_versions hcrash name
      rw [Directory.exec, Function.update_of_ne hname, hversions, List.mem_singleton] at hmem
      exact hmem
    rcases List.mem_cons.mp (shown_mem_versions hcrash .journal) with hjournal | hjournal
    · refine .inr ⟨⟨_, hjournal, hread⟩, hc, ?_, ?_⟩
      · rw [hkept .memory (by decide)]
        exact hmemory
      · rw [hkept .changelog (by decide)]
        exact hchangelog
    · have hjournal : shown d' .journal = shown d .journal := by
        have hmem : shown d' .journal ∈ (d .journal).versions := hjournal
        rwa [hversions, List.mem_singleton] at hmem
      left
      funext name
      rw [hcrash.settled name, hd name]
      cases name with
      | memory => exact congrArg Entry.settled (hkept .memory (by decide))
      | changelog => exact congrArg Entry.settled (hkept .changelog (by decide))
      | journal => exact congrArg Entry.settled hjournal
  · refine ⟨rfl, fun file hfile => ?_, fun file hfile => ?_⟩
    · rw [List.mem_singleton.mp hfile]
      exact hmemory
    · rw [List.mem_singleton.mp hfile]
      exact hchangelog

/-- The journal of a commit has become durable: it was put in its place and the directory synced, or
the crash left it there. -/
def JournalDurable (C : PairChecks) (base target : DurablePair) (steps : List PairOp)
    (d : PairDirectory) : Prop :=
  (∃ file, [.replace .journal file, .sync] <:+: steps) ∨
    shown d .journal = some (some (C.journalFile base target))

/-- The steps of a recovery publish no journal. -/
theorem recover_ne_journal {files : PairName → Option PairFile} {ops : List PairOp}
    (h : C.recover files = .ok ops) (file : PairFile) : .replace .journal file ∉ ops := by
  unfold PairChecks.recover at h
  split at h
  · obtain rfl := Except.ok.inj h
    exact List.not_mem_nil
  · obtain ⟨_, -, h⟩ := Except.bind_ok.mp h
    obtain ⟨_, -, h⟩ := Except.bind_ok.mp h
    obtain ⟨_, -, h⟩ := Except.bind_ok.mp h
    obtain ⟨_, -, h⟩ := Except.bind_ok.mp h
    obtain ⟨_, -, h⟩ := Except.bind_ok.mp h
    obtain ⟨_, -, h⟩ := Except.bind_ok.mp h
    obtain ⟨_, -, h⟩ := Except.bind_ok.mp h
    obtain ⟨_, -, h⟩ := Except.bind_ok.mp h
    rw [← Except.ok.inj h]
    simp [finishOps]

/-- A step that is followed by another stands before the last one that was made. -/
theorem not_infix_take {α : Type} {a b : α} {xs ys : List α} {k : ℕ} (ha : a ∉ xs)
    (hk : k ≤ xs.length + 1) : ¬[a, b] <:+: (xs ++ ys).take k := by
  rintro ⟨s, t, heq⟩
  have hget : ((xs ++ ys).take k)[s.length]? = some a := by
    rw [← heq]
    simp
  have hlength : s.length + 2 ≤ k := by
    have hle := List.length_take_le k (xs ++ ys)
    rw [← heq] at hle
    simp only [List.length_append, List.length_cons, List.length_nil] at hle
    omega
  rw [List.getElem?_take_of_lt (by omega), List.getElem?_append_left (by omega)] at hget
  exact ha (List.mem_of_getElem? hget)

/-- The target of a commit is not its base. -/
theorem Committable.target_ne (h : C.Committable base target) : target ≠ base := by
  rintro rfl
  obtain ⟨_, -, hrest⟩ := Except.bind_ok.mp h.transition
  obtain ⟨_, -, hrest⟩ := Except.bind_ok.mp hrest
  obtain ⟨_, -, hrest⟩ := Except.bind_ok.mp hrest
  obtain ⟨_, -, hrest⟩ := Except.bind_ok.mp hrest
  exact absurd (require_ok.mp hrest).1 (by omega)

/-- The journal of a commit leads to its target only. -/
theorem Leads.eq_target (h : C.Leads pair (shown d)) (hc : C.Committable base target)
    (hjournal : shown d .journal = some (some (C.journalFile base target))) : pair = target := by
  rcases h with ⟨base', ⟨j, hj, hread⟩, -⟩ | ⟨hnone, -⟩
  · obtain rfl := Option.some.inj (Option.some.inj (hj.symm.trans hjournal))
    exact (Prod.mk.inj (Except.ok.inj (hread.symm.trans (readJournal_journalFile hc)))).2
  · rw [hnone] at hjournal
    cases hjournal

/-- Where a commit is cut short, the files lead to its base or to its target. -/
theorem commit_leads {call : CommitCall} {ops : List PairOp} (k : ℕ) (hd : d₀.Settled)
    (hfiles : FilesOrdered (shown d₀)) (htarget : target.Ordered)
    (hcall : call.Honest C d₀ base target)
    (h : C.commitLocked call d₀ base target = .ok ops)
    (hcrash : Directory.Crashed (d₀.run (ops.take k)) d) :
    (C.Leads base (shown d) ∧ ¬C.JournalDurable base target (ops.take k) d) ∨
      C.Leads target (shown d) := by
  obtain ⟨recovery, hreload, -⟩ := Except.bind_ok.mp h
  obtain ⟨hleads, hrecovery⟩ := reload_leads hd hfiles hcall hreload
  obtain ⟨ops', hops', halways, hsettled, hdone, hordered⟩ := hleads.recover hd
  obtain rfl : ops' = recovery := Except.ok.inj (hops'.symm.trans hrecovery)
  obtain ⟨-, -, hbase, hsemantics⟩ := readPair_sides (hordered hfiles) hdone.pair .null .null
  obtain ⟨hc, hops⟩ := commitLocked_ok hbase htarget hsemantics hcall hreload h
  have hlead : C.Leads base (shown d) → k ≤ ops'.length + 1 →
      (C.Leads base (shown d) ∧ ¬C.JournalDurable base target (ops.take k) d) ∨
        C.Leads target (shown d) := by
    intro hlead hk
    refine .inl ⟨hlead, ?_⟩
    rintro (⟨file, hinfix⟩ | hjournal)
    · rw [hops] at hinfix
      exact not_infix_take (recover_ne_journal hrecovery file) hk hinfix
    · exact hc.target_ne (hlead.eq_target hc hjournal).symm
  obtain ⟨hpublish, hunder⟩ := publish_journal hsettled hc hdone (hordered hfiles)
  have hafter := (hunder.finish hc (readJournal_journalFile hc)).1
  rcases Nat.lt_or_ge ops'.length k with hlt | hge
  · obtain ⟨n, rfl⟩ := Nat.exists_eq_add_of_lt hlt
    rw [hops, show ops'.length + n + 1 = ops'.length + (n + 1) by omega,
      List.take_length_add_append, Directory.run_append] at hcrash
    cases n with
    | zero =>
      rcases hpublish d hcrash with rfl | hpending
      · exact hlead (.inr hdone) (by omega)
      · exact .inr (.inl ⟨base, hpending⟩)
    | succ n => exact .inr (hafter.take n d hcrash)
  · rw [hops, List.take_append_of_le_length hge] at hcrash
    exact hlead (halways.take k d hcrash) (by omega)

/-- A commit that is cut short after any of its steps, or completed, and recoveries that are cut
short in their turn, are followed by a load that returns the base or the target: the target, if the
journal had become durable. A recovery has found in each of the two files one of the sides of its
journal. -/
theorem commit_atomic (C : PairChecks) :
    (∀ {call : CommitCall} {d₀ d d' : PairDirectory} {base target : DurablePair}
      {ops : List PairOp} (k : ℕ), d₀.Settled → FilesOrdered (shown d₀) → target.Ordered →
      call.Honest C d₀ base target → C.commitLocked call d₀ base target = .ok ops →
      Directory.Crashed (d₀.run (ops.take k)) d → C.Attempts d d' →
      ∃ d'' pair, C.load d' = .ok (d'', pair) ∧ (pair = base ∨ pair = target) ∧
        (C.JournalDurable base target (ops.take k) d → pair = target)) ∧
    ∀ {files : PairName → Option PairFile} {ops : List PairOp}, FilesOrdered files →
      C.recover files = .ok ops → ops ≠ [] → ∃ j base target, files .journal = some (some j) ∧
        C.readJournal j = .ok (base, target) ∧
        IsSide base (C.memoryFile base) (C.memoryFile target) base.memory (files .memory) ∧
        IsSide base (C.changelogFile base) (C.changelogFile target) base.changelog
          (files .changelog) := by
  constructor
  · intro call d₀ d d' base target ops k hd hfiles htarget hcall hcommit hcrash hattempts
    rcases commit_leads k hd hfiles htarget hcall hcommit hcrash with
      ⟨hleads, hdurable⟩ | hleads
    · obtain ⟨hsettled, hleads⟩ := hattempts.leads hcrash.settled hleads
      obtain ⟨d'', hload⟩ := hleads.load hsettled
      exact ⟨d'', base, hload, .inl rfl, fun h => absurd h hdurable⟩
    · obtain ⟨hsettled, hleads⟩ := hattempts.leads hcrash.settled hleads
      obtain ⟨d'', hload⟩ := hleads.load hsettled
      exact ⟨d'', target, hload, .inr rfl, fun _ => rfl⟩
  · intro files ops hfiles hops hne
    rcases recover_cases hfiles hops with ⟨-, hnil⟩ | ⟨base, target, hpending⟩
    · exact absurd hnil hne
    · obtain ⟨j, hjournal, hread⟩ := hpending.journal
      exact ⟨j, base, target, hjournal, hread, hpending.memory, hpending.changelog⟩

/-! ## The first commit of a store -/

/-- SHA-256 on the documents of a first commit that writes an empty store. -/
def firstDigest (v : Value) : String :=
  if v = DurablePair.empty.memory then
    "1b16c39f0a84423c3e2d73168671f4ba6dfcc3486365783732edec18ceaeeccd"
  else if v = .arr [] then
    "4f53cda18c2baa0c0354bb5f9a3ecbe5ed12ab4d8e11ba873c2f11161202b945"
  else if memberOf v "generation" = Value.int 0 then
    "b224583ef89a0cf24a0a811efcd66ac473dcd5dc5a9c5ce283dba070bb8a408f"
  else
    "dbd2226ca7918427430717f4f1650d781ce234f8a6883eaeb27b75a0e9b95a3d"

/-- The checks of that commit. -/
def firstChecks : PairChecks where
  sha256 := firstDigest
  sha256_digest v := by
    unfold firstDigest
    split_ifs <;> decide
  validateSyncState _ := .ok ()
  validateSemantics _ := .ok ()
  empty_semantics := rfl

/-- The pair that the commit writes. -/
def firstPair : DurablePair :=
  { DurablePair.empty with
    generation := 1
    transactionId := "5f0c1b00000000000000000000000000" }

/-- A store without files. -/
def noFiles : PairDirectory := fun _ => .settled none

/-- The files after a crash that has lost the new memory file and kept the journal. -/
def lostMemory : PairDirectory
  | .journal => .settled (some (some (firstChecks.journalFile .empty firstPair)))
  | _ => .settled none

/-- The commit, cut short when the memory file has been replaced, is followed by a load of its
target. -/
theorem firstPair_atomic :
    (∃ d, firstChecks.load lostMemory = .ok (d, firstPair)) ∧
      ∃ j base target, shown lostMemory .journal = some (some j) ∧
        firstChecks.readJournal j = .ok (base, target) := by
  have hcommit : firstChecks.commitLocked ⟨false, none, false⟩ noFiles .empty firstPair =
      .ok ([.replace .journal (some (firstChecks.journalFile .empty firstPair)), .sync] ++
        finishOps (firstChecks.memoryFile firstPair) (firstChecks.changelogFile firstPair)) := rfl
  have hcall : CommitCall.Honest firstChecks ⟨false, none, false⟩ noFiles .empty firstPair :=
    ⟨fun h => absurd h (by decide), fun h => absurd h (by decide), fun h => absurd h (by decide)⟩
  have hcrash : Directory.Crashed (noFiles.run (List.take 3
      ([.replace .journal (some (firstChecks.journalFile .empty firstPair)), .sync] ++
        finishOps (firstChecks.memoryFile firstPair) (firstChecks.changelogFile firstPair))))
      lostMemory := by
    intro name
    cases name with
    | memory => exact ⟨none, List.mem_cons_of_mem _ List.mem_cons_self, rfl⟩
    | changelog => exact ⟨none, List.mem_cons_self, rfl⟩
    | journal => exact ⟨_, List.mem_cons_self, rfl⟩
  have hordered : FilesOrdered (shown noFiles) := fun _ _ h => by cases h
  have hlost : FilesOrdered (shown lostMemory) := by
    intro name v h
    cases name with
    | memory => cases h
    | changelog => cases h
    | journal =>
      rw [← Option.some.inj (Option.some.inj h)]
      decide
  obtain ⟨d, pair, hload, -, htarget⟩ := (commit_atomic firstChecks).1 3 (fun _ => rfl) hordered
    (by decide) hcall hcommit hcrash (.none _)
  have hdurable : pair = firstPair := htarget (.inl ⟨_, ⟨[], _, rfl⟩⟩)
  have hreload : (if false then .ok [] else firstChecks.reload noFiles .empty) = .ok [] := rfl
  have hc := (commitLocked_ok (by decide) (by decide) rfl hcall hreload hcommit).1
  have habsent : ∀ b t p, IsSide .empty b t p none :=
    fun _ _ _ => .inr (.inr (.inr ⟨rfl, rfl, rfl⟩))
  have hpending : firstChecks.Pending .empty firstPair (shown lostMemory) :=
    ⟨⟨_, rfl, readJournal_journalFile hc⟩, hc, habsent _ _ _, habsent _ _ _⟩
  obtain ⟨j, base, target, hj, hread, -⟩ :=
    (commit_atomic firstChecks).2 hlost hpending.recover (List.cons_ne_nil _ _)
  exact ⟨⟨d, hdurable ▸ hload⟩, j, base, target, hj, hread⟩

end PairChecks

end Memplex.Durability
