import Memplex.Lite.Writes
import Memplex.Sync.Converge

/-!
# Writes among principals

A store holds the memories of several principals, and a write should leave those of the others as
they are. What it touches is found without them: a fact and a preference by their ids, which are
digests of the text, and a function by its normalized name, and by its id where the name is new.
`Strikes` says which record that is, and `write_keeps_iff` that a record of another identity keeps
its content, its visibility, its namespace and its identity exactly if the write does not strike it.
A merge that brings nothing (`Covers`) strikes nothing.
-/

namespace Memplex

open Lib

/-! ## Records and whom they belong to -/

/-- The identity that is bound to a memory. -/
structure Identity where
  tenantId : Value
  ownerSubjectId : Value
  owner : Value
  workspaceId : Value
  originSession : Value
  sessionId : Value
  agentId : Value
deriving DecidableEq

/-- The identity of a node. -/
def MemoryNode.identity (n : MemoryNode) : Identity :=
  ⟨n.tenantId, n.ownerSubjectId, n.owner, n.workspaceId, n.originSession,
    n.provenance.getStr "session_id", n.provenance.getStr "agent_id"⟩

/-- The identity of a paragraph, which has its agent and its session in the namespace. -/
def rowIdentity (row : Members) : Identity :=
  let ns := match row.getD "namespace" (.obj []) with
    | .obj members => members
    | _ => []
  ⟨row.getD "tenant_id" .null, row.getD "owner_subject_id" .null, row.getD "owner" .null,
    row.getD "workspace_id" .null, row.getD "origin_session" .null,
    Members.getD ns "memplex_source_session_id" .null,
    Members.getD ns "memplex_source_agent" .null⟩

/-- A node but for the count and the time of its writes. -/
def MemoryNode.unstamped (n : MemoryNode) : MemoryNode :=
  { n with version := .null, updatedAt := .null }

namespace NodeRecord

/-- The identity of a record. -/
def identity : NodeRecord → Identity
  | function f => f.toMemoryNode.identity
  | fact f => f.toMemoryNode.identity
  | preference p => p.toMemoryNode.identity
  | observation o => o.toMemoryNode.identity
  | paragraph _ row => rowIdentity row

/-- A record but for the count and the time of its writes: its content, its visibility, its
namespace and its identity. -/
def unstamped : NodeRecord → NodeRecord
  | function f => function { f with toMemoryNode := f.toMemoryNode.unstamped }
  | fact f => fact { f with toMemoryNode := f.toMemoryNode.unstamped }
  | preference p => preference { p with toMemoryNode := p.toMemoryNode.unstamped }
  | observation o => observation { o with toMemoryNode := o.toMemoryNode.unstamped }
  | paragraph id row => paragraph id row

theorem identity_unstamped (r : NodeRecord) : r.unstamped.identity = r.identity := by
  cases r <;> rfl

end NodeRecord

/-- A write of one record. -/
inductive MemoryWrite where
  | function (func : Function) (source : SourceDocument)
  | fact (fact : Fact)
  | preference (preference : Preference)

/-- The record that is written. -/
def MemoryWrite.record : MemoryWrite → NodeRecord
  | function func _ => .function func
  | fact f => .fact f
  | preference p => .preference p

/-! ## What a write strikes -/

/-- A field takes nothing from a merge: it is full, or every value that comes is described there
already. -/
def FieldCovered (existing incoming : List FieldValue) : Prop :=
  existing.length = maxValuesPerField ∨ (existing.length < maxValuesPerField ∧
    ∀ fv ∈ incoming, fv.desc ∈ existing.map FieldValue.desc)

/-- A function that brings nothing to a merge. -/
structure Covers (existing func : Function) : Prop where
  trigger : FieldCovered existing.trigger func.trigger
  condition : FieldCovered existing.condition func.condition
  action : FieldCovered existing.action func.action
  benefit : FieldCovered existing.benefit func.benefit
  paragraphs : ∀ p ∈ func.sourceParagraphs, p ∈ existing.sourceParagraphs
  tier : func.knowledgeTier = .null ∨ func.knowledgeTier = existing.knowledgeTier
  visibility : func.visibility = .null ∨ func.visibility = existing.visibility
  provenance : existing.provenance.update func.provenance = existing.provenance
  namespace_ : existing.namespace_.update func.namespace_ = existing.namespace_

namespace LiteWriter

variable (W : LiteWriter) (moment : WriteMoment)

/-- One write. -/
def write (m : LiteMemory) : MemoryWrite → Except PyError LiteMemory
  | .function func source => W.add moment m func source
  | .fact fact => W.addFact moment m fact
  | .preference preference => W.addPreference moment m preference

/-- The store after a write outside a deferred commit: where it raises, the committed state is loaded
again. -/
def after (m : LiteMemory) (w : MemoryWrite) : LiteMemory :=
  ((W.write moment m w).toOption).getD m

/-- The resident function that a function is merged into. -/
def target (m : LiteMemory) (func : Function) : Option Function :=
  (functionNameKey W.env func).toOption.bind m.store.business.namesake

/-- The record that a write strikes: that of its id, or the function of its name unless the merge
brings nothing. -/
inductive Strikes (m : LiteMemory) : MemoryWrite → SyncNodeType → String → Prop where
  | fact (fact : Fact) : Strikes m (.fact fact) .fact fact.id
  | preference (preference : Preference) :
      Strikes m (.preference preference) .preference preference.id
  | insert {func : Function} {source : SourceDocument} (fresh : W.target m func = none) :
      Strikes m (.function func source) .function func.id
  | merge {func existing : Function} {source : SourceDocument}
      (resident : W.target m func = some existing) (brings : ¬ Covers existing func) :
      Strikes m (.function func source) .function existing.id

/-- The record that a write puts into the store. -/
inductive Puts (m : LiteMemory) : MemoryWrite → NodeRecord → Prop where
  | fact (fact : Fact) : Puts m (.fact fact)
      (.fact { fact with toMemoryNode := fillTimes moment fact.toMemoryNode })
  | preference (preference : Preference) : Puts m (.preference preference)
      (.preference { preference with
        toMemoryNode := fillTimes moment preference.toMemoryNode })
  | insert {func : Function} {source : SourceDocument} (fresh : W.target m func = none) :
      Puts m (.function func source) (.function func)
  | merge {func existing : Function} {source : SourceDocument}
      (resident : W.target m func = some existing) :
      Puts m (.function func source) (.function (existing.merge func moment.updatedAt))

end LiteWriter

/-! ## Merges -/

/-- A merge leaves a field as it is exactly if the field takes nothing from it. -/
theorem mergeFieldValues_eq_iff (existing incoming : List FieldValue) :
    mergeFieldValues existing incoming = existing ↔ FieldCovered existing incoming := by
  obtain ⟨more, heq, hmore⟩ := foldl_appendNew FieldValue.desc existing incoming
  rw [mergeFieldValues, heq, List.take_append, FieldCovered, ← hmore]
  rcases lt_trichotomy existing.length maxValuesPerField with hlt | hfull | hgt
  · -- There is room, so that anything new stays.
    rw [List.take_of_length_le hlt.le, List.append_right_eq_self, List.take_eq_nil_iff]
    have hroom : maxValuesPerField - existing.length ≠ 0 := Nat.sub_ne_zero_of_lt hlt
    constructor
    · rintro (h | h)
      · exact absurd h hroom
      · exact .inr ⟨hlt, h⟩
    · rintro (h | ⟨-, h⟩)
      · exact absurd h hlt.ne
      · exact .inr h
  · rw [List.take_of_length_le hfull.le, hfull, Nat.sub_self, List.take_zero, List.append_nil]
    exact iff_of_true rfl (.inl rfl)
  · refine iff_of_false (fun h => ?_) ?_
    · have hlen := congrArg List.length h
      rw [List.length_append, List.length_take, List.length_take] at hlen
      omega
    · rintro (h | ⟨h, -⟩)
      · exact absurd h hgt.ne'
      · exact absurd h hgt.not_gt

theorem foldl_appendNew_eq_iff (paragraphs incoming : List Value) :
    incoming.foldl (appendNew id) paragraphs = paragraphs ↔ ∀ p ∈ incoming, p ∈ paragraphs := by
  obtain ⟨more, heq, hmore⟩ := foldl_appendNew id paragraphs incoming
  rw [heq, List.append_right_eq_self, hmore, List.map_id]
  rfl

theorem orCurrent_eq_iff (value current : Value) :
    orCurrent value current = current ↔ value = .null ∨ value = current := by
  unfold orCurrent
  split_ifs with h
  · exact iff_of_true rfl (.inl h)
  · exact ⟨.inr, fun h' => h'.resolve_left h⟩

/-- A merge changes nothing but the stamp exactly if the incoming function brings nothing. -/
theorem merge_unstamped_iff (existing func : Function) (now : Timestamp) :
    (NodeRecord.function (existing.merge func now)).unstamped =
      (NodeRecord.function existing).unstamped ↔ Covers existing func := by
  constructor
  · intro h
    have hf := NodeRecord.function.inj h
    have hn := congrArg Function.toMemoryNode hf
    exact {
      trigger := (mergeFieldValues_eq_iff _ _).mp (congrArg Function.trigger hf)
      condition := (mergeFieldValues_eq_iff _ _).mp (congrArg Function.condition hf)
      action := (mergeFieldValues_eq_iff _ _).mp (congrArg Function.action hf)
      benefit := (mergeFieldValues_eq_iff _ _).mp (congrArg Function.benefit hf)
      paragraphs := (foldl_appendNew_eq_iff _ _).mp (congrArg MemoryNode.sourceParagraphs hn)
      tier := (orCurrent_eq_iff _ _).mp (congrArg MemoryNode.knowledgeTier hn)
      visibility := (orCurrent_eq_iff _ _).mp (congrArg MemoryNode.visibility hn)
      provenance := congrArg MemoryNode.provenance hn
      namespace_ := congrArg MemoryNode.namespace_ hn }
  · intro h
    rw [Function.merge, (mergeFieldValues_eq_iff _ _).mpr h.trigger,
      (mergeFieldValues_eq_iff _ _).mpr h.condition, (mergeFieldValues_eq_iff _ _).mpr h.action,
      (mergeFieldValues_eq_iff _ _).mpr h.benefit, (foldl_appendNew_eq_iff _ _).mpr h.paragraphs,
      (orCurrent_eq_iff _ _).mpr h.tier, (orCurrent_eq_iff _ _).mpr h.visibility, h.provenance,
      h.namespace_]
    rfl

/-! ## What a write does -/

namespace LiteWriter

variable {W : LiteWriter} {moment : WriteMoment} {m m' : LiteMemory}

theorem validateResidentGraph_ok (h : W.validateResidentGraph m = .ok m') :
    ∃ pending, m' = { m with pendingBelongsEdges := pending } := by
  unfold validateResidentGraph at h
  split_ifs at h
  · exact ⟨m.pendingBelongsEdges, (Except.ok.inj h).symm⟩
  · obtain ⟨_, -, heq⟩ := Except.bind_ok.mp h
    exact ⟨[], (Except.ok.inj heq).symm⟩

/-- The capture and the commit keep the resident records. -/
theorem commitSyncChanges_keeps {node : MemoryNode} {nodeType : SyncNodeType} {data : Members}
    (h : W.commitSyncChanges moment m node nodeType data = .ok m') {t : SyncNodeType} {id : String}
    {r : NodeRecord} (hr : m.store.business.record t id = some r) :
    m'.store.business.record t id = some r := by
  obtain ⟨sync, -, hcommit⟩ := Except.bind_ok.mp h
  exact W.commit_keeps hcommit hr

theorem indexResidentFunction_store (m : LiteMemory) (func : Function) :
    (m.indexResidentFunction func).store = m.store := rfl

theorem withFunction_record (m : LiteMemory) (func : Function)
    (nameIndex : Table (Prod.fst : String × String → String)) (event : ChangelogEvent)
    (t : SyncNodeType) (id : String) :
    (m.withFunction func nameIndex event).store.business.record t id =
      if NodeRecord.nodeType (.function func) = t ∧ NodeRecord.id (.function func) = id then
        some (.function func) else m.store.business.record t id := by
  cases t <;>
    simp [LiteMemory.withFunction, BusinessState.record, NodeRecord.nodeType, NodeRecord.id]
  split_ifs <;> rfl

/-- A write puts one record under its kind and id, and keeps every other. -/
theorem write_ok {w : MemoryWrite} (h : W.write moment m w = .ok m') :
    ∃ x, W.Puts moment m w x ∧ ∀ t id r,
      (if x.nodeType = t ∧ x.id = id then some x else m.store.business.record t id) = some r →
        m'.store.business.record t id = some r := by
  cases w with
  | function func source =>
    obtain ⟨m₁, hgraph, h⟩ := Except.bind_ok.mp h
    obtain ⟨pending, rfl⟩ := validateResidentGraph_ok hgraph
    obtain ⟨_, -, h⟩ := Except.bind_ok.mp h
    obtain ⟨_, -, h⟩ := Except.bind_ok.mp h
    obtain ⟨_, -, h⟩ := Except.bind_ok.mp h
    obtain ⟨norm, hnorm, h⟩ := Except.bind_ok.mp h
    have htarget : W.target m func = m.store.business.namesake norm := by
      rw [target, hnorm]
      rfl
    split at h
    next existing hexisting =>
      refine ⟨_, .merge (htarget.trans hexisting), fun t id r hr => ?_⟩
      refine commitSyncChanges_keeps h ?_
      rw [withFunction_record]
      exact hr
    next hnone =>
      obtain ⟨_, -, h⟩ := Except.bind_ok.mp h
      refine ⟨_, .insert (htarget.trans hnone), fun t id r hr => commitSyncChanges_keeps h ?_⟩
      rw [indexResidentFunction_store, withFunction_record]
      exact hr
  | fact fact =>
    obtain ⟨m₁, hgraph, h⟩ := Except.bind_ok.mp h
    obtain ⟨pending, rfl⟩ := validateResidentGraph_ok hgraph
    refine ⟨_, .fact fact, fun t id r hr => commitSyncChanges_keeps h ?_⟩
    have hput : m.store.business.put W.env (.fact { fact with
        toMemoryNode := fillTimes moment fact.toMemoryNode }) = .ok _ := rfl
    exact (BusinessState.record_put hput t id).trans hr
  | preference preference =>
    obtain ⟨m₁, hgraph, h⟩ := Except.bind_ok.mp h
    obtain ⟨pending, rfl⟩ := validateResidentGraph_ok hgraph
    refine ⟨_, .preference preference, fun t id r hr => commitSyncChanges_keeps h ?_⟩
    have hput : m.store.business.put W.env (.preference { preference with
        toMemoryNode := fillTimes moment preference.toMemoryNode }) = .ok _ := rfl
    exact (BusinessState.record_put hput t id).trans hr

/-- The target of a merge is resident under its id. -/
theorem target_record {func existing : Function} (h : W.target m func = some existing) :
    m.store.business.record .function existing.id = some (.function existing) := by
  obtain ⟨norm, -, hname⟩ := Option.bind_eq_some_iff.mp h
  obtain ⟨entry, -, hentry⟩ := Option.bind_eq_some_iff.mp hname
  split_ifs at hentry
  rw [BusinessState.record, Table.get?_key hentry, hentry]
  rfl

/-- A merge that strikes brings something. -/
theorem Strikes.brings {func existing : Function} {source : SourceDocument} {t : SyncNodeType}
    {id : String} (h : W.Strikes m (.function func source) t id)
    (resident : W.target m func = some existing) : ¬ Covers existing func := by
  cases h with
  | insert fresh => exact absurd (fresh.symm.trans resident) (by simp)
  | merge resident' brings =>
    cases Option.some.inj (resident.symm.trans resident')
    exact brings

/-- What a write puts is of its own identity, unless it is merged into what is there. -/
theorem Puts.struck {w : MemoryWrite} {x r : NodeRecord} (h : W.Puts moment m w x)
    (hr : m.store.business.record x.nodeType x.id = some r) (hident : w.record.identity ≠ r.identity) :
    x.unstamped = r.unstamped ↔ ¬ W.Strikes m w x.nodeType x.id := by
  -- Whatever is put as it came has another identity than the record in its place.
  have hother : x.identity = w.record.identity → x.unstamped ≠ r.unstamped := by
    intro hx hsame
    refine hident ?_
    calc w.record.identity = x.identity := hx.symm
      _ = x.unstamped.identity := (NodeRecord.identity_unstamped x).symm
      _ = r.unstamped.identity := by rw [hsame]
      _ = r.identity := NodeRecord.identity_unstamped r
  cases h with
  | fact fact => exact iff_of_false (hother rfl) (not_not.mpr (.fact fact))
  | preference preference =>
    exact iff_of_false (hother rfl) (not_not.mpr (.preference preference))
  | insert fresh => exact iff_of_false (hother rfl) (not_not.mpr (.insert fresh))
  | @merge func existing source resident =>
    have hresident : some (NodeRecord.function existing) = some r :=
      (target_record resident).symm.trans hr
    cases Option.some.inj hresident
    rw [merge_unstamped_iff]
    constructor
    · intro hcovers hstrikes
      exact hstrikes.brings resident hcovers
    · intro hstrikes
      by_contra hbrings
      have hmerge : W.Strikes m (.function func source) .function existing.id :=
        .merge resident hbrings
      exact hstrikes hmerge

/-- What a write strikes is under the kind and the id of what it puts. -/
theorem Strikes.puts {w : MemoryWrite} {x : NodeRecord} {t : SyncNodeType} {id : String}
    (h : W.Strikes m w t id) (hputs : W.Puts moment m w x) : x.nodeType = t ∧ x.id = id := by
  cases h with
  | fact f =>
    cases hputs
    exact ⟨rfl, rfl⟩
  | preference p =>
    cases hputs
    exact ⟨rfl, rfl⟩
  | insert fresh =>
    cases hputs with
    | insert fresh' => exact ⟨rfl, rfl⟩
    | merge resident => exact absurd (fresh.symm.trans resident) (by simp)
  | merge resident brings =>
    cases hputs with
    | insert fresh => exact absurd (fresh.symm.trans resident) (by simp)
    | merge resident' =>
      cases Option.some.inj (resident.symm.trans resident')
      exact ⟨rfl, rfl⟩

theorem Strikes.preference_id {p : Preference} {t : SyncNodeType} {id : String}
    (h : W.Strikes m (.preference p) t id) : p.id = id := by
  cases h
  rfl

/-- A record that is of another identity than what is written is there after the write, with its
content, its visibility, its namespace and its identity, exactly if the write does not strike it or
raises. -/
theorem write_keeps_iff (W : LiteWriter) (moment : WriteMoment) (m : LiteMemory) (w : MemoryWrite)
    {t : SyncNodeType} {id : String} {r : NodeRecord}
    (hr : m.store.business.record t id = some r) (hident : w.record.identity ≠ r.identity) :
    ((W.after moment m w).store.business.record t id).map NodeRecord.unstamped =
        some r.unstamped ↔
      ¬ (W.Strikes m w t id ∧ (W.write moment m w).toOption.isSome = true) := by
  rw [after]
  cases hw : W.write moment m w with
  | error e =>
    have hkept : (((Except.error e : Except PyError LiteMemory).toOption).getD m) = m := rfl
    rw [hkept, hr]
    exact iff_of_true rfl fun h => absurd h.2 (by simp [Except.toOption])
  | ok m' =>
    have hdone : (((Except.ok m' : Except PyError LiteMemory).toOption).getD m) = m' := rfl
    have hsome : (Except.ok m' : Except PyError LiteMemory).toOption.isSome = true := rfl
    rw [hdone, and_iff_left hsome]
    obtain ⟨x, hputs, hkeep⟩ := write_ok hw
    by_cases hx : x.nodeType = t ∧ x.id = id
    · obtain ⟨rfl, rfl⟩ := hx
      rw [hkeep _ _ x (if_pos ⟨rfl, rfl⟩), Option.map_some, Option.some_inj]
      exact hputs.struck hr hident
    · rw [hkeep t id r ((if_neg hx).trans hr), Option.map_some]
      exact iff_of_true rfl fun hstrikes => hx (hstrikes.puts hputs)

end LiteWriter

/-! ## Sample writes -/

/-- A writer that captures nothing. -/
def sampleWriter : LiteWriter where
  cfg := { sampleConfig "local" with captureRequired := false }
  env := sampleEnv
  format _ := ""
  commitCurrentState := .ok
  commit_keeps h _ _ _ hr := Except.ok.inj h ▸ hr

/-- One moment for all writes. -/
def sampleMoment : WriteMoment :=
  ⟨sampleFactB.version.occurredAt, sampleFactB.version.occurredAt, sampleFactB.version.occurredAt,
    sampleFactB.eventId⟩

/-- The digests of two texts. -/
def sampleDigest (text : String) : String :=
  if text = "I prefer tea" then "29ad9f2b93c41936f8a7c1719db878f92108f4ebbe0bef8ac2227b50f4dfdbb3"
  else if text = "I prefer coffee" then
    "09819189c42b288bde243fe8e9899a8069ef49f1d86161e4627af4d773b2ea20"
  else ""

/-- The preference that a user of the tenant `t` has written. -/
def samplePreference (user text : String) : Preference :=
  let p := buildPreferenceFromParagraph sampleEnv sampleDigest "2024-01-01T00:00:00+00:00" ⟨"para_001", "", text⟩
    ⟨"text", none, none, .wiki⟩
  { p with
    tenantId := .str "t", ownerSubjectId := .str user, owner := .str user
    visibility := .str "user" }

/-- A store with a preference of the user `ann`. -/
def sampleMemory : LiteMemory :=
  sampleWriter.after sampleMoment ⟨.empty, [], [], .empty, []⟩ (.preference (samplePreference "ann" "I prefer tea"))

/-- A function of a user, with a name and an id. -/
def sampleNamed (user functionId : String) : Function where
  toMemoryNode :=
    { (samplePreference user "").toMemoryNode with
      id := functionId, memoryType := .str "function", name := .str "deploy" }
  trigger := []
  condition := []
  action := []
  benefit := []
  nameNormalized := .str "deploy"
  attributes := []
  crossReferences := []
  priorityFromSource := .null
  sourceAuthority := .null

/-- The function of `ann`, which `bob` adds one of the same name to, for the whole workspace. -/
def sampleShared : Function :=
  { sampleNamed "bob" "func_b" with visibility := .str "workspace" }

/-- What `bob` writes takes the place of what `ann` has written: a preference with the same text,
and the visibility of a function with the same name. -/
theorem same_text_overwrites :
    ((sampleMemory.store.business.record .preference "pref_29ad9f2b93c41936").map
        NodeRecord.identity =
        some (NodeRecord.preference (samplePreference "ann" "I prefer tea")).identity ∧
      ((sampleWriter.after sampleMoment sampleMemory
        (.preference (samplePreference "bob" "I prefer tea"))).store.business.record .preference
          "pref_29ad9f2b93c41936").map NodeRecord.identity =
        some (NodeRecord.preference (samplePreference "bob" "I prefer tea")).identity) ∧
    (NodeRecord.function (sampleNamed "ann" "func_a")).identity ≠
        (NodeRecord.function sampleShared).identity ∧
      ((sampleWriter.after sampleMoment (sampleWriter.after sampleMoment sampleMemory
          (.function (sampleNamed "ann" "func_a") ⟨"text", none, none, .wiki⟩))
        (.function sampleShared ⟨"text", none, none, .wiki⟩)).store.business.functions.get?
          "func_a").map (fun f => (f.ownerSubjectId, f.visibility)) =
        some (.str "ann", .str "workspace") := by
  decide +kernel

/-- Another text leaves the preference as it is. -/
theorem other_text_keeps :
    ((sampleWriter.after sampleMoment sampleMemory
        (.preference (samplePreference "bob" "I prefer coffee"))).store.business.record .preference
          "pref_29ad9f2b93c41936").map NodeRecord.unstamped =
      some (NodeRecord.preference (samplePreference "ann" "I prefer tea")).unstamped := by
  have hr : sampleMemory.store.business.record .preference "pref_29ad9f2b93c41936" =
      some (.preference (samplePreference "ann" "I prefer tea")) := by decide +kernel
  have hident : (NodeRecord.preference (samplePreference "bob" "I prefer coffee")).identity ≠
      (NodeRecord.preference (samplePreference "ann" "I prefer tea")).identity := by decide +kernel
  have hid : (samplePreference "bob" "I prefer coffee").id ≠ "pref_29ad9f2b93c41936" := by
    decide +kernel
  refine (LiteWriter.write_keeps_iff sampleWriter sampleMoment sampleMemory
    (.preference (samplePreference "bob" "I prefer coffee")) hr hident).mpr ?_
  rintro ⟨hstrikes, -⟩
  exact hid hstrikes.preference_id

end Memplex
