import Memplex.Premises.Durable

/-!
# What a pass over premises keeps

A pass asks no more questions than it may, and stamps a node only after a yes to a newer one of its
topic. What it returns counts the stamps, not the nodes: a node that several newer ones supersede is
stamped once for each of them. What it stamps on nodes is in the files, where the store has taken
each node as what it is; the marks on paragraphs are made after the commit and are in no file until
something else is committed. `StampHolds` is when a stamp does none of this.
-/

namespace Memplex

open Lib

/-! ## The claim -/

/-- A store shows a node as superseded. -/
def LiteMemory.Shows (m : LiteMemory) : PremiseNode → Prop
  | .function f => ∃ g, m.functions.get? f.id = some g ∧ g.superseded = true
  | .fact f => ∃ g, m.facts.get? f.id = some g ∧ g.superseded = true
  | .preference p => ∃ g, m.preferences.get? p.id = some g ∧ g.superseded = true

/-- A store shows a paragraph as superseded. -/
def LiteMemory.ShowsParagraph (m : LiteMemory) (ref : String) : Prop :=
  ∃ row, m.paragraphs.get? ref = some row ∧ (row.2.getD supersededKey .null).truthy = true

theorem LiteMemory.Supersedes.shows {m : LiteMemory} {node : PremiseNode} (h : m.Supersedes node) :
    m.Shows node := by
  cases node with
  | function f => exact h.imp fun _ hg => ⟨hg.1, hg.2.superseded⟩
  | fact f => exact h.imp fun _ hg => ⟨hg.1, hg.2.superseded⟩
  | preference p => exact h.imp fun _ hg => ⟨hg.1, hg.2.superseded⟩

namespace PremiseEnv

variable (E : PremiseEnv)

/-- A node among candidates is strictly older than one of its topic for which the model, asked at
most `asked` times, has said yes. -/
def Superseded (nodes : List PremiseNode) (asked : ℕ) (place : ℕ) : Prop :=
  ∃ older newer, nodes[place]? = some older ∧ newer ∈ nodes ∧
    E.timestampOf older < E.timestampOf newer ∧ E.sameTopic newer older = true ∧
    ∃ n < asked,
      E.saysYes (E.answer n (pairPrompt (E.nodeText older) (E.nodeText newer))) = true

/-- A pass that is bounded, goes from newer nodes to older ones, and is durable. -/
structure Resolved (maxPairs : ℤ) (before s : PremisePass) : Prop where
  /-- The model was asked at most `maxPairs` times. -/
  bounded : (s.questions.length : ℤ) ≤ max maxPairs 0
  /-- What was stamped is superseded. -/
  directed : ∀ place ∈ s.places, E.Superseded before.nodes s.questions.length place
  /-- The nodes that were stamped are counted. -/
  counted : s.stamped = s.places.dedup.length
  /-- A store that is loaded from the files has the stamps of the nodes. -/
  nodes : ∀ place ∈ s.places, ∀ node, before.nodes[place]? = some node →
    ∀ now opened, openStore E.writer.env now s.disk.files = .ok opened → opened.Shows node
  /-- It has the marks of the paragraphs. -/
  paragraphs : ∀ ref ∈ s.marked, ∀ now opened,
    openStore E.writer.env now s.disk.files = .ok opened → opened.ShowsParagraph ref

/-- A pair that leads to a stamp finds the older node without one, the store takes that node as what
it is, and has none of the paragraphs that it came from. -/
def StampHolds (maxPairs : ℤ) (s : PremisePass) (pair : ℕ × ℕ) : Prop :=
  ∀ q, E.question maxPairs s pair = some q → E.saysYes q.answer = true →
    q.place ∉ s.places ∧
    ∃ out, E.store (s.stamped + 1) s.inst s.disk
        (q.older.supersede (E.stampedAt (s.stamped + 1)).isoformat) = .ok out ∧
      ∀ ref ∈ q.older.base.sourceParagraphs.filterMap asString,
        out.1.memory.paragraphs.contains ref = false

/-- Every stamp of a pass is such a one. -/
def StampsHold (maxPairs : ℤ) (inst : LiteInstance) (disk : LiteDisk) : Prop :=
  ∀ front pair back, placePairs (E.start inst disk).nodes.length = front ++ pair :: back →
    E.StampHolds maxPairs (front.foldl (E.checkPair maxPairs) (E.start inst disk)) pair

end PremiseEnv

/-! ## Copies -/

namespace PremiseNode

theorem base_supersede (node : PremiseNode) (stamp : String) :
    (node.supersede stamp).base = node.base.supersede stamp := by
  cases node <;> rfl

end PremiseNode

/-- A pass after a question. -/
def PremisePass.ask (s : PremisePass) (q : PremiseQuestion) : PremisePass :=
  { s with checked := s.checked + 1, questions := s.questions ++ [q] }

namespace PremiseEnv

variable {E : PremiseEnv}

/-- Two copies of one node, of which a pass reads the same. -/
structure Alike (E : PremiseEnv) (a b : PremiseNode) : Prop where
  timestampOf : E.timestampOf a = E.timestampOf b
  nodeText : E.nodeText a = E.nodeText b
  shows : ∀ m : LiteMemory, m.Shows a ↔ m.Shows b

theorem Alike.refl (a : PremiseNode) : E.Alike a a := ⟨rfl, rfl, fun _ => Iff.rfl⟩

theorem Alike.trans {a b c : PremiseNode} (h : E.Alike a b) (h' : E.Alike b c) : E.Alike a c :=
  ⟨h.timestampOf.trans h'.timestampOf, h.nodeText.trans h'.nodeText,
    fun m => (h.shows m).trans (h'.shows m)⟩

/-- A stamp changes nothing of what a pass reads. -/
theorem alike_supersede (node : PremiseNode) (stamp : String) :
    E.Alike (node.supersede stamp) node := by
  refine ⟨?_, ?_, fun m => ?_⟩
  · unfold PremiseEnv.timestampOf
    rw [node.base_supersede]
    rfl
  · unfold PremiseEnv.nodeText
    rw [node.base_supersede, E.reprHead_supersede]
    rfl
  · cases node <;> exact Iff.rfl

theorem Alike.sameTopic {a a' b b' : PremiseNode} (ha : E.Alike a a') (hb : E.Alike b b') :
    E.sameTopic a b = E.sameTopic a' b' := by
  unfold PremiseEnv.sameTopic words
  rw [ha.nodeText, hb.nodeText]

/-! ## One pair -/

/-- What every pass keeps, whatever it is answered. -/
structure Kept (E : PremiseEnv) (maxPairs : ℤ) (before s : PremisePass) : Prop where
  length : s.nodes.length = before.nodes.length
  alike : ∀ (i : ℕ) (node : PremiseNode), s.nodes[i]? = some node →
    ∃ node₀, before.nodes[i]? = some node₀ ∧ E.Alike node node₀
  checked : s.checked = s.questions.length
  bounded : (s.questions.length : ℤ) ≤ max maxPairs 0
  stamped : s.stamped = s.places.length
  directed : ∀ place ∈ s.places, E.Superseded before.nodes s.questions.length place

/-- A question that is asked is about two nodes in their order of age and of one topic. -/
theorem question_some {maxPairs : ℤ} {s : PremisePass} {pair : ℕ × ℕ} {q : PremiseQuestion}
    (h : E.question maxPairs s pair = some q) :
    q.place = pair.2 ∧ s.nodes[pair.1]? = some q.newer ∧ s.nodes[q.place]? = some q.older ∧
      (s.checked : ℤ) < maxPairs ∧ E.timestampOf q.older < E.timestampOf q.newer ∧
      E.sameTopic q.newer q.older = true ∧
      q.answer = E.answer s.checked (pairPrompt (E.nodeText q.older) (E.nodeText q.newer)) := by
  unfold question at h
  split at h
  · rename_i newer older hnewer holder
    split_ifs at h with hspent hage htopic
    obtain rfl := Option.some.inj h
    exact ⟨rfl, hnewer, holder, not_le.mp hspent, not_le.mp hage, by simpa using htopic, rfl⟩
  · cases h

/-- A node that is superseded stays so when more is asked. -/
theorem Superseded.mono {nodes : List PremiseNode} {asked asked' place : ℕ}
    (h : E.Superseded nodes asked place) (hle : asked ≤ asked') :
    E.Superseded nodes asked' place := by
  obtain ⟨older, newer, holder, hnewer, hage, htopic, n, hn, hyes⟩ := h
  exact ⟨older, newer, holder, hnewer, hage, htopic, n, hn.trans_le hle, hyes⟩

variable {maxPairs : ℤ} {before s : PremisePass} {pair : ℕ × ℕ} {q : PremiseQuestion}

theorem Kept.ask (h : E.Kept maxPairs before s) (hq : E.question maxPairs s pair = some q) :
    E.Kept maxPairs before (s.ask q) := by
  obtain ⟨-, -, -, hspent, -, -, -⟩ := question_some hq
  have hlength : (s.ask q).questions.length = s.questions.length + 1 := List.length_append
  have hchecked := h.checked
  refine ⟨h.length, h.alike, ?_, ?_, h.stamped, fun place hplace => ?_⟩
  · rw [hlength, ← hchecked]
    rfl
  · rw [hlength]
    push_cast
    omega
  · exact (h.directed place hplace).mono (by omega)

/-- A yes supersedes the older node of the question. -/
theorem Kept.superseded (h : E.Kept maxPairs before s) (hq : E.question maxPairs s pair = some q)
    (hyes : E.saysYes q.answer = true) :
    E.Superseded before.nodes (s.questions.length + 1) q.place := by
  obtain ⟨-, hnewer, holder, -, hage, htopic, hanswer⟩ := question_some hq
  obtain ⟨newer, hnewer₀, hn⟩ := h.alike _ _ hnewer
  obtain ⟨older, holder₀, ho⟩ := h.alike _ _ holder
  refine ⟨older, newer, holder₀, List.mem_of_getElem? hnewer₀, ?_, ?_, s.checked, ?_, ?_⟩
  · rw [← ho.timestampOf, ← hn.timestampOf]
    exact hage
  · rw [← hn.sameTopic ho]
    exact htopic
  · have hchecked := h.checked
    omega
  · rw [← ho.nodeText, ← hn.nodeText, ← hanswer]
    exact hyes

theorem Kept.stamp (h : E.Kept maxPairs before s) {place : ℕ} {older : PremiseNode}
    (holder : s.nodes[place]? = some older)
    (hsuperseded : E.Superseded before.nodes s.questions.length place) :
    E.Kept maxPairs before (E.stamp place older s) := by
  refine ⟨List.length_set.trans h.length, fun i node hnode => ?_, h.checked, h.bounded, ?_, ?_⟩
  · by_cases hplace : place = i
    · subst hplace
      have hlt := (List.getElem?_eq_some_iff.mp holder).1
      obtain ⟨older₀, holder₀, halike⟩ := h.alike place older holder
      change (s.nodes.set place _)[place]? = some node at hnode
      rw [List.getElem?_set_self hlt] at hnode
      rw [← Option.some.inj hnode]
      exact ⟨older₀, holder₀, (alike_supersede older _).trans halike⟩
    · change (s.nodes.set place _)[i]? = some node at hnode
      rw [List.getElem?_set_ne hplace] at hnode
      exact h.alike i node hnode
  · show s.stamped + 1 = (s.places ++ [place]).length
    rw [List.length_append, h.stamped]
    rfl
  · intro other hother
    rcases List.mem_append.mp hother with hother | hother
    · exact h.directed other hother
    · rw [List.mem_singleton.mp hother]
      exact hsuperseded

theorem Kept.checkPair (h : E.Kept maxPairs before s) (pair : ℕ × ℕ) :
    E.Kept maxPairs before (E.checkPair maxPairs s pair) := by
  unfold PremiseEnv.checkPair
  cases hq : E.question maxPairs s pair with
  | none => exact h
  | some q =>
    have hasked := h.ask hq
    dsimp only
    split_ifs with hyes
    · refine hasked.stamp (question_some hq).2.2.1 ?_
      rw [PremisePass.ask, List.length_append]
      exact h.superseded hq hyes
    · exact hasked

/-! ## One stamp -/

/-- The copies that were stamped. -/
def stampedNodes (s : PremisePass) : List PremiseNode := s.places.filterMap fun i => s.nodes[i]?

/-- What a pass keeps as long as every stamp holds. -/
structure Lasting (E : PremiseEnv) (s : PremisePass) : Prop where
  nodup : s.places.Nodup
  marked : s.marked = []
  holding : s.inst.Holding E.writer.env s.disk (stampedNodes s)

/-- Paragraphs that a store does not have are not marked. -/
theorem markParagraphs_absent {m : LiteMemory} {stamp : String} {refs : List String}
    (h : ∀ ref ∈ refs, m.paragraphs.contains ref = false) :
    refs.foldl (LiteMemory.markParagraph stamp) m = m := by
  induction refs with
  | nil => rfl
  | cons ref refs ih =>
    obtain ⟨hfirst, hrest⟩ := List.forall_mem_cons.mp h
    have hnone : m.paragraphs.get? ref = none := by
      rw [Table.contains] at hfirst
      exact Option.isNone_iff_eq_none.mp (by simpa using hfirst)
    have hsame : m.markParagraph stamp ref = m := by
      unfold LiteMemory.markParagraph
      rw [hnone]
    rw [List.foldl_cons, hsame]
    exact ih hrest

/-- The copies that were stamped, after one more. -/
theorem mem_stampedNodes_stamp {place : ℕ} {older node : PremiseNode}
    (holder : s.nodes[place]? = some older) (hnew : place ∉ s.places)
    (hnode : node ∈ stampedNodes (E.stamp place older s)) :
    node ∈ older.supersede (E.stampedAt (s.stamped + 1)).isoformat :: stampedNodes s := by
  have hlt := (List.getElem?_eq_some_iff.mp holder).1
  obtain ⟨i, hi, hget⟩ := List.mem_filterMap.mp hnode
  change (s.nodes.set place _)[i]? = some node at hget
  rcases List.mem_append.mp hi with hi | hi
  · have hne : place ≠ i := fun he => hnew (he ▸ hi)
    rw [List.getElem?_set_ne hne] at hget
    exact List.mem_cons_of_mem _ (List.mem_filterMap.mpr ⟨i, hi, hget⟩)
  · rw [List.mem_singleton.mp hi, List.getElem?_set_self hlt] at hget
    exact List.mem_cons.mpr (.inl (Option.some.inj hget).symm)

/-- A stamp that holds is kept with the others. -/
theorem Lasting.stamp (h : E.Lasting s) {place : ℕ} {older : PremiseNode}
    (holder : s.nodes[place]? = some older) (hnew : place ∉ s.places)
    {out : LiteInstance × LiteDisk}
    (hstore : E.store (s.stamped + 1) s.inst s.disk
      (older.supersede (E.stampedAt (s.stamped + 1)).isoformat) = .ok out)
    (habsent : ∀ ref ∈ older.base.sourceParagraphs.filterMap asString,
      out.1.memory.paragraphs.contains ref = false) : E.Lasting (E.stamp place older s) := by
  have hpersist : E.persist (s.stamped + 1) s.inst s.disk
      (older.supersede (E.stampedAt (s.stamped + 1)).isoformat) = out := by
    unfold persist
    rw [hstore]
  have hrefs : (older.supersede (E.stampedAt (s.stamped + 1)).isoformat).base.sourceParagraphs =
      older.base.sourceParagraphs := by
    rw [PremiseNode.base_supersede]
    rfl
  have hstamped : (older.supersede (E.stampedAt (s.stamped + 1)).isoformat).base.Stamped := by
    rw [PremiseNode.base_supersede]
    exact older.base.supersede_stamped (Timestamp.isoformat_ne _)
  have hholding := store_holding h.holding hstamped hstore
  have hinst : (E.stamp place older s).inst = out.1 := by
    unfold PremiseEnv.stamp
    simp only [hpersist, hrefs]
    rw [markParagraphs_absent habsent]
  have hdisk : (E.stamp place older s).disk = out.2 := by
    unfold PremiseEnv.stamp
    simp only [hpersist]
  have hmarked : (E.stamp place older s).marked = s.marked := by
    unfold PremiseEnv.stamp
    simp only [hpersist, hrefs]
    rw [List.filter_eq_nil_iff.mpr fun ref href => by rw [habsent ref href]; exact Bool.noConfusion,
      List.append_nil]
  refine ⟨?_, hmarked.trans h.marked, ?_⟩
  · show (s.places ++ [place]).Nodup
    exact List.nodup_append.mpr ⟨h.nodup, List.nodup_singleton _, fun a ha b hb hab =>
      hnew (List.mem_singleton.mp hb ▸ hab ▸ ha)⟩
  · rw [hinst, hdisk]
    exact hholding.mono fun node hnode => mem_stampedNodes_stamp holder hnew hnode

theorem Lasting.checkPair (h : E.Lasting s) (hholds : E.StampHolds maxPairs s pair) :
    E.Lasting (E.checkPair maxPairs s pair) := by
  unfold PremiseEnv.checkPair
  cases hq : E.question maxPairs s pair with
  | none => exact h
  | some q =>
    have hasked : E.Lasting (s.ask q) := ⟨h.nodup, h.marked, h.holding⟩
    dsimp only
    split_ifs with hyes
    · obtain ⟨hnew, out, hstore, habsent⟩ := hholds q hq hyes
      exact hasked.stamp (question_some hq).2.2.1 hnew hstore habsent
    · exact hasked

/-! ## The whole pass -/

variable {inst : LiteInstance} {disk : LiteDisk}

theorem Kept.start : E.Kept maxPairs (E.start inst disk) (E.start inst disk) :=
  ⟨rfl, fun _ node hnode => ⟨node, hnode, .refl node⟩, rfl, le_max_right _ _, rfl,
    fun _ hplace => (List.not_mem_nil hplace).elim⟩

theorem Lasting.start : E.Lasting (E.start inst disk) :=
  ⟨List.nodup_nil, rfl, fun _ _ hnode => (List.not_mem_nil hnode).elim,
    fun _ hnode => (List.not_mem_nil hnode).elim, fun hne => absurd rfl hne⟩

/-- A pass keeps what every one keeps. -/
theorem kept_resolvePremises (maxPairs : ℤ) (inst : LiteInstance) (disk : LiteDisk) :
    E.Kept maxPairs (E.start inst disk) (E.resolvePremises maxPairs inst disk) := by
  have hrun : ∀ (pairs : List (ℕ × ℕ)) (s : PremisePass), E.Kept maxPairs (E.start inst disk) s →
      E.Kept maxPairs (E.start inst disk) (pairs.foldl (E.checkPair maxPairs) s) := by
    intro pairs
    induction pairs with
    | nil => exact fun _ h => h
    | cons pair pairs ih => exact fun s h => ih _ (h.checkPair pair)
  exact hrun _ _ .start

/-- A pass whose stamps hold keeps them. -/
theorem lasting_resolvePremises (h : E.StampsHold maxPairs inst disk) :
    E.Lasting (E.resolvePremises maxPairs inst disk) := by
  have hrun : ∀ front back, placePairs (E.start inst disk).nodes.length = front ++ back →
      E.Lasting (front.foldl (E.checkPair maxPairs) (E.start inst disk)) := by
    intro front
    induction front using List.reverseRecOn with
    | nil => exact fun _ _ => .start
    | append_singleton front pair ih =>
      intro back hsplit
      rw [List.append_assoc, List.singleton_append] at hsplit
      rw [List.foldl_append, List.foldl_cons, List.foldl_nil]
      exact (ih _ hsplit).checkPair (h front pair back hsplit)
  exact hrun _ [] (List.append_nil _).symm

end PremiseEnv

/-- A fact that was told on a day of a month. -/
def toldFact (id name day : String) : Fact where
  id := id
  memoryType := .str "fact"
  name := .str name
  domain := .null
  confidence := .int 1
  sourceType := .known .wiki
  owner := .null
  tenantId := .null
  ownerSubjectId := .null
  workspaceId := .null
  visibility := .null
  provenance := []
  version := .int 1
  createdAt := .str day
  updatedAt := .str day
  originSession := .null
  accessCount := .int 0
  lastAccessedAt := .null
  sourceParagraphs := []
  needsReview := .bool false
  needsReviewUntil := .null
  contentHash := .null
  namespace_ := []
  knowledgeTier := .null
  trustTier := 3
  subject := .str "office"
  predicate := .str "is in"
  object_ := .str name
  validUntil := .null
  validFrom := .null
  invalidAt := .null

/-- A model that says yes to everything. -/
def yesEnv : PremiseEnv where
  writer := { graphWriter with format := textOf }
  split := fun s => (s.toList.splitOn ' ').map String.ofList
  upper := id
  reprHead := fun _ => ""
  reprHead_supersede := fun _ _ => rfl
  answer := fun _ _ => .ok "YES"
  stampedAt := fun _ => graphTime
  markedAt := fun _ => graphTime
  run := fun n => (⟨graphTime, fun _ => (graphTime, ""), false, .ok (n + 1)⟩, graphMoment)
  retry := fun n => (⟨graphTime, fun _ => (graphTime, ""), false, .ok (n + 1)⟩, graphMoment)
  misfile := fun _ _ out => out

/-- A store of some facts, as it was committed. -/
def toldMemory (facts : List Fact) : LiteMemory :=
  graphStart.setBusiness { graphStart.store.business with
    facts := facts.foldl Table.set .empty }

/-- An instance of such a store. -/
def toldInstance (facts : List Fact) : LiteInstance := ⟨toldMemory facts, true, some 0⟩

/-- The files of such a store. -/
def toldDisk (facts : List Fact) : LiteDisk := ⟨(toldMemory facts).rawPair, 0⟩

/-- The newest fact and an older one. -/
def twoFacts : List Fact :=
  [toldFact "a" "office rome" "2026-01-03", toldFact "b" "office bonn" "2026-01-02"]

/-- One more, that both are newer than. -/
def threeFacts : List Fact := twoFacts ++ [toldFact "c" "office oslo" "2026-01-01"]

/-- Facts that are listed from the newest to the oldest are asked about in their order. -/
theorem start_told {facts listed : List Fact}
    (hlisted : ((yesEnv.listNodes (toldInstance facts) (toldDisk facts)).2.filter
      fun node => !node.base.superseded) = listed.map PremiseNode.fact)
    (hsorted : (listed.map PremiseNode.fact).Pairwise
      fun a b => yesEnv.timestampOf b ≤ yesEnv.timestampOf a) :
    yesEnv.start (toldInstance facts) (toldDisk facts) =
      ⟨listed.map PremiseNode.fact, toldInstance facts, toldDisk facts, 0, 0, [], [], []⟩ := by
  have hnodes : (listed.map PremiseNode.fact).mergeSort (fun a b => decide
      (yesEnv.timestampOf b ≤ yesEnv.timestampOf a)) = listed.map PremiseNode.fact :=
    List.mergeSort_of_pairwise (hsorted.imp fun h => decide_eq_true h)
  unfold PremiseEnv.start
  rw [hlisted, hnodes]
  rfl

theorem threeFacts_stamped :
    (yesEnv.resolvePremises 32 (toldInstance threeFacts) (toldDisk threeFacts)).places =
      [1, 2, 2] := by
  have hstart : yesEnv.start (toldInstance threeFacts) (toldDisk threeFacts) =
      ⟨threeFacts.map PremiseNode.fact, toldInstance threeFacts, toldDisk threeFacts,
        0, 0, [], [], []⟩ := by
    refine start_told rfl ?_
    decide +kernel
  unfold PremiseEnv.resolvePremises
  rw [hstart]
  decide +kernel

end Memplex
