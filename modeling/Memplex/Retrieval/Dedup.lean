import Memplex.Facts.Temporal
import Memplex.Lib.Collapse
import Memplex.Lib.Leaders
import Memplex.Lib.UnionFind

/-!
# Deduplication

Functions are deduplicated in two stages, within each capture partition. The exact stage keeps, of
all functions with the same text, the better one: the newer, or the one with more roles filled. The
semantic stage groups what is left by similarity and merges each group into its newest member,
together with the source paragraphs and the role values of the others and the lowest trust tier. The
groups come from the neighbours that a vector index finds, through union-find, or, without the
index, from a scan in which each function takes the later ones that are similar to it. The vectors
and their arithmetic are parameters; no theorem here depends on them.

The name of a function, the descriptions of its role values and its times are texts, or missing. Two
values of a role are the same value for the code if their descriptions are the same.
-/

namespace Memplex

open Lib

/-- The strategies of deduplication. -/
inductive DedupStrategy where
  | exact
  | semantic
  | both
deriving DecidableEq

/-- The vector index over a batch of texts. -/
structure FaissIndex where
  /-- The neighbours of a text behind the nearest one, by their positions, with whether their inner
  product with it is above the threshold. A position is -1 where the index has no neighbour. -/
  search : List String → ℕ → List (ℤ × Bool)
  /-- The index knows the vectors of the batch and no others. -/
  search_lt : ∀ texts i r, r ∈ search texts i → r.1 < texts.length

/-- What the deduplication uses besides the language. -/
structure DedupEnv extends Env where
  /-- The hexadecimal SHA-256 digest of a text. -/
  digest : String → String
  /-- The vector index, where it can be imported. -/
  faiss : Option FaissIndex
  /-- Whether the similarity of two texts of a batch, by their positions, is above the threshold. -/
  similar : List String → ℕ → ℕ → Bool

/-- The deduplicator's settings. -/
structure MemoryDeduplicator where
  strategy : DedupStrategy
  chunkThreshold : ℤ
  useFaiss : Bool

/-- The outcome of a deduplication. -/
structure DedupResult where
  originalCount : ℕ
  finalCount : ℕ
  exactRemoved : ℕ
  semanticRemoved : ℕ
  deduplicated : List Function

/-! ## Roles and texts -/

/-- The roles whose values are flattened and merged. -/
inductive Role where
  | trigger
  | condition
  | action
  | benefit
deriving DecidableEq

/-- The roles in the order of the code's loops. -/
def Role.all : List Role := [.trigger, .condition, .action, .benefit]

theorem Role.mem_all (role : Role) : role ∈ Role.all := by cases role <;> decide

/-- `getattr(function, role)`. -/
def Function.roleValues (f : Function) : Role → List FieldValue
  | .trigger => f.trigger
  | .condition => f.condition
  | .action => f.action
  | .benefit => f.benefit

/-- `_memory_to_text`. -/
def memoryToText (memory : Function) : String :=
  " ".intercalate
    (textOf memory.name ::
      Role.all.flatMap fun role => (memory.roleValues role).map fun fv => textOf fv.desc)

/-- `str(updated_at or "")`. -/
def updatedKey (memory : Function) : String := textOr memory.updatedAt

/-! ## Partitions -/

/-- The key of a function's capture partition, with its position in the list. -/
def partitionKey (env : Env) (memory : Function × ℕ) : List String :=
  if isCaptured memory.1.toMemoryNode then
    match captureScope env memory.1.toMemoryNode with
    | some scope => "captured" :: scope
    | none => ["isolated", toString memory.2]
  else ["legacy"]

/-- `_capture_partitions`, with the positions of the functions. -/
def capturePartitions (env : Env) (memories : List Function) : List (List (Function × ℕ)) :=
  (Groups.ofList (partitionKey env) memories.zipIdx).map Prod.snd

/-! ## The exact stage -/

/-- `_content_hash`. -/
def DedupEnv.contentHash (env : DedupEnv) (memory : Function) : String :=
  env.digest (memoryToText memory)

/-- The number of roles that have a value. -/
def filledRoles (memory : Function) : ℕ :=
  (Role.all.filter fun role => memory.roleValues role ≠ []).length

/-- `_choose_better`. -/
def chooseBetter (a b : Function) : Function :=
  if updatedKey b < updatedKey a then a
  else if updatedKey a < updatedKey b then b
  else if filledRoles b ≤ filledRoles a then a
  else b

/-- One function in the loop of `_exact_dedup`: what the digests have, and the number removed. -/
def DedupEnv.exactStep (env : DedupEnv) (seen : List (String × Function) × ℕ) (m : Function) :
    List (String × Function) × ℕ :=
  match findRow Prod.fst (env.contentHash m) seen.1 with
  | none => (seen.1 ++ [(env.contentHash m, m)], seen.2)
  | some row =>
    (upsertRow Prod.fst (env.contentHash m, chooseBetter row.2 m) seen.1, seen.2 + 1)

/-- `_exact_dedup`: the functions that are kept, and the number of the others. -/
def DedupEnv.exactDedup (env : DedupEnv) (memories : List Function) : List Function × ℕ :=
  let seen := memories.foldl env.exactStep ([], 0)
  (seen.1.map Prod.snd, seen.2)

/-! ## Merging -/

/-- The items of `more` under keys that are not there yet are appended, one by one. -/
def appendMissing {α κ : Type} [DecidableEq κ] (key : α → κ) (xs more : List α) : List α :=
  more.foldl (appendNew key) xs

/-- The base takes over the source paragraphs and role values of another member. -/
def Function.absorb (base m : Function) : Function :=
  { base with
    sourceParagraphs := appendMissing id base.sourceParagraphs m.sourceParagraphs
    trigger := appendMissing FieldValue.desc base.trigger m.trigger
    condition := appendMissing FieldValue.desc base.condition m.condition
    action := appendMissing FieldValue.desc base.action m.action
    benefit := appendMissing FieldValue.desc base.benefit m.benefit }

/-- The member that a group is merged into, as it was: the first of the newest. -/
def mergeBase (memories : List Function) : Option Function := memories.argmax updatedKey

/-- The lowest trust tier of a base and the members. -/
def lowestTier (base : Function) (memories : List Function) : ℤ :=
  memories.foldl (fun tier m => min tier m.trustTier) base.trustTier

/-- One member in the loop of `_merge_memories`. -/
def mergeStep (base m : Function) : Function := if m.id = base.id then base else base.absorb m

/-- `_merge_memories`; nothing can be merged into nothing. -/
def mergeMemories (memories : List Function) : Option Function :=
  if memories.length = 1 then memories.head?
  else (mergeBase memories).map fun newest =>
    memories.foldl mergeStep { newest with trustTier := lowestTier newest memories }

/-! ## The semantic stage -/

section Semantic

variable {α : Type}

/-- A text is joined with one that the index found. -/
def joinNeighbour (i : ℕ) (parent : List ℕ) (found : ℤ × Bool) : List ℕ :=
  if found.1 < 0 ∨ found.1 = (i : ℤ) then parent
  else if found.2 then UnionFind.union parent i found.1.toNat
  else parent

/-- The neighbours of all texts are joined, where they are above the threshold. -/
def FaissIndex.unionAll (index : FaissIndex) (texts : List String) : List ℕ :=
  (List.range texts.length).foldl
    (fun parent i => (index.search texts i).foldl (joinNeighbour i) parent)
    (List.range texts.length)

/-- The roots of positions, as they are looked up one after the other. -/
def collectRoots : List ℕ → List ℕ → List ℕ
  | _, [] => []
  | parent, i :: is =>
    let found := UnionFind.find parent.length parent i
    found.2 :: collectRoots found.1 is

/-- What is looked up in a forest is a root of the forest that the lookups before it have left. -/
theorem collectRoots_root {parent : List ℕ} (h : UnionFind.Forest parent) (is : List ℕ) :
    ∀ r ∈ collectRoots parent is, ∃ p, UnionFind.Forest p ∧ p.length = parent.length ∧
      UnionFind.parentOf p r = r := by
  induction is generalizing parent with
  | nil => exact fun _ hr => (List.not_mem_nil hr).elim
  | cons i is ih =>
    obtain ⟨hroot, hforest, hlen, -⟩ := h.find le_rfl i
    intro r hr
    rcases List.mem_cons.mp hr with rfl | hr
    · exact ⟨_, hforest, hlen, hroot⟩
    · obtain ⟨p, hp, hplen, hr⟩ := ih hforest r hr
      exact ⟨p, hp, hplen.trans hlen, hr⟩

/-- The roots of all positions. -/
def FaissIndex.roots (index : FaissIndex) (texts : List String) : List ℕ :=
  collectRoots (index.unionAll texts) (List.range texts.length)

/-- The joined positions are a forest, so that every walk to a root ends at one. -/
theorem FaissIndex.forest_unionAll (index : FaissIndex) (texts : List String) :
    UnionFind.Forest (index.unionAll texts) ∧ (index.unionAll texts).length = texts.length := by
  have hstart : UnionFind.Forest (List.range texts.length) ∧
      (List.range texts.length).length = texts.length :=
    ⟨UnionFind.forest_range _, List.length_range⟩
  refine List.foldlRecOn (motive := fun p => UnionFind.Forest p ∧ p.length = texts.length)
    (List.range texts.length) _ hstart fun parent h i hi => ?_
  refine List.foldlRecOn (motive := fun p => UnionFind.Forest p ∧ p.length = texts.length)
    (index.search texts i) _ h fun parent h found hfound => ?_
  unfold joinNeighbour
  split_ifs with hskip
  · exact h
  · have hi : i < parent.length := h.2 ▸ List.mem_range.mp hi
    have hlt : found.1.toNat < parent.length := by
      have hbound := index.search_lt texts i found hfound
      omega
    obtain ⟨hforest, hlen⟩ := h.1.union hi hlt
    exact ⟨hforest, hlen.trans h.2⟩
  · exact h

variable (d : MemoryDeduplicator) (env : DedupEnv) (view : α → Function)

/-- The vector index that is used, if any. -/
def usedFaiss : Option FaissIndex := if d.useFaiss then env.faiss else none

/-- The batches that the scan compares: all, or those of each domain where there are too many. -/
def scanChunks (xs : List α) : List (List α) :=
  if d.chunkThreshold < xs.length then
    (Groups.ofList (fun x => pyOr (view x).domain (.str "unknown")) xs).map Prod.snd
  else [xs]

/-- The clusters of the vector index. -/
def faissClusters (index : FaissIndex) (xs : List α) : List (List α) :=
  (Groups.ofList Prod.fst ((index.roots (xs.map fun x => memoryToText (view x))).zip xs)).map
    fun g => g.2.map Prod.snd

/-- The clusters of a batch that is scanned. -/
def scanClusters (chunk : List α) : List (List α) :=
  leaders (fun x => (view x).id) (env.similar (chunk.map fun x => memoryToText (view x))) [] 0 chunk

/-- The clusters of `_semantic_dedup`, of items that stand for functions. -/
def semanticClusters (xs : List α) : List (List α) :=
  match usedFaiss d env with
  | some index => faissClusters view index xs
  | none => (scanChunks d view xs).flatMap (scanClusters env view)

end Semantic

variable (d : MemoryDeduplicator) (env : DedupEnv)

/-- `_semantic_dedup`: each cluster is merged, and all but one of its members count as removed. -/
def semanticDedup (memories : List Function) : List Function × ℕ :=
  let clusters := semanticClusters d env id memories
  (clusters.filterMap mergeMemories, (clusters.map fun c => c.length - 1).sum)

/-- The stages on one partition: what is left, and the numbers removed by each. -/
def dedupPartition (group : List Function) : List Function × ℕ × ℕ :=
  let afterExact := if d.strategy = .semantic then (group, 0) else env.exactDedup group
  let afterSemantic :=
    if 1 < afterExact.1.length ∧ d.strategy ≠ .exact then semanticDedup d env afterExact.1
    else (afterExact.1, 0)
  (afterSemantic.1, afterExact.2, afterSemantic.2)

/-- `deduplicate`. -/
def deduplicate (memories : List Function) : DedupResult :=
  let outcomes := (capturePartitions env.toEnv memories).map fun group =>
    dedupPartition d env (group.map Prod.fst)
  let deduplicated := outcomes.flatMap fun o => o.1
  { originalCount := memories.length
    finalCount := deduplicated.length
    exactRemoved := (outcomes.map fun o => o.2.1).sum
    semanticRemoved := (outcomes.map fun o => o.2.2).sum
    deduplicated := deduplicated }

/-! ## The members behind a survivor

The same run with candidates in the place of functions: a candidate has the functions of the list
that the exact stage has combined, next to the one that it keeps. -/

/-- A function that the exact stage keeps, with all that it keeps it for. -/
structure Candidate where
  members : List (Function × ℕ)
  kept : Function

/-- A function alone. -/
def Candidate.single (m : Function × ℕ) : Candidate := ⟨[m], m.1⟩

/-- The better of two functions stands for the members of both. -/
def Candidate.better (a b : Candidate) : Candidate :=
  ⟨a.members ++ b.members, chooseBetter a.kept b.kept⟩

/-- The candidates of a partition after the exact stage. -/
def candidates (part : List (Function × ℕ)) : List Candidate :=
  if d.strategy = .semantic then part.map .single
  else (collapse (fun c => env.contentHash c.kept) Candidate.better (part.map .single)).map Prod.snd

/-- The groups of a partition after both stages. -/
def partitionGroups (part : List (Function × ℕ)) : List (List Candidate) :=
  let cs := candidates d env part
  if 1 < cs.length ∧ d.strategy ≠ .exact then semanticClusters d env Candidate.kept cs
  else cs.map fun c => [c]

/-- The groups of a run. -/
def dedupGroups (memories : List Function) : List (List Candidate) :=
  (capturePartitions env.toEnv memories).flatMap (partitionGroups d env)

/-- The functions of the list that are in a group, with their positions. -/
def groupMembers (g : List Candidate) : List (Function × ℕ) := g.flatMap Candidate.members

/-- What a group is merged into. -/
def survivor (g : List Candidate) : Option Function := mergeMemories (g.map Candidate.kept)

/-! ## What a merge carries -/

theorem mem_map_appendMissing {α κ : Type} [DecidableEq κ] (key : α → κ) (xs more : List α)
    (k : κ) : k ∈ (appendMissing key xs more).map key ↔ k ∈ xs.map key ∨ k ∈ more.map key :=
  mem_map_foldl_appendNew key xs more k

/-- The descriptions of a role's values. -/
def Function.descs (f : Function) (role : Role) : List Value :=
  (f.roleValues role).map FieldValue.desc

namespace Function

theorem mem_absorb_paragraphs (base m : Function) (p : Value) :
    p ∈ (base.absorb m).sourceParagraphs ↔ p ∈ base.sourceParagraphs ∨ p ∈ m.sourceParagraphs := by
  have hmem := mem_map_appendMissing id base.sourceParagraphs m.sourceParagraphs p
  rw [List.map_id, List.map_id, List.map_id] at hmem
  exact hmem

theorem mem_absorb_descs (base m : Function) (role : Role) (v : Value) :
    v ∈ (base.absorb m).descs role ↔ v ∈ base.descs role ∨ v ∈ m.descs role := by
  cases role <;> exact mem_map_appendMissing FieldValue.desc _ _ v

/-- A record of the same node: source paragraphs, role values and trust tier apart, the function
that it was. -/
def SameNode (f g : Function) : Prop :=
  f.toMemoryNode = { g.toMemoryNode with
    sourceParagraphs := f.sourceParagraphs
    trustTier := f.trustTier }

theorem SameNode.refl (f : Function) : f.SameNode f := rfl

theorem sameNode_absorb (f m : Function) : (f.absorb m).SameNode f := rfl

theorem SameNode.trans {f g h : Function} (hfg : f.SameNode g) (hgh : g.SameNode h) :
    f.SameNode h := by
  unfold SameNode at hfg hgh ⊢
  rw [hgh] at hfg
  exact hfg

theorem SameNode.id_eq {f g : Function} (h : f.SameNode g) : f.id = g.id := by
  have hid := congrArg MemoryNode.id h
  exact hid

end Function

/-- What the loop adds to a base: what the members of other ids have. -/
theorem foldl_mergeStep (ms : List Function) (base : Function) :
    (ms.foldl mergeStep base).SameNode base ∧
      (ms.foldl mergeStep base).trustTier = base.trustTier ∧
      (∀ p, p ∈ (ms.foldl mergeStep base).sourceParagraphs ↔
        p ∈ base.sourceParagraphs ∨ ∃ m ∈ ms, m.id ≠ base.id ∧ p ∈ m.sourceParagraphs) ∧
      ∀ role v, v ∈ (ms.foldl mergeStep base).descs role ↔
        v ∈ base.descs role ∨ ∃ m ∈ ms, m.id ≠ base.id ∧ v ∈ m.descs role := by
  induction ms generalizing base with
  | nil => exact ⟨.refl base, rfl, fun p => by simp, fun role v => by simp⟩
  | cons m ms ih =>
    rw [List.foldl_cons]
    by_cases hid : m.id = base.id
    · have hstep : mergeStep base m = base := if_pos hid
      obtain ⟨hnode, htier, hparagraphs, hdescs⟩ := ih base
      rw [hstep]
      refine ⟨hnode, htier, fun p => (hparagraphs p).trans ?_,
        fun role v => (hdescs role v).trans ?_⟩
      · simp [hid]
      · simp [hid]
    · have hstep : mergeStep base m = base.absorb m := if_neg hid
      obtain ⟨hnode, htier, hparagraphs, hdescs⟩ := ih (base.absorb m)
      have hsame : (base.absorb m).id = base.id := rfl
      rw [hstep]
      rw [hsame] at hparagraphs hdescs
      refine ⟨?_, htier, fun p => (hparagraphs p).trans ?_, fun role v => (hdescs role v).trans ?_⟩
      · exact hnode.trans (base.sameNode_absorb m)
      · rw [Function.mem_absorb_paragraphs]
        simp [hid, or_assoc]
      · rw [Function.mem_absorb_descs]
        simp [hid, or_assoc]

/-- Members that a merge takes everything from: the base, and those of other ids. -/
def Joins (base k : Function) : Prop := k = base ∨ k.id ≠ base.id

theorem lowestTier_le_iff {base : Function} {ms : List Function} (hbase : base ∈ ms) (t : ℤ) :
    lowestTier base ms ≤ t ↔ ∃ k ∈ ms, k.trustTier ≤ t := by
  have hfold : ∀ (ms : List Function) (tier : ℤ),
      ms.foldl (fun tier m => min tier m.trustTier) tier ≤ t ↔
        tier ≤ t ∨ ∃ k ∈ ms, k.trustTier ≤ t := by
    intro ms
    induction ms with
    | nil => simp
    | cons m ms ih =>
      intro tier
      rw [List.foldl_cons, ih, min_le_iff]
      simp only [List.mem_cons, exists_eq_or_imp, or_assoc]
  rw [lowestTier, hfold]
  constructor
  · rintro (hle | hk)
    · exact ⟨base, hbase, hle⟩
    · exact hk
  · exact .inr

/-- What functions are merged into: the node of the newest, with what the members it joins have, and
at most as trusted as any of them. -/
theorem mergeMemories_spec {ms : List Function} {s : Function} (h : mergeMemories ms = some s) :
    ∃ base, mergeBase ms = some base ∧ base ∈ ms ∧ s.SameNode base ∧
      (∀ p, p ∈ s.sourceParagraphs ↔ ∃ k ∈ ms, Joins base k ∧ p ∈ k.sourceParagraphs) ∧
      (∀ role v, v ∈ s.descs role ↔ ∃ k ∈ ms, Joins base k ∧ v ∈ k.descs role) ∧
      ∀ t, s.trustTier ≤ t ↔ ∃ k ∈ ms, k.trustTier ≤ t := by
  unfold mergeMemories at h
  split_ifs at h with hone
  · obtain ⟨m, rfl⟩ := List.length_eq_one_iff.mp hone
    obtain rfl : m = s := Option.some.inj h
    exact ⟨m, List.argmax_singleton, List.mem_singleton_self m, .refl m, by simp [Joins],
      by simp [Joins], by simp⟩
  · obtain ⟨base, hbase, rfl⟩ := Option.map_eq_some_iff.mp h
    have hmem : base ∈ ms := List.argmax_mem hbase
    obtain ⟨hnode, htier, hparagraphs, hdescs⟩ :=
      foldl_mergeStep ms { base with trustTier := lowestTier base ms }
    -- What one list of the result has, from what the loop adds to the base.
    have hjoins : ∀ has : Function → Prop,
        (has base ∨ ∃ m ∈ ms, m.id ≠ base.id ∧ has m) ↔ ∃ k ∈ ms, Joins base k ∧ has k := by
      intro has
      constructor
      · rintro (hb | ⟨m, hm, hid, hp⟩)
        · exact ⟨base, hmem, .inl rfl, hb⟩
        · exact ⟨m, hm, .inr hid, hp⟩
      · rintro ⟨k, hk, rfl | hid, hp⟩
        · exact .inl hp
        · exact .inr ⟨k, hk, hid, hp⟩
    refine ⟨base, hbase, hmem, hnode.trans rfl, fun p => (hparagraphs p).trans ?_,
      fun role v => (hdescs role v).trans ?_, fun t => ?_⟩
    · exact hjoins fun k => p ∈ k.sourceParagraphs
    · exact hjoins fun k => v ∈ k.descs role
    · rw [htier]
      exact lowestTier_le_iff hmem t

/-- Something is merged into something. -/
theorem mergeMemories_isSome {ms : List Function} (h : ms ≠ []) : (mergeMemories ms).isSome := by
  unfold mergeMemories
  split_ifs with hone
  · rw [List.isSome_head?]
    simpa using h
  · rw [Option.isSome_map, Option.isSome_iff_ne_none]
    exact fun hnone => h (List.argmax_eq_none.mp hnone)

end Memplex
