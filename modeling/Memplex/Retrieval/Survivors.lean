import Memplex.Retrieval.Dedup

/-!
# What deduplication preserves

A deduplication leaves one survivor for each of its groups (`deduplicate_eq`). Whether the groups
have all functions is a matter of their ids: the scan passes over a function whose id is taken,
though it is not similar to anything and is counted nowhere. Whether a survivor carries what its
members have is a matter of the functions that are not merged: the exact stage drops all but the
better of the functions of one text, with their source paragraphs, with roles that are cut
differently from the same text, and with a lower trust tier; and the merge passes over a member that
has the id of its base. `preservesInformation_iff` is the exact condition.
-/

namespace Memplex

open Lib

/-! ## The clusters -/

section Clusters

variable {α β : Type} (d : MemoryDeduplicator) (env : DedupEnv) (view : α → Function)

theorem collectRoots_length (parent is : List ℕ) : (collectRoots parent is).length = is.length := by
  induction is generalizing parent with
  | nil => rfl
  | cons i is ih => exact congrArg (· + 1) (ih _)

/-- The clusters of the vector index together are the items. -/
theorem perm_faissClusters (index : FaissIndex) (xs : List α) :
    (faissClusters view index xs).flatten.Perm xs := by
  have hlen : (index.roots (xs.map fun x => memoryToText (view x))).length = xs.length := by
    rw [FaissIndex.roots, collectRoots_length, List.length_range, List.length_map]
  have hperm := (Groups.perm_ofList Prod.fst
    ((index.roots (xs.map fun x => memoryToText (view x))).zip xs)).map Prod.snd
  rw [List.map_snd_zip hlen.ge] at hperm
  unfold faissClusters
  rw [← List.flatMap_def]
  rw [List.map_flatMap] at hperm
  exact hperm

theorem faissClusters_ne_nil (index : FaissIndex) (xs : List α) :
    ∀ c ∈ faissClusters view index xs, c ≠ [] := by
  intro c hc
  obtain ⟨g, hg, rfl⟩ := List.mem_map.mp hc
  have hne := (Groups.ofList_proper _ _).ne_nil g hg
  simpa using hne

/-- The batches of the scan together are the items. -/
theorem perm_scanChunks (xs : List α) : (scanChunks d view xs).flatten.Perm xs := by
  unfold scanChunks
  split_ifs
  · rw [← List.flatMap_def]
    exact Groups.perm_ofList _ xs
  · simp

/-- The clusters have only items of the list, and none is empty. -/
theorem semanticClusters_sound (xs : List α) :
    (∀ x ∈ (semanticClusters d env view xs).flatten, x ∈ xs) ∧
      ∀ c ∈ semanticClusters d env view xs, c ≠ [] := by
  unfold semanticClusters
  cases usedFaiss d env with
  | some index =>
    exact ⟨fun x hx => (perm_faissClusters view index xs).mem_iff.mp hx,
      faissClusters_ne_nil view index xs⟩
  | none =>
    constructor
    · intro x hx
      obtain ⟨c, hc, hxc⟩ := List.mem_flatten.mp hx
      obtain ⟨chunk, hchunk, hcc⟩ := List.mem_flatMap.mp hc
      have hmem : x ∈ chunk :=
        (leaders_spec _ _ [] List.nodup_nil 0 chunk).1 x (List.mem_flatten.mpr ⟨c, hcc, hxc⟩)
      exact (perm_scanChunks d view xs).mem_iff.mp (List.mem_flatten.mpr ⟨chunk, hchunk, hmem⟩)
    · intro c hc
      obtain ⟨chunk, -, hcc⟩ := List.mem_flatMap.mp hc
      exact leaders_ne_nil c hcc

/-- The batches that the scan compares by id: none where the vector index is used. -/
def scannedChunks (xs : List α) : List (List α) :=
  if (usedFaiss d env).isSome then [] else scanChunks d view xs

/-- Where no scanned batch has an id twice, the clusters together are the items. -/
theorem perm_semanticClusters {xs : List α}
    (h : ∀ chunk ∈ scannedChunks d env view xs, (chunk.map fun x => (view x).id).Nodup) :
    (semanticClusters d env view xs).flatten.Perm xs := by
  unfold semanticClusters scannedChunks at *
  cases hf : usedFaiss d env with
  | some index => exact perm_faissClusters view index xs
  | none =>
    rw [hf] at h
    have hchunks : ∀ chunks : List (List α),
        (∀ chunk ∈ chunks, (chunk.map fun x => (view x).id).Nodup) →
        (chunks.flatMap (scanClusters env view)).flatten.Perm chunks.flatten := by
      intro chunks
      induction chunks with
      | nil => exact fun _ => List.Perm.refl _
      | cons chunk chunks ih =>
        intro hd
        rw [List.forall_mem_cons] at hd
        rw [List.flatMap_cons, List.flatten_append, List.flatten_cons]
        exact (perm_leaders hd.1).append (ih hd.2)
    exact (hchunks _ h).trans (perm_scanChunks d view xs)

/-- Where the clusters have every item of a list without repetition, no scanned batch has an id
twice. -/
theorem nodup_scannedChunks {xs : List α} (hd : xs.Nodup)
    (hall : ∀ x ∈ xs, x ∈ (semanticClusters d env view xs).flatten) :
    ∀ chunk ∈ scannedChunks d env view xs, (chunk.map fun x => (view x).id).Nodup := by
  intro chunk hchunk
  unfold semanticClusters at hall
  unfold scannedChunks at hchunk
  cases hf : usedFaiss d env with
  | some index =>
    rw [hf] at hchunk
    exact (List.not_mem_nil hchunk).elim
  | none =>
    rw [hf] at hchunk hall
    have hchunk : chunk ∈ scanChunks d view xs := hchunk
    have hperm := perm_scanChunks d view xs
    obtain ⟨hnodup, hdisjoint⟩ := List.nodup_flatten.mp (hperm.nodup_iff.mpr hd)
    have hscan : ∀ x ∈ chunk, x ∈ (scanClusters env view chunk).flatten := ?_
    · exact nodup_of_subset_leaders (hnodup chunk hchunk) hscan
    intro x hx
    -- The cluster that has the item is one of the batch that has it, as batches are disjoint.
    obtain ⟨c, hc, hxc⟩ := List.mem_flatten.mp
      (hall x (hperm.mem_iff.mp (List.mem_flatten.mpr ⟨chunk, hchunk, hx⟩)))
    obtain ⟨other, hother, hcother⟩ := List.mem_flatMap.mp hc
    have hxother : x ∈ other :=
      (leaders_spec _ _ [] List.nodup_nil 0 other).1 x (List.mem_flatten.mpr ⟨c, hcother, hxc⟩)
    have hsymm : Std.Symm (@List.Disjoint α) := ⟨fun _ _ h => h.symm⟩
    have hsame : other = chunk := by
      by_contra hne
      exact hdisjoint.forall hother hchunk hne hxother hx
    rw [← hsame]
    exact List.mem_flatten.mpr ⟨c, hcother, hxc⟩

/-- A map of the items that keeps what they stand for maps the clusters. -/
theorem semanticClusters_map (xs : List α) :
    semanticClusters d env id (xs.map view) =
      (semanticClusters d env view xs).map (List.map view) := by
  have hscan : ∀ chunk : List α,
      scanClusters env id (chunk.map view) = (scanClusters env view chunk).map (List.map view) := by
    intro chunk
    unfold scanClusters
    rw [leaders_map, List.map_map]
    rfl
  have hchunks : scanChunks d id (xs.map view) = (scanChunks d view xs).map (List.map view) := by
    unfold scanChunks
    rw [List.length_map, Groups.ofList_map]
    split_ifs
    · rw [List.map_map, List.map_map]
      rfl
    · rfl
  unfold semanticClusters
  cases usedFaiss d env with
  | some index =>
    have hzip : ∀ roots : List ℕ,
        roots.zip (xs.map view) = (roots.zip xs).map (Prod.map id view) :=
      fun roots => List.zip_map_right
    unfold faissClusters
    dsimp only
    rw [List.map_map, hzip, Groups.ofList_map, List.map_map, List.map_map]
    refine List.map_congr_left fun g _ => ?_
    simp [Function.comp_def]
  | none =>
    dsimp only
    rw [hchunks, List.flatMap_map, List.map_flatMap]
    simp only [hscan]

end Clusters

/-! ## One partition -/

variable (d : MemoryDeduplicator) (env : DedupEnv)

/-- The exact stage keeps one function for each digest and counts the others. -/
theorem exactDedup_eq (memories : List Function) :
    (env.exactDedup memories).1 =
        (collapse env.contentHash chooseBetter memories).map Prod.snd ∧
      (env.exactDedup memories).2 + (env.exactDedup memories).1.length = memories.length := by
  have hfold : ∀ (ms : List Function) (rows : List (String × Function)) (n : ℕ),
      (ms.foldl env.exactStep (rows, n)).1 =
          ms.foldl (fun rows m => fuse chooseBetter rows (env.contentHash m) m) rows ∧
        (ms.foldl env.exactStep (rows, n)).2 + (ms.foldl env.exactStep (rows, n)).1.length =
          n + rows.length + ms.length := by
    intro ms
    induction ms with
    | nil => exact fun rows n => ⟨rfl, rfl⟩
    | cons m ms ih =>
      intro rows n
      have hstep : (env.exactStep (rows, n) m).1 = fuse chooseBetter rows (env.contentHash m) m ∧
          (env.exactStep (rows, n) m).2 + (env.exactStep (rows, n) m).1.length =
            n + rows.length + 1 := by
        unfold DedupEnv.exactStep fuse
        cases hrow : findRow Prod.fst (env.contentHash m) rows with
        | none =>
          have hnew : ¬ ∃ row ∈ rows, row.1 = env.contentHash m := by
            rintro ⟨row, hmem, hkey⟩
            exact findRow_eq_none.mp hrow row hmem hkey
          refine ⟨(if_neg hnew).symm, ?_⟩
          rw [List.length_append, List.length_singleton, Nat.add_assoc]
        | some row =>
          have hold : ∃ row ∈ rows, row.1 = env.contentHash m := ⟨row, findRow_some hrow⟩
          refine ⟨rfl, ?_⟩
          dsimp only
          rw [length_upsertRow, if_pos hold]
          omega
      obtain ⟨hrows, hcount⟩ := ih (env.exactStep (rows, n) m).1 (env.exactStep (rows, n) m).2
      rw [List.foldl_cons, List.foldl_cons, List.length_cons]
      refine ⟨hrows.trans (by rw [hstep.1]), hcount.trans ?_⟩
      rw [hstep.2]
      omega
  obtain ⟨hrows, hcount⟩ := hfold memories [] 0
  refine ⟨congrArg (List.map Prod.snd) hrows, ?_⟩
  have hlen : (env.exactDedup memories).1.length =
      (memories.foldl env.exactStep ([], 0)).1.length := List.length_map _
  rw [hlen]
  exact hcount.trans (Nat.zero_add _)

/-- The candidates have the functions of the partition, each once, and none is empty. -/
theorem perm_candidates (part : List (Function × ℕ)) :
    ((candidates d env part).flatMap Candidate.members).Perm part := by
  have hsingle : (part.map Candidate.single).flatMap Candidate.members = part := by
    rw [List.flatMap_map]
    exact List.flatMap_singleton' part
  unfold candidates
  split_ifs
  · rw [hsingle]
  · have hmembers : ∀ a b : Candidate, (a.better b).members = a.members ++ b.members :=
      fun _ _ => rfl
    have hperm := perm_collapse hmembers (fun c => env.contentHash c.kept)
      (part.map Candidate.single)
    rw [hsingle] at hperm
    rw [List.flatMap_map]
    exact hperm

theorem chooseBetter_eq (a b : Function) : chooseBetter a b = a ∨ chooseBetter a b = b := by
  unfold chooseBetter
  split_ifs
  · exact .inl rfl
  · exact .inr rfl
  · exact .inl rfl
  · exact .inr rfl

/-- A candidate keeps one of its members. -/
theorem kept_mem {part : List (Function × ℕ)} {c : Candidate} (h : c ∈ candidates d env part) :
    ∃ i, (c.kept, i) ∈ c.members := by
  have hsingle : ∀ c ∈ part.map Candidate.single, ∃ i, (c.kept, i) ∈ c.members := by
    intro c hc
    obtain ⟨m, -, rfl⟩ := List.mem_map.mp hc
    exact ⟨m.2, List.mem_singleton_self m⟩
  unfold candidates at h
  split_ifs at h
  · exact hsingle c h
  · obtain ⟨row, hrow, rfl⟩ := List.mem_map.mp h
    refine collapse_forall (fun a b ha hb => ?_) _ hsingle row hrow
    change ∃ i, (chooseBetter a.kept b.kept, i) ∈ a.members ++ b.members
    rcases chooseBetter_eq a.kept b.kept with hkept | hkept
    · obtain ⟨i, hi⟩ := ha
      rw [hkept]
      exact ⟨i, List.mem_append_left _ hi⟩
    · obtain ⟨i, hi⟩ := hb
      rw [hkept]
      exact ⟨i, List.mem_append_right _ hi⟩

/-- The candidates of a partition without repetition are distinct. -/
theorem nodup_candidates {part : List (Function × ℕ)} (hd : part.Nodup) :
    (candidates d env part).Nodup := by
  have hflat := (perm_candidates d env part).nodup_iff.mpr hd
  obtain ⟨-, hdisjoint⟩ := List.nodup_flatMap.mp hflat
  have hne : (candidates d env part).Pairwise fun a b => a ≠ b := by
    refine hdisjoint.imp_of_mem fun {a b} ha _ hab hsame => ?_
    obtain ⟨i, hi⟩ := kept_mem d env ha
    exact hab hi (hsame ▸ hi)
  exact hne

/-- The exact stage on the functions of a partition, as on its candidates. -/
theorem exact_candidates (part : List (Function × ℕ)) :
    let afterExact := if d.strategy = .semantic then (part.map Prod.fst, 0)
      else env.exactDedup (part.map Prod.fst)
    afterExact.1 = (candidates d env part).map Candidate.kept ∧
      afterExact.2 + (candidates d env part).length = part.length := by
  have hsingle : (part.map Candidate.single).map Candidate.kept = part.map Prod.fst := by
    rw [List.map_map]
    rfl
  unfold candidates
  by_cases hs : d.strategy = .semantic
  · simp only [if_pos hs]
    exact ⟨hsingle.symm, by rw [List.length_map, Nat.zero_add]⟩
  · simp only [if_neg hs]
    have hkept : ∀ a b : Candidate, (a.better b).kept = chooseBetter a.kept b.kept :=
      fun _ _ => rfl
    have hmap : (collapse (fun c => env.contentHash c.kept) Candidate.better
          (part.map Candidate.single)).map (Prod.map id Candidate.kept) =
        collapse env.contentHash chooseBetter (part.map Prod.fst) := by
      rw [← hsingle]
      exact map_collapse hkept (fun _ => rfl) (part.map Candidate.single)
    obtain ⟨hrows, hcount⟩ := exactDedup_eq env (part.map Prod.fst)
    have hsame : (env.exactDedup (part.map Prod.fst)).1 =
        ((collapse (fun c => env.contentHash c.kept) Candidate.better
          (part.map Candidate.single)).map Prod.snd).map Candidate.kept := by
      rw [hrows, ← hmap, List.map_map, List.map_map]
      rfl
    refine ⟨hsame, ?_⟩
    calc (env.exactDedup (part.map Prod.fst)).2 + _
        = (env.exactDedup (part.map Prod.fst)).2 +
            (env.exactDedup (part.map Prod.fst)).1.length := by
          rw [hsame, List.length_map Candidate.kept]
      _ = part.length := hcount.trans (List.length_map _)

/-- The groups of a partition have only its candidates, and none is empty. -/
theorem partitionGroups_sound (part : List (Function × ℕ)) :
    (∀ c ∈ (partitionGroups d env part).flatten, c ∈ candidates d env part) ∧
      ∀ g ∈ partitionGroups d env part, g ≠ [] := by
  unfold partitionGroups
  dsimp only
  split_ifs
  · exact semanticClusters_sound d env Candidate.kept _
  · constructor
    · intro c hc
      obtain ⟨g, hg, hcg⟩ := List.mem_flatten.mp hc
      obtain ⟨c', hc', rfl⟩ := List.mem_map.mp hg
      rwa [List.mem_singleton.mp hcg]
    · intro g hg
      obtain ⟨c, -, rfl⟩ := List.mem_map.mp hg
      exact List.cons_ne_nil _ _

theorem survivor_isSome {g : List Candidate} (h : g ≠ []) : (survivor g).isSome :=
  mergeMemories_isSome (by simpa using h)

/-- What is left of a partition: the survivor of each group. -/
theorem dedupPartition_eq (part : List (Function × ℕ)) :
    (dedupPartition d env (part.map Prod.fst)).1 =
        (partitionGroups d env part).filterMap survivor ∧
      (dedupPartition d env (part.map Prod.fst)).2.1 + (candidates d env part).length =
        part.length ∧
      (dedupPartition d env (part.map Prod.fst)).2.2 =
        ((partitionGroups d env part).map fun g => g.length - 1).sum := by
  obtain ⟨hkept, hcount⟩ := exact_candidates d env part
  have hclusters := semanticClusters_map d env Candidate.kept (candidates d env part)
  have hboth : (dedupPartition d env (part.map Prod.fst)).1 =
        (partitionGroups d env part).filterMap survivor ∧
      (dedupPartition d env (part.map Prod.fst)).2.2 =
        ((partitionGroups d env part).map fun g => g.length - 1).sum := by
    unfold dedupPartition partitionGroups
    dsimp only at hkept ⊢
    rw [hkept, List.length_map]
    by_cases hsem : 1 < (candidates d env part).length ∧ d.strategy ≠ .exact
    · rw [if_pos hsem, if_pos hsem]
      unfold semanticDedup
      dsimp only
      rw [hclusters, List.filterMap_map, List.map_map]
      refine ⟨rfl, congrArg List.sum (List.map_congr_left fun g _ => ?_)⟩
      rw [Function.comp_apply, List.length_map]
    · rw [if_neg hsem, if_neg hsem]
      have halone : ∀ c : Candidate, survivor [c] = some c.kept := fun _ => rfl
      constructor
      · rw [List.filterMap_map]
        exact (List.filterMap_eq_map_iff_forall_eq_some.mpr fun c _ => halone c).symm
      · rw [List.map_map]
        symm
        exact List.sum_eq_zero fun n hn => by
          obtain ⟨c, -, rfl⟩ := List.mem_map.mp hn
          rfl
  exact ⟨hboth.1, hcount, hboth.2⟩

/-! ## The whole list -/

/-- The partitions have the functions of the list, each once. -/
theorem perm_capturePartitions (memories : List Function) :
    (capturePartitions env.toEnv memories).flatten.Perm memories.zipIdx := by
  unfold capturePartitions
  rw [← List.flatMap_def]
  exact Groups.perm_ofList _ _

/-- A partition has the functions with the key of any one of them. -/
theorem part_eq {memories : List Function} {part : List (Function × ℕ)}
    (h : part ∈ capturePartitions env.toEnv memories) {m : Function × ℕ} (hm : m ∈ part) :
    part = memories.zipIdx.filter fun x => partitionKey env.toEnv x = partitionKey env.toEnv m := by
  obtain ⟨⟨k, ys⟩, hg, rfl⟩ := List.mem_map.mp h
  have hys : ys = memories.zipIdx.filter fun x => partitionKey env.toEnv x = k :=
    ((Groups.mem_ofList (partitionKey env.toEnv)).mp hg).1
  have hmk : m ∈ memories.zipIdx.filter fun x => partitionKey env.toEnv x = k := by
    rw [← hys]
    exact hm
  have hk : partitionKey env.toEnv m = k := of_decide_eq_true (List.mem_filter.mp hmk).2
  rw [hk]
  exact hys

theorem nodup_part {memories : List Function} {part : List (Function × ℕ)}
    (h : part ∈ capturePartitions env.toEnv memories) : part.Nodup := by
  have hindex : memories.zipIdx.Nodup := by
    refine List.Nodup.of_map Prod.snd ?_
    rw [List.zipIdx_map_snd]
    exact List.nodup_range' _
  exact (List.nodup_flatten.mp
    ((perm_capturePartitions env memories).nodup_iff.mpr hindex)).1 part h

/-- A deduplication leaves the survivors of its groups, and counts what is not a candidate and what
is not the first of its group. -/
theorem deduplicate_eq (memories : List Function) :
    (deduplicate d env memories).deduplicated = (dedupGroups d env memories).filterMap survivor ∧
      (deduplicate d env memories).finalCount = (dedupGroups d env memories).length ∧
      (deduplicate d env memories).exactRemoved +
          ((capturePartitions env.toEnv memories).map
            fun part => (candidates d env part).length).sum = memories.length ∧
      (deduplicate d env memories).semanticRemoved =
        ((dedupGroups d env memories).map fun g => g.length - 1).sum := by
  have hleft : (deduplicate d env memories).deduplicated =
      (dedupGroups d env memories).filterMap survivor := by
    unfold deduplicate dedupGroups
    dsimp only
    rw [List.flatMap_map, List.filterMap_flatMap]
    exact List.flatMap_congr fun part _ => (dedupPartition_eq d env part).1
  refine ⟨hleft, ?_, ?_, ?_⟩
  · calc (deduplicate d env memories).finalCount
        = ((dedupGroups d env memories).filterMap survivor).length := congrArg List.length hleft
      _ = (dedupGroups d env memories).length := by
        refine List.filterMap_length_eq_length.mpr fun g hg => ?_
        obtain ⟨part, -, hgpart⟩ := List.mem_flatMap.mp hg
        exact survivor_isSome ((partitionGroups_sound d env part).2 g hgpart)
  · have hlen := (perm_capturePartitions env memories).length_eq
    rw [List.length_flatten, List.length_zipIdx] at hlen
    unfold deduplicate
    dsimp only
    rw [← hlen, List.map_map, ← List.sum_map_add]
    exact congrArg List.sum (List.map_congr_left fun part _ => (dedupPartition_eq d env part).2.1)
  · unfold deduplicate dedupGroups
    dsimp only
    rw [List.map_map, List.map_flatMap, List.flatMap_def, List.sum_flatten, List.map_map]
    exact congrArg List.sum (List.map_congr_left fun part _ => (dedupPartition_eq d env part).2.2)

/-- The batches of a partition's candidates that are scanned by id. -/
def partitionScanned (part : List (Function × ℕ)) : List (List Candidate) :=
  let cs := candidates d env part
  if 1 < cs.length ∧ d.strategy ≠ .exact then scannedChunks d env Candidate.kept cs else []

/-- Where no scanned batch has an id twice, the groups of a partition are its candidates. -/
theorem perm_partitionGroups {part : List (Function × ℕ)}
    (h : ∀ chunk ∈ partitionScanned d env part, (chunk.map fun c => c.kept.id).Nodup) :
    (partitionGroups d env part).flatten.Perm (candidates d env part) := by
  unfold partitionScanned at h
  unfold partitionGroups
  dsimp only at h ⊢
  split_ifs at h ⊢ with hsem
  · exact perm_semanticClusters d env Candidate.kept h
  · rw [← List.flatMap_def, List.flatMap_singleton']

/-- Where the groups of a partition have all its candidates, no scanned batch has an id twice. -/
theorem nodup_partitionScanned {part : List (Function × ℕ)} (hd : part.Nodup)
    (hall : ∀ c ∈ candidates d env part, c ∈ (partitionGroups d env part).flatten) :
    ∀ chunk ∈ partitionScanned d env part, (chunk.map fun c => c.kept.id).Nodup := by
  unfold partitionGroups at hall
  unfold partitionScanned
  dsimp only at hall ⊢
  split_ifs at hall ⊢ with hsem
  · exact nodup_scannedChunks d env Candidate.kept (nodup_candidates d env hd) hall
  · exact fun _ h => (List.not_mem_nil h).elim

/-- The members of a group are functions of one partition. -/
theorem exists_part {memories : List Function} {g : List Candidate}
    (h : g ∈ dedupGroups d env memories) :
    ∃ part ∈ capturePartitions env.toEnv memories, g ∈ partitionGroups d env part ∧
      (∀ c ∈ g, c ∈ candidates d env part) ∧ ∀ m ∈ groupMembers g, m ∈ part := by
  obtain ⟨part, hpart, hg⟩ := List.mem_flatMap.mp h
  have hcs : ∀ c ∈ g, c ∈ candidates d env part := fun c hc =>
    (partitionGroups_sound d env part).1 c (List.mem_flatten.mpr ⟨g, hg, hc⟩)
  refine ⟨part, hpart, hg, hcs, fun m hm => ?_⟩
  obtain ⟨c, hc, hmc⟩ := List.mem_flatMap.mp hm
  exact (perm_candidates d env part).mem_iff.mp (List.mem_flatMap.mpr ⟨c, hcs c hc, hmc⟩)

/-- A function is in one partition. -/
theorem part_unique {memories : List Function} {part other : List (Function × ℕ)}
    (hpart : part ∈ capturePartitions env.toEnv memories)
    (hother : other ∈ capturePartitions env.toEnv memories) {m : Function × ℕ} (hm : m ∈ part)
    (hmo : m ∈ other) : part = other := by
  exact (part_eq env hpart hm).trans (part_eq env hother hmo).symm

/-- A function is a member of one candidate. -/
theorem candidate_unique {part : List (Function × ℕ)} (hd : part.Nodup) {c c' : Candidate}
    (hc : c ∈ candidates d env part) (hc' : c' ∈ candidates d env part) {m : Function × ℕ}
    (hm : m ∈ c.members) (hm' : m ∈ c'.members) : c = c' := by
  obtain ⟨-, hdisjoint⟩ := List.nodup_flatMap.mp ((perm_candidates d env part).nodup_iff.mpr hd)
  by_contra hne
  have hsymm : Std.Symm (Function.onFun (@List.Disjoint (Function × ℕ)) Candidate.members) :=
    ⟨fun _ _ h => h.symm⟩
  exact hdisjoint.forall hc hc' hne hm hm'

/-- What a deduplication is to preserve, of the functions and of the counts. -/
structure PreservesInformation (memories : List Function) : Prop where
  /-- What is left are the survivors of the groups. -/
  left : (deduplicate d env memories).deduplicated = (dedupGroups d env memories).filterMap survivor
  /-- No group has functions of two capture partitions. -/
  partitions : ∀ g ∈ dedupGroups d env memories, ∀ a ∈ groupMembers g, ∀ b ∈ groupMembers g,
    partitionKey env.toEnv a = partitionKey env.toEnv b
  /-- Every function of the list is in a group. -/
  grouped : ∀ m ∈ memories.zipIdx, ∃ g ∈ dedupGroups d env memories, m ∈ groupMembers g
  /-- The survivor of a group has every role value of its members. -/
  values : ∀ g ∈ dedupGroups d env memories, ∀ s, survivor g = some s → ∀ m ∈ groupMembers g,
    ∀ role, ∀ v ∈ m.1.descs role, v ∈ s.descs role
  /-- It has every source paragraph of its members. -/
  paragraphs : ∀ g ∈ dedupGroups d env memories, ∀ s, survivor g = some s → ∀ m ∈ groupMembers g,
    ∀ p ∈ m.1.sourceParagraphs, p ∈ s.sourceParagraphs
  /-- It is at most as trusted as any of its members. -/
  trust : ∀ g ∈ dedupGroups d env memories, ∀ s, survivor g = some s → ∀ m ∈ groupMembers g,
    s.trustTier ≤ m.1.trustTier
  counts : (deduplicate d env memories).originalCount =
    (deduplicate d env memories).finalCount + (deduplicate d env memories).exactRemoved +
      (deduplicate d env memories).semanticRemoved

/-- Nothing gets lost outside of the merges. Of a group's candidates those join its base that are
the base or have another id. -/
structure LosesNothing (memories : List Function) : Prop where
  /-- No batch that is scanned has an id twice. -/
  ids : ∀ part ∈ capturePartitions env.toEnv memories, ∀ chunk ∈ partitionScanned d env part,
    (chunk.map fun c => c.kept.id).Nodup
  /-- What a member has under a role, a function that joins the base has too. -/
  values : ∀ g ∈ dedupGroups d env memories, ∀ base, mergeBase (g.map Candidate.kept) = some base →
    ∀ m ∈ groupMembers g, ∀ role, ∀ v ∈ m.1.descs role,
      ∃ k ∈ g.map Candidate.kept, Joins base k ∧ v ∈ k.descs role
  /-- The source paragraphs of a member are also those of functions that join the base. -/
  paragraphs : ∀ g ∈ dedupGroups d env memories, ∀ base,
    mergeBase (g.map Candidate.kept) = some base → ∀ m ∈ groupMembers g,
      ∀ p ∈ m.1.sourceParagraphs, ∃ k ∈ g.map Candidate.kept, Joins base k ∧ p ∈ k.sourceParagraphs
  /-- A member that is not kept is no less trusted than all that are. -/
  trust : ∀ g ∈ dedupGroups d env memories, ∀ m ∈ groupMembers g,
    ∃ k ∈ g.map Candidate.kept, k.trustTier ≤ m.1.trustTier

/-- The groups and what is behind their first members. -/
theorem length_add_sum_pred {α : Type} {gs : List (List α)} (h : ∀ g ∈ gs, g ≠ []) :
    gs.length + (gs.map fun g => g.length - 1).sum = (gs.map List.length).sum := by
  induction gs with
  | nil => rfl
  | cons g gs ih =>
    rw [List.forall_mem_cons] at h
    have hpos := List.length_pos_iff.mpr h.1
    have hrest := ih h.2
    simp only [List.length_cons, List.map_cons, List.sum_cons]
    omega

/-- A function that is left is the node of one of the list. -/
theorem deduplicated_sameNode {memories : List Function} {s : Function}
    (h : s ∈ (deduplicate d env memories).deduplicated) : ∃ f ∈ memories, s.SameNode f := by
  rw [(deduplicate_eq d env memories).1] at h
  obtain ⟨g, hg, hs⟩ := List.mem_filterMap.mp h
  obtain ⟨part, hpart, -, hcs, hmembers⟩ := exists_part d env hg
  obtain ⟨base, -, hbase, hnode, -⟩ := mergeMemories_spec hs
  obtain ⟨c, hc, rfl⟩ := List.mem_map.mp hbase
  obtain ⟨i, hi⟩ := kept_mem d env (hcs c hc)
  have hm := hmembers _ (List.mem_flatMap.mpr ⟨c, hc, hi⟩)
  have hindex := (perm_capturePartitions env memories).mem_iff.mp
    (List.mem_flatten.mpr ⟨part, hpart, hm⟩)
  exact ⟨c.kept, List.fst_mem_of_mem_zipIdx hindex, hnode⟩

/-- The counts add up where every candidate is in a group. -/
theorem counts_of_perm {memories : List Function}
    (h : ∀ part ∈ capturePartitions env.toEnv memories,
      (partitionGroups d env part).flatten.Perm (candidates d env part)) :
    memories.length = (deduplicate d env memories).finalCount +
      (deduplicate d env memories).exactRemoved +
      (deduplicate d env memories).semanticRemoved := by
  obtain ⟨-, hfinal, hexact, hsemantic⟩ := deduplicate_eq d env memories
  have hcandidates : ((dedupGroups d env memories).map List.length).sum =
      ((capturePartitions env.toEnv memories).map
        fun part => (candidates d env part).length).sum := by
    unfold dedupGroups
    rw [List.map_flatMap, List.flatMap_def, List.sum_flatten, List.map_map]
    refine congrArg List.sum (List.map_congr_left fun part hpart => ?_)
    rw [← (h part hpart).length_eq, List.length_flatten]
    rfl
  have hne : ∀ g ∈ dedupGroups d env memories, g ≠ [] := fun g hg => by
    obtain ⟨part, -, hgpart⟩ := List.mem_flatMap.mp hg
    exact (partitionGroups_sound d env part).2 g hgpart
  have hfirst := length_add_sum_pred hne
  omega

/-- A deduplication preserves what the functions have exactly if nothing gets lost outside of the
merges. -/
theorem preservesInformation_iff (memories : List Function) :
    PreservesInformation d env memories ↔ LosesNothing d env memories := by
  have hkept : ∀ g ∈ dedupGroups d env memories, ∃ s, survivor g = some s := fun g hg => by
    obtain ⟨part, -, hgpart⟩ := List.mem_flatMap.mp hg
    exact Option.isSome_iff_exists.mp
      (survivor_isSome ((partitionGroups_sound d env part).2 g hgpart))
  constructor
  · intro h
    refine ⟨fun part hpart => ?_, fun g hg base hbase m hm role v hv => ?_,
      fun g hg base hbase m hm p hp => ?_, fun g hg m hm => ?_⟩
    · -- Every candidate is in a group of its partition, as its members are in groups.
      refine nodup_partitionScanned d env (nodup_part env hpart) fun c hc => ?_
      obtain ⟨i, hi⟩ := kept_mem d env hc
      have hmpart : (c.kept, i) ∈ part :=
        (perm_candidates d env part).mem_iff.mp (List.mem_flatMap.mpr ⟨c, hc, hi⟩)
      obtain ⟨g, hg, hm⟩ := h.grouped _ ((perm_capturePartitions env memories).mem_iff.mp
        (List.mem_flatten.mpr ⟨part, hpart, hmpart⟩))
      obtain ⟨other, hother, hgother, hcs, hmembers⟩ := exists_part d env hg
      have hsame := part_unique env hother hpart (hmembers _ hm) hmpart
      subst hsame
      obtain ⟨c', hc', hmc'⟩ := List.mem_flatMap.mp hm
      rw [candidate_unique d env (nodup_part env hother) hc (hcs c' hc') hi hmc']
      exact List.mem_flatten.mpr ⟨g, hgother, hc'⟩
    · obtain ⟨s, hs⟩ := hkept g hg
      obtain ⟨base', hbase', -, -, -, hdescs, -⟩ := mergeMemories_spec hs
      obtain rfl : base' = base := Option.some.inj (hbase'.symm.trans hbase)
      exact (hdescs role v).mp (h.values g hg s hs m hm role v hv)
    · obtain ⟨s, hs⟩ := hkept g hg
      obtain ⟨base', hbase', -, -, hparagraphs, -, -⟩ := mergeMemories_spec hs
      obtain rfl : base' = base := Option.some.inj (hbase'.symm.trans hbase)
      exact (hparagraphs p).mp (h.paragraphs g hg s hs m hm p hp)
    · obtain ⟨s, hs⟩ := hkept g hg
      obtain ⟨-, -, -, -, -, -, htier⟩ := mergeMemories_spec hs
      exact (htier _).mp (h.trust g hg s hs m hm)
  · intro h
    have hperm : ∀ part ∈ capturePartitions env.toEnv memories,
        (partitionGroups d env part).flatten.Perm (candidates d env part) :=
      fun part hpart => perm_partitionGroups d env (h.ids part hpart)
    refine ⟨(deduplicate_eq d env memories).1, fun g hg a ha b hb => ?_, fun m hm => ?_,
      fun g hg s hs m hm role v hv => ?_, fun g hg s hs m hm p hp => ?_,
      fun g hg s hs m hm => ?_, counts_of_perm d env hperm⟩
    · obtain ⟨part, hpart, -, -, hmembers⟩ := exists_part d env hg
      have hb' := hmembers b hb
      rw [part_eq env hpart (hmembers a ha)] at hb'
      exact (of_decide_eq_true (List.mem_filter.mp hb').2).symm
    · obtain ⟨part, hpart, hmpart⟩ :=
        List.mem_flatten.mp ((perm_capturePartitions env memories).mem_iff.mpr hm)
      obtain ⟨c, hc, hmc⟩ :=
        List.mem_flatMap.mp ((perm_candidates d env part).mem_iff.mpr hmpart)
      obtain ⟨g, hg, hcg⟩ := List.mem_flatten.mp ((hperm part hpart).mem_iff.mpr hc)
      exact ⟨g, List.mem_flatMap.mpr ⟨part, hpart, hg⟩, List.mem_flatMap.mpr ⟨c, hcg, hmc⟩⟩
    · obtain ⟨base, hbase, -, -, -, hdescs, -⟩ := mergeMemories_spec hs
      exact (hdescs role v).mpr (h.values g hg base hbase m hm role v hv)
    · obtain ⟨base, hbase, -, -, hparagraphs, -, -⟩ := mergeMemories_spec hs
      exact (hparagraphs p).mpr (h.paragraphs g hg base hbase m hm p hp)
    · obtain ⟨-, -, -, -, -, -, htier⟩ := mergeMemories_spec hs
      exact (htier _).mpr (h.trust g hg m hm)

/-! ## Two functions of one text -/

/-- An environment for texts in lower case, in which a text is its own digest. -/
def plainDedup : DedupEnv where
  lower := id
  strip := id
  fromisoformat := fun _ => none
  digest := id
  faiss := none
  similar := fun _ _ _ => false

/-- The settings as the compaction passes them. -/
def plainDeduplicator : MemoryDeduplicator := ⟨.both, 20000, true⟩

/-- A function without roles, from one paragraph. -/
def learnedFrom (id updatedAt paragraph : String) (tier : ℤ) : Function :=
  { Function.make id updatedAt with
    sourceParagraphs := [.str paragraph]
    trustTier := tier }

/-- The paragraph of the older function is dropped, and the newer keeps its higher trust. -/
theorem same_text_loses :
    ¬ PreservesInformation plainDeduplicator plainDedup
      [learnedFrom "f1" "2025-01-01" "p1" 1, learnedFrom "f2" "2025-01-02" "p2" 4] := by
  intro h
  have hlost : ¬ ∀ g ∈ dedupGroups plainDeduplicator plainDedup
      [learnedFrom "f1" "2025-01-01" "p1" 1, learnedFrom "f2" "2025-01-02" "p2" 4],
      ∀ m ∈ groupMembers g, ∀ p ∈ m.1.sourceParagraphs,
        (survivor g).all (fun s => p ∈ s.sourceParagraphs) = true := by decide
  refine hlost fun g hg m hm p hp => ?_
  rw [Option.all_eq_true]
  exact fun s hs => decide_eq_true (h.paragraphs g hg s hs m hm p hp)

end Memplex
