import Memplex.Lib.Peaks
import Memplex.Models.Memory
import Mathlib.Data.List.MinMax
import Mathlib.Data.List.Sort
import Mathlib.Data.String.Basic

/-!
# Fusion of the retrieval paths

`merge_multi_path` normalizes each path's hits by the highest relevance of the path, keeps for each
id its highest normalized relevance, and sorts. Relevances are rational numbers here. An id enters
only with a relevance above zero, as an id without one counts as having zero: hits whose relevances
are all zero or below are left out, though the metadata for them was collected. What is kept for an
id is the greatest of its contributions (`get?_fused`), so that the order of the paths has no
influence on it.
-/

namespace Memplex

open Lib

/-- A search hit. -/
structure SearchResult where
  funcId : String
  name : String
  domain : String
  relevanceScore : ℚ
  summary : String
  sourceType : SourceTag := .known .wiki
  createdAt : Value := .null
  updatedAt : Value := .null
  origin : String := ""
  vectorCache : Value := .null
  tokenEstimate : ℤ := 0
  graphContext : Value := .null
  trustTier : ℤ := 3
deriving DecidableEq

/-! ## Merging -/

/-- `max((r.relevance_score for r in results), default=0.0)`. -/
def pathMax (results : List SearchResult) : ℚ :=
  ((results.map SearchResult.relevanceScore).max?).getD 0

/-- What the scores of a path are divided by. -/
def pathScale (results : List SearchResult) : ℚ :=
  if 0 < pathMax results then pathMax results else 1

/-- The normalized contributions of a path. -/
def contributions (results : List SearchResult) : List (String × ℚ) :=
  results.map fun r => (r.funcId, r.relevanceScore / pathScale results)

/-- One step of `best`: the object with the highest raw score stands for its id. -/
def keepBest (best : Table SearchResult.funcId) (result : SearchResult) :
    Table SearchResult.funcId :=
  match best.get? result.funcId with
  | none => best.set result
  | some current =>
    if current.relevanceScore < result.relevanceScore then best.set result else best

/-- `best` and `fused` after all paths. -/
def fuseLists (resultLists : List (List SearchResult)) :
    Table SearchResult.funcId × Table (Prod.fst : String × ℚ → String) :=
  resultLists.foldl (fun state results =>
    results.foldl (fun state result =>
      (keepBest state.1 result,
        raise 0 state.2 (result.funcId, result.relevanceScore / pathScale results))) state)
    (.empty, .empty)

/-- `merge_multi_path`: by descending score, then by id. -/
def mergeMultiPath (resultLists : List (List SearchResult)) : List SearchResult :=
  (ranked (fuseLists resultLists).2.rows).filterMap fun row =>
    ((fuseLists resultLists).1.get? row.1).map fun r => { r with relevanceScore := row.2 }

/-! ## What is kept -/

theorem pathScale_pos (results : List SearchResult) : 0 < pathScale results := by
  unfold pathScale
  split_ifs with h
  · exact h
  · exact one_pos

/-- The scores that are kept are the greatest contributions. -/
theorem fused_eq (resultLists : List (List SearchResult)) :
    (fuseLists resultLists).2 = peaks 0 (resultLists.flatMap contributions) := by
  have hpath : ∀ (scale : ℚ) (results : List SearchResult)
      (state : Table SearchResult.funcId × Table (Prod.fst : String × ℚ → String)),
      (results.foldl (fun state result => (keepBest state.1 result,
        raise 0 state.2 (result.funcId, result.relevanceScore / scale))) state).2 =
        (results.map fun r => (r.funcId, r.relevanceScore / scale)).foldl (raise 0) state.2 := by
    intro scale results
    induction results with
    | nil => exact fun _ => rfl
    | cons r results ih => exact fun state => ih _
  unfold fuseLists peaks
  suffices hlists : ∀ state : Table SearchResult.funcId × Table (Prod.fst : String × ℚ → String),
      (resultLists.foldl (fun state results => results.foldl (fun state result =>
        (keepBest state.1 result, raise 0 state.2
          (result.funcId, result.relevanceScore / pathScale results))) state) state).2 =
        (resultLists.flatMap contributions).foldl (raise 0) state.2 from hlists _
  induction resultLists with
  | nil => exact fun _ => rfl
  | cons results lists ih =>
    intro state
    rw [List.foldl_cons, ih, hpath, List.flatMap_cons, List.foldl_append]
    rfl

/-- Which score an id has. -/
theorem get?_fused {resultLists : List (List SearchResult)} {id : String} {score : ℚ} :
    (fuseLists resultLists).2.get? id = some (id, score) ↔
      0 < score ∧ IsGreatest {v | (id, v) ∈ resultLists.flatMap contributions} score := by
  rw [fused_eq, get?_peaks]

/-- Every id that was met has an object. -/
theorem best_contains (resultLists : List (List SearchResult)) {results : List SearchResult}
    (hresults : results ∈ resultLists) {r : SearchResult} (hr : r ∈ results) :
    (fuseLists resultLists).1.contains r.funcId = true := by
  have hkeep : ∀ (best : Table SearchResult.funcId) (x : SearchResult) (id : String),
      (keepBest best x).contains id = (best.contains id || decide (x.funcId = id)) := by
    intro best x id
    unfold keepBest
    have hset : (best.set x).contains id = (best.contains id || decide (x.funcId = id)) := by
      rw [Table.contains, Table.get?_set]
      by_cases hid : x.funcId = id <;> simp [hid, Table.contains]
    cases hget : best.get? x.funcId with
    | none => exact hset
    | some current =>
      dsimp only
      split_ifs
      · exact hset
      · by_cases hid : x.funcId = id
        · subst hid
          simp [Table.contains, hget]
        · simp [hid]
  have hpath : ∀ (scale : ℚ) (xs : List SearchResult)
      (state : Table SearchResult.funcId × Table (Prod.fst : String × ℚ → String)) (id : String),
      (xs.foldl (fun state result => (keepBest state.1 result,
        raise 0 state.2 (result.funcId, result.relevanceScore / scale))) state).1.contains id =
        (state.1.contains id || xs.any fun x => decide (x.funcId = id)) := by
    intro scale xs
    induction xs with
    | nil => simp
    | cons x xs ih =>
      intro state id
      rw [List.foldl_cons, ih, hkeep, List.any_cons, Bool.or_assoc]
  have hlists : ∀ (lists : List (List SearchResult))
      (state : Table SearchResult.funcId × Table (Prod.fst : String × ℚ → String)) (id : String),
      (lists.foldl (fun state results => results.foldl (fun state result =>
        (keepBest state.1 result, raise 0 state.2
          (result.funcId, result.relevanceScore / pathScale results))) state) state).1.contains id =
        (state.1.contains id || lists.any fun xs => xs.any fun x => decide (x.funcId = id)) := by
    intro lists
    induction lists with
    | nil => simp
    | cons xs lists ih =>
      intro state id
      rw [List.foldl_cons, ih, hpath, List.any_cons, Bool.or_assoc]
  unfold fuseLists
  rw [hlists]
  refine Bool.or_eq_true_iff.mpr (.inr (List.any_eq_true.mpr ⟨results, hresults, ?_⟩))
  exact List.any_eq_true.mpr ⟨r, hr, decide_eq_true rfl⟩

/-- The id and the score of a hit. -/
def SearchResult.scored (r : SearchResult) : String × ℚ := (r.funcId, r.relevanceScore)

/-- The hits that are returned are those that have a score. -/
theorem perm_scored (resultLists : List (List SearchResult)) :
    ((mergeMultiPath resultLists).map SearchResult.scored).Perm (fuseLists resultLists).2.rows := by
  have hobject : ∀ row ∈ (fuseLists resultLists).2.rows,
      ∃ r, (fuseLists resultLists).1.get? row.1 = some r := by
    intro row hrow
    have hentry : (row.1, row.2) ∈ resultLists.flatMap contributions :=
      (get?_fused.mp ((Table.mem_rows_iff _ row).mp hrow)).2.1
    obtain ⟨results, hresults, hmem⟩ := List.mem_flatMap.mp hentry
    obtain ⟨r, hr, heq⟩ := List.mem_map.mp hmem
    have hcontains := best_contains resultLists hresults hr
    rw [(Prod.mk.inj heq).1] at hcontains
    exact Table.contains_iff.mp hcontains
  -- No row is dropped, so that the hits are the sorted rows.
  have hmap : ∀ rows : List (String × ℚ), (∀ row ∈ rows, row ∈ (fuseLists resultLists).2.rows) →
      (rows.filterMap fun row => ((fuseLists resultLists).1.get? row.1).map fun r =>
        { r with relevanceScore := row.2 }).map SearchResult.scored = rows := by
    intro rows
    induction rows with
    | nil => exact fun _ => rfl
    | cons row rows ih =>
      intro hrows
      obtain ⟨hrow, hrest⟩ := List.forall_mem_cons.mp hrows
      obtain ⟨r, hr⟩ := hobject row hrow
      have hid : r.funcId = row.1 := Table.get?_key hr
      rw [List.filterMap_cons_some (b := { r with relevanceScore := row.2 }) (by rw [hr]; rfl),
        List.map_cons, ih hrest]
      exact congrArg (· :: rows) (Prod.ext hid rfl)
  have hperm := perm_ranked (fuseLists resultLists).2.rows
  rw [mergeMultiPath, hmap _ fun row hrow => hperm.mem_iff.mp hrow]
  exact hperm

/-- Which hits are returned, with which scores. -/
theorem mem_scored {resultLists : List (List SearchResult)} {id : String} {score : ℚ} :
    (id, score) ∈ (mergeMultiPath resultLists).map SearchResult.scored ↔
      0 < score ∧ IsGreatest {v | (id, v) ∈ resultLists.flatMap contributions} score := by
  rw [(perm_scored resultLists).mem_iff, Table.mem_rows_iff, get?_fused]

/-- No id is returned twice. -/
theorem nodup_merged (resultLists : List (List SearchResult)) :
    ((mergeMultiPath resultLists).map SearchResult.funcId).Nodup := by
  have hids : (mergeMultiPath resultLists).map SearchResult.funcId =
      ((mergeMultiPath resultLists).map SearchResult.scored).map Prod.fst := by
    rw [List.map_map]
    rfl
  rw [hids, ((perm_scored resultLists).map Prod.fst).nodup_iff]
  exact (fuseLists resultLists).2.nodup

/-- An id is returned exactly when one of its hits has a relevance above zero. -/
theorem mem_merged {resultLists : List (List SearchResult)} {id : String} :
    id ∈ (mergeMultiPath resultLists).map SearchResult.funcId ↔
      ∃ results ∈ resultLists, ∃ r ∈ results, r.funcId = id ∧ 0 < r.relevanceScore := by
  constructor
  · intro hid
    obtain ⟨hit, hhit, rfl⟩ := List.mem_map.mp hid
    obtain ⟨hpos, hentry, -⟩ := mem_scored.mp (List.mem_map_of_mem hhit)
    obtain ⟨results, hresults, hmem⟩ := List.mem_flatMap.mp hentry
    obtain ⟨r, hr, heq⟩ := List.mem_map.mp hmem
    obtain ⟨hsame, hscore⟩ := Prod.mk.inj heq
    rw [← hscore] at hpos
    exact ⟨results, hresults, r, hr, hsame, (div_pos_iff_of_pos_right (pathScale_pos _)).mp hpos⟩
  · rintro ⟨results, hresults, r, hr, rfl, hpos⟩
    have hentry : (r.funcId, r.relevanceScore / pathScale results) ∈
        resultLists.flatMap contributions :=
      List.mem_flatMap.mpr ⟨results, hresults, List.mem_map.mpr ⟨r, hr, rfl⟩⟩
    have hnone : (peaks 0 (resultLists.flatMap contributions)).get? r.funcId ≠ none := by
      intro hnone
      have hgreatest := @peakAt_foldl _ _ _ _ (0 : ℚ) (resultLists.flatMap contributions)
        .empty r.funcId
      have hle := hgreatest.2 (.inr hentry)
      change _ ≤ peakAt 0 (peaks 0 (resultLists.flatMap contributions)) r.funcId at hle
      rw [peakAt, hnone] at hle
      exact absurd (div_pos hpos (pathScale_pos results)) (not_lt.mpr hle)
    obtain ⟨row, hrow⟩ := Option.ne_none_iff_exists'.mp hnone
    rw [← fused_eq] at hrow
    have hrows : row ∈ (fuseLists resultLists).2.rows := Table.mem_of_get? hrow
    obtain ⟨hit, hhit, heq⟩ := List.mem_map.mp ((perm_scored resultLists).mem_iff.mpr hrows)
    refine List.mem_map.mpr ⟨hit, hhit, ?_⟩
    have hkey : row.1 = r.funcId := Table.get?_key hrow
    rw [← hkey, ← heq]
    rfl

/-! ## Union and order -/

/-- The fusion of a family of paths loses no hit, and does not depend on the order of the paths. -/
structure Fuses (resultLists : List (List SearchResult)) : Prop where
  /-- Every id of a path is returned, once. -/
  once : ∀ results ∈ resultLists, ∀ r ∈ results,
    ((mergeMultiPath resultLists).map SearchResult.funcId).count r.funcId = 1
  /-- Nothing else is. -/
  sound : ∀ hit ∈ mergeMultiPath resultLists,
    ∃ results ∈ resultLists, ∃ r ∈ results, r.funcId = hit.funcId
  /-- The scores are those of the paths in any other order. -/
  orderFree : ∀ other : List (List SearchResult), other.Perm resultLists → ∀ p,
    p ∈ (mergeMultiPath other).map SearchResult.scored ↔
      p ∈ (mergeMultiPath resultLists).map SearchResult.scored

/-- The fusion loses no hit exactly when every id has a hit with a relevance above zero. -/
theorem fuses_iff {resultLists : List (List SearchResult)} :
    Fuses resultLists ↔ ∀ results ∈ resultLists, ∀ r ∈ results,
      ∃ others ∈ resultLists, ∃ r' ∈ others, r'.funcId = r.funcId ∧ 0 < r'.relevanceScore := by
  constructor
  · intro h results hresults r hr
    have hcount := h.once results hresults r hr
    exact mem_merged.mp (List.count_pos_iff.mp (by rw [hcount]; exact one_pos))
  · intro h
    refine ⟨fun results hresults r hr => ?_, fun hit hhit => ?_, fun other hperm p => ?_⟩
    · exact List.count_eq_one_of_mem (nodup_merged resultLists)
        (mem_merged.mpr (h results hresults r hr))
    · obtain ⟨results, hresults, r, hr, hid, -⟩ := mem_merged.mp (List.mem_map_of_mem hhit)
      exact ⟨results, hresults, r, hr, hid⟩
    · have hsame : ∀ entry, entry ∈ other.flatMap contributions ↔
          entry ∈ resultLists.flatMap contributions :=
        fun entry => (hperm.flatMap_right contributions).mem_iff
      obtain ⟨id, score⟩ := p
      rw [mem_scored, mem_scored]
      simp only [hsame]

/-- A hit without relevance. -/
def irrelevantHit : SearchResult :=
  { funcId := "f", name := "f", domain := "", relevanceScore := 0, summary := "f" }

/-- A hit without relevance is lost. -/
theorem irrelevant_lost : ¬ Fuses [[irrelevantHit]] := by
  intro h
  have hcount := h.once _ (List.mem_singleton_self _) _ (List.mem_singleton_self irrelevantHit)
  obtain ⟨results, hresults, r, hr, -, hpos⟩ :=
    mem_merged.mp (List.count_pos_iff.mp (by rw [hcount]; exact one_pos))
  obtain rfl := List.mem_singleton.mp hresults
  obtain rfl := List.mem_singleton.mp hr
  exact absurd hpos (lt_irrefl _)

end Memplex
