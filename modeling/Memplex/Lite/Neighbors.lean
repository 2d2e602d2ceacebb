import Memplex.Lite.Reads
import Memplex.Lite.Belongs
import Memplex.Models.Defaults
import Memplex.Lib.Breadth

/-!
# Neighbours

`get_neighbors` searches the index of the edges breadth first. It returns the functions among the
nodes it has found, but it stops on the number of the nodes: ends of edges that are no stored
functions, as the nodes of domains, use up the limit.

The graph that is searched has an edge, in either direction, for each edge of a type that is asked
for. `foundIds_eq` shows that the traversal finds the first nodes in breadth-first order, of which
`Lib.Breadth` knows the distances.
-/

namespace Memplex

open Lib

/-! ## The index, by type -/

namespace EdgesByNode

/-- The edges of one type at a node. -/
def bucket (index : EdgesByNode) (nodeId edgeType : String) : List GraphEdge :=
  ((findRow Prod.fst edgeType (index.byType nodeId)).map Prod.snd).getD []

/-- The index has each edge at its ends, under its type. -/
def Filed (index : EdgesByNode) (edges : List GraphEdge) : Prop :=
  ∀ nodeId edgeType e, e ∈ index.bucket nodeId edgeType ↔
    e ∈ edges ∧ e.edgeType = edgeType ∧ (e.source = nodeId ∨ e.target = nodeId)

theorem bucket_addAt (index : EdgesByNode) (edge : GraphEdge) (nodeId other edgeType : String) :
    (index.addAt edge nodeId).bucket other edgeType =
      if nodeId = other ∧ edge.edgeType = edgeType then index.bucket other edgeType ++ [edge]
      else index.bucket other edgeType := by
  unfold bucket
  rw [byType_addAt]
  by_cases hnode : nodeId = other
  · subst hnode
    rw [if_pos rfl, findRow_upsertRow]
    by_cases htype : edge.edgeType = edgeType
    · subst htype
      rw [if_pos rfl, if_pos ⟨rfl, rfl⟩]
      rfl
    · rw [if_neg htype, if_neg fun h => htype h.2]
  · rw [if_neg hnode, if_neg fun h => hnode h.1]

/-- An edge that is indexed is filed. -/
theorem Filed.indexEdge {index : EdgesByNode} {edges : List GraphEdge} (h : index.Filed edges)
    (edge : GraphEdge) : (index.indexEdge edge).Filed (edges ++ [edge]) := by
  have hadd : ∀ {index : EdgesByNode} {nodeId other edgeType : String} {e : GraphEdge},
      e ∈ (index.addAt edge nodeId).bucket other edgeType ↔
        e ∈ index.bucket other edgeType ∨
          e = edge ∧ nodeId = other ∧ edge.edgeType = edgeType := by
    intro index nodeId other edgeType e
    rw [bucket_addAt]
    split_ifs with hnew
    · rw [List.mem_append, List.mem_singleton, and_iff_left hnew]
    · exact (or_iff_left fun hboth => hnew hboth.2).symm
  intro nodeId edgeType e
  have hends : (e ∈ edges ∧ e.edgeType = edgeType ∧ (e.source = nodeId ∨ e.target = nodeId)) ∨
      e = edge ∧ (edge.source = nodeId ∨ edge.target = nodeId) ∧ edge.edgeType = edgeType ↔
      e ∈ edges ++ [edge] ∧ e.edgeType = edgeType ∧ (e.source = nodeId ∨ e.target = nodeId) := by
    rw [List.mem_append, List.mem_singleton]
    constructor
    · rintro (⟨he, hrest⟩ | ⟨rfl, hend, htype⟩)
      · exact ⟨.inl he, hrest⟩
      · exact ⟨.inr rfl, htype, hend⟩
    · rintro ⟨he | rfl, htype, hend⟩
      · exact .inl ⟨he, htype, hend⟩
      · exact .inr ⟨rfl, hend, htype⟩
  rw [← hends, ← h nodeId edgeType e]
  unfold EdgesByNode.indexEdge
  split_ifs with hloop
  · rw [hadd, ← hloop, or_self]
  · rw [hadd, hadd, or_assoc]
    refine or_congr_right ?_
    rw [← and_or_left, ← or_and_right]

/-- A rebuilt index has all edges. -/
theorem filed_rebuild (edges : List GraphEdge) : (rebuild edges).Filed edges := by
  have hfold : ∀ (new old : List GraphEdge) (index : EdgesByNode), index.Filed old →
      (new.foldl EdgesByNode.indexEdge index).Filed (old ++ new) := by
    intro new
    induction new with
    | nil =>
      intro old index h
      rwa [List.append_nil]
    | cons edge new ih =>
      intro old index h
      have hnext := ih _ _ (h.indexEdge edge)
      rwa [List.append_assoc] at hnext
  refine hfold edges [] [] fun nodeId edgeType e => ?_
  exact iff_of_false (fun h => List.not_mem_nil h) fun h => List.not_mem_nil h.1

/-- After a commit, as after a load, the index has all edges. -/
theorem filed_committed (m : LiteMemory) :
    m.rebuildEdgeIndex.edgesByNode.Filed m.rebuildEdgeIndex.edges := filed_rebuild m.edges

/-- The edges that are selected at a node are those of the types that are asked for, or all. -/
theorem Filed.mem_selected {index : EdgesByNode} {edges : List GraphEdge} (h : index.Filed edges)
    {edgeTypes : List String} {fid : String} {e : GraphEdge} :
    e ∈ index.selected edgeTypes fid ↔
      e ∈ edges ∧ (edgeTypes = [] ∨ e.edgeType ∈ edgeTypes) ∧
        (e.source = fid ∨ e.target = fid) := by
  have hselected : e ∈ index.selected edgeTypes fid ↔
      ∃ t ∈ (if edgeTypes.isEmpty then (index.byType fid).map Prod.fst else edgeTypes),
        e ∈ index.bucket fid t := List.mem_flatMap
  rw [hselected]
  cases edgeTypes with
  | nil =>
    rw [List.isEmpty_nil, if_pos rfl]
    constructor
    · rintro ⟨t, -, he⟩
      obtain ⟨hmem, -, hend⟩ := (h fid t e).mp he
      exact ⟨hmem, .inl rfl, hend⟩
    · rintro ⟨hmem, -, hend⟩
      have he := (h fid e.edgeType e).mpr ⟨hmem, rfl, hend⟩
      refine ⟨e.edgeType, ?_, he⟩
      unfold bucket at he
      cases hfind : findRow Prod.fst e.edgeType (index.byType fid) with
      | none =>
        rw [hfind] at he
        exact (List.not_mem_nil he).elim
      | some row =>
        obtain ⟨hrow, hkey⟩ := findRow_some hfind
        exact List.mem_map.mpr ⟨row, hrow, hkey⟩
  | cons t ts =>
    rw [List.isEmpty_cons, if_neg Bool.false_ne_true]
    constructor
    · rintro ⟨t', ht', he⟩
      obtain ⟨hmem, htype, hend⟩ := (h fid t' e).mp he
      exact ⟨hmem, .inr (htype ▸ ht'), hend⟩
    · rintro ⟨hmem, htype, hend⟩
      exact ⟨e.edgeType, htype.resolve_left (List.cons_ne_nil t ts),
        (h fid e.edgeType e).mpr ⟨hmem, rfl, hend⟩⟩

end EdgesByNode

/-! ## The traversal -/

/-- The first elements up to a limit, if there is one. -/
def upTo {α : Type} (limit : Option ℕ) (xs : List α) : List α :=
  match limit with
  | none => xs
  | some n => xs.take n

/-- The other end of an edge. -/
def GraphEdge.across (e : GraphEdge) (fid : String) : String :=
  if e.source = fid then e.target else e.source

/-- The ends of the selected edges of a node. -/
def EdgesByNode.neighborIds (index : EdgesByNode) (edgeTypes : List String) (fid : String) :
    List String :=
  (index.selected edgeTypes fid).map fun e => e.across fid

namespace Traversal

/-- A node is met. -/
def meet (limit : Option ℕ) (t : Traversal) (neighbor : String) : Traversal :=
  if t.full limit || t.visited.contains neighbor then t
  else ⟨t.visited ++ [neighbor], t.next ++ [neighbor], t.found ++ [neighbor]⟩

/-- What was found is not more than the limit. -/
def Within (limit : Option ℕ) (t : Traversal) : Prop := ∀ n ∈ limit, t.found.length ≤ n

/-- A full traversal has found as many nodes as the limit lets it. -/
theorem found_of_full {limit : Option ℕ} {t : Traversal} (hwithin : t.Within limit)
    (hfull : t.full limit = true) (more : List String) :
    upTo limit (t.found ++ more) = t.found := by
  cases limit with
  | none => cases hfull
  | some n =>
    have hle : n ≤ t.found.length := by simpa [full] using hfull
    have hlength : t.found.length = n := le_antisymm (hwithin n rfl) hle
    exact List.take_left' hlength

/-- Nothing changes once the limit is reached. -/
theorem foldl_meet_full {limit : Option ℕ} {t : Traversal} (hfull : t.full limit = true)
    (vs : List String) : vs.foldl (meet limit) t = t := by
  induction vs with
  | nil => rfl
  | cons v vs ih =>
    have hmeet : t.meet limit v = t := by rw [meet, hfull, Bool.true_or, if_pos rfl]
    rw [List.foldl_cons, hmeet, ih]

/-- What is found among some nodes: those that were not visited, up to the limit. While the limit
is not reached they are also visited and in the next level. -/
theorem foldl_meet {limit : Option ℕ} (vs : List String) {t : Traversal}
    (hwithin : t.Within limit) :
    (vs.foldl (meet limit) t).Within limit ∧
      (vs.foldl (meet limit) t).found = upTo limit (t.found ++ ring t.visited vs) ∧
      ((vs.foldl (meet limit) t).full limit = false →
        vs.foldl (meet limit) t = ⟨t.visited ++ ring t.visited vs, t.next ++ ring t.visited vs,
          t.found ++ ring t.visited vs⟩) := by
  cases hfull : t.full limit with
  | true =>
    rw [foldl_meet_full hfull]
    refine ⟨hwithin, (found_of_full hwithin hfull _).symm, fun hnot => ?_⟩
    rw [hfull] at hnot
    cases hnot
  | false =>
    induction vs generalizing t with
    | nil =>
      refine ⟨hwithin, ?_, fun _ => ?_⟩
      · rw [List.foldl_nil, ring, List.append_nil]
        cases limit with
        | none => rfl
        | some n => exact (List.take_of_length_le (hwithin n rfl)).symm
      · simp only [List.foldl_nil, ring, List.append_nil]
    | cons v vs ih =>
      rw [List.foldl_cons]
      by_cases hseen : v ∈ t.visited
      · have hmeet : t.meet limit v = t := by
          rw [meet, if_pos (Bool.or_eq_true_iff.mpr (.inr (List.contains_iff_mem.mpr hseen)))]
        have hring : ring t.visited (v :: vs) = ring t.visited vs := if_pos hseen
        rw [hmeet, hring]
        exact ih hwithin hfull
      · have hmeet : t.meet limit v =
            ⟨t.visited ++ [v], t.next ++ [v], t.found ++ [v]⟩ := by
          rw [meet, hfull, Bool.false_or, if_neg (by simpa using hseen)]
        have hring : ring t.visited (v :: vs) = v :: ring (t.visited ++ [v]) vs := if_neg hseen
        have hstep : (t.meet limit v).Within limit := by
          rw [hmeet]
          rintro n rfl
          have hlt : t.found.length < n := by simpa [full] using hfull
          change (t.found ++ [v]).length ≤ n
          rw [List.length_append]
          exact hlt
        rw [hmeet] at hstep ⊢
        have hfound : upTo limit (t.found ++ ring t.visited (v :: vs)) =
            upTo limit ((t.found ++ [v]) ++ ring (t.visited ++ [v]) vs) := by
          rw [hring, List.append_assoc]
          rfl
        rw [hfound]
        cases hnext : Traversal.full ⟨t.visited ++ [v], t.next ++ [v], t.found ++ [v]⟩ limit with
        | true =>
          rw [foldl_meet_full hnext]
          refine ⟨hstep, (found_of_full hstep hnext _).symm, fun hnot => ?_⟩
          rw [hnext] at hnot
          cases hnot
        | false =>
          obtain ⟨hwithin', hfound', hstate⟩ := ih hstep hnext
          refine ⟨hwithin', hfound', fun hnot => ?_⟩
          rw [hstate hnot, hring]
          simp only [List.append_assoc, List.singleton_append]

end Traversal

namespace EdgesByNode

variable {index : EdgesByNode} {edgeTypes : List String} {limit : Option ℕ}

/-- One level of the traversal meets the neighbours of its nodes. -/
theorem foldl_follow (level : List String) (t : Traversal) :
    level.foldl (fun t fid =>
        (index.selected edgeTypes fid).foldl (Traversal.follow limit fid) t) t =
      (level.flatMap (index.neighborIds edgeTypes)).foldl (Traversal.meet limit) t := by
  induction level generalizing t with
  | nil => rfl
  | cons fid level ih =>
    rw [List.foldl_cons, ih, List.flatMap_cons, List.foldl_append]
    congr 1
    rw [neighborIds, List.foldl_map]
    rfl

/-- The traversal finds the rings after its level, up to the limit. -/
theorem traverse_found (hops : ℕ) {level : List String} {t : Traversal}
    (hwithin : t.Within limit) :
    (index.traverse edgeTypes limit hops level t).found = upTo limit
      (t.found ++ (rings (index.neighborIds edgeTypes) hops t.visited level).flatten) := by
  induction hops generalizing level t with
  | zero =>
    rw [traverse, rings, List.flatten_nil, List.append_nil]
    cases limit with
    | none => rfl
    | some n => exact (List.take_of_length_le (hwithin n rfl)).symm
  | succ hops ih =>
    have hstart : ({ t with next := [] } : Traversal).Within limit := hwithin
    obtain ⟨hwithin', hfound, hstate⟩ :=
      Traversal.foldl_meet (level.flatMap (index.neighborIds edgeTypes)) hstart
    rw [traverse, foldl_follow]
    change _ = upTo limit (t.found ++ (_ :: _ : List (List String)).flatten)
    rw [List.flatten_cons, ← List.append_assoc]
    generalize (level.flatMap (index.neighborIds edgeTypes)).foldl (Traversal.meet limit)
      { t with next := [] } = after at hwithin' hfound hstate ⊢
    -- A full traversal finds nothing more, whatever the next level is.
    cases hfull : after.full limit with
    | true =>
      have hmore : ∀ more, upTo limit (t.found ++
          ring t.visited (level.flatMap (index.neighborIds edgeTypes)) ++ more) = after.found := by
        intro more
        cases limit with
        | none => cases hfull
        | some n =>
          have hle : n ≤ after.found.length := by simpa [Traversal.full] using hfull
          rw [hfound]
          rw [hfound] at hle
          change n ≤ ((_ : List String).take n).length at hle
          exact List.take_append_of_le_length (by simpa using hle)
      rw [hmore]
      split_ifs
      · rfl
      · rw [ih hwithin', Traversal.found_of_full hwithin' hfull]
    | false =>
      rw [hstate hfull]
      dsimp only
      rw [List.nil_append]
      split_ifs with hempty
      · rw [List.isEmpty_iff.mp hempty, flatten_rings_nil]
        simp only [List.append_nil]
        have hsame := hfound
        rw [hstate hfull] at hsame
        dsimp only at hsame
        rw [List.isEmpty_iff.mp hempty, List.append_nil] at hsame
        exact hsame
      · rw [hstate hfull] at hwithin'
        exact ih hwithin'

end EdgesByNode

namespace LiteMemory

variable (m : LiteMemory)

/-- The graph of the edges of the types that are asked for, or of all. -/
def neighborhood (edgeTypes : List String) : SimpleGraph String :=
  SimpleGraph.fromRel fun a b =>
    ∃ e ∈ m.edges, (edgeTypes = [] ∨ e.edgeType ∈ edgeTypes) ∧ e.source = a ∧ e.target = b

/-- The nodes around a start, in breadth-first order. -/
def visitOrder (edgeTypes : List String) (maxHops : ℕ) (funcId : String) : List String :=
  breadthFirst (m.edgesByNode.neighborIds edgeTypes) maxHops funcId

variable {m}

/-- The neighbours in the index are those in the graph. -/
theorem neighborhood_adj (hfiled : m.edgesByNode.Filed m.edges) (edgeTypes : List String)
    (u v : String) : (m.neighborhood edgeTypes).Adj u v ↔
      v ∈ m.edgesByNode.neighborIds edgeTypes u ∧ v ≠ u := by
  unfold neighborhood EdgesByNode.neighborIds GraphEdge.across
  rw [SimpleGraph.fromRel_adj, and_comm, ne_comm]
  refine and_congr_left fun hne => ?_
  simp only [List.mem_map, hfiled.mem_selected]
  constructor
  · rintro (⟨e, he, htype, rfl, rfl⟩ | ⟨e, he, htype, rfl, rfl⟩)
    · exact ⟨e, ⟨he, htype, .inl rfl⟩, if_pos rfl⟩
    · exact ⟨e, ⟨he, htype, .inr rfl⟩, if_neg hne⟩
  · rintro ⟨e, ⟨he, htype, hend⟩, hacross⟩
    by_cases hsource : e.source = u
    · rw [if_pos hsource] at hacross
      exact .inl ⟨e, he, htype, hsource, hacross⟩
    · rw [if_neg hsource] at hacross
      exact .inr ⟨e, he, htype, hacross, hend.resolve_left hsource⟩

/-- The functions that are returned are those under the first ids in breadth-first order. -/
theorem getNeighbors_eq (funcId : String) (edgeTypes : List String) (maxHops : ℕ)
    (limit : Option ℕ) : m.getNeighbors funcId edgeTypes maxHops limit =
      (upTo limit (m.visitOrder edgeTypes maxHops funcId)).filterMap m.functions.get? := by
  unfold getNeighbors visitOrder breadthFirst
  by_cases hnone : (maxHops < 1 || limit = some 0) = true
  · rw [if_pos hnone]
    rcases Bool.or_eq_true_iff.mp hnone with hhops | hlimit
    · have hzero : maxHops = 0 := by simpa using hhops
      subst hzero
      have hnothing : upTo limit ([] : List String) = [] := by
        cases limit with
        | none => rfl
        | some n => exact List.take_nil
      change [] = (upTo limit []).filterMap m.functions.get?
      rw [hnothing]
      rfl
    · rw [of_decide_eq_true hlimit]
      rfl
  · rw [if_neg hnone]
    have hwithin : (⟨[funcId], [], []⟩ : Traversal).Within limit := by
      rintro n -
      exact Nat.zero_le n
    dsimp only
    rw [EdgesByNode.traverse_found maxHops hwithin, List.nil_append]

end LiteMemory

/-! ## Exactness -/

/-- Whether the first so many of some items are no more than those of the items that have a value,
or no item with a value comes behind them. -/
theorem filterMap_take_iff {α β : Type} {f : α → Option β} {n : ℕ} {xs : List α} :
    (xs.take n).filterMap f = (xs.filterMap f).take n ↔
      (∀ x ∈ xs.take n, (f x).isSome = true) ∨ ∀ x ∈ xs.drop n, f x = none := by
  have hsplit : xs.filterMap f = (xs.take n).filterMap f ++ (xs.drop n).filterMap f := by
    rw [← List.filterMap_append, List.take_append_drop]
  have hlength : ((xs.take n).filterMap f).length ≤ n :=
    (List.length_filterMap_le f _).trans (List.length_take_le n xs)
  have hshort : ((xs.take n).filterMap f).length = (xs.take n).length ↔
      ∀ x ∈ xs.take n, (f x).isSome = true := List.filterMap_length_eq_length
  rw [hsplit, List.take_append, List.take_of_length_le hlength, List.self_eq_append_right,
    List.take_eq_nil_iff, List.filterMap_eq_nil_iff]
  constructor
  · rintro (hfull | hnone)
    · refine .inl (hshort.mp (le_antisymm (List.length_filterMap_le f _) ?_))
      exact (List.length_take_le n xs).trans (Nat.sub_eq_zero_iff_le.mp hfull)
    · exact .inr hnone
  · rintro (hall | hnone)
    · by_cases hlong : n ≤ xs.length
      · left
        rw [hshort.mpr hall, List.length_take_of_le hlong, Nat.sub_self]
      · right
        intro x hx
        rw [List.drop_of_length_le (Nat.le_of_lt (not_le.mp hlong))] at hx
        exact (List.not_mem_nil hx).elim
    · exact .inr hnone

/-- A search of the neighbours is exact. -/
structure NeighborsExact (m : LiteMemory) (funcId : String) (edgeTypes : List String)
    (maxHops n : ℕ) : Prop where
  /-- Without a limit it returns the functions at distance 1 to `maxHops`. -/
  found : ∀ f, f ∈ m.getNeighbors funcId edgeTypes maxHops none ↔ f ∈ m.functions.rows ∧
    ∃ k : ℕ, 1 ≤ k ∧ k ≤ maxHops ∧ (m.neighborhood edgeTypes).edist funcId f.id = k
  /-- Each of them is returned once. -/
  once : (m.getNeighbors funcId edgeTypes maxHops none).Nodup
  /-- None comes before a nearer one. -/
  ordered : (m.getNeighbors funcId edgeTypes maxHops none).Pairwise fun f g =>
    (m.neighborhood edgeTypes).edist funcId f.id ≤ (m.neighborhood edgeTypes).edist funcId g.id
  /-- With the limit it returns the first ones. -/
  limited : m.getNeighbors funcId edgeTypes maxHops (some n) =
    (m.getNeighbors funcId edgeTypes maxHops none).take n

/-- A search is exact exactly when the first `n` nodes in breadth-first order are all stored
functions, or no stored function comes behind them. -/
theorem neighborsExact_iff {m : LiteMemory} (hfiled : m.edgesByNode.Filed m.edges)
    {funcId : String} {edgeTypes : List String} {maxHops n : ℕ} :
    NeighborsExact m funcId edgeTypes maxHops n ↔
      (∀ id ∈ (m.visitOrder edgeTypes maxHops funcId).take n, m.functions.contains id = true) ∨
        ∀ id ∈ (m.visitOrder edgeTypes maxHops funcId).drop n, m.functions.get? id = none := by
  have hadj := LiteMemory.neighborhood_adj hfiled edgeTypes
  have hunlimited : m.getNeighbors funcId edgeTypes maxHops none =
      (m.visitOrder edgeTypes maxHops funcId).filterMap m.functions.get? :=
    LiteMemory.getNeighbors_eq funcId edgeTypes maxHops none
  have hlimited : m.getNeighbors funcId edgeTypes maxHops (some n) =
      ((m.visitOrder edgeTypes maxHops funcId).take n).filterMap m.functions.get? :=
    LiteMemory.getNeighbors_eq funcId edgeTypes maxHops (some n)
  constructor
  · intro h
    have hfirst := h.limited
    rw [hlimited, hunlimited] at hfirst
    exact filterMap_take_iff.mp hfirst
  · intro h
    refine ⟨fun f => ?_, ?_, ?_, ?_⟩
    · rw [hunlimited, List.mem_filterMap]
      constructor
      · rintro ⟨id, hid, hf⟩
        have hid' : f.id = id := Table.get?_key (t := m.functions) hf
        subst hid'
        exact ⟨Table.mem_of_get? hf, (mem_breadthFirst hadj maxHops f.id).mp hid⟩
      · rintro ⟨hf, hdist⟩
        exact ⟨f.id, (mem_breadthFirst hadj maxHops f.id).mpr hdist,
          (Table.mem_rows_iff m.functions f).mp hf⟩
    · rw [hunlimited]
      refine List.Nodup.filterMap (fun id id' f hf hf' => ?_) (nodup_breadthFirst hadj maxHops)
      have hid : f.id = id := Table.get?_key (t := m.functions) hf
      have hid' : f.id = id' := Table.get?_key (t := m.functions) hf'
      exact hid.symm.trans hid'
    · rw [hunlimited]
      refine List.Pairwise.filterMap _ (fun id id' hle f hf g hg => ?_)
        (sorted_breadthFirst hadj maxHops)
      have hid : f.id = id := Table.get?_key (t := m.functions) hf
      have hid' : g.id = id' := Table.get?_key (t := m.functions) hg
      rw [hid, hid']
      exact hle
    · rw [hlimited, hunlimited]
      exact filterMap_take_iff.mpr h

/-! ## A domain before a function -/

/-- A function with an edge to its domain and one to another function. -/
def linkedMemory : LiteMemory :=
  (graphMemory.setBusiness { graphMemory.store.business with
    functions := graphMemory.functions.set (Function.make "session" "")
    edges := [graphEdge, ⟨"login", "session", "DEPENDS_ON", .int 1, [], none⟩] }).rebuildEdgeIndex

/-- A search over one type of edge finds functions only, and is exact. -/
theorem dependencies_exact : NeighborsExact linkedMemory "login" ["DEPENDS_ON"] 2 1 := by
  have hfiled : linkedMemory.edgesByNode.Filed linkedMemory.edges := EdgesByNode.filed_committed _
  refine (neighborsExact_iff hfiled).mpr (.inl fun id hid => ?_)
  have horder : (linkedMemory.visitOrder ["DEPENDS_ON"] 2 "login").take 1 = ["session"] := by decide
  rw [horder] at hid
  obtain rfl := List.mem_singleton.mp hid
  decide

/-- The node of the domain uses up the limit. -/
theorem domain_not_exact : ¬ NeighborsExact linkedMemory "login" [] 1 1 := by
  intro h
  have hlength := congrArg List.length h.limited
  have hlimited : (linkedMemory.getNeighbors "login" [] 1 (some 1)).length = 0 := by decide
  have hfirst : ((linkedMemory.getNeighbors "login" [] 1 none).take 1).length = 1 := by decide
  rw [hlimited, hfirst] at hlength
  cases hlength

end Memplex
