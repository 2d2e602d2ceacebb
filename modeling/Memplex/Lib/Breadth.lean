import Mathlib.Combinatorics.SimpleGraph.Metric
import Mathlib.Data.List.Nodup

/-!
# Breadth-first order

The vertices of a graph around a start, ring by ring: a ring has, in the order in which they are
met, the neighbours of the ring before that were not seen yet. The `k`-th ring is the sphere of
radius `k`, so that `n` rings have exactly the vertices at distance 1 to `n`, each once, in
non-decreasing distance.

A vertex may be among its own neighbours in the lists that are searched; the graph has no loops.
-/

namespace Memplex.Lib

variable {ν : Type} [DecidableEq ν]

/-- The candidates that were not seen, in the order of their first occurrences. -/
def ring (seen : List ν) : List ν → List ν
  | [] => []
  | v :: vs => if v ∈ seen then ring seen vs else v :: ring (seen ++ [v]) vs

/-- The rings after a level. -/
def rings (adj : ν → List ν) : ℕ → List ν → List ν → List (List ν)
  | 0, _, _ => []
  | n + 1, seen, level =>
    ring seen (level.flatMap adj) ::
      rings adj n (seen ++ ring seen (level.flatMap adj)) (ring seen (level.flatMap adj))

/-- The vertices within a number of steps, in breadth-first order. -/
def breadthFirst (adj : ν → List ν) (n : ℕ) (start : ν) : List ν :=
  (rings adj n [start] [start]).flatten

theorem mem_ring {seen vs : List ν} {v : ν} : v ∈ ring seen vs ↔ v ∈ vs ∧ v ∉ seen := by
  induction vs generalizing seen with
  | nil => simp [ring]
  | cons u vs ih =>
    unfold ring
    split_ifs with hu
    · rw [ih, List.mem_cons]
      constructor
      · exact fun ⟨hv, hseen⟩ => ⟨.inr hv, hseen⟩
      · rintro ⟨rfl | hv, hseen⟩
        · exact absurd hu hseen
        · exact ⟨hv, hseen⟩
    · rw [List.mem_cons, ih, List.mem_append, List.mem_singleton, List.mem_cons]
      constructor
      · rintro (rfl | ⟨hv, hseen⟩)
        · exact ⟨.inl rfl, hu⟩
        · exact ⟨.inr hv, fun h => hseen (.inl h)⟩
      · rintro ⟨hv, hseen⟩
        by_cases hsame : v = u
        · exact .inl hsame
        · exact .inr ⟨hv.resolve_left hsame, not_or.mpr ⟨hseen, hsame⟩⟩

theorem nodup_ring (seen vs : List ν) : (ring seen vs).Nodup := by
  induction vs generalizing seen with
  | nil => exact List.nodup_nil
  | cons u vs ih =>
    unfold ring
    split_ifs
    · exact ih seen
    · refine List.nodup_cons.mpr ⟨fun hu => ?_, ih _⟩
      exact (mem_ring.mp hu).2 (List.mem_append_right _ (List.mem_singleton_self u))

/-- Nothing is found from an empty level. -/
theorem flatten_rings_nil (adj : ν → List ν) (n : ℕ) (seen : List ν) :
    (rings adj n seen []).flatten = [] := by
  induction n generalizing seen with
  | zero => rfl
  | succ n ih =>
    change (([] : List ν) :: rings adj n (seen ++ []) []).flatten = []
    rw [List.flatten_cons, List.nil_append]
    exact ih _

/-! ## Rings are spheres -/

variable {G : SimpleGraph ν}

omit [DecidableEq ν] in
/-- A vertex is one step further than `d` exactly when it is not within `d` and has a neighbour
there. -/
theorem edist_eq_succ_iff {s v : ν} {d : ℕ} : G.edist s v = (d + 1 : ℕ) ↔
    ¬ G.edist s v ≤ d ∧ ∃ u, G.edist s u = d ∧ G.Adj u v := by
  constructor
  · intro h
    refine ⟨?_, ?_⟩
    · rw [h, Nat.cast_le]
      exact Nat.not_succ_le_self d
    · rw [SimpleGraph.edist_comm] at h
      obtain ⟨p, hp⟩ := G.exists_walk_of_edist_eq_coe h
      cases p with
      | nil => cases hp
      | @cons _ u _ hadj q =>
        have hq : q.length = d := by simpa using hp
        have hle : G.edist u s ≤ d := hq ▸ G.edist_le q
        refine ⟨u, le_antisymm (by rwa [SimpleGraph.edist_comm]) ?_, hadj.symm⟩
        have htriangle := G.edist_triangle (u := v) (v := u) (w := s)
        rw [h, SimpleGraph.edist_eq_one_iff_adj.mpr hadj, SimpleGraph.edist_comm (u := u),
          Nat.cast_add, Nat.cast_one, add_comm] at htriangle
        exact (ENat.add_le_add_iff_left ENat.one_ne_top).mp htriangle
  · rintro ⟨hfar, u, hu, hadj⟩
    have htriangle := G.edist_triangle (u := s) (v := u) (w := v)
    rw [hu, SimpleGraph.edist_eq_one_iff_adj.mpr hadj] at htriangle
    exact le_antisymm htriangle (Order.add_one_le_of_lt (not_le.mp hfar))

/-- What has been seen up to a distance. -/
structure Explored (G : SimpleGraph ν) (s : ν) (d : ℕ) (seen level : List ν) : Prop where
  seen : ∀ v, v ∈ seen ↔ G.edist s v ≤ d
  level : ∀ v, v ∈ level ↔ G.edist s v = d

omit [DecidableEq ν] in
theorem explored_start (s : ν) : Explored G s 0 [s] [s] := by
  have hstart : ∀ v, v ∈ [s] ↔ G.edist s v = 0 := fun v => by
    rw [List.mem_singleton, SimpleGraph.edist_eq_zero_iff, eq_comm]
  exact ⟨fun v => by rw [hstart, Nat.cast_zero, nonpos_iff_eq_zero], hstart⟩

variable {adj : ν → List ν} (hadj : ∀ u v, G.Adj u v ↔ v ∈ adj u ∧ v ≠ u) {s : ν}

include hadj

/-- The ring after a level is the next sphere. -/
theorem Explored.mem_ring {d : ℕ} {seen level : List ν} (h : Explored G s d seen level) (v : ν) :
    v ∈ ring seen (level.flatMap adj) ↔ G.edist s v = (d + 1 : ℕ) := by
  rw [Lib.mem_ring, edist_eq_succ_iff, h.seen, and_comm, List.mem_flatMap]
  refine and_congr_right fun hfar => exists_congr fun u => ?_
  rw [h.level, hadj]
  refine and_congr_right fun hu => (and_iff_left ?_).symm
  rintro rfl
  exact hfar hu.le

theorem Explored.next {d : ℕ} {seen level : List ν} (h : Explored G s d seen level) :
    Explored G s (d + 1) (seen ++ ring seen (level.flatMap adj))
      (ring seen (level.flatMap adj)) := by
  refine ⟨fun v => ?_, h.mem_ring hadj⟩
  rw [List.mem_append, h.seen, h.mem_ring hadj]
  constructor
  · rintro (hle | heq)
    · exact hle.trans (Nat.cast_le.mpr (Nat.le_succ d))
    · exact heq.le
  · intro hle
    rcases hle.lt_or_eq with hlt | heq
    · exact .inl (Order.le_of_lt_add_one hlt)
    · exact .inr heq

/-- What the rings after a level have. -/
theorem Explored.mem_rings (n : ℕ) {d : ℕ} {seen level : List ν} (h : Explored G s d seen level)
    (v : ν) : v ∈ (rings adj n seen level).flatten ↔
      ∃ k : ℕ, d < k ∧ k ≤ d + n ∧ G.edist s v = k := by
  induction n generalizing d seen level with
  | zero =>
    refine iff_of_false (fun hv => List.not_mem_nil hv) ?_
    rintro ⟨k, hlt, hle, -⟩
    omega
  | succ n ih =>
    change v ∈ (_ :: _ : List (List ν)).flatten ↔ _
    rw [List.flatten_cons, List.mem_append, ih (h.next hadj), h.mem_ring hadj]
    constructor
    · rintro (heq | ⟨k, hlt, hle, heq⟩)
      · exact ⟨d + 1, by omega, by omega, heq⟩
      · exact ⟨k, by omega, by omega, heq⟩
    · rintro ⟨k, hlt, hle, heq⟩
      by_cases hfirst : k = d + 1
      · exact .inl (hfirst ▸ heq)
      · exact .inr ⟨k, by omega, by omega, heq⟩

/-- The rings after a level have no vertex twice, and none before a nearer one. -/
theorem Explored.rings_sorted (n : ℕ) {d : ℕ} {seen level : List ν}
    (h : Explored G s d seen level) : (rings adj n seen level).flatten.Nodup ∧
      (rings adj n seen level).flatten.Pairwise fun u v => G.edist s u ≤ G.edist s v := by
  induction n generalizing d seen level with
  | zero => exact ⟨List.nodup_nil, List.Pairwise.nil⟩
  | succ n ih =>
    obtain ⟨hnodup, hsorted⟩ := ih (h.next hadj)
    have hbehind : ∀ u ∈ ring seen (level.flatMap adj), ∀ v ∈ (rings adj n (seen ++
        ring seen (level.flatMap adj)) (ring seen (level.flatMap adj))).flatten,
        G.edist s u < G.edist s v := by
      intro u hu v hv
      obtain ⟨k, hlt, -, heq⟩ := ((h.next hadj).mem_rings hadj n v).mp hv
      rw [(h.mem_ring hadj u).mp hu, heq]
      exact Nat.cast_lt.mpr hlt
    change (_ :: _ : List (List ν)).flatten.Nodup ∧ (_ :: _ : List (List ν)).flatten.Pairwise _
    rw [List.flatten_cons]
    constructor
    · refine List.nodup_append.mpr ⟨nodup_ring _ _, hnodup, fun u hu v hv heq => ?_⟩
      exact (hbehind u hu v hv).ne (heq ▸ rfl)
    · refine List.pairwise_append.mpr ⟨?_, hsorted, fun u hu v hv => (hbehind u hu v hv).le⟩
      refine List.pairwise_of_forall_mem_list fun u hu v hv => ?_
      rw [(h.mem_ring hadj u).mp hu, (h.mem_ring hadj v).mp hv]

/-- The vertices that are found are those at distance 1 to `n`. -/
theorem mem_breadthFirst (n : ℕ) (v : ν) :
    v ∈ breadthFirst adj n s ↔ ∃ k : ℕ, 1 ≤ k ∧ k ≤ n ∧ G.edist s v = k := by
  rw [breadthFirst, (explored_start s).mem_rings hadj n v, Nat.zero_add]
  rfl

theorem nodup_breadthFirst (n : ℕ) : (breadthFirst adj n s).Nodup :=
  ((explored_start s).rings_sorted hadj n).1

/-- They are found in non-decreasing distance. -/
theorem sorted_breadthFirst (n : ℕ) :
    (breadthFirst adj n s).Pairwise fun u v => G.edist s u ≤ G.edist s v :=
  ((explored_start s).rings_sorted hadj n).2

end Memplex.Lib
