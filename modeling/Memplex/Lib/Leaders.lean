import Mathlib.Data.List.Nodup
import Mathlib.Data.List.Perm.Basic

/-!
# Leader clustering

A list is scanned from the left. An item that no cluster has taken yet leads a cluster of its own,
which takes all later items that are similar to it and that none has taken. What is taken is
recorded by the ids of the items: an item whose id is taken is passed over, whether or not it is the
item that was taken. Similarity is an arbitrary relation between positions, which need not be
symmetric or transitive.

The clusters have no id twice, and every id of the list. So they are the list, cut into pieces and
reordered, exactly if no id is in the list twice (`perm_leaders`, `nodup_of_subset_leaders`).
-/

namespace Memplex.Lib

variable {α β ι : Type} [DecidableEq ι] (idOf : α → ι) (similar : ℕ → ℕ → Bool)

/-- What the leader at position `i` takes of the items from position `j` on, and the ids that are
taken then. -/
def takeSimilar (i : ℕ) : List ι → ℕ → List α → List α × List ι
  | taken, _, [] => ([], taken)
  | taken, j, x :: xs =>
    if idOf x ∈ taken then takeSimilar i taken (j + 1) xs
    else if similar i j then
      let rest := takeSimilar i (idOf x :: taken) (j + 1) xs
      (x :: rest.1, rest.2)
    else takeSimilar i taken (j + 1) xs

/-- The clusters of the items from position `i` on. -/
def leaders : List ι → ℕ → List α → List (List α)
  | _, _, [] => []
  | taken, i, x :: xs =>
    if idOf x ∈ taken then leaders taken (i + 1) xs
    else
      let similarTo := takeSimilar idOf similar i (idOf x :: taken) (i + 1) xs
      (x :: similarTo.1) :: leaders similarTo.2 (i + 1) xs

variable {idOf similar}

/-- What a leader takes: items of the list, with ids that are new and distinct; those are then
taken, in addition to the ids before. -/
theorem takeSimilar_spec (idOf : α → ι) (similar : ℕ → ℕ → Bool) (i : ℕ) (taken : List ι) (j : ℕ)
    (xs : List α) :
    (∀ x ∈ (takeSimilar idOf similar i taken j xs).1, x ∈ xs) ∧
      (((takeSimilar idOf similar i taken j xs).1.map idOf) ++ taken).Perm
        (takeSimilar idOf similar i taken j xs).2 ∧
      (taken.Nodup → (takeSimilar idOf similar i taken j xs).2.Nodup) := by
  induction xs generalizing taken j with
  | nil => exact ⟨fun _ h => h, List.Perm.refl _, id⟩
  | cons x xs ih =>
    by_cases hx : idOf x ∈ taken
    · have hskip : takeSimilar idOf similar i taken j (x :: xs) =
          takeSimilar idOf similar i taken (j + 1) xs := if_pos hx
      obtain ⟨hmem, hperm, hnodup⟩ := ih taken (j + 1)
      rw [hskip]
      exact ⟨fun y hy => List.mem_cons_of_mem _ (hmem y hy), hperm, hnodup⟩
    · by_cases hs : similar i j = true
      · have htake : takeSimilar idOf similar i taken j (x :: xs) =
            (x :: (takeSimilar idOf similar i (idOf x :: taken) (j + 1) xs).1,
              (takeSimilar idOf similar i (idOf x :: taken) (j + 1) xs).2) := by
          rw [takeSimilar, if_neg hx, if_pos hs]
        obtain ⟨hmem, hperm, hnodup⟩ := ih (idOf x :: taken) (j + 1)
        rw [htake]
        refine ⟨fun y hy => ?_, List.perm_middle.symm.trans hperm,
          fun hd => hnodup (List.nodup_cons.mpr ⟨hx, hd⟩)⟩
        rcases List.mem_cons.mp hy with rfl | hy
        · exact List.mem_cons_self
        · exact List.mem_cons_of_mem _ (hmem y hy)
      · have hskip : takeSimilar idOf similar i taken j (x :: xs) =
            takeSimilar idOf similar i taken (j + 1) xs := by
          rw [takeSimilar, if_neg hx, if_neg hs]
        obtain ⟨hmem, hperm, hnodup⟩ := ih taken (j + 1)
        rw [hskip]
        exact ⟨fun y hy => List.mem_cons_of_mem _ (hmem y hy), hperm, hnodup⟩

/-- The clusters: items of the list, with ids that are new and distinct, and every id of the list
that was not taken before. -/
theorem leaders_spec (idOf : α → ι) (similar : ℕ → ℕ → Bool) (taken : List ι) (hd : taken.Nodup)
    (i : ℕ) (xs : List α) :
    (∀ x ∈ (leaders idOf similar taken i xs).flatten, x ∈ xs) ∧
      (((leaders idOf similar taken i xs).flatten.map idOf) ++ taken).Nodup ∧
      (∀ x ∈ xs, idOf x ∈ ((leaders idOf similar taken i xs).flatten.map idOf) ++ taken) ∧
      ∀ c ∈ leaders idOf similar taken i xs, c ≠ [] := by
  induction xs generalizing taken i with
  | nil => exact ⟨fun _ h => h, hd, fun _ h => (List.not_mem_nil h).elim,
      fun _ h => (List.not_mem_nil h).elim⟩
  | cons x xs ih =>
    by_cases hx : idOf x ∈ taken
    · have hskip : leaders idOf similar taken i (x :: xs) =
          leaders idOf similar taken (i + 1) xs := if_pos hx
      obtain ⟨hmem, hnodup, hall, hne⟩ := ih taken hd (i + 1)
      rw [hskip]
      refine ⟨fun y hy => List.mem_cons_of_mem _ (hmem y hy), hnodup, fun y hy => ?_, hne⟩
      rcases List.mem_cons.mp hy with rfl | hy
      · exact List.mem_append_right _ hx
      · exact hall y hy
    · obtain ⟨htmem, htperm, htnodup⟩ :=
        takeSimilar_spec idOf similar i (idOf x :: taken) (i + 1) xs
      have hlead : leaders idOf similar taken i (x :: xs) =
          (x :: (takeSimilar idOf similar i (idOf x :: taken) (i + 1) xs).1) ::
            leaders idOf similar (takeSimilar idOf similar i (idOf x :: taken) (i + 1) xs).2
              (i + 1) xs := if_neg hx
      obtain ⟨hmem, hnodup, hall, hne⟩ :=
        ih _ (htnodup (List.nodup_cons.mpr ⟨hx, hd⟩)) (i + 1)
      rw [hlead]
      generalize takeSimilar idOf similar i (idOf x :: taken) (i + 1) xs = similarTo at *
      generalize leaders idOf similar similarTo.2 (i + 1) xs = others at *
      -- The ids of the cluster and of the others, with those from before, are what the others say.
      have hids : ((((x :: similarTo.1) :: others).flatten.map idOf) ++ taken).Perm
          (others.flatten.map idOf ++ similarTo.2) := by
        rw [List.flatten_cons, List.map_append, List.map_cons, List.cons_append]
        calc idOf x :: (similarTo.1.map idOf ++ others.flatten.map idOf) ++ taken
            |>.Perm (idOf x :: (others.flatten.map idOf ++ similarTo.1.map idOf) ++ taken) :=
              (List.perm_append_comm.cons _).append_right _
          _ |>.Perm (others.flatten.map idOf ++ (similarTo.1.map idOf ++ idOf x :: taken)) := by
              rw [List.cons_append, List.append_assoc]
              refine List.Perm.trans ?_ (List.perm_middle.symm.append_left _)
              exact List.perm_middle.symm
          _ |>.Perm (others.flatten.map idOf ++ similarTo.2) := htperm.append_left _
      refine ⟨fun y hy => ?_, hids.nodup_iff.mpr hnodup, fun y hy => hids.mem_iff.mpr ?_,
        List.forall_mem_cons.mpr ⟨List.cons_ne_nil _ _, hne⟩⟩
      · rw [List.flatten_cons, List.cons_append, List.mem_cons, List.mem_append] at hy
        rcases hy with rfl | hy | hy
        · exact List.mem_cons_self
        · exact List.mem_cons_of_mem _ (htmem y hy)
        · exact List.mem_cons_of_mem _ (hmem y hy)
      · rcases List.mem_cons.mp hy with rfl | hy
        · refine List.mem_append_right _ (htperm.mem_iff.mp ?_)
          exact List.mem_append_right _ List.mem_cons_self
        · exact hall y hy

/-- Where no id is in the list twice, the clusters are the items of the list. -/
theorem perm_leaders {xs : List α} (hd : (xs.map idOf).Nodup) :
    (leaders idOf similar [] 0 xs).flatten.Perm xs := by
  obtain ⟨hmem, hnodup, hall, -⟩ :=
    leaders_spec idOf similar [] List.nodup_nil 0 xs
  rw [List.append_nil] at hnodup hall
  refine (List.perm_ext_iff_of_nodup (List.Nodup.of_map _ hnodup) (List.Nodup.of_map _ hd)).mpr
    fun x => ⟨hmem x, fun hx => ?_⟩
  obtain ⟨y, hy, hyx⟩ := List.mem_map.mp (hall x hx)
  exact List.inj_on_of_nodup_map hd (hmem y hy) hx hyx ▸ hy

/-- Where the clusters have every item of a list without repetition, no id is in it twice. -/
theorem nodup_of_subset_leaders {xs : List α} (hd : xs.Nodup)
    (hall : ∀ x ∈ xs, x ∈ (leaders idOf similar [] 0 xs).flatten) : (xs.map idOf).Nodup := by
  obtain ⟨hmem, hnodup, -⟩ :=
    leaders_spec idOf similar [] List.nodup_nil 0 xs
  rw [List.append_nil] at hnodup
  have hperm : (leaders idOf similar [] 0 xs).flatten.Perm xs :=
    (List.perm_ext_iff_of_nodup (List.Nodup.of_map _ hnodup) hd).mpr
      fun x => ⟨hmem x, hall x⟩
  exact (hperm.map idOf).nodup_iff.mp hnodup

/-- No cluster is empty. -/
theorem leaders_ne_nil {xs : List α} : ∀ c ∈ leaders idOf similar [] 0 xs, c ≠ [] :=
  (leaders_spec idOf similar [] List.nodup_nil 0 xs).2.2.2

/-- A map of the items that keeps their ids commutes with what a leader takes. -/
theorem takeSimilar_map {f : β → α} (i : ℕ) (taken : List ι) (j : ℕ) (xs : List β) :
    takeSimilar idOf similar i taken j (xs.map f) =
      Prod.map (List.map f) id (takeSimilar (idOf ∘ f) similar i taken j xs) := by
  induction xs generalizing taken j with
  | nil => rfl
  | cons x xs ih =>
    simp only [List.map_cons, takeSimilar, Function.comp_apply, ih]
    split_ifs <;> rfl

/-- A map of the items that keeps their ids commutes with the clustering. -/
theorem leaders_map {f : β → α} (taken : List ι) (i : ℕ) (xs : List β) :
    leaders idOf similar taken i (xs.map f) =
      (leaders (idOf ∘ f) similar taken i xs).map (List.map f) := by
  induction xs generalizing taken i with
  | nil => rfl
  | cons x xs ih =>
    simp only [List.map_cons, leaders, Function.comp_apply, ih, takeSimilar_map]
    split_ifs <;> rfl

end Memplex.Lib
