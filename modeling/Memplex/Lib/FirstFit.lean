import Mathlib.Data.List.Perm.Basic

/-!
# First-fit clustering

Items arrive one after the other. Each joins the first cluster whose summary it fits, or starts a
cluster of its own. What an item is, what a cluster is summed up by and when an item fits are
parameters: whatever they are, the clusters together are the items that arrived, each as often as
it did, and none of them is empty.
-/

namespace Memplex.Lib

variable {α σ : Type}

/-- A cluster: its members in the order of their arrival, and what an item is compared with. -/
structure Cluster (α σ : Type) where
  members : List α
  summary : σ
deriving DecidableEq

/-- How items are compared with clusters. -/
structure FirstFit (α σ : Type) where
  /-- Whether an item belongs to the cluster of a summary. -/
  fits : α → σ → Bool
  /-- The summary of an item alone. -/
  start : α → σ
  /-- The summary of a cluster that an item has joined, with the new number of its members. -/
  join : ℕ → σ → α → σ

namespace FirstFit

variable (R : FirstFit α σ)

/-- One arrival. -/
def place (x : α) : List (Cluster α σ) → List (Cluster α σ)
  | [] => [⟨[x], R.start x⟩]
  | c :: cs =>
    if R.fits x c.summary then
      ⟨c.members ++ [x], R.join (c.members.length + 1) c.summary x⟩ :: cs
    else c :: place x cs

/-- All arrivals, in order. -/
def run (xs : List α) : List (Cluster α σ) := xs.foldl (fun cs x => R.place x cs) []

/-- The members of the clusters, one list for each. -/
def groups (cs : List (Cluster α σ)) : List (List α) := cs.map Cluster.members

@[simp] theorem groups_nil : groups ([] : List (Cluster α σ)) = [] := rfl

@[simp] theorem groups_cons (c : Cluster α σ) (cs : List (Cluster α σ)) :
    groups (c :: cs) = c.members :: groups cs := rfl

/-- An arrival adds the item to the members and changes nothing else of them. -/
theorem perm_place (x : α) (cs : List (Cluster α σ)) :
    (groups (R.place x cs)).flatten.Perm (x :: (groups cs).flatten) := by
  induction cs with
  | nil => exact List.Perm.refl _
  | cons c cs ih =>
    by_cases hfit : R.fits x c.summary = true
    · have hplace : groups (R.place x (c :: cs)) = (c.members ++ [x]) :: groups cs := by
        simp [place, hfit]
      rw [hplace, groups_cons, List.flatten_cons, List.flatten_cons, List.append_assoc]
      exact List.perm_middle
    · have hplace : groups (R.place x (c :: cs)) = c.members :: groups (R.place x cs) := by
        simp [place, hfit]
      rw [hplace, groups_cons, List.flatten_cons, List.flatten_cons]
      exact (ih.append_left c.members).trans List.perm_middle

/-- No arrival leaves an empty cluster. -/
theorem place_ne_nil {x : α} {cs : List (Cluster α σ)} (h : ∀ g ∈ groups cs, g ≠ []) :
    ∀ g ∈ groups (R.place x cs), g ≠ [] := by
  induction cs with
  | nil => simp [place]
  | cons c cs ih =>
    rw [groups_cons, List.forall_mem_cons] at h
    by_cases hfit : R.fits x c.summary = true
    · simpa [place, hfit] using h.2
    · simpa [place, hfit] using ⟨h.1, ih h.2⟩

/-- After any number of arrivals the members are those from before and the items that arrived. -/
theorem perm_foldl_place (xs : List α) (cs : List (Cluster α σ)) :
    (groups (xs.foldl (fun cs x => R.place x cs) cs)).flatten.Perm
      (xs ++ (groups cs).flatten) := by
  induction xs generalizing cs with
  | nil => exact List.Perm.refl _
  | cons x xs ih =>
    calc (groups ((x :: xs).foldl (fun cs x => R.place x cs) cs)).flatten
        |>.Perm (xs ++ (groups (R.place x cs)).flatten) := ih _
      _ |>.Perm (xs ++ x :: (groups cs).flatten) := (R.perm_place x cs).append_left xs
      _ |>.Perm (x :: xs ++ (groups cs).flatten) := List.perm_middle

/-- The clusters together are the items, each as often as it arrived. -/
theorem perm_run (xs : List α) : (groups (R.run xs)).flatten.Perm xs := by
  have hfold := R.perm_foldl_place xs []
  rw [groups_nil, List.flatten_nil, List.append_nil] at hfold
  exact hfold

/-- No cluster is empty. -/
theorem run_ne_nil (xs : List α) : ∀ g ∈ groups (R.run xs), g ≠ [] := by
  have hfold : ∀ (xs : List α) (cs : List (Cluster α σ)), (∀ g ∈ groups cs, g ≠ []) →
      ∀ g ∈ groups (xs.foldl (fun cs x => R.place x cs) cs), g ≠ [] := by
    intro xs
    induction xs with
    | nil => exact fun _ h => h
    | cons x xs ih => exact fun cs h => ih _ (R.place_ne_nil h)
  exact hfold xs [] (by simp)

end FirstFit

end Memplex.Lib
