import Memplex.Lib.Rows

/-!
# Grouping

A list is grouped by a key in one pass: each item is appended to the group of its key, which is
opened when its first item comes. The groups are what the list has under each key, in the order of
the list.
-/

namespace Memplex.Lib

variable {α κ : Type} [DecidableEq κ]

/-- Groups by their keys, in the order in which they were opened. -/
abbrev Groups (κ α : Type) := List (κ × List α)

namespace Groups

/-- The items of a group. -/
def items (g : Groups κ α) (k : κ) : List α := ((findRow Prod.fst k g).map Prod.snd).getD []

/-- An item is appended to the group of a key. -/
def enter (g : Groups κ α) (k : κ) (x : α) : Groups κ α :=
  upsertRow Prod.fst (k, g.items k ++ [x]) g

/-- All items are appended to the groups of their keys. -/
def ofList (key : α → κ) (xs : List α) : Groups κ α := xs.foldl (fun g x => g.enter (key x) x) []

/-- No key has two groups, and no group is empty. -/
structure Proper (g : Groups κ α) : Prop where
  nodup : (g.map Prod.fst).Nodup
  ne_nil : ∀ row ∈ g, row.2 ≠ []

theorem items_enter (g : Groups κ α) (k k' : κ) (x : α) :
    (g.enter k x).items k' = if k = k' then g.items k' ++ [x] else g.items k' := by
  unfold items enter
  rw [findRow_upsertRow]
  split_ifs with h
  · subst h
    rfl
  · rfl

theorem Proper.enter {g : Groups κ α} (h : g.Proper) (k : κ) (x : α) : (g.enter k x).Proper := by
  refine ⟨nodup_upsertRow h.nodup, fun row hrow => ?_⟩
  rcases mem_upsertRow.mp hrow with rfl | ⟨hrow, -⟩
  · simp
  · exact h.ne_nil row hrow

/-- A group is found by its key. -/
theorem Proper.mem_iff {g : Groups κ α} (h : g.Proper) {k : κ} {xs : List α} :
    (k, xs) ∈ g ↔ xs = g.items k ∧ xs ≠ [] := by
  constructor
  · intro hrow
    refine ⟨?_, h.ne_nil _ hrow⟩
    rw [items, findRow_of_mem h.nodup hrow]
    rfl
  · rintro ⟨rfl, hne⟩
    unfold items at hne ⊢
    cases hfind : findRow Prod.fst k g with
    | none =>
      rw [hfind] at hne
      exact absurd rfl hne
    | some row =>
      obtain ⟨hrow, hkey⟩ := findRow_some hfind
      rw [← hkey]
      exact hrow

/-- What entering items one after the other leaves. -/
theorem foldl_enter (key : α → κ) (xs : List α) {g : Groups κ α} (h : g.Proper) :
    (xs.foldl (fun g x => g.enter (key x) x) g).Proper ∧
      ∀ k, (xs.foldl (fun g x => g.enter (key x) x) g).items k =
        g.items k ++ xs.filter fun x => key x = k := by
  induction xs generalizing g with
  | nil => exact ⟨h, fun k => (List.append_nil _).symm⟩
  | cons x xs ih =>
    obtain ⟨hproper, hitems⟩ := ih (h.enter (key x) x)
    refine ⟨hproper, fun k => (hitems k).trans ?_⟩
    rw [items_enter, List.filter_cons]
    by_cases hk : key x = k
    · simp [hk]
    · simp [hk]

omit [DecidableEq κ] in
theorem proper_nil : Proper ([] : Groups κ α) :=
  ⟨List.nodup_nil, fun _ hrow => (List.not_mem_nil hrow).elim⟩

theorem ofList_proper (key : α → κ) (xs : List α) : (ofList key xs).Proper :=
  (foldl_enter key xs proper_nil).1

/-- The groups of a list are what the list has under each key. -/
theorem mem_ofList (key : α → κ) {xs ys : List α} {k : κ} :
    (k, ys) ∈ ofList key xs ↔ ys = (xs.filter fun x => key x = k) ∧ ys ≠ [] := by
  rw [(ofList_proper key xs).mem_iff]
  have hitems : (ofList key xs).items k = xs.filter fun x => key x = k :=
    (foldl_enter key xs proper_nil).2 k
  rw [hitems]

end Groups

end Memplex.Lib
