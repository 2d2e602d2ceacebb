import Mathlib.Algebra.BigOperators.Group.Finset.Basic
import Mathlib.Algebra.GroupWithZero.Nat
import Mathlib.Algebra.Order.BigOperators.Group.Multiset
import Memplex.Lib.Rows

/-!
# Tickets that are counted by key

Tickets are drawn under a key, held somewhere, and given back. A table counts the ones that are out:
one row for each key with a ticket (`Tallies`), which goes up where one is drawn (`Tallies.cons`)
and down where one comes back (`Tallies.erase`). The rows sum up to the number of tickets
(`Tallies.sum_eq`).

The holders are a list, of which one changes at a time; `sum_map_set` and `count_flatMap_set` say
what this does to what they hold together.
-/

namespace Memplex.Lib

/-! ## Counts by key -/

/-- A count for some keys. -/
abbrev Tally (κ : Type*) := Table (Prod.fst : κ × ℕ → κ)

section Tallies

variable {κ : Type*} [DecidableEq κ]

/-- The count of a key. -/
def Tally.countOf (t : Tally κ) (k : κ) : ℕ := ((t.get? k).map Prod.snd).getD 0

/-- The tally with one more under a key. -/
def Tally.add (t : Tally κ) (k : κ) : Tally κ := t.set (k, t.countOf k + 1)

/-- The tally with one less under a key, which goes with the last one. -/
def Tally.drop (t : Tally κ) (k : κ) : Tally κ :=
  if t.countOf k ≤ 1 then t.erase k else t.set (k, t.countOf k - 1)

/-- The tally counts some keys. -/
def Tallies (t : Tally κ) (keys : List κ) : Prop :=
  ∀ k, t.get? k = if keys.count k = 0 then none else some (k, keys.count k)

theorem tallies_empty : Tallies (.empty : Tally κ) [] := fun _ => rfl

variable {t : Tally κ} {keys : List κ}

theorem Tallies.congr {keys' : List κ} (h : Tallies t keys)
    (hcount : ∀ k, keys'.count k = keys.count k) : Tallies t keys' := by
  intro k
  rw [hcount, h k]

theorem Tallies.countOf (h : Tallies t keys) (k : κ) : t.countOf k = keys.count k := by
  rw [Tally.countOf, h k]
  split_ifs with hzero
  · exact hzero.symm
  · rfl

/-- One more key. -/
theorem Tallies.cons (h : Tallies t keys) (k : κ) : Tallies (t.add k) (k :: keys) := by
  intro k'
  rw [Tally.add, Table.get?_set, h.countOf]
  by_cases hk : k = k'
  · subst hk
    rw [if_pos rfl, List.count_cons_self, if_neg (Nat.succ_ne_zero _)]
  · rw [if_neg hk, List.count_cons_of_ne hk, h k']

/-- One key less. -/
theorem Tallies.erase {keys' : List κ} {k : κ} (h : Tallies t keys)
    (hkeys : ∀ k', keys.count k' = (k :: keys').count k') : Tallies (t.drop k) keys' := by
  intro k'
  rw [Tally.drop, h.countOf, hkeys, List.count_cons_self]
  by_cases hk : k' = k
  · subst hk
    by_cases hlast : keys'.count k' = 0
    · rw [if_pos (by omega), Table.get?_erase, if_pos rfl, if_pos hlast]
    · rw [if_neg (by omega), Table.get?_set, if_pos rfl, if_neg hlast, Nat.add_sub_cancel]
  · have hsame : t.get? k' = if keys'.count k' = 0 then none else some (k', keys'.count k') := by
      rw [h k', hkeys, List.count_cons_of_ne (Ne.symm hk)]
    rw [← hsame]
    split_ifs
    · rw [Table.get?_erase, if_neg hk]
    · rw [Table.get?_set, if_neg (Ne.symm hk)]

/-- The counts sum up to the number of keys. -/
theorem Tallies.sum_eq (h : Tallies t keys) : (t.rows.map Prod.snd).sum = keys.length := by
  have hrow : ∀ row ∈ t.rows, row.2 = keys.count row.1 := by
    intro row hrow
    have hget := (t.mem_rows_iff row).mp hrow
    rw [h row.1] at hget
    split_ifs at hget
    exact (congrArg Prod.snd (Option.some.inj hget)).symm
  have hkeys : (t.rows.map Prod.fst).toFinset = keys.toFinset := by
    ext k
    rw [List.mem_toFinset, List.mem_toFinset, List.mem_map, ← List.count_pos_iff]
    constructor
    · rintro ⟨row, hmem, rfl⟩
      have hget := (t.mem_rows_iff row).mp hmem
      rw [h row.1] at hget
      split_ifs at hget with hzero
      exact Nat.pos_of_ne_zero hzero
    · intro hpos
      have hget : t.get? k = some (k, keys.count k) := by rw [h k, if_neg hpos.ne']
      exact ⟨(k, keys.count k), (t.mem_rows_iff (k, keys.count k)).mpr hget, rfl⟩
  calc (t.rows.map Prod.snd).sum
      = ((t.rows.map Prod.fst).map fun k => keys.count k).sum := by
        rw [List.map_map]
        exact congrArg List.sum (List.map_congr_left hrow)
    _ = ∑ k ∈ (t.rows.map Prod.fst).toFinset, keys.count k := (List.sum_toFinset _ t.nodup).symm
    _ = ∑ k ∈ keys.toFinset, keys.count k := by rw [hkeys]
    _ = keys.length := List.sum_toFinset_count_eq_length keys

end Tallies

/-! ## Holders -/

section Holders

variable {α β : Type*} {l : List α} {i : ℕ} {x : α}

/-- What one holder counts for is replaced. -/
theorem sum_map_set (f : α → ℕ) (h : l[i]? = some x) (y : α) :
    ((l.set i y).map f).sum + f x = (l.map f).sum + f y := by
  induction l generalizing i with
  | nil => simp at h
  | cons a l ih =>
    cases i with
    | zero =>
      obtain rfl : a = x := by simpa using h
      simp only [List.set_cons_zero, List.map_cons, List.sum_cons]
      omega
    | succ i =>
      have hrest := ih (i := i) (by simpa using h)
      simp only [List.set_cons_succ, List.map_cons, List.sum_cons]
      omega

/-- What one holder has is replaced. -/
theorem count_flatMap_set [DecidableEq β] (f : α → List β) (h : l[i]? = some x) (y : α) (b : β) :
    ((l.set i y).flatMap f).count b + (f x).count b = (l.flatMap f).count b + (f y).count b := by
  rw [List.count_flatMap, List.count_flatMap]
  exact sum_map_set (List.count b ∘ f) h y

end Holders

end Memplex.Lib
