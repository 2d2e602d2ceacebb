import Memplex.Lib.Rows
import Mathlib.Algebra.BigOperators.Group.List.Basic
import Mathlib.Algebra.GroupWithZero.Nat

/-!
# Counters

A counter counts occurrences under keys, as `collections.Counter` does. A key that was never counted
counts as zero and has no row. A bump raises one count, and with it the total, by one.
-/

namespace Memplex.Lib

/-- How often each key was counted. -/
abbrev Counter (κ : Type*) [DecidableEq κ] := Table (Prod.fst : κ × ℕ → κ)

namespace Counter

variable {κ : Type*} [DecidableEq κ]

/-- The count under a key. -/
def count (t : Counter κ) (k : κ) : ℕ := ((t.get? k).map Prod.snd).getD 0

/-- `t[k] += 1`. -/
def bump (t : Counter κ) (k : κ) : Counter κ := t.set (k, t.count k + 1)

/-- The sum of all counts. -/
def total (t : Counter κ) : ℕ := (t.rows.map Prod.snd).sum

/-- A counter with no counts. -/
def zero : Counter κ := .empty

@[simp] theorem count_zero (k : κ) : (zero : Counter κ).count k = 0 := rfl

@[simp] theorem total_zero : (zero : Counter κ).total = 0 := rfl

/-- A bump raises the count under its key. -/
theorem count_bump (t : Counter κ) (k k' : κ) :
    (t.bump k).count k' = t.count k' + if k = k' then 1 else 0 := by
  unfold bump count
  rw [Table.get?_set]
  by_cases hk : k = k'
  · subst hk
    simp
  · simp [hk]

/-- The sum over rows after an upsert: the new count stands for the count that was there. -/
theorem sum_upsertRow {rows : List (κ × ℕ)} (hd : (rows.map Prod.fst).Nodup) (k : κ) (n : ℕ) :
    ((upsertRow Prod.fst (k, n) rows).map Prod.snd).sum +
      ((findRow Prod.fst k rows).map Prod.snd).getD 0 = (rows.map Prod.snd).sum + n := by
  unfold upsertRow
  split_ifs with hex
  · obtain ⟨x, hx, hxk⟩ := hex
    induction rows with
    | nil => exact absurd hx List.not_mem_nil
    | cons y ys ih =>
      rw [List.map_cons, List.nodup_cons] at hd
      rw [findRow_cons]
      by_cases hy : y.1 = k
      · -- The other rows are under other keys, so that they stay as they are.
        have hrest : (ys.map fun z => if z.1 = k then (k, n) else z) = ys := by
          conv_rhs => rw [← List.map_id ys]
          refine List.map_congr_left fun z hz => ?_
          have hne : z.1 ≠ k := fun he => hd.1 ((hy.trans he.symm) ▸ List.mem_map_of_mem hz)
          rw [if_neg hne]
          rfl
        simp only [List.map_cons, hy, if_true, hrest, List.sum_cons, Option.map_some,
          Option.getD_some]
        omega
      · have hx' : x ∈ ys := (List.mem_cons.mp hx).resolve_left fun he : x = y => hy (he ▸ hxk)
        have hsum := ih hd.2 hx'
        simp only [List.map_cons, hy, if_false, List.sum_cons]
        simp only at hsum
        omega
  · have hnone : findRow Prod.fst k rows = none :=
      findRow_eq_none.mpr fun x hx he => hex ⟨x, hx, he⟩
    simp [hnone]

/-- A bump raises the total. -/
theorem total_bump (t : Counter κ) (k : κ) : (t.bump k).total = t.total + 1 := by
  have hsum := sum_upsertRow t.nodup k (t.count k + 1)
  have hcount : t.count k = ((findRow Prod.fst k t.rows).map Prod.snd).getD 0 := rfl
  have htotal : (t.bump k).total =
      ((upsertRow Prod.fst (k, t.count k + 1) t.rows).map Prod.snd).sum := rfl
  have hold : t.total = (t.rows.map Prod.snd).sum := rfl
  omega

end Counter

end Memplex.Lib
