import Mathlib.Data.List.MinMax
import Mathlib.Data.List.Sort

/-!
# The newest of a list

A stable sort by descending key has at its head the first of the items with the greatest key, and
behind it all the others.
-/

namespace Memplex.Lib

variable {α κ : Type} [LinearOrder κ] (key : α → κ)

/-- The items in descending order of their keys, those of one key in the order that they had. -/
def newestFirst (xs : List α) : List α := xs.insertionSort fun a b => key b ≤ key a

theorem perm_newestFirst (xs : List α) : (newestFirst key xs).Perm xs :=
  List.perm_insertionSort _ xs

/-- The head is the first item with the greatest key. -/
theorem head?_newestFirst (xs : List α) : (newestFirst key xs).head? = xs.argmax key := by
  induction xs with
  | nil => rfl
  | cons x xs ih =>
    rw [List.argmax_cons, ← ih]
    change (List.orderedInsert (fun a b => key b ≤ key a) x (newestFirst key xs)).head? = _
    cases newestFirst key xs with
    | nil => rfl
    | cons y ys =>
      rw [List.orderedInsert_cons, List.head?_cons]
      dsimp only
      by_cases hle : key y ≤ key x
      · rw [if_pos hle, if_neg (not_lt.mpr hle)]
        rfl
      · rw [if_neg hle, if_pos (not_le.mp hle)]
        rfl

/-- The items behind the head are all others, where no item is there twice. -/
theorem mem_tail_newestFirst {xs : List α} (hd : xs.Nodup) {x : α} :
    x ∈ (newestFirst key xs).tail ↔ x ∈ xs ∧ xs.argmax key ≠ some x := by
  have hperm := perm_newestFirst key xs
  have hhead := head?_newestFirst key xs
  cases hsorted : newestFirst key xs with
  | nil =>
    rw [hsorted] at hperm
    have hnil : xs = [] := hperm.symm.eq_nil
    subst hnil
    simp
  | cons y ys =>
    rw [hsorted] at hperm hhead
    have hnodup := hperm.nodup_iff.mpr hd
    rw [← hhead, ← hperm.mem_iff, List.tail_cons, List.head?_cons, List.mem_cons]
    constructor
    · intro hx
      refine ⟨.inr hx, fun hsame => ?_⟩
      rw [Option.some.inj hsame] at hnodup
      exact (List.nodup_cons.mp hnodup).1 hx
    · rintro ⟨rfl | hx, hne⟩
      · exact absurd rfl hne
      · exact hx

end Memplex.Lib
