import Mathlib.Data.List.Nodup
import Mathlib.Data.List.Perm.Basic
import Mathlib.Order.Defs.LinearOrder
import Mathlib.Algebra.Order.Ring.Int

/-!
# The first items in an order

The rank of an item among others is the number of them that come before it. The first `n` items of a
sorted list are those of a rank below `n` (`mem_take_mergeSort`), so two orders put the same items
first where they agree about the ranks below `n`. `lexLe` orders by a key first.
-/

namespace Memplex.Lib

variable {α : Type*} [DecidableEq α] {le : α → α → Bool}

/-- How many items come before an item. -/
def rank (le : α → α → Bool) (xs : List α) (x : α) : ℕ :=
  xs.countP fun y => decide (y ≠ x) && le y x

theorem rank_perm {xs ys : List α} (h : xs.Perm ys) (x : α) : rank le xs x = rank le ys x :=
  h.countP_eq _

/-- The first items of a sorted list are those that few come before. -/
theorem mem_take_of_sorted {xs : List α} (hsorted : xs.Pairwise fun a b => le a b = true)
    (hanti : ∀ a ∈ xs, ∀ b ∈ xs, le a b = true → le b a = true → a = b) (hnodup : xs.Nodup)
    {x : α} (n : ℕ) : x ∈ xs.take n ↔ x ∈ xs ∧ rank le xs x < n := by
  induction xs generalizing n with
  | nil => simp
  | cons a xs ih =>
    obtain ⟨hnew, hnodup⟩ := List.nodup_cons.mp hnodup
    obtain ⟨hfirst, hsorted⟩ := List.pairwise_cons.mp hsorted
    have ih := @ih hsorted (fun b hb c hc => hanti b (List.mem_cons_of_mem _ hb) c
      (List.mem_cons_of_mem _ hc)) hnodup
    cases n with
    | zero => simp
    | succ n =>
      rw [List.take_succ_cons, List.mem_cons, List.mem_cons, ih]
      by_cases hx : x = a
      · -- Nothing comes before the first item.
        have hzero : rank le (a :: xs) x = 0 := by
          rw [rank, List.countP_eq_zero, hx]
          intro y hy
          rw [Bool.and_eq_true, decide_eq_true_eq]
          rintro ⟨hne, hle⟩
          rcases List.mem_cons.mp hy with rfl | hy
          · exact hne rfl
          · exact hne (hanti y (List.mem_cons_of_mem _ hy) a List.mem_cons_self hle (hfirst y hy))
        rw [hzero]
        exact ⟨fun _ => ⟨.inl hx, Nat.succ_pos n⟩, fun _ => .inl hx⟩
      · -- The first item comes before all others.
        have hsucc : x ∈ xs → rank le (a :: xs) x = rank le xs x + 1 := fun hmem => by
          rw [rank, List.countP_cons_of_pos]
          · rfl
          · rw [hfirst x hmem, Bool.and_true, decide_eq_true_eq]
            exact Ne.symm hx
        constructor
        · rintro (h | ⟨hmem, hlt⟩)
          · exact absurd h hx
          · exact ⟨.inr hmem, by rw [hsucc hmem]; exact Nat.succ_lt_succ hlt⟩
        · rintro ⟨h | hmem, hlt⟩
          · exact absurd h hx
          · rw [hsucc hmem] at hlt
            exact .inr ⟨hmem, Nat.lt_of_succ_lt_succ hlt⟩

/-- The first items after sorting are those that few come before. -/
theorem mem_take_mergeSort {xs : List α}
    (htrans : ∀ a b c, le a b = true → le b c = true → le a c = true)
    (htotal : ∀ a b, (le a b || le b a) = true)
    (hanti : ∀ a ∈ xs, ∀ b ∈ xs, le a b = true → le b a = true → a = b) (hnodup : xs.Nodup)
    {x : α} (n : ℕ) : x ∈ (xs.mergeSort le).take n ↔ x ∈ xs ∧ rank le xs x < n := by
  have hperm := List.mergeSort_perm xs le
  rw [mem_take_of_sorted (List.pairwise_mergeSort htrans htotal xs) _ (hperm.nodup_iff.mpr hnodup),
    hperm.mem_iff, rank_perm hperm]
  exact fun a ha b hb => hanti a (hperm.mem_iff.mp ha) b (hperm.mem_iff.mp hb)

omit [DecidableEq α] in
theorem mergeSort_pair (a b : α) :
    [a, b].mergeSort le = if le a b then [a, b] else [b, a] := by
  simp [List.mergeSort, List.merge, List.MergeSort.Internal.splitInTwo]

/-! ## Keys -/

/-- The order by a key, and by another order where the keys are the same. -/
def lexLe (f : α → ℤ) (le : α → α → Bool) (a b : α) : Bool :=
  f a < f b || f a = f b && le a b

variable {f : α → ℤ} {a b c : α}

omit [DecidableEq α] in
theorem lexLe_iff : lexLe f le a b = true ↔ f a < f b ∨ f a = f b ∧ le a b = true := by
  rw [lexLe, Bool.or_eq_true, Bool.and_eq_true, decide_eq_true_eq, decide_eq_true_eq]

omit [DecidableEq α] in
theorem lexLe_trans (htrans : ∀ a b c, le a b = true → le b c = true → le a c = true)
    (hab : lexLe f le a b = true) (hbc : lexLe f le b c = true) : lexLe f le a c = true := by
  rw [lexLe_iff] at hab hbc ⊢
  rcases hab with hab | ⟨hab, hle⟩ <;> rcases hbc with hbc | ⟨hbc, hle'⟩
  · exact .inl (by omega)
  · exact .inl (by omega)
  · exact .inl (by omega)
  · exact .inr ⟨hab.trans hbc, htrans _ _ _ hle hle'⟩

omit [DecidableEq α] in
theorem lexLe_total (htotal : ∀ a b, (le a b || le b a) = true) (a b : α) :
    (lexLe f le a b || lexLe f le b a) = true := by
  rw [Bool.or_eq_true, lexLe_iff, lexLe_iff]
  rcases lt_trichotomy (f a) (f b) with h | h | h
  · exact .inl (.inl h)
  · rcases Bool.or_eq_true _ _ ▸ htotal a b with hle | hle
    · exact .inl (.inr ⟨h, hle⟩)
    · exact .inr (.inr ⟨h.symm, hle⟩)
  · exact .inr (.inl h)

omit [DecidableEq α] in
theorem lexLe_antisymm (hab : lexLe f le a b = true) (hba : lexLe f le b a = true) :
    f a = f b ∧ le a b = true ∧ le b a = true := by
  rw [lexLe_iff] at hab hba
  rcases hab with hab | ⟨hab, hle⟩ <;> rcases hba with hba | ⟨hba, hle'⟩
  · omega
  · omega
  · omega
  · exact ⟨hab, hle, hle'⟩

end Memplex.Lib
