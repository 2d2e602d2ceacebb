import Mathlib.Data.List.Basic

/-!
# Pages by key

A list in strictly ascending order of its keys is served in pages: a page is asked for with the key
of the last element of the page before, and begins after it. `after_getLast_take` says that it
begins where that page ends, whatever the sizes of the pages were.
-/

namespace Memplex.Lib

variable {α κ : Type*} {key : α → κ} {before : κ → κ → Bool}

/-- A list in strictly ascending order of its keys. -/
def KeyAscending (key : α → κ) (before : κ → κ → Bool) (xs : List α) : Prop :=
  xs.Pairwise fun x y => before (key x) (key y) = true

/-- The elements after a key. -/
def after (key : α → κ) (before : κ → κ → Bool) (anchor : κ) (xs : List α) : List α :=
  xs.filter fun x => before anchor (key x)

/-- A key is not before itself, nor before one that is before it. -/
def Asymmetric (before : κ → κ → Bool) : Prop :=
  ∀ k k', before k k' = true → before k' k = false

/-- What comes after the key of an element is what follows it. -/
theorem after_append_cons (hbefore : Asymmetric before) {ys zs : List α} {x : α}
    (h : KeyAscending key before (ys ++ x :: zs)) :
    after key before (key x) (ys ++ x :: zs) = zs := by
  obtain ⟨-, hx, hys⟩ := List.pairwise_append.mp h
  have hirrefl : before (key x) (key x) = false := by
    cases hself : before (key x) (key x) with
    | false => rfl
    | true => exact hself ▸ hbefore _ _ hself
  have hleft : ys.filter (fun y => before (key x) (key y)) = [] :=
    List.filter_eq_nil_iff.mpr fun y hy => by
      simp [hbefore _ _ (hys y hy x (List.mem_cons_self ..))]
  have hright : zs.filter (fun z => before (key x) (key z)) = zs :=
    List.filter_eq_self.mpr fun z hz => (List.pairwise_cons.mp hx).1 z hz
  rw [after, List.filter_append, hleft, List.filter_cons, hirrefl, hright]
  rfl

/-- A page that is asked for with the last key of the first `n` elements begins after them. -/
theorem after_getLast_take (hbefore : Asymmetric before) {xs : List α}
    (h : KeyAscending key before xs) {n : ℕ} {x : α} (hlast : (xs.take n).getLast? = some x) :
    after key before (key x) xs = xs.drop n := by
  obtain ⟨ys, hys⟩ := List.getLast?_eq_some_iff.mp hlast
  have hsplit : xs = ys ++ x :: xs.drop n := by
    conv_lhs => rw [← List.take_append_drop n xs, hys]
    simp
  rw [hsplit] at h
  calc after key before (key x) xs = after key before (key x) (ys ++ x :: xs.drop n) := by
        rw [← hsplit]
    _ = xs.drop n := after_append_cons hbefore h

end Memplex.Lib
