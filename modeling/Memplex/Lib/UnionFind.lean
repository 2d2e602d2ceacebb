import Mathlib.Data.Finset.Card
import Mathlib.Data.Finset.Range
import Mathlib.Logic.Function.Iterate

/-!
# Union-find with path halving

A forest of parents in a list: a root is its own parent. `find` walks to the root and lets every
second node on its way skip its parent; `union` hangs the root of one node under that of another.
The walk takes its number of steps as fuel, and in a forest (`Forest`) the number of nodes is
enough: it ends at a root. A forest is one that some ranking of the nodes falls along towards the roots. The
halving keeps that ranking, and a union has another, in which the tree that was hung up is lifted
above the new root.
-/

namespace Memplex.Lib.UnionFind

/-- The parent of a node; a node outside the list is a root. -/
def parentOf (p : List ℕ) (x : ℕ) : ℕ := p.getD x x

/-- The walk to the root, and the parents that it leaves. -/
def find : ℕ → List ℕ → ℕ → List ℕ × ℕ
  | 0, p, x => (p, x)
  | fuel + 1, p, x =>
    if parentOf p x = x then (p, x)
    else
      let grandparent := parentOf p (parentOf p x)
      find fuel (p.set x grandparent) grandparent

/-- The root of `y` is looked up first, then that of `x`, which gets the former as its parent. -/
def union (p : List ℕ) (x y : ℕ) : List ℕ :=
  let above := find p.length p y
  let below := find p.length above.1 x
  below.1.set below.2 above.2

/-- A ranking that falls from every node to its parent. -/
def Ranked (r : ℕ → ℕ) (p : List ℕ) : Prop := ∀ x, parentOf p x ≠ x → r (parentOf p x) < r x

/-- The parents are nodes of the list, and no path of them is a cycle. -/
structure Forest (p : List ℕ) : Prop where
  closed : ∀ x < p.length, parentOf p x < p.length
  ranked : ∃ r, Ranked r p

theorem parentOf_set {p : List ℕ} {x : ℕ} (hx : x < p.length) (v y : ℕ) :
    parentOf (p.set x v) y = if y = x then v else parentOf p y := by
  unfold parentOf
  rw [List.getD_eq_getElem?_getD, List.getD_eq_getElem?_getD, List.getElem?_set]
  by_cases hy : y = x
  · subst hy
    simp [hx]
  · rw [if_neg (Ne.symm hy), if_neg hy]

theorem parentOf_of_le {p : List ℕ} {x : ℕ} (hx : p.length ≤ x) : parentOf p x = x := by
  unfold parentOf
  rw [List.getD_eq_getElem?_getD, List.getElem?_eq_none hx]
  rfl

/-- Nodes that are not roots are in the list. -/
theorem lt_length_of_parentOf_ne {p : List ℕ} {x : ℕ} (hx : parentOf p x ≠ x) : x < p.length := by
  by_contra hle
  exact hx (parentOf_of_le (not_lt.mp hle))

/-- At the start every node is its own root. -/
theorem forest_range (n : ℕ) : Forest (List.range n) := by
  have hself : ∀ x, parentOf (List.range n) x = x := by
    intro x
    by_cases hx : x < n
    · simp [parentOf, hx]
    · exact parentOf_of_le (by simpa using hx)
  exact ⟨fun x hx => (hself x).symm ▸ hx, fun x => x, fun x hx => absurd (hself x) hx⟩

/-! ## The walk -/

/-- A node that skips its parent keeps the ranking. -/
theorem Ranked.halve {r : ℕ → ℕ} {p : List ℕ} (h : Ranked r p) {x : ℕ} (hx : parentOf p x ≠ x) :
    r (parentOf p (parentOf p x)) < r x ∧ Ranked r (p.set x (parentOf p (parentOf p x))) := by
  have hup : r (parentOf p (parentOf p x)) < r x := by
    by_cases htop : parentOf p (parentOf p x) = parentOf p x
    · rw [htop]
      exact h x hx
    · exact (h _ htop).trans (h x hx)
  refine ⟨hup, fun y hy => ?_⟩
  rw [parentOf_set (lt_length_of_parentOf_ne hx)] at hy ⊢
  by_cases hyx : y = x
  · rw [if_pos hyx, hyx]
    exact hup
  · rw [if_neg hyx] at hy ⊢
    exact h y hy

/-- What a walk with enough fuel ends with: fuel for every node of a lower rank. -/
theorem find_spec {r : ℕ → ℕ} {p : List ℕ} (hr : Ranked r p)
    (hc : ∀ x < p.length, parentOf p x < p.length) {fuel x : ℕ}
    (hfuel : ((Finset.range p.length).filter fun y => r y < r x).card ≤ fuel) :
    parentOf (find fuel p x).1 (find fuel p x).2 = (find fuel p x).2 ∧
      Ranked r (find fuel p x).1 ∧ (find fuel p x).1.length = p.length ∧
      (∀ y < p.length, parentOf (find fuel p x).1 y < p.length) ∧
      (x < p.length → (find fuel p x).2 < p.length) := by
  induction fuel generalizing p x with
  | zero =>
    refine ⟨?_, hr, rfl, hc, id⟩
    -- With no node of a lower rank the node has no other parent.
    by_contra hx
    have hmem : parentOf p x ∈ (Finset.range p.length).filter fun y => r y < r x :=
      Finset.mem_filter.mpr ⟨Finset.mem_range.mpr (hc x (lt_length_of_parentOf_ne hx)), hr x hx⟩
    rw [Finset.card_eq_zero.mp (Nat.le_zero.mp hfuel)] at hmem
    exact (Finset.notMem_empty _ hmem).elim
  | succ fuel ih =>
    by_cases hx : parentOf p x = x
    · have hstop : find (fuel + 1) p x = (p, x) := if_pos hx
      rw [hstop]
      exact ⟨hx, hr, rfl, hc, id⟩
    · have hlt := lt_length_of_parentOf_ne hx
      obtain ⟨hup, hr'⟩ := hr.halve hx
      have hg : parentOf p (parentOf p x) < p.length := hc _ (hc x hlt)
      have hlen : (p.set x (parentOf p (parentOf p x))).length = p.length := List.length_set
      have hc' : ∀ y < (p.set x (parentOf p (parentOf p x))).length,
          parentOf (p.set x (parentOf p (parentOf p x))) y <
            (p.set x (parentOf p (parentOf p x))).length := by
        intro y hy
        rw [hlen] at hy ⊢
        rw [parentOf_set hlt]
        split_ifs
        · exact hg
        · exact hc y hy
      -- The grandparent itself no longer has a rank below.
      have hless : ((Finset.range (p.set x (parentOf p (parentOf p x))).length).filter
          fun y => r y < r (parentOf p (parentOf p x))).card ≤ fuel := by
        rw [hlen]
        refine Nat.le_of_lt_succ (lt_of_lt_of_le (Finset.card_lt_card ?_) hfuel)
        refine ⟨fun y hy => ?_, fun hsub => ?_⟩
        · obtain ⟨hyr, hylt⟩ := Finset.mem_filter.mp hy
          exact Finset.mem_filter.mpr ⟨hyr, hylt.trans hup⟩
        · have hself := hsub (Finset.mem_filter.mpr ⟨Finset.mem_range.mpr hg, hup⟩)
          exact lt_irrefl _ (Finset.mem_filter.mp hself).2
      have hrest := ih hr' hc' hless
      have hstep : find (fuel + 1) p x =
          find fuel (p.set x (parentOf p (parentOf p x))) (parentOf p (parentOf p x)) := if_neg hx
      rw [hlen] at hrest
      rw [hstep]
      exact ⟨hrest.1, hrest.2.1, hrest.2.2.1, hrest.2.2.2.1, fun _ => hrest.2.2.2.2 hg⟩

/-- No walk makes a root a child. -/
theorem parentOf_find_root (fuel : ℕ) {p : List ℕ} (x : ℕ) {y : ℕ} (hy : parentOf p y = y) :
    parentOf (find fuel p x).1 y = y := by
  induction fuel generalizing p x with
  | zero => exact hy
  | succ fuel ih =>
    by_cases hx : parentOf p x = x
    · have hstop : find (fuel + 1) p x = (p, x) := if_pos hx
      rw [hstop]
      exact hy
    · have hstep : find (fuel + 1) p x =
          find fuel (p.set x (parentOf p (parentOf p x))) (parentOf p (parentOf p x)) := if_neg hx
      rw [hstep]
      refine ih _ ?_
      have hyx : y ≠ x := fun hsame => hx (hsame ▸ hy)
      rw [parentOf_set (lt_length_of_parentOf_ne hx), if_neg hyx]
      exact hy

/-- In a forest a walk with fuel for all nodes ends at a root, and leaves a forest. -/
theorem Forest.find {p : List ℕ} (h : Forest p) {fuel : ℕ} (hfuel : p.length ≤ fuel) (x : ℕ) :
    parentOf (find fuel p x).1 (find fuel p x).2 = (find fuel p x).2 ∧
      Forest (UnionFind.find fuel p x).1 ∧ (UnionFind.find fuel p x).1.length = p.length ∧
      (x < p.length → (UnionFind.find fuel p x).2 < p.length) := by
  obtain ⟨r, hr⟩ := h.ranked
  have hcard : ((Finset.range p.length).filter fun y => r y < r x).card ≤ fuel :=
    (Finset.card_filter_le _ _).trans (by rwa [Finset.card_range])
  obtain ⟨hroot, hr', hlen, hc, hlt⟩ := find_spec hr h.closed hcard
  exact ⟨hroot, ⟨by rw [hlen]; exact hc, r, hr'⟩, hlen, hlt⟩

/-! ## The union -/

/-- A root that is hung under a root: its tree is lifted above the rank of the other. -/
theorem Forest.link {p : List ℕ} (h : Forest p) {x y : ℕ} (hx : x < p.length) (hy : y < p.length)
    (hyroot : parentOf p y = y) (hxroot : parentOf p x = x) : Forest (p.set x y) := by
  classical
  obtain ⟨r, hr⟩ := h.ranked
  have hlen : (p.set x y).length = p.length := List.length_set
  refine ⟨fun z hz => ?_, fun z => if ∃ k, (parentOf p)^[k] z = y then r z else r z + r y + 1,
    fun z hz => ?_⟩
  · rw [hlen] at hz ⊢
    rw [parentOf_set hx]
    split_ifs
    · exact hy
    · exact h.closed z hz
  · rw [parentOf_set hx] at hz ⊢
    have hyy : ∃ k, (parentOf p)^[k] y = y := ⟨0, rfl⟩
    by_cases hzx : z = x
    · subst hzx
      rw [if_pos rfl] at hz ⊢
      have hout : ¬ ∃ k, (parentOf p)^[k] z = y := by
        rintro ⟨k, hk⟩
        exact hz ((Function.iterate_fixed hxroot k).symm.trans hk).symm
      simp only [if_pos hyy, if_neg hout]
      omega
    · rw [if_neg hzx] at hz ⊢
      have hfall := hr z hz
      -- A node that is no root is in the tree of `y` exactly if its parent is.
      have hsame : (∃ k, (parentOf p)^[k] z = y) ↔ ∃ k, (parentOf p)^[k] (parentOf p z) = y := by
        constructor
        · rintro ⟨_ | k, hk⟩
          · rw [Function.iterate_zero_apply] at hk
            exact absurd (hk ▸ hyroot) hz
          · exact ⟨k, hk⟩
        · rintro ⟨k, hk⟩
          exact ⟨k + 1, hk⟩
      by_cases hin : ∃ k, (parentOf p)^[k] z = y
      · simp only [if_pos hin, if_pos (hsame.mp hin)]
        exact hfall
      · simp only [if_neg hin, if_neg (mt hsame.mpr hin)]
        omega

/-- A union of two nodes of a forest leaves a forest of the same nodes. -/
theorem Forest.union {p : List ℕ} (h : Forest p) {x y : ℕ} (hx : x < p.length)
    (hy : y < p.length) :
    Forest (UnionFind.union p x y) ∧ (UnionFind.union p x y).length = p.length := by
  obtain ⟨habove, hforest, hlen, haboveLt⟩ := h.find le_rfl y
  obtain ⟨hbelow, hforest', hlen', hbelowLt⟩ := hforest.find hlen.le x
  rw [hlen] at hlen' hbelowLt
  have habove' := parentOf_find_root p.length x habove
  constructor
  · exact hforest'.link (hlen'.symm ▸ hbelowLt hx) (hlen'.symm ▸ haboveLt hy) habove' hbelow
  · exact List.length_set.trans hlen'

end Memplex.Lib.UnionFind
