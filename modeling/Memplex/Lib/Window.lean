import Mathlib.Data.List.Basic
import Mathlib.Data.List.Range
import Mathlib.Data.List.TakeWhile
import Mathlib.Order.Basic

/-!
# Windows of a stream

A stream is a list of rows at strictly ascending positions. A window of it is the rows at the
positions after one bound and up to another. Neighbouring windows join (`window_append`), and the
first rows of a stream are the window up to the last of them (`take_eq_window`), so that reading a
stream in pages is reading it window by window. Where a page ends depends on its limit and on the
rows behind it (`pageEnd_window_eq_iff`).
-/

namespace Memplex.Lib

variable {ρ : Type} (pos : ρ → ℕ)

/-- The rows are at ascending positions. -/
def Ascending (rows : List ρ) : Prop := rows.Pairwise fun a b => pos a < pos b

/-- The rows after a position, up to another. -/
def window (lo hi : ℕ) (rows : List ρ) : List ρ := rows.filter fun r => lo < pos r ∧ pos r ≤ hi

variable {pos}

theorem Ascending.of_map {rows : List ρ} (h : (rows.map pos).Pairwise (· < ·)) :
    Ascending pos rows := List.pairwise_map.mp h

theorem Ascending.filter {rows : List ρ} (h : Ascending pos rows) (p : ρ → Bool) :
    Ascending pos (rows.filter p) := List.Pairwise.sublist List.filter_sublist h

theorem mem_window {lo hi : ℕ} {rows : List ρ} {r : ρ} :
    r ∈ window pos lo hi rows ↔ r ∈ rows ∧ lo < pos r ∧ pos r ≤ hi := by
  simp [window]

theorem window_eq_nil {lo hi : ℕ} {rows : List ρ} (h : ∀ r ∈ rows, hi < pos r) :
    window pos lo hi rows = [] := by
  rw [window, List.filter_eq_nil_iff]
  intro r hr hdec
  have hle := (decide_eq_true_eq.mp hdec).2
  exact absurd (h r hr) (not_lt.mpr hle)

/-- A window and the one after it are one window. -/
theorem window_append {lo mid hi : ℕ} {rows : List ρ} (h : Ascending pos rows) (hlo : lo ≤ mid)
    (hhi : mid ≤ hi) :
    window pos lo mid rows ++ window pos mid hi rows = window pos lo hi rows := by
  induction rows with
  | nil => rfl
  | cons r rows ih =>
    obtain ⟨hr, hrows⟩ := List.pairwise_cons.mp h
    by_cases hmid : mid < pos r
    · -- Nothing from here on is in the first window.
      have hfirst : window pos lo mid (r :: rows) = [] := by
        apply window_eq_nil
        intro x hx
        rcases List.mem_cons.mp hx with rfl | hx
        · exact hmid
        · exact hmid.trans (hr x hx)
      rw [hfirst, List.nil_append]
      refine List.filter_congr fun x hx => ?_
      have hx : mid < pos x := by
        rcases List.mem_cons.mp hx with rfl | hx
        · exact hmid
        · exact hmid.trans (hr x hx)
      have hiff : (mid < pos x ∧ pos x ≤ hi) ↔ (lo < pos x ∧ pos x ≤ hi) :=
        and_congr_left fun _ => iff_of_true hx (hlo.trans_lt hx)
      exact decide_eq_decide.mpr hiff
    · have hsecond : window pos mid hi (r :: rows) = window pos mid hi rows := by
        rw [window, List.filter_cons_of_neg]
        · rfl
        · simp [hmid]
      rw [hsecond]
      by_cases hin : lo < pos r
      · have hin₁ : lo < pos r ∧ pos r ≤ mid := ⟨hin, not_lt.mp hmid⟩
        have hin₂ : lo < pos r ∧ pos r ≤ hi := ⟨hin, (not_lt.mp hmid).trans hhi⟩
        rw [window, window, window, List.filter_cons_of_pos (by simpa using hin₁),
          List.filter_cons_of_pos (by simpa using hin₂), List.cons_append]
        exact congrArg (r :: ·) (ih hrows)
      · rw [window, window, window, List.filter_cons_of_neg (by simp [hin]),
          List.filter_cons_of_neg (by simp [hin])]
        exact ih hrows

/-- The first rows of a window end at the last of them. -/
theorem take_eq_window {lo hi n : ℕ} {rows : List ρ} (h : Ascending pos rows) {r : ρ}
    (hlast : ((window pos lo hi rows).take n).getLast? = some r) :
    (window pos lo hi rows).take n = window pos lo (pos r) rows := by
  have hasc : Ascending pos (window pos lo hi rows) := h.filter _
  have hr : r ∈ window pos lo hi rows := List.mem_of_mem_take (List.mem_of_getLast? hlast)
  have hr' := mem_window.mp hr
  -- In an ascending list, what lies up to the last of the first rows are the first rows.
  have hinit : ∀ xs : List ρ, Ascending pos xs → (xs.take n).getLast? = some r →
      xs.take n = xs.filter fun x => pos x ≤ pos r := by
    intro xs hxs hl
    have hsplit := List.take_append_drop n xs
    have hpair : (xs.take n ++ xs.drop n).Pairwise fun a b => pos a < pos b := by
      rw [hsplit]; exact hxs
    obtain ⟨htake, -, hcross⟩ := List.pairwise_append.mp hpair
    obtain ⟨ys, hys⟩ := List.getLast?_eq_some_iff.mp hl
    have hfirst : (xs.take n).filter (fun x => pos x ≤ pos r) = xs.take n := by
      rw [List.filter_eq_self]
      intro x hx
      rw [hys] at hx htake
      rcases List.mem_append.mp hx with hx | hx
      · have hlt := (List.pairwise_append.mp htake).2.2 x hx r (List.mem_singleton_self r)
        simpa using hlt.le
      · rw [List.mem_singleton.mp hx]
        simp
    have hsecond : (xs.drop n).filter (fun x => pos x ≤ pos r) = [] := by
      rw [List.filter_eq_nil_iff]
      intro x hx
      have hlt := hcross r (List.mem_of_getLast? hl) x hx
      simpa using hlt
    calc xs.take n = (xs.take n).filter (fun x => pos x ≤ pos r) ++
          (xs.drop n).filter (fun x => pos x ≤ pos r) := by rw [hfirst, hsecond, List.append_nil]
      _ = xs.filter fun x => pos x ≤ pos r := by rw [← List.filter_append, hsplit]
  rw [hinit _ hasc hlast, window, window, List.filter_filter]
  refine List.filter_congr fun x _ => ?_
  have hiff : (pos x ≤ pos r ∧ lo < pos x ∧ pos x ≤ hi) ↔ (lo < pos x ∧ pos x ≤ pos r) :=
    ⟨fun hx => ⟨hx.2.1, hx.1⟩, fun hx => ⟨hx.2, hx.1, hx.2.trans hr'.2.2⟩⟩
  rw [Bool.eq_iff_iff]
  simpa using hiff

/-- Where a page of at most `limit` rows ends: at its last row when more rows follow, else at `hi`. -/
def pageEnd (pos : ρ → ℕ) (limit hi : ℕ) (rows : List ρ) : ℕ :=
  if limit < rows.length then ((rows.take limit).getLast?.map pos).getD hi else hi

/-- A page that ends before the end of its window ends at one of its rows. -/
theorem exists_last_of_lt {limit : ℕ} {rows : List ρ} (hlimit : 1 ≤ limit)
    (hmore : limit < rows.length) : ∃ r, (rows.take limit).getLast? = some r := by
  have hne : rows.take limit ≠ [] := by
    rw [ne_eq, List.take_eq_nil_iff]
    rintro (rfl | rfl)
    · exact absurd hlimit (by omega)
    · exact absurd hmore (by simp)
  exact ⟨_, List.getLast?_eq_some_getLast hne⟩

/-- A page has every row up to where it ends. -/
theorem mem_take_of_le_pageEnd {limit hi : ℕ} {rows : List ρ} (h : Ascending pos rows)
    (hlimit : 1 ≤ limit) {r : ρ} (hr : r ∈ rows) (hle : pos r ≤ pageEnd pos limit hi rows) :
    r ∈ rows.take limit := by
  unfold pageEnd at hle
  by_cases hmore : limit < rows.length
  · obtain ⟨last, hlast⟩ := exists_last_of_lt hlimit hmore
    rw [if_pos hmore, hlast] at hle
    by_contra hnot
    have hdrop : r ∈ rows.drop limit := by
      rw [← List.take_append_drop limit rows] at hr
      exact (List.mem_append.mp hr).resolve_left hnot
    have hasc : (rows.take limit ++ rows.drop limit).Pairwise fun a b => pos a < pos b := by
      rw [List.take_append_drop]
      exact h
    have hlt := (List.pairwise_append.mp hasc).2.2 last (List.mem_of_getLast? hlast) r hdrop
    exact absurd hle (not_le.mpr hlt)
  · rw [List.take_of_length_le (not_lt.mp hmore)]
    exact hr

/-- A page of a window that is not empty ends behind its beginning. -/
theorem lt_pageEnd {lo hi limit : ℕ} {rows : List ρ} (hlimit : 1 ≤ limit) (hlt : lo < hi) :
    lo < pageEnd pos limit hi (window pos lo hi rows) := by
  unfold pageEnd
  split_ifs with hmore
  · obtain ⟨r, hlast⟩ := exists_last_of_lt hlimit hmore
    rw [hlast]
    exact (mem_window.mp (List.mem_of_mem_take (List.mem_of_getLast? hlast))).2.1
  · exact hlt

/-- A page that reads from `lo` ends at a given position behind its first row exactly when the rows
up to there fill it and more rows follow, or they fit into it and nothing lies behind. -/
theorem pageEnd_window_eq_iff {lo mid hi limit : ℕ} {rows : List ρ} (h : Ascending pos rows)
    (hlimit : 1 ≤ limit) (hlo : lo ≤ mid) (hhi : mid ≤ hi) (hne : window pos lo mid rows ≠ []) :
    pageEnd pos limit hi (window pos lo hi rows) = mid ↔
      ((window pos lo mid rows).length ≤ limit ∧ mid = hi) ∨
        ((window pos lo mid rows).length = limit ∧ (∃ r ∈ rows, pos r = mid) ∧
          ∃ r ∈ rows, mid < pos r ∧ pos r ≤ hi) := by
  have hsplit := window_append h hlo hhi
  have hlength : (window pos lo hi rows).length =
      (window pos lo mid rows).length + (window pos mid hi rows).length := by
    rw [← hsplit, List.length_append]
  obtain ⟨x, hx⟩ := List.exists_mem_of_ne_nil _ hne
  have hx' := mem_window.mp hx
  unfold pageEnd
  split_ifs with hmore
  · obtain ⟨r, hlast⟩ := exists_last_of_lt hlimit hmore
    have htake := take_eq_window h hlast
    have hr := mem_window.mp (List.mem_of_mem_take (List.mem_of_getLast? hlast))
    have hend : ((window pos lo hi rows).take limit).getLast?.map pos = some (pos r) := by
      rw [hlast]
      rfl
    rw [hend, Option.getD_some]
    constructor
    · intro hmid
      rw [hmid] at htake
      have hfull : (window pos lo mid rows).length = limit := by
        rw [← htake, List.length_take]
        omega
      have hrest : 0 < (window pos mid hi rows).length := by omega
      obtain ⟨y, hy⟩ := List.exists_mem_of_length_pos hrest
      exact .inr ⟨hfull, ⟨r, hr.1, hmid⟩, y, mem_window.mp hy⟩
    · rintro (⟨hfit, rfl⟩ | ⟨hfull, ⟨y, hy, hymid⟩, -⟩)
      · omega
      · have hfirst : (window pos lo hi rows).take limit = window pos lo mid rows := by
          rw [← hsplit, List.take_left' hfull]
        have hle : pos r ≤ mid := by
          have hmem := List.mem_of_getLast? hlast
          rw [hfirst] at hmem
          exact (mem_window.mp hmem).2.2
        have hge : y ∈ window pos lo (pos r) rows := by
          rw [← htake, hfirst]
          exact mem_window.mpr ⟨hy, by omega, by omega⟩
        have hge := (mem_window.mp hge).2.2
        omega
  · constructor
    · intro hmid
      exact .inl ⟨by omega, hmid.symm⟩
    · rintro (⟨-, hmid⟩ | ⟨hfull, -, y, hy, hlt, hle⟩)
      · exact hmid.symm
      · have hmem : y ∈ window pos mid hi rows := mem_window.mpr ⟨hy, hlt, hle⟩
        have hpos := List.length_pos_of_mem hmem
        omega

/-- Where a stream is cut after some of its first rows, the rest is what lies above the last of
them, and what has none of their positions. -/
theorem append_eq_above {xs ys : List ρ} (h : Ascending pos (xs ++ ys)) {r : ρ}
    (hlast : xs.getLast? = some r) :
    ((xs ++ ys).filter fun x => pos r < pos x) = ys ∧
      ((xs ++ ys).filter fun x => pos x ∉ xs.map pos) = ys := by
  obtain ⟨hxs, -, hcross⟩ := List.pairwise_append.mp h
  have hle : ∀ x ∈ xs, pos x ≤ pos r := by
    obtain ⟨zs, rfl⟩ := List.getLast?_eq_some_iff.mp hlast
    intro x hx
    rcases List.mem_append.mp hx with hx | hx
    · exact ((List.pairwise_append.mp hxs).2.2 x hx r (List.mem_singleton_self r)).le
    · rw [List.mem_singleton.mp hx]
  constructor
  · have hfirst : (xs.filter fun x => pos r < pos x) = [] := by
      rw [List.filter_eq_nil_iff]
      intro x hx
      simpa using hle x hx
    have hsecond : (ys.filter fun x => pos r < pos x) = ys := by
      rw [List.filter_eq_self]
      intro y hy
      simpa using hcross r (List.mem_of_getLast? hlast) y hy
    rw [List.filter_append, hfirst, hsecond, List.nil_append]
  · have hfirst : (xs.filter fun x => pos x ∉ xs.map pos) = [] := by
      rw [List.filter_eq_nil_iff]
      intro x hx
      simpa using ⟨x, hx, rfl⟩
    have hsecond : (ys.filter fun x => pos x ∉ xs.map pos) = ys := by
      rw [List.filter_eq_self]
      intro y hy
      simpa using fun x hx => (hcross x hx y hy).ne
    rw [List.filter_append, hfirst, hsecond, List.nil_append]

/-- Two cuts of a list after its first rows agree where the weaker test takes only rows that the
stronger one takes too. -/
theorem takeWhile_take_eq_iff {p q : ρ → Bool} {xs : List ρ} {n : ℕ}
    (hpq : ∀ x ∈ xs, p x = true → q x = true) :
    (xs.takeWhile p).take n = (xs.takeWhile q).take n ↔
      ∀ x ∈ (xs.takeWhile q).take n, p x = true := by
  constructor
  · intro heq x hx
    rw [← heq] at hx
    exact List.mem_takeWhile_imp (List.mem_of_mem_take hx)
  · intro hall
    induction xs generalizing n with
    | nil => rfl
    | cons x xs ih =>
      cases n with
      | zero => rfl
      | succ n =>
        by_cases hq : q x = true
        · rw [List.takeWhile_cons_of_pos hq, List.take_succ_cons] at hall ⊢
          have hp : p x = true := hall x (List.mem_cons_self ..)
          rw [List.takeWhile_cons_of_pos hp, List.take_succ_cons,
            ih (fun y hy => hpq y (List.mem_cons_of_mem _ hy))
              fun y hy => hall y (List.mem_cons_of_mem _ hy)]
        · have hp : ¬ p x = true := fun hp => hq (hpq x (List.mem_cons_self ..) hp)
          rw [List.takeWhile_cons_of_neg hp, List.takeWhile_cons_of_neg hq]

end Memplex.Lib
