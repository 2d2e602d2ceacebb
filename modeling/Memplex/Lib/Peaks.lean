import Memplex.Lib.Rows
import Mathlib.Order.MinMax
import Mathlib.Order.Bounds.Basic
import Mathlib.Data.List.Sort

/-!
# Greatest values by key

A pass over keyed values that keeps for each key the greatest value above a floor: an entry is
written when its value exceeds what the key has, or the floor where the key has nothing. What is
kept is determined by the entries and not by their order (`get?_peaks`).
-/

namespace Memplex.Lib

variable {κ α : Type} [DecidableEq κ] [LinearOrder α]

/-- What a key has, or the floor. -/
def peakAt (floor : α) (t : Table (Prod.fst : κ × α → κ)) (k : κ) : α :=
  ((t.get? k).map Prod.snd).getD floor

/-- One entry. -/
def raise (floor : α) (t : Table (Prod.fst : κ × α → κ)) (entry : κ × α) :
    Table (Prod.fst : κ × α → κ) :=
  if peakAt floor t entry.1 < entry.2 then t.set entry else t

/-- All entries. -/
def peaks (floor : α) (entries : List (κ × α)) : Table (Prod.fst : κ × α → κ) :=
  entries.foldl (raise floor) .empty

variable {floor : α}

/-- What a key has after one entry. -/
theorem peakAt_raise (t : Table (Prod.fst : κ × α → κ)) (entry : κ × α) (k : κ) :
    peakAt floor (raise floor t entry) k =
      if entry.1 = k then max (peakAt floor t k) entry.2 else peakAt floor t k := by
  unfold raise
  by_cases hlt : peakAt floor t entry.1 < entry.2
  · rw [if_pos hlt, peakAt, Table.get?_set]
    split_ifs with hk
    · subst hk
      exact (max_eq_right hlt.le).symm
    · rfl
  · rw [if_neg hlt]
    split_ifs with hk
    · subst hk
      exact (max_eq_left (not_lt.mp hlt)).symm
    · rfl

/-- What a key has is above the floor. -/
def AboveFloor (floor : α) (t : Table (Prod.fst : κ × α → κ)) : Prop :=
  ∀ row ∈ t.rows, floor < row.2

theorem AboveFloor.raise {t : Table (Prod.fst : κ × α → κ)} (h : AboveFloor floor t)
    (entry : κ × α) : AboveFloor floor (raise floor t entry) := by
  have hpeak : floor ≤ peakAt floor t entry.1 := by
    unfold peakAt
    cases hget : t.get? entry.1 with
    | none => exact le_rfl
    | some row => exact (h row (Table.mem_of_get? hget)).le
  unfold Lib.raise
  split_ifs with hlt
  · intro row hrow
    rcases mem_upsertRow.mp hrow with rfl | ⟨hrow, -⟩
    · exact hpeak.trans_lt hlt
    · exact h row hrow
  · exact h

/-- What a key has after all entries: the greatest of the floor, of what it had and of its own
entries. -/
theorem peakAt_foldl (entries : List (κ × α)) (t : Table (Prod.fst : κ × α → κ)) (k : κ) :
    IsGreatest ({peakAt floor t k} ∪ {v | (k, v) ∈ entries})
      (peakAt floor (entries.foldl (raise floor) t) k) := by
  induction entries generalizing t with
  | nil => simp [IsGreatest]
  | cons entry entries ih =>
    obtain ⟨hmem, hle⟩ := ih (raise floor t entry)
    rw [peakAt_raise] at hmem hle
    rw [List.foldl_cons]
    constructor
    · rcases hmem with hmem | hmem
      · rw [Set.mem_singleton_iff] at hmem
        rw [hmem]
        split_ifs with hk
        · rcases max_choice (peakAt floor t k) entry.2 with hmax | hmax
          · exact .inl hmax
          · exact .inr (by rw [hmax, ← hk]; exact List.mem_cons_self)
        · exact .inl rfl
      · exact .inr (List.mem_cons_of_mem _ hmem)
    · rintro v (hv | hv)
      · rw [Set.mem_singleton_iff] at hv
        refine le_trans ?_ (hle (.inl rfl))
        rw [hv]
        split_ifs
        · exact le_max_left _ _
        · exact le_rfl
      · rcases List.mem_cons.mp hv with rfl | hv
        · refine le_trans ?_ (hle (.inl rfl))
          rw [if_pos rfl]
          exact le_max_right _ _
        · exact hle (.inr hv)

/-- A key has a value exactly when one of its entries is above the floor, and it is the greatest. -/
theorem get?_peaks {entries : List (κ × α)} {k : κ} {v : α} :
    (peaks floor entries).get? k = some (k, v) ↔
      floor < v ∧ IsGreatest {v | (k, v) ∈ entries} v := by
  have habove : AboveFloor floor (peaks floor entries) := by
    have hfold : ∀ (es : List (κ × α)) (t : Table (Prod.fst : κ × α → κ)), AboveFloor floor t →
        AboveFloor floor (es.foldl (raise floor) t) := by
      intro es
      induction es with
      | nil => exact fun _ h => h
      | cons entry es ih => exact fun t h => ih _ (h.raise entry)
    exact hfold entries .empty fun row hrow => (List.not_mem_nil hrow).elim
  obtain ⟨hmem, hle⟩ := @peakAt_foldl _ _ _ _ floor entries .empty k
  have hempty : peakAt floor (.empty : Table (Prod.fst : κ × α → κ)) k = floor := rfl
  rw [hempty] at hmem hle
  change _ ∈ _ ∪ _ at hmem
  have hpeak : peakAt floor (peaks floor entries) k ∈
      ({floor} ∪ {v | (k, v) ∈ entries} : Set α) := hmem
  constructor
  · intro hget
    have hv : peakAt floor (peaks floor entries) k = v := by rw [peakAt, hget]; rfl
    have hlt : floor < v := habove (k, v) (Table.mem_of_get? hget)
    rw [hv] at hpeak
    refine ⟨hlt, hpeak.resolve_left fun heq => ?_, fun w hw => ?_⟩
    · exact hlt.ne' heq
    · rw [← hv]
      exact hle (.inr hw)
  · rintro ⟨hlt, hin, hupper⟩
    have hv : peakAt floor (peaks floor entries) k = v := by
      refine le_antisymm ?_ (hle (.inr hin))
      rcases hpeak with heq | hentry
      · rw [Set.mem_singleton_iff] at heq
        exact heq.le.trans hlt.le
      · exact hupper hentry
    unfold peakAt at hv
    cases hget : (peaks floor entries).get? k with
    | none =>
      rw [hget] at hv
      exact absurd hv hlt.ne
    | some row =>
      rw [hget] at hv
      have hkey := Table.get?_key hget
      exact congrArg some (Prod.ext hkey hv)

/-! ## Ranking -/

section Ranking

variable {κ α : Type} [LinearOrder κ] [LinearOrder α]

/-- Descending values, and ascending keys among equal ones. -/
def ranksBefore (a b : κ × α) : Prop := b.2 < a.2 ∨ a.2 = b.2 ∧ a.1 ≤ b.1

instance (a b : κ × α) : Decidable (ranksBefore a b) := inferInstanceAs (Decidable (_ ∨ _))

theorem ranksBefore_total (a b : κ × α) : ranksBefore a b ∨ ranksBefore b a := by
  rcases lt_trichotomy a.2 b.2 with hlt | heq | hlt
  · exact .inr (.inl hlt)
  · rcases le_total a.1 b.1 with hle | hle
    · exact .inl (.inr ⟨heq, hle⟩)
    · exact .inr (.inr ⟨heq.symm, hle⟩)
  · exact .inl (.inl hlt)

theorem ranksBefore_trans {a b c : κ × α} (hab : ranksBefore a b) (hbc : ranksBefore b c) :
    ranksBefore a c := by
  rcases hab with hab | ⟨hab, hk⟩
  · rcases hbc with hbc | ⟨hbc, -⟩
    · exact .inl (hbc.trans hab)
    · exact .inl (hbc ▸ hab)
  · rcases hbc with hbc | ⟨hbc, hk'⟩
    · exact .inl (hab ▸ hbc)
    · exact .inr ⟨hab.trans hbc, hk.trans hk'⟩

theorem ranksBefore_antisymm {a b : κ × α} (hab : ranksBefore a b) (hba : ranksBefore b a) :
    a = b := by
  rcases hab with hlt | ⟨heq, hk⟩
  · rcases hba with hlt' | ⟨heq', -⟩
    · exact absurd hlt hlt'.asymm
    · exact absurd hlt heq'.not_lt
  · rcases hba with hlt' | ⟨-, hk'⟩
    · exact absurd hlt' heq.not_lt
    · exact Prod.ext (le_antisymm hk hk') heq

instance : Std.Total (ranksBefore (κ := κ) (α := α)) := ⟨ranksBefore_total⟩

instance : IsTrans (κ × α) ranksBefore := ⟨fun _ _ _ => ranksBefore_trans⟩

/-- Entries in their order. -/
def ranked (entries : List (κ × α)) : List (κ × α) := entries.insertionSort ranksBefore

theorem perm_ranked (entries : List (κ × α)) : (ranked entries).Perm entries :=
  List.perm_insertionSort _ entries

/-- The same entries in another order are ranked alike. -/
theorem ranked_perm {entries entries' : List (κ × α)} (h : entries.Perm entries') :
    ranked entries = ranked entries' := by
  refine List.Perm.eq_of_pairwise (fun a b _ _ => ranksBefore_antisymm)
    (List.pairwise_insertionSort _ entries) (List.pairwise_insertionSort _ entries') ?_
  exact (perm_ranked entries).trans (h.trans (perm_ranked entries').symm)

end Ranking

end Memplex.Lib
