import Memplex.Lib.Groups

/-!
# Collapsing a list by a key

A list is collapsed by a key in one pass: the first item of a key opens a row, and each later one is
combined with what the row has. How two items are combined is a parameter. Grouping is the case in
which the items of a row are appended to each other.

Two facts carry over from one combination to another. A map that respects the combinations turns the
rows of one into those of the other, so a run may be annotated with more than its items say. And
what the items weigh, where a combination weighs what its parts do, is spread over the rows without
loss.
-/

namespace Memplex.Lib

variable {α β κ : Type} [DecidableEq κ]

/-- An item enters the row of its key. -/
def fuse (combine : α → α → α) (rows : List (κ × α)) (k : κ) (x : α) : List (κ × α) :=
  upsertRow Prod.fst
    (k, ((findRow Prod.fst k rows).map fun row => combine row.2 x).getD x) rows

/-- All items enter, in order. -/
def collapse (key : α → κ) (combine : α → α → α) (xs : List α) : List (κ × α) :=
  xs.foldl (fun rows x => fuse combine rows (key x) x) []

/-- The keys stay distinct. -/
theorem nodup_fuse {combine : α → α → α} {rows : List (κ × α)} (h : (rows.map Prod.fst).Nodup)
    (k : κ) (x : α) : ((fuse combine rows k x).map Prod.fst).Nodup :=
  nodup_upsertRow h

/-- Entering behind a row of another key leaves that row alone. -/
theorem fuse_cons_ne {combine : α → α → α} {row : κ × α} {rows : List (κ × α)} {k : κ} {x : α}
    (hk : row.1 ≠ k) : fuse combine (row :: rows) k x = row :: fuse combine rows k x := by
  unfold fuse upsertRow
  rw [findRow_cons, if_neg hk]
  by_cases hex : ∃ y ∈ rows, y.1 = k
  · have hex' : ∃ y ∈ row :: rows, y.1 = k := by
      obtain ⟨y, hy, hyk⟩ := hex
      exact ⟨y, List.mem_cons_of_mem _ hy, hyk⟩
    rw [if_pos hex, if_pos hex', List.map_cons, if_neg hk]
  · have hex' : ¬ ∃ y ∈ row :: rows, y.1 = k := by
      rintro ⟨y, hy, hyk⟩
      rcases List.mem_cons.mp hy with rfl | hy
      · exact hk hyk
      · exact hex ⟨y, hy, hyk⟩
    rw [if_neg hex, if_neg hex']
    rfl

/-- Entering the first row. -/
theorem fuse_cons_self {combine : α → α → α} {row : κ × α} {rows : List (κ × α)} {x : α}
    (h : row.1 ∉ rows.map Prod.fst) :
    fuse combine (row :: rows) row.1 x = (row.1, combine row.2 x) :: rows := by
  unfold fuse upsertRow
  rw [findRow_cons, if_pos rfl, if_pos ⟨row, List.mem_cons_self, rfl⟩, List.map_cons, if_pos rfl]
  refine congrArg _ ((List.map_congr_left fun y hy => if_neg fun hyk => ?_).trans (List.map_id _))
  exact h (hyk ▸ List.mem_map_of_mem hy)

/-- What the items weigh is in the rows. -/
theorem perm_fuse {combine : α → α → α} {weigh : α → List β}
    (hw : ∀ a b, weigh (combine a b) = weigh a ++ weigh b) {rows : List (κ × α)}
    (h : (rows.map Prod.fst).Nodup) (k : κ) (x : α) :
    ((fuse combine rows k x).flatMap fun row => weigh row.2).Perm
      ((rows.flatMap fun row => weigh row.2) ++ weigh x) := by
  induction rows with
  | nil => simp [fuse, upsertRow]
  | cons row rows ih =>
    rw [List.map_cons, List.nodup_cons] at h
    by_cases hk : row.1 = k
    · subst hk
      rw [fuse_cons_self h.1, List.flatMap_cons, List.flatMap_cons, hw, List.append_assoc,
        List.append_assoc]
      exact List.perm_append_comm.append_left _
    · rw [fuse_cons_ne hk, List.flatMap_cons, List.flatMap_cons, List.append_assoc]
      exact (ih h.2).append_left _

theorem foldl_fuse {combine : α → α → α} {weigh : α → List β}
    (hw : ∀ a b, weigh (combine a b) = weigh a ++ weigh b) (key : α → κ) (xs : List α)
    {rows : List (κ × α)} (h : (rows.map Prod.fst).Nodup) :
    ((xs.foldl (fun rows x => fuse combine rows (key x) x) rows).flatMap
        fun row => weigh row.2).Perm
      ((rows.flatMap fun row => weigh row.2) ++ xs.flatMap weigh) := by
  induction xs generalizing rows with
  | nil => simp
  | cons x xs ih =>
    rw [List.foldl_cons, List.flatMap_cons, ← List.append_assoc]
    exact (ih (nodup_fuse h (key x) x)).trans ((perm_fuse hw h (key x) x).append_right _)

/-- The rows weigh what the items do. -/
theorem perm_collapse {combine : α → α → α} {weigh : α → List β}
    (hw : ∀ a b, weigh (combine a b) = weigh a ++ weigh b) (key : α → κ) (xs : List α) :
    ((collapse key combine xs).flatMap fun row => weigh row.2).Perm (xs.flatMap weigh) :=
  foldl_fuse hw key xs List.nodup_nil

/-- What holds of the items and of their combinations holds of the rows. -/
theorem collapse_forall {combine : α → α → α} {P : α → Prop}
    (hP : ∀ a b, P a → P b → P (combine a b)) (key : α → κ) {xs : List α} (h : ∀ x ∈ xs, P x) :
    ∀ row ∈ collapse key combine xs, P row.2 := by
  have hfold : ∀ (xs : List α) (rows : List (κ × α)), (∀ x ∈ xs, P x) → (∀ row ∈ rows, P row.2) →
      ∀ row ∈ xs.foldl (fun rows x => fuse combine rows (key x) x) rows, P row.2 := by
    intro xs
    induction xs with
    | nil => exact fun _ _ hrows => hrows
    | cons x xs ih =>
      intro rows hxs hrows
      rw [List.forall_mem_cons] at hxs
      refine ih _ hxs.2 fun row hrow => ?_
      rcases mem_upsertRow.mp hrow with rfl | ⟨hrow, -⟩
      · cases hold : findRow Prod.fst (key x) rows with
        | none => exact hxs.1
        | some row => exact hP _ _ (hrows row (findRow_some hold).1) hxs.1
      · exact hrows row hrow
  exact hfold xs [] h fun _ hrow => (List.not_mem_nil hrow).elim

/-- A map that respects the combinations commutes with entering. -/
theorem map_fuse {combine : α → α → α} {combine' : β → β → β} {f : α → β}
    (hf : ∀ a b, f (combine a b) = combine' (f a) (f b)) (rows : List (κ × α)) (k : κ) (x : α) :
    (fuse combine rows k x).map (Prod.map id f) =
      fuse combine' (rows.map (Prod.map id f)) k (f x) := by
  have hkey : ∀ row : κ × α, (Prod.map id f row).1 = row.1 := fun _ => rfl
  unfold fuse
  rw [← map_upsertRow hkey, findRow_map hkey]
  cases findRow Prod.fst k rows with
  | none => rfl
  | some row => exact congrArg (fun y => upsertRow Prod.fst (k, y) _) (hf row.2 x)

/-- A map that respects the combinations turns the rows of one into those of the other. -/
theorem map_collapse {combine : α → α → α} {combine' : β → β → β} {f : α → β}
    (hf : ∀ a b, f (combine a b) = combine' (f a) (f b)) {key : α → κ} {key' : β → κ}
    (hkey : ∀ a, key' (f a) = key a) (xs : List α) :
    (collapse key combine xs).map (Prod.map id f) = collapse key' combine' (xs.map f) := by
  have hfold : ∀ (xs : List α) (rows : List (κ × α)),
      (xs.foldl (fun rows x => fuse combine rows (key x) x) rows).map (Prod.map id f) =
        (xs.map f).foldl (fun rows x => fuse combine' rows (key' x) x)
          (rows.map (Prod.map id f)) := by
    intro xs
    induction xs with
    | nil => exact fun _ => rfl
    | cons x xs ih =>
      intro rows
      rw [List.foldl_cons, ih, List.map_cons, List.foldl_cons, hkey, map_fuse hf]
  exact hfold xs []

namespace Groups

/-- Grouping appends the items of a row to each other. -/
theorem enter_eq_fuse (g : Groups κ α) (k : κ) (x : α) :
    g.enter k x = fuse (fun xs ys => xs ++ ys) g k [x] := by
  unfold enter items fuse
  cases findRow Prod.fst k g <;> rfl

theorem ofList_eq_foldl (key : α → κ) (xs : List α) :
    ofList key xs =
      xs.foldl (fun g x => fuse (fun xs ys => xs ++ ys) g (key x) [x]) [] := by
  unfold ofList
  simp only [enter_eq_fuse]

/-- The groups together are the list. -/
theorem perm_ofList (key : α → κ) (xs : List α) : ((ofList key xs).flatMap Prod.snd).Perm xs := by
  have hfold : ∀ (xs : List α) (g : Groups κ α), (g.map Prod.fst).Nodup →
      ((xs.foldl (fun g x => fuse (fun xs ys => xs ++ ys) g (key x) [x]) g).flatMap Prod.snd).Perm
        (g.flatMap Prod.snd ++ xs) := by
    intro xs
    induction xs with
    | nil => exact fun g _ => by rw [List.append_nil]; exact List.Perm.refl _
    | cons x xs ih =>
      intro g hg
      have hstep : ((fuse (fun xs ys => xs ++ ys) g (key x) [x]).flatMap fun row => id row.2).Perm
          ((g.flatMap fun row => id row.2) ++ [x]) :=
        perm_fuse (fun _ _ => rfl) hg (key x) [x]
      have hrest := (ih _ (nodup_fuse hg (key x) [x])).trans (hstep.append_right xs)
      rw [List.append_assoc] at hrest
      exact hrest
  rw [ofList_eq_foldl]
  exact hfold xs [] List.nodup_nil

/-- A map of the items that keeps their keys maps the groups. -/
theorem ofList_map {f : β → α} {key : α → κ} (xs : List β) :
    ofList key (xs.map f) = (ofList (fun x => key (f x)) xs).map (Prod.map id (List.map f)) := by
  have hfold : ∀ (xs : List β) (g : Groups κ β),
      (xs.map f).foldl (fun g x => fuse (fun xs ys => xs ++ ys) g (key x) [x])
          (g.map (Prod.map id (List.map f))) =
        (xs.foldl (fun g x => fuse (fun xs ys => xs ++ ys) g (key (f x)) [x]) g).map
          (Prod.map id (List.map f)) := by
    intro xs
    induction xs with
    | nil => exact fun _ => rfl
    | cons x xs ih =>
      intro g
      rw [List.map_cons, List.foldl_cons, List.foldl_cons, ← ih,
        map_fuse (f := List.map f) (fun _ _ => List.map_append)]
      rfl
  rw [ofList_eq_foldl, ofList_eq_foldl]
  exact hfold xs []

end Groups

end Memplex.Lib
