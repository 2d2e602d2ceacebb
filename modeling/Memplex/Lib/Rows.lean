import Mathlib.Data.List.Nodup
import Mathlib.Data.List.Basic

/-!
# Keyed rows

A store keeps its records in lists of rows, each row under the key that a projection `key` reads
from it: a dictionary keeps the values in insertion order, a table of a database keeps its rows.
`findRow`, `upsertRow` and `eraseRow` are lookup, replacement in place (or append) and removal on
such a list. `findRow` after the other two is determined at every key, whatever the list is; the
keys stay distinct where they were. `Table` is a list of rows that carries that distinctness.
-/

namespace Memplex.Lib

variable {κ ν : Type*} [DecidableEq κ]

/-- The first row under the key `k`. -/
def findRow (key : ν → κ) (k : κ) (rows : List ν) : Option ν :=
  rows.find? fun r => key r = k

/-- Puts `r` in the place of the rows under its key, or at the end when there is none. -/
def upsertRow (key : ν → κ) (r : ν) (rows : List ν) : List ν :=
  if ∃ x ∈ rows, key x = key r then rows.map fun x => if key x = key r then r else x
  else rows ++ [r]

/-- Removes the rows under the key `k`. -/
def eraseRow (key : ν → κ) (k : κ) (rows : List ν) : List ν :=
  rows.filter fun r => key r ≠ k

/-- Appends `r`, unless there is a row under its key. -/
def appendNew (key : ν → κ) (rows : List ν) (r : ν) : List ν :=
  if key r ∈ rows.map key then rows else rows ++ [r]

section Find

variable (key : ν → κ)

@[simp] theorem findRow_nil (k : κ) : findRow key k [] = none := rfl

theorem findRow_cons (k : κ) (r : ν) (rows : List ν) :
    findRow key k (r :: rows) = if key r = k then some r else findRow key k rows := by
  unfold findRow
  rw [List.find?_cons]
  by_cases h : key r = k <;> simp [h]

theorem findRow_append (k : κ) (xs ys : List ν) :
    findRow key k (xs ++ ys) = (findRow key k xs).or (findRow key k ys) := by
  unfold findRow
  rw [List.find?_append]

variable {key}

/-- A row that `findRow` returns is in the list and is under the key asked for. -/
theorem findRow_some {k : κ} {rows : List ν} {r : ν} (h : findRow key k rows = some r) :
    r ∈ rows ∧ key r = k :=
  ⟨List.mem_of_find?_eq_some h, by simpa using List.find?_some h⟩

theorem findRow_eq_none {k : κ} {rows : List ν} :
    findRow key k rows = none ↔ ∀ r ∈ rows, key r ≠ k := by
  simp [findRow, List.find?_eq_none]

theorem findRow_isSome {k : κ} {rows : List ν} :
    (findRow key k rows).isSome ↔ ∃ r ∈ rows, key r = k := by
  simp [findRow, List.find?_isSome]

/-- Where keys are distinct, a row is found under its own key. -/
theorem findRow_of_mem {rows : List ν} (hd : (rows.map key).Nodup) {r : ν} (hr : r ∈ rows) :
    findRow key (key r) rows = some r := by
  induction rows with
  | nil => simp at hr
  | cons x xs ih =>
    rw [List.map_cons, List.nodup_cons] at hd
    rw [findRow_cons]
    rcases List.mem_cons.mp hr with rfl | hr'
    · simp
    · have hne : key x ≠ key r := fun he => hd.1 (he ▸ List.mem_map_of_mem hr')
      rw [if_neg hne]
      exact ih hd.2 hr'

/-- Looking a key up after an upsert: the new row under its own key, the old row elsewhere. -/
theorem findRow_upsertRow (k : κ) (r : ν) (rows : List ν) :
    findRow key k (upsertRow key r rows) = if key r = k then some r else findRow key k rows := by
  unfold upsertRow
  split_ifs with hex hk hk
  · -- The row replaces the first row under its key.
    subst hk
    obtain ⟨x, hx, hxk⟩ := hex
    induction rows with
    | nil => simp at hx
    | cons y ys ih =>
      rw [List.map_cons, findRow_cons]
      by_cases hy : key y = key r
      · simp [hy]
      · rw [if_neg hy, if_neg hy]
        rcases List.mem_cons.mp hx with rfl | hx'
        · exact absurd hxk hy
        · exact ih hx'
  · -- At another key the map leaves every row that matters alone.
    clear hex
    induction rows with
    | nil => rfl
    | cons y ys ih =>
      rw [List.map_cons, findRow_cons, findRow_cons, ih]
      by_cases hy : key y = key r
      · rw [if_pos hy, if_neg hk, if_neg (hy ▸ hk)]
      · rw [if_neg hy]
  · have hnone : findRow key k rows = none := findRow_eq_none.mpr fun x hx he =>
      hex ⟨x, hx, he.trans hk.symm⟩
    rw [findRow_append, hnone, findRow_cons, if_pos hk]
    rfl
  · rw [findRow_append, findRow_cons, if_neg hk]
    simp

/-- Looking a key up after an erasure: nothing under the erased key, the old row elsewhere. -/
theorem findRow_eraseRow (k k' : κ) (rows : List ν) :
    findRow key k' (eraseRow key k rows) = if k' = k then none else findRow key k' rows := by
  unfold eraseRow
  induction rows with
  | nil => simp
  | cons y ys ih =>
    rw [List.filter_cons, findRow_cons]
    by_cases hy : key y = k
    · rw [if_neg (by simpa using hy), ih]
      by_cases hk : k' = k
      · simp [hk]
      · rw [if_neg hk, if_neg hk, if_neg (fun he => hk (he.symm.trans hy))]
    · rw [if_pos (by simpa using hy), findRow_cons, ih]
      by_cases hk : k' = k
      · rw [if_pos hk, if_neg (fun he => hy (he.trans hk)), if_pos hk]
      · rw [if_neg hk, if_neg hk]

/-- Looking a key up in the image of the rows under a map that keeps the keys. -/
theorem findRow_map {ν' : Type*} {key' : ν' → κ} {g : ν → ν'} (hg : ∀ r, key' (g r) = key r) (k : κ)
    (rows : List ν) : findRow key' k (rows.map g) = (findRow key k rows).map g := by
  induction rows with
  | nil => rfl
  | cons r rows ih =>
    rw [List.map_cons, findRow_cons, findRow_cons, hg, ih]
    split_ifs <;> rfl

/-- A map that keeps the keys commutes with an upsert. -/
theorem map_upsertRow {ν' : Type*} {key' : ν' → κ} {g : ν → ν'} (hg : ∀ r, key' (g r) = key r)
    (r : ν) (rows : List ν) :
    upsertRow key' (g r) (rows.map g) = (upsertRow key r rows).map g := by
  have hex : (∃ x ∈ rows.map g, key' x = key' (g r)) ↔ ∃ x ∈ rows, key x = key r := by
    simp only [List.mem_map, exists_exists_and_eq_and, hg]
  unfold upsertRow
  by_cases h : ∃ x ∈ rows, key x = key r
  · rw [if_pos h, if_pos (hex.mpr h), List.map_map, List.map_map]
    refine List.map_congr_left fun x _ => ?_
    rw [Function.comp_apply, Function.comp_apply, hg, hg]
    split_ifs <;> rfl
  · rw [if_neg h, if_neg (mt hex.mp h), List.map_append]
    rfl

end Find

section New

variable (key : ν → κ)

/-- Appending new rows keeps the old ones in front, and adds nothing exactly if every key is there
already. -/
theorem foldl_appendNew (rows new : List ν) :
    ∃ more, new.foldl (appendNew key) rows = rows ++ more ∧
      (more = [] ↔ ∀ r ∈ new, key r ∈ rows.map key) := by
  induction new generalizing rows with
  | nil => exact ⟨[], by simp⟩
  | cons r new ih =>
    by_cases hr : key r ∈ rows.map key
    · obtain ⟨more, heq, hmore⟩ := ih rows
      have hstep : appendNew key rows r = rows := if_pos hr
      refine ⟨more, by rw [List.foldl_cons, hstep, heq], ?_⟩
      rw [hmore, List.forall_mem_cons]
      exact (and_iff_right hr).symm
    · obtain ⟨more, heq, -⟩ := ih (rows ++ [r])
      have hstep : appendNew key rows r = rows ++ [r] := if_neg hr
      refine ⟨r :: more, by rw [List.foldl_cons, hstep, heq, List.append_assoc]; rfl, ?_⟩
      -- The row itself is new, so that neither side holds.
      exact iff_of_false (List.cons_ne_nil _ _) fun hall => hr (hall r (List.mem_cons_self ..))

/-- Appending new rows, one under each new key. -/
theorem mem_map_foldl_appendNew (rows new : List ν) (k : κ) :
    k ∈ (new.foldl (appendNew key) rows).map key ↔ k ∈ rows.map key ∨ k ∈ new.map key := by
  induction new generalizing rows with
  | nil => simp
  | cons r new ih =>
    rw [List.foldl_cons, ih, List.map_cons, List.mem_cons]
    unfold appendNew
    by_cases hr : key r ∈ rows.map key
    · rw [if_pos hr]
      constructor
      · rintro (hk | hk)
        · exact .inl hk
        · exact .inr (.inr hk)
      · rintro (hk | rfl | hk)
        · exact .inl hk
        · exact .inl hr
        · exact .inr hk
    · rw [if_neg hr, List.map_append, List.mem_append, List.map_singleton, List.mem_singleton,
        or_assoc]

variable {key}

theorem mem_of_mem_foldl_appendNew {rows new : List ν} {x : ν}
    (h : x ∈ new.foldl (appendNew key) rows) : x ∈ rows ∨ x ∈ new := by
  induction new generalizing rows with
  | nil => exact .inl h
  | cons r new ih =>
    rw [List.foldl_cons] at h
    rcases ih h with h | h
    · unfold appendNew at h
      split_ifs at h
      · exact .inl h
      · rcases List.mem_append.mp h with h | h
        · exact .inl h
        · exact .inr (List.mem_cons.mpr (.inl (List.mem_singleton.mp h)))
    · exact .inr (List.mem_cons_of_mem r h)

/-- Keys stay distinct where new rows are appended. -/
theorem nodup_foldl_appendNew {rows : List ν} (new : List ν) (h : (rows.map key).Nodup) :
    ((new.foldl (appendNew key) rows).map key).Nodup := by
  induction new generalizing rows with
  | nil => exact h
  | cons r new ih =>
    refine ih ?_
    unfold appendNew
    split_ifs with hr
    · exact h
    · rw [List.map_append, List.map_singleton, ← List.concat_eq_append]
      exact h.concat hr

end New

section Members

variable {key : ν → κ}

theorem mem_eraseRow {k : κ} {rows : List ν} {x : ν} :
    x ∈ eraseRow key k rows ↔ x ∈ rows ∧ key x ≠ k := by
  simp [eraseRow]

/-- After an upsert the rows are the new one and the old ones under other keys. -/
theorem mem_upsertRow {r : ν} {rows : List ν} {x : ν} :
    x ∈ upsertRow key r rows ↔ x = r ∨ x ∈ rows ∧ key x ≠ key r := by
  unfold upsertRow
  split_ifs with hex
  · rw [List.mem_map]
    constructor
    · rintro ⟨y, hy, rfl⟩
      by_cases hk : key y = key r
      · rw [if_pos hk]; exact Or.inl rfl
      · rw [if_neg hk]; exact Or.inr ⟨hy, hk⟩
    · rintro (rfl | ⟨hx, hk⟩)
      · obtain ⟨y, hy, hk⟩ := hex
        exact ⟨y, hy, if_pos hk⟩
      · exact ⟨x, hx, if_neg hk⟩
  · rw [List.mem_append, List.mem_singleton]
    constructor
    · rintro (hx | rfl)
      · exact Or.inr ⟨hx, fun hk => hex ⟨x, hx, hk⟩⟩
      · exact Or.inl rfl
    · rintro (rfl | ⟨hx, -⟩)
      · exact Or.inr rfl
      · exact Or.inl hx

theorem map_key_upsertRow_of_mem {r : ν} {rows : List ν} (hex : ∃ x ∈ rows, key x = key r) :
    (upsertRow key r rows).map key = rows.map key := by
  rw [upsertRow, if_pos hex, List.map_map]
  refine List.map_congr_left fun x _ => ?_
  by_cases hk : key x = key r <;> simp [hk]

/-- An upsert keeps the keys distinct. -/
theorem nodup_upsertRow {r : ν} {rows : List ν} (hd : (rows.map key).Nodup) :
    ((upsertRow key r rows).map key).Nodup := by
  by_cases hex : ∃ x ∈ rows, key x = key r
  · rwa [map_key_upsertRow_of_mem hex]
  · rw [upsertRow, if_neg hex, List.map_append, List.nodup_append]
    refine ⟨hd, by simp, ?_⟩
    rintro a ha b hb rfl
    obtain ⟨x, hx, rfl⟩ := List.mem_map.mp ha
    exact hex ⟨x, hx, by simpa using hb⟩

/-- A row that is entered makes the rows longer under a new key only. -/
theorem length_upsertRow {r : ν} {rows : List ν} :
    (upsertRow key r rows).length = rows.length + if ∃ x ∈ rows, key x = key r then 0 else 1 := by
  unfold upsertRow
  split_ifs
  · rw [List.length_map, Nat.add_zero]
  · rw [List.length_append, List.length_singleton]

theorem length_eraseRow {r : ν} {rows : List ν} (h : r ∈ rows) :
    (eraseRow key (key r) rows).length < rows.length :=
  List.length_filter_lt_length_iff_exists.mpr ⟨r, h, by simp⟩

/-- An erasure keeps the keys distinct. -/
theorem nodup_eraseRow {k : κ} {rows : List ν} (hd : (rows.map key).Nodup) :
    ((eraseRow key k rows).map key).Nodup :=
  hd.sublist (List.filter_sublist.map key)

end Members

/-- Rows with pairwise distinct keys, in insertion order. -/
structure Table (key : ν → κ) where
  /-- The rows, oldest key first. -/
  rows : List ν
  /-- No two rows are under one key. -/
  nodup : (rows.map key).Nodup

namespace Table

variable {key : ν → κ}

omit [DecidableEq κ] in
@[ext] theorem ext {s t : Table key} (h : s.rows = t.rows) : s = t := by
  cases s; cases t; cases h; rfl

instance [DecidableEq ν] : DecidableEq (Table key) := fun s t =>
  decidable_of_iff (s.rows = t.rows) ⟨ext, congrArg rows⟩

/-- The table with no rows. -/
def empty : Table key := ⟨[], List.nodup_nil⟩

/-- The row under a key. -/
def get? (t : Table key) (k : κ) : Option ν := findRow key k t.rows

/-- Whether a key has a row. -/
def contains (t : Table key) (k : κ) : Bool := (t.get? k).isSome

/-- Assignment under the row's key: in place, or at the end for a new key. -/
def set (t : Table key) (r : ν) : Table key := ⟨upsertRow key r t.rows, nodup_upsertRow t.nodup⟩

/-- Removal of a key. -/
def erase (t : Table key) (k : κ) : Table key := ⟨eraseRow key k t.rows, nodup_eraseRow t.nodup⟩

/-- The rows that satisfy a test. -/
def filter (t : Table key) (p : ν → Bool) : Table key :=
  ⟨t.rows.filter p, t.nodup.sublist (List.filter_sublist.map key)⟩

@[simp] theorem get?_empty (k : κ) : (empty : Table key).get? k = none := rfl

@[simp] theorem get?_set (t : Table key) (r : ν) (k : κ) :
    (t.set r).get? k = if key r = k then some r else t.get? k :=
  findRow_upsertRow k r t.rows

@[simp] theorem get?_erase (t : Table key) (k k' : κ) :
    (t.erase k).get? k' = if k' = k then none else t.get? k' :=
  findRow_eraseRow k k' t.rows

/-- The rows of a table are exactly what its keys look up. -/
theorem mem_rows_iff (t : Table key) (r : ν) : r ∈ t.rows ↔ t.get? (key r) = some r :=
  ⟨fun h => findRow_of_mem t.nodup h, fun h => (findRow_some h).1⟩

theorem get?_key {t : Table key} {k : κ} {r : ν} (h : t.get? k = some r) : key r = k :=
  (findRow_some h).2

theorem contains_iff {t : Table key} {k : κ} : t.contains k ↔ ∃ r, t.get? k = some r :=
  Option.isSome_iff_exists

/-- What a key looks up is a row. -/
theorem mem_of_get? {t : Table key} {k : κ} {r : ν} (h : t.get? k = some r) : r ∈ t.rows :=
  (findRow_some h).1

/-- Under a key that no row is assigned under, everything stays. -/
theorem get?_foldl_set_ne {t : Table key} {rs : List ν} {k : κ} (h : ∀ r ∈ rs, key r ≠ k) :
    (rs.foldl Table.set t).get? k = t.get? k := by
  induction rs generalizing t with
  | nil => rfl
  | cons r rs ih =>
    rw [List.forall_mem_cons] at h
    rw [List.foldl_cons, ih h.2, get?_set, if_neg h.1]

/-- Under a key that a row is assigned under, one of these rows is found. -/
theorem get?_foldl_set_mem {t : Table key} {rs : List ν} {k : κ} (h : ∃ r ∈ rs, key r = k) :
    ∃ r ∈ rs, key r = k ∧ (rs.foldl Table.set t).get? k = some r := by
  induction rs generalizing t with
  | nil =>
    obtain ⟨r, hr, -⟩ := h
    exact (List.not_mem_nil hr).elim
  | cons r rs ih =>
    rw [List.foldl_cons]
    by_cases hlater : ∃ x ∈ rs, key x = k
    · obtain ⟨x, hx, hkey, hget⟩ := ih hlater
      exact ⟨x, List.mem_cons_of_mem _ hx, hkey, hget⟩
    · obtain ⟨x, hx, hkey⟩ := h
      have hfirst : key r = k := by
        rcases List.mem_cons.mp hx with rfl | hx
        · exact hkey
        · exact absurd ⟨x, hx, hkey⟩ hlater
      refine ⟨r, List.mem_cons_self, hfirst, ?_⟩
      rw [get?_foldl_set_ne fun y hy hyk => hlater ⟨y, hy, hyk⟩, get?_set, if_pos hfirst]

/-- Looking a key up after rows are assigned: what the empty table then has, or what was there. -/
theorem get?_foldl_set {t : Table key} {rs : List ν} {k : κ} :
    (rs.foldl Table.set t).get? k =
      ((rs.foldl Table.set (empty : Table key)).get? k).or (t.get? k) := by
  induction rs generalizing t with
  | nil => rfl
  | cons r rs ih =>
    rw [List.foldl_cons, List.foldl_cons, ih, ih (t := empty.set r), get?_set, get?_set,
      Option.or_assoc]
    split_ifs <;> rfl

/-- Where the rows come from after several are assigned. -/
theorem mem_foldl_set {t : Table key} {rs : List ν} {x : ν} (h : x ∈ (rs.foldl Table.set t).rows) :
    x ∈ rs ∨ x ∈ t.rows := by
  induction rs generalizing t with
  | nil => exact .inr h
  | cons r rs ih =>
    rcases ih h with hx | hx
    · exact .inl (List.mem_cons_of_mem _ hx)
    · rcases mem_upsertRow.mp hx with rfl | ⟨hx, -⟩
      · exact .inl List.mem_cons_self
      · exact .inr hx

/-- Rows under distinct new keys are appended. -/
theorem rows_foldl_set_new {t : Table key} {rs : List ν}
    (h : ((t.rows ++ rs).map key).Nodup) : (rs.foldl Table.set t).rows = t.rows ++ rs := by
  induction rs generalizing t with
  | nil => exact (List.append_nil _).symm
  | cons r rs ih =>
    have hset : (t.set r).rows = t.rows ++ [r] := by
      refine if_neg ?_
      rintro ⟨x, hx, hkey⟩
      rw [List.map_append, List.nodup_append] at h
      exact h.2.2 _ (List.mem_map_of_mem hx) _ (List.mem_map_of_mem List.mem_cons_self) hkey
    have hsplit : (t.set r).rows ++ rs = t.rows ++ r :: rs := by
      rw [hset, List.append_assoc]
      rfl
    rw [List.foldl_cons, ih (by rwa [hsplit]), hsplit]

/-- Looking a key up after several are removed. -/
theorem get?_foldl_erase {t : Table key} {ks : List κ} {k : κ} :
    (ks.foldl Table.erase t).get? k = if k ∈ ks then none else t.get? k := by
  induction ks generalizing t with
  | nil => simp
  | cons first ks ih =>
    rw [List.foldl_cons, ih, get?_erase]
    by_cases hfirst : k = first <;> by_cases hrest : k ∈ ks <;> simp [hfirst, hrest]

/-- Rows that are assigned under keys that are there replace the rows of these keys. -/
theorem rows_foldl_set {t : Table key} {us : List ν} (h : ∀ u ∈ us, key u ∈ t.rows.map key) :
    (us.foldl Table.set t).rows =
      t.rows.map fun x => us.foldl (fun x u => if key x = key u then u else x) x := by
  induction us generalizing t with
  | nil => exact (List.map_id' _).symm
  | cons u us ih =>
    rw [List.forall_mem_cons] at h
    have hex : ∃ x ∈ t.rows, key x = key u := List.mem_map.mp h.1
    have hset : (t.set u).rows = t.rows.map fun x => if key x = key u then u else x := by
      change upsertRow key u t.rows = _
      rw [upsertRow, if_pos hex]
    have hkeys : (t.set u).rows.map key = t.rows.map key := map_key_upsertRow_of_mem hex
    rw [List.foldl_cons, ih fun x hx => hkeys ▸ h.2 x hx, hset, List.map_map]
    rfl

/-- What becomes of a row when all that is assigned under its key is one and the same. -/
theorem foldl_replace {us : List ν} {x y : ν} (hy : key y = key x)
    (h : ∀ u ∈ us, key u = key x → u = y) :
    us.foldl (fun x u => if key x = key u then u else x) x =
      if ∃ u ∈ us, key u = key x then y else x := by
  have hrest : ∀ us : List ν, (∀ u ∈ us, key u = key x → u = y) →
      us.foldl (fun x u => if key x = key u then u else x) y = y := by
    intro us
    induction us with
    | nil => exact fun _ => rfl
    | cons u us ih =>
      intro h
      rw [List.forall_mem_cons] at h
      rw [List.foldl_cons]
      by_cases hu : key y = key u
      · rw [if_pos hu, h.1 (hu.symm.trans hy)]
        exact ih h.2
      · rw [if_neg hu]
        exact ih h.2
  induction us with
  | nil => simp
  | cons u us ih =>
    rw [List.forall_mem_cons] at h
    rw [List.foldl_cons]
    by_cases hu : key x = key u
    · rw [if_pos hu, h.1 hu.symm, hrest us h.2, if_pos ⟨y, List.mem_cons_self, hy⟩]
    · rw [if_neg hu, ih h.2]
      have hiff : (∃ v ∈ us, key v = key x) ↔ ∃ v ∈ u :: us, key v = key x := by
        rw [List.exists_mem_cons_iff, or_iff_right]
        exact fun he => hu he.symm
      exact if_congr hiff rfl rfl

end Table

end Memplex.Lib
