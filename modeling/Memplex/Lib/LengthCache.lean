import Mathlib.Data.List.Induction
import Memplex.Lib.Rows

/-!
# Caches that are checked by a length

A value that is computed from a list is kept, and used again as long as the list has the length that
the value was kept under. This is right for a list that only grows at its end while the value grows
with it, but a list that is replaced by another of the same length is not noticed
(`current_eq_build_iff`). One value that can be kept so is `Positions`, the places of rows under their
keys.

`forall_reached_iff` is what a run needs: where a step keeps a property exactly under a condition,
all that the run reaches has the property exactly if all its steps meet the condition.
-/

namespace Memplex.Lib

/-- A value of a list, and the length that it is kept under. -/
structure LengthCache (α β : Type*) where
  build : List α → β
  count : β → ℕ

namespace LengthCache

variable {α β : Type*} (c : LengthCache α β)

/-- The value that is used for a list: what is kept, if it is kept under the length of the list. -/
def current : Option β → List α → β
  | none, xs => c.build xs
  | some b, xs => if c.count b = xs.length then b else c.build xs

@[simp] theorem current_none (xs : List α) : c.current none xs = c.build xs := rfl

variable {c}

/-- What is used for a list is kept under its length, if what is computed from it is. -/
theorem count_current {kept : Option β} {xs : List α} (h : c.count (c.build xs) = xs.length) :
    c.count (c.current kept xs) = xs.length := by
  cases kept with
  | none => exact h
  | some b =>
    by_cases hb : c.count b = xs.length
    · rwa [current, if_pos hb]
    · rwa [current, if_neg hb]

/-- What was computed from one list is used for another exactly where their lengths agree, and is
right there exactly if their values agree. -/
theorem current_eq_build_iff {seen xs : List α} (h : c.count (c.build seen) = seen.length) :
    c.current (some (c.build seen)) xs = c.build xs ↔
      (seen.length = xs.length → c.build seen = c.build xs) := by
  rw [current, h]
  by_cases hlen : seen.length = xs.length
  · rw [if_pos hlen]
    exact ⟨fun heq _ => heq, fun heq => heq hlen⟩
  · rw [if_neg hlen]
    exact ⟨fun _ hlen' => absurd hlen' hlen, fun _ => rfl⟩

end LengthCache

/-! ## The places of rows -/

/-- The places of rows under their keys, and the number of rows. -/
structure Positions (κ : Type*) where
  len : ℕ
  index : κ → Option ℕ
  lt : ∀ k, ∀ i ∈ index k, i < len

namespace Positions

variable {κ ν : Type*}

theorem ext {p q : Positions κ} (hlen : p.len = q.len) (hindex : ∀ k, p.index k = q.index k) :
    p = q := by
  obtain ⟨n, f, hf⟩ := p
  obtain ⟨m, g, hg⟩ := q
  obtain rfl : n = m := hlen
  obtain rfl : f = g := funext hindex
  rfl

/-- The places of no rows. -/
protected def empty : Positions κ := ⟨0, fun _ => none, nofun⟩

variable [DecidableEq κ]

/-- The places with one more row at the end. -/
def add (p : Positions κ) (k : κ) : Positions κ where
  len := p.len + 1
  index k' := if k' = k then some p.len else p.index k'
  lt k' i hi := by
    split_ifs at hi
    · rw [Option.mem_some_iff] at hi
      omega
    · exact Nat.lt_succ_of_lt (p.lt k' i hi)

/-- The places of some rows: of the last one, where several are under one key. -/
def ofRows (key : ν → κ) (rows : List ν) : Positions κ :=
  rows.foldl (fun p row => p.add (key row)) .empty

variable {key : ν → κ}

theorem ofRows_append (rows : List ν) (row : ν) :
    ofRows key (rows ++ [row]) = (ofRows key rows).add (key row) := by
  rw [ofRows, List.foldl_append]
  rfl

@[simp] theorem len_ofRows (rows : List ν) : (ofRows key rows).len = rows.length := by
  induction rows using List.reverseRecOn with
  | nil => rfl
  | append_singleton rows row ih =>
    rw [ofRows_append, List.length_append, List.length_singleton, ← ih]
    rfl

/-- Where keys are distinct, the place of a key is the first at which a scan finds it. -/
theorem index_ofRows {rows : List ν} (h : (rows.map key).Nodup) (k : κ) :
    (ofRows key rows).index k = rows.findIdx? fun row => key row = k := by
  induction rows using List.reverseRecOn with
  | nil => rfl
  | append_singleton rows row ih =>
    rw [List.map_append, List.nodup_append] at h
    obtain ⟨hrows, -, hfresh⟩ := h
    rw [ofRows_append, List.findIdx?_append]
    change (if k = key row then some (ofRows key rows).len else (ofRows key rows).index k) = _
    rw [ih hrows, len_ofRows]
    by_cases hk : k = key row
    · subst hk
      have hnone : (rows.findIdx? fun x => key x = key row) = none := by
        rw [List.findIdx?_eq_none_iff]
        intro x hx
        simpa using hfresh (key x) (List.mem_map_of_mem hx) (key row) (by simp)
      simp [hnone, List.findIdx?_cons]
    · simp [hk, Ne.symm hk, List.findIdx?_cons]

/-- Where keys are distinct, the places of rows say which keys there are, and in which order. -/
theorem ofRows_eq_iff {rows rows' : List ν} (h : (rows.map key).Nodup)
    (h' : (rows'.map key).Nodup) :
    ofRows key rows = ofRows key rows' ↔ rows.map key = rows'.map key := by
  constructor
  · intro heq
    have hlen : rows.length = rows'.length := by
      have hlens : (ofRows key rows).len = (ofRows key rows').len := congrArg len heq
      rwa [len_ofRows, len_ofRows] at hlens
    refine List.ext_getElem (by simpa using hlen) fun i hi hi' => ?_
    rw [List.length_map] at hi hi'
    -- The key of the row at `i` is found there in both.
    have hfound : ((rows.findIdx? fun row => key row = key rows[i])) = some i := by
      rw [List.findIdx?_eq_some_iff_getElem]
      refine ⟨hi, by simp, fun j hj => ?_⟩
      have hmi : i < (rows.map key).length := by simpa
      have hmj : j < (rows.map key).length := by simpa using Nat.lt_trans hj hi
      have hne : (rows.map key)[j] ≠ (rows.map key)[i] :=
        fun hsame => Nat.ne_of_lt hj (h.getElem_inj_iff.mp hsame)
      simpa using hne
    rw [← index_ofRows h, heq, index_ofRows h', List.findIdx?_eq_some_iff_getElem] at hfound
    obtain ⟨hi'', hkey, -⟩ := hfound
    simpa using (of_decide_eq_true hkey).symm
  · intro heq
    unfold ofRows
    rw [← List.foldl_map (f := key) (g := add), heq, List.foldl_map]

section Put

variable {rows : List ν} {r : ν} {i : ℕ}

/-- A row under a key without a place goes to the end. -/
theorem upsertRow_of_index_none (h : (rows.map key).Nodup)
    (hnone : (ofRows key rows).index (key r) = none) : upsertRow key r rows = rows ++ [r] := by
  rw [index_ofRows h, List.findIdx?_eq_none_iff] at hnone
  refine if_neg ?_
  rintro ⟨x, hx, hkey⟩
  simpa [hkey] using hnone x hx

/-- A row under a key with a place goes there. -/
theorem upsertRow_of_index_some (h : (rows.map key).Nodup)
    (hsome : (ofRows key rows).index (key r) = some i) : upsertRow key r rows = rows.set i r := by
  rw [index_ofRows h, List.findIdx?_eq_some_iff_getElem] at hsome
  obtain ⟨hi, hkey, -⟩ := hsome
  have hkey : key rows[i] = key r := of_decide_eq_true hkey
  rw [upsertRow, if_pos ⟨rows[i], List.getElem_mem hi, hkey⟩]
  refine List.ext_getElem (by simp) fun j hj hj' => ?_
  rw [List.length_map] at hj
  rw [List.getElem_map, List.getElem_set]
  by_cases hij : i = j
  · subst hij
    rw [if_pos hkey, if_pos rfl]
  · -- No other row is under the key.
    have hne : key rows[j] ≠ key r := by
      intro hsame
      have hmi : i < (rows.map key).length := by simpa
      have hmj : j < (rows.map key).length := by simpa
      have heq : (rows.map key)[i] = (rows.map key)[j] := by
        simp [hkey, hsame]
      exact hij (h.getElem_inj_iff.mp heq)
    rw [if_neg hne, if_neg hij]

/-- The places of the keys stay where a row replaces another. -/
theorem ofRows_upsertRow (h : (rows.map key).Nodup)
    (hsome : (ofRows key rows).index (key r) = some i) :
    ofRows key (upsertRow key r rows) = ofRows key rows := by
  rw [ofRows_eq_iff (nodup_upsertRow h) h]
  rw [index_ofRows h, List.findIdx?_eq_some_iff_getElem] at hsome
  obtain ⟨hi, hkey, -⟩ := hsome
  exact map_key_upsertRow_of_mem ⟨rows[i], List.getElem_mem hi, of_decide_eq_true hkey⟩

end Put

end Positions

/-! ## Runs -/

/-- Where a step from a good state that is kept in order leads to a good state exactly under a
condition, and then to one that is in order, a run reaches good states only, exactly if all its
steps meet the condition. -/
theorem forall_reached_iff {σ τ : Type*} (step : σ → τ → σ) (Inv Good : σ → Prop)
    (Fits : σ → τ → Prop) (hgood : ∀ s, Inv s → Good s)
    (hfits : ∀ s a, Inv s → (Fits s a ↔ Good (step s a)))
    (hinv : ∀ s a, Inv s → Good (step s a) → Inv (step s a)) {s : σ} (hs : Inv s) (acts : List τ) :
    (∀ done, done <+: acts → Good (done.foldl step s)) ↔
      ∀ done a, done ++ [a] <+: acts → Fits (done.foldl step s) a := by
  have hnext : ∀ (done : List τ) (a : τ),
      (done ++ [a]).foldl step s = step (done.foldl step s) a := by
    intro done a
    rw [List.foldl_append]
    rfl
  -- Along the part of the run that is good, the state is in order.
  have horder : (∀ done, done <+: acts → Good (done.foldl step s)) →
      ∀ done, done <+: acts → Inv (done.foldl step s) := by
    intro hall done
    induction done using List.reverseRecOn with
    | nil => exact fun _ => hs
    | append_singleton done a ih =>
      intro hdone
      have hgood' := hall _ hdone
      rw [hnext] at hgood' ⊢
      exact hinv _ a (ih ((List.prefix_append done [a]).trans hdone)) hgood'
  constructor
  · intro hall done a hdone
    have hbefore := horder hall done ((List.prefix_append done [a]).trans hdone)
    refine (hfits _ a hbefore).mpr ?_
    rw [← hnext]
    exact hall _ hdone
  · intro hall done
    suffices hinv' : done <+: acts → Inv (done.foldl step s) from fun h => hgood _ (hinv' h)
    induction done using List.reverseRecOn with
    | nil => exact fun _ => hs
    | append_singleton done a ih =>
      intro hdone
      have hbefore := ih ((List.prefix_append done [a]).trans hdone)
      rw [hnext]
      exact hinv _ a hbefore ((hfits _ a hbefore).mp (hall done a hdone))

end Memplex.Lib
