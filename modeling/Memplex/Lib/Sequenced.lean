import Mathlib.Data.List.Basic
import Mathlib.Data.List.Nodup
import Mathlib.Order.Nat

/-!
# Rows that are numbered before they are committed

Transactions append rows to streams. A row gets its position when it is drawn, from one counter for
all streams, but it becomes visible when its transaction commits, together with the others of the
transaction; a transaction that is rolled back leaves a gap. So rows may become visible out of
order, and a reader that has seen position `h` of a stream may be overtaken by a smaller one.

This does not happen if every transaction takes the lock of a stream before it draws a position of
it (`Guarded`), and keeps it to its end. `Settled s k h` says that nothing in flight can become
visible in stream `k` at `h` or below. It lasts (`Settled.step`), it holds at the position of every
row that has been committed (`settled_of_history`), and what is visible up to `h` later has been
visible since (`Settled.run`).
-/

namespace Memplex.Lib.Sequenced

variable {κ ℓ ι α : Type*}

/-- What a transaction does, as far as it matters here. Nothing follows an error but the end of the
transaction, which is never a commit. -/
inductive Action (κ ℓ α : Type*) where
  | lock (l : ℓ)
  | draw (key : κ) (value : α)
  | fail

/-- A row of a stream, at its position. -/
structure Row (κ α : Type*) where
  key : κ
  pos : ℕ
  value : α

/-- A transaction in flight: what it is still to do, the locks it has, and the rows it has drawn. -/
structure Tx (κ ℓ α : Type*) where
  todo : List (Action κ ℓ α)
  held : List ℓ
  drawn : List (Row κ α)

/-- The counter, the transactions in flight and the visible rows, with all that have ever been
visible. -/
structure State (κ ℓ ι α : Type*) where
  next : ℕ
  txs : ι → Option (Tx κ ℓ α)
  committed : List (Row κ α)
  history : List (Row κ α)

/-- The lock of a stream is held wherever a position of it is drawn. -/
def Guarded (lockOf : κ → ℓ) : List ℓ → List (Action κ ℓ α) → Prop
  | _, [] => True
  | held, .lock l :: todo => Guarded lockOf (l :: held) todo
  | held, .draw key _ :: todo => lockOf key ∈ held ∧ Guarded lockOf held todo
  | _, .fail :: _ => True

section Programs

variable {lockOf : κ → ℓ}

theorem Guarded.mono {held held' : List ℓ} {todo : List (Action κ ℓ α)}
    (h : Guarded lockOf held todo) (hsub : held ⊆ held') : Guarded lockOf held' todo := by
  induction todo generalizing held held' with
  | nil => trivial
  | cons a todo ih =>
    cases a with
    | lock l => exact ih h (List.cons_subset_cons l hsub)
    | draw key value => exact ⟨hsub h.1, ih h.2 hsub⟩
    | fail => trivial

/-- What follows may rely on the locks that were taken, as nothing follows an error. -/
theorem Guarded.append_locked {held : List ℓ} {as bs : List (Action κ ℓ α)}
    (has : Guarded lockOf held as)
    (hbs : Action.fail ∉ as → ∀ held', held ⊆ held' → (∀ l, Action.lock l ∈ as → l ∈ held') →
      Guarded lockOf held' bs) :
    Guarded lockOf held (as ++ bs) := by
  induction as generalizing held with
  | nil => exact hbs (by simp) held (List.Subset.refl held) (by simp)
  | cons a as ih =>
    cases a with
    | lock l =>
      refine ih has fun hfail held' hsub hlocks => hbs ?_ held' ?_ fun l' hl' => ?_
      · simpa using hfail
      · exact List.Subset.trans (List.subset_cons_self l held) hsub
      · rcases List.mem_cons.mp hl' with heq | hl'
        · cases heq
          exact hsub List.mem_cons_self
        · exact hlocks l' hl'
    | draw key value =>
      refine ⟨has.1, ih has.2 fun hfail held' hsub hlocks => hbs ?_ held' hsub fun l hl => ?_⟩
      · simpa using hfail
      · exact hlocks l (by simpa using hl)
    | fail => trivial

/-- What is guarded stays so after something else that is. -/
theorem Guarded.append {held : List ℓ} {as bs : List (Action κ ℓ α)}
    (has : Guarded lockOf held as) (hbs : Guarded lockOf held bs) :
    Guarded lockOf held (as ++ bs) :=
  has.append_locked fun _ _ hsub _ => hbs.mono hsub

theorem Guarded.flatMap {β : Type*} {held : List ℓ} {f : β → List (Action κ ℓ α)} {bs : List β}
    (h : ∀ b ∈ bs, Guarded lockOf held (f b)) : Guarded lockOf held (bs.flatMap f) := by
  induction bs with
  | nil => trivial
  | cons b bs ih =>
    rw [List.flatMap_cons]
    exact (h b List.mem_cons_self).append (ih fun c hc => h c (List.mem_cons_of_mem b hc))

end Programs

section Steps

variable [DecidableEq ι]

namespace State

/-- The state with a transaction where it is now. -/
def setTx (s : State κ ℓ ι α) (i : ι) (t : Option (Tx κ ℓ α)) : State κ ℓ ι α :=
  { s with txs := Function.update s.txs i t }

variable {s : State κ ℓ ι α} {i j : ι} {t : Option (Tx κ ℓ α)} {u : Tx κ ℓ α}

@[simp] theorem setTx_next : (s.setTx i t).next = s.next := rfl
@[simp] theorem setTx_committed : (s.setTx i t).committed = s.committed := rfl
@[simp] theorem setTx_history : (s.setTx i t).history = s.history := rfl

@[simp] theorem setTx_self : (s.setTx i t).txs i = t := by
  exact Function.update_self _ _ _

@[simp] theorem setTx_setTx {t' : Option (Tx κ ℓ α)} : (s.setTx i t).setTx i t' = s.setTx i t' := by
  simp [setTx]

/-- A transaction of the new state is the one that was set, or another that was there. -/
theorem setTx_txs (h : (s.setTx i t).txs j = some u) : (j = i ∧ t = some u) ∨ s.txs j = some u := by
  by_cases hj : j = i
  · subst hj
    exact .inl ⟨rfl, setTx_self.symm.trans h⟩
  · right
    rw [← h]
    exact (Function.update_of_ne hj _ _).symm

end State

/-- The steps of transactions that run some programs, in any interleaving. -/
inductive Step (programs : List (Action κ ℓ α) → Prop) (s : State κ ℓ ι α) : State κ ℓ ι α → Prop
  | start {i : ι} {todo : List (Action κ ℓ α)} (hnew : s.txs i = none) (htodo : programs todo) :
      Step programs s (s.setTx i (some ⟨todo, [], []⟩))
  /-- A lock is taken when no other transaction has it. -/
  | lock {i : ι} {l : ℓ} {todo : List (Action κ ℓ α)} {held : List ℓ} {drawn : List (Row κ α)}
      (hi : s.txs i = some ⟨.lock l :: todo, held, drawn⟩)
      (hfree : ∀ j t, j ≠ i → s.txs j = some t → l ∉ t.held) :
      Step programs s (s.setTx i (some ⟨todo, l :: held, drawn⟩))
  /-- Positions increase in the order in which they are drawn, with gaps. -/
  | draw {i : ι} {key : κ} {value : α} {todo : List (Action κ ℓ α)} {held : List ℓ}
      {drawn : List (Row κ α)} {pos : ℕ}
      (hi : s.txs i = some ⟨.draw key value :: todo, held, drawn⟩) (hpos : s.next ≤ pos) :
      Step programs s { s.setTx i (some ⟨todo, held, drawn ++ [⟨key, pos, value⟩]⟩) with
        next := pos + 1 }
  | commit {i : ι} {held : List ℓ} {drawn : List (Row κ α)} (hi : s.txs i = some ⟨[], held, drawn⟩) :
      Step programs s { s.setTx i none with
        committed := s.committed ++ drawn
        history := s.history ++ drawn }
  | rollback {i : ι} {t : Tx κ ℓ α} (hi : s.txs i = some t) : Step programs s (s.setTx i none)

/-- The state without some of the visible rows. -/
def State.delete (s : State κ ℓ ι α) (p : Row κ α → Bool) : State κ ℓ ι α :=
  { s with committed := s.committed.filter p }

/-- Any number of steps and deletions. -/
inductive Run (programs : List (Action κ ℓ α) → Prop) (s : State κ ℓ ι α) : State κ ℓ ι α → Prop
  | refl : Run programs s s
  | step {s' s'' : State κ ℓ ι α} (h : Run programs s s') (hstep : Step programs s' s'') :
      Run programs s s''
  | delete {s' : State κ ℓ ι α} (h : Run programs s s') (p : Row κ α → Bool) :
      Run programs s (s'.delete p)

end Steps

/-- What holds of a transaction in flight. -/
structure Tx.Ok (lockOf : κ → ℓ) (s : State κ ℓ ι α) (t : Tx κ ℓ α) : Prop where
  guarded : Guarded lockOf t.held t.todo
  /-- The lock of every row that was drawn is held. -/
  locked : ∀ r ∈ t.drawn, lockOf r.key ∈ t.held
  lt_next : ∀ r ∈ t.drawn, r.pos < s.next
  /-- What it has drawn comes after all that was visible in the stream. -/
  above : ∀ r ∈ t.drawn, ∀ r' ∈ s.history, r'.key = r.key → r'.pos < r.pos
  ascending : t.drawn.Pairwise fun r r' => r.pos < r'.pos

/-- What holds of every state. -/
structure Inv (lockOf : κ → ℓ) (s : State κ ℓ ι α) : Prop where
  tx_ok : ∀ i t, s.txs i = some t → t.Ok lockOf s
  exclusive : ∀ i j t u, s.txs i = some t → s.txs j = some u → ∀ l ∈ t.held, l ∈ u.held → i = j
  lt_next : ∀ r ∈ s.history, r.pos < s.next
  visible : List.Sublist s.committed s.history
  /-- No position of a stream is given twice. -/
  distinct : s.history.Pairwise fun r r' => r.key = r'.key → r.pos ≠ r'.pos

/-- Nothing in flight can become visible in a stream at a position or below. -/
def Settled (s : State κ ℓ ι α) (key : κ) (h : ℕ) : Prop :=
  h < s.next ∧ ∀ i t, s.txs i = some t → ∀ r ∈ t.drawn, r.key = key → h < r.pos

section Invariant

variable {programs : List (Action κ ℓ α) → Prop} {lockOf : κ → ℓ} {s s' : State κ ℓ ι α}

/-- The start: nothing in flight, and nothing visible. -/
theorem inv_empty (hnone : ∀ i, s.txs i = none) (hcommitted : s.committed = [])
    (hhistory : s.history = []) : Inv lockOf s where
  tx_ok i t h := by rw [hnone i] at h; exact absurd h (by simp)
  exclusive i j t u h := by rw [hnone i] at h; exact absurd h (by simp)
  lt_next := by simp [hhistory]
  visible := by simp [hcommitted]
  distinct := by simp [hhistory]

/-- A transaction stays as it should be while the counter grows and nothing of its streams becomes
visible. -/
theorem Tx.Ok.stable {t : Tx κ ℓ α} (h : t.Ok lockOf s) (hnext : s.next ≤ s'.next)
    (hhistory : ∀ r ∈ s'.history, r ∈ s.history ∨ lockOf r.key ∉ t.held) : t.Ok lockOf s' where
  guarded := h.guarded
  locked := h.locked
  lt_next r hr := (h.lt_next r hr).trans_le hnext
  above r hr r' hr' hkey := by
    rcases hhistory r' hr' with hr' | hfree
    · exact h.above r hr r' hr' hkey
    · rw [hkey] at hfree
      exact absurd (h.locked r hr) hfree
  ascending := h.ascending

/-- The position of what has been visible is settled: whatever is in flight there was drawn later. -/
theorem Inv.settled_of_history (h : Inv lockOf s) {r : Row κ α} (hr : r ∈ s.history) :
    Settled s r.key r.pos :=
  ⟨h.lt_next r hr, fun i t hi r' hr' hkey => (h.tx_ok i t hi).above r' hr' r hr hkey.symm⟩

/-- The others have none of the locks of a transaction. -/
theorem Inv.others (h : Inv lockOf s) {i j : ι} {t u : Tx κ ℓ α} (hi : s.txs i = some t)
    (hj : s.txs j = some u) (hne : j ≠ i) {l : ℓ} (hl : l ∈ t.held) : l ∉ u.held := fun hu =>
  hne (h.exclusive i j t u hi hj l hl hu).symm

variable [DecidableEq ι]

/-- The invariant is kept when one transaction is set, if it is as it should be there and has no
lock of another. -/
theorem Inv.setTx (h : Inv lockOf s) {i : ι} {t : Option (Tx κ ℓ α)}
    (hok : ∀ u ∈ t, u.Ok lockOf s)
    (hexcl : ∀ u ∈ t, ∀ j v, j ≠ i → s.txs j = some v → ∀ l ∈ u.held, l ∉ v.held) :
    Inv lockOf (s.setTx i t) where
  tx_ok j u hj := by
    rcases State.setTx_txs hj with ⟨-, hu⟩ | hj
    · exact (hok u hu).stable le_rfl fun r hr => .inl hr
    · exact (h.tx_ok j u hj).stable le_rfl fun r hr => .inl hr
  exclusive j k u v hj hk l hlu hlv := by
    by_contra hne
    rcases State.setTx_txs hj with ⟨rfl, hu⟩ | hj' <;> rcases State.setTx_txs hk with ⟨rfl, hv⟩ | hk'
    · exact hne rfl
    · exact hexcl u hu k v (Ne.symm hne) hk' l hlu hlv
    · exact hexcl v hv j u hne hj' l hlv hlu
    · exact hne (h.exclusive j k u v hj' hk' l hlu hlv)
  lt_next := h.lt_next
  visible := h.visible
  distinct := h.distinct

/-- One step keeps the invariant, if the programs are guarded. -/
theorem Inv.step (h : Inv lockOf s) (hguard : ∀ todo, programs todo → Guarded lockOf [] todo)
    (hstep : Step programs s s') : Inv lockOf s' := by
  cases hstep with
  | @start i todo hnew htodo =>
    refine h.setTx (fun u hu => ?_) (fun u hu j v hne hj l hl => ?_)
    · cases Option.some.inj hu
      exact ⟨hguard todo htodo, by simp, by simp, by simp, by simp⟩
    · cases Option.some.inj hu
      exact absurd hl (by simp)
  | @lock i l todo held drawn hi hfree =>
    have ht := h.tx_ok i _ hi
    refine h.setTx (fun u hu => ?_) (fun u hu j v hne hj l' hl' => ?_)
    · cases Option.some.inj hu
      exact ⟨ht.guarded, fun r hr => List.mem_cons_of_mem l (ht.locked r hr), ht.lt_next, ht.above,
        ht.ascending⟩
    · cases Option.some.inj hu
      rcases List.mem_cons.mp hl' with rfl | hl'
      · exact hfree j v hne hj
      · exact h.others hi hj hne hl'
  | @draw i key value todo held drawn pos hi hpos =>
    have ht := h.tx_ok i _ hi
    have hle : s.next ≤ pos + 1 := hpos.trans (Nat.le_succ pos)
    -- The counter first, and then the transaction with its new row.
    have hgrown : Inv lockOf { s with next := pos + 1 } :=
      { h with
        tx_ok := fun j u hj => (h.tx_ok j u hj).stable hle fun r hr => .inl hr
        lt_next := fun r hr => (h.lt_next r hr).trans_le hle }
    refine hgrown.setTx (fun u hu => ?_) (fun u hu j v hne hj l hl => ?_)
    · cases Option.some.inj hu
      refine ⟨ht.guarded.2, fun r hr => ?_, fun r hr => ?_, fun r hr r' hr' hkey => ?_, ?_⟩
      · rcases List.mem_append.mp hr with hr | hr
        · exact ht.locked r hr
        · cases List.mem_singleton.mp hr
          exact ht.guarded.1
      · rcases List.mem_append.mp hr with hr | hr
        · exact (ht.lt_next r hr).trans_le hle
        · cases List.mem_singleton.mp hr
          exact Nat.lt_succ_self pos
      · rcases List.mem_append.mp hr with hr | hr
        · exact ht.above r hr r' hr' hkey
        · cases List.mem_singleton.mp hr
          exact (h.lt_next r' hr').trans_le hpos
      · refine List.pairwise_append.mpr ⟨ht.ascending, List.pairwise_singleton _ _, ?_⟩
        intro r hr r' hr'
        cases List.mem_singleton.mp hr'
        exact (ht.lt_next r hr).trans_le hpos
    · cases Option.some.inj hu
      exact h.others hi hj hne hl
  | @commit i held drawn hi =>
    have ht := h.tx_ok i _ hi
    have hgone : Inv lockOf (s.setTx i none) :=
      h.setTx (fun u hu => absurd hu (by simp)) (fun u hu => absurd hu (by simp))
    refine ⟨fun j u hj => ?_, hgone.exclusive, fun r hr => ?_, ?_, ?_⟩
    · refine (hgone.tx_ok j u hj).stable le_rfl fun r hr => ?_
      rcases List.mem_append.mp hr with hr | hr
      · exact .inl hr
      · -- The locks of its rows were held, so nobody else in flight has them.
        rcases State.setTx_txs hj with ⟨-, hu⟩ | hj'
        · exact absurd hu (by simp)
        · have hne : j ≠ i := by
            rintro rfl
            exact absurd (State.setTx_self.symm.trans hj) (by simp)
          exact .inr (h.others hi hj' hne (ht.locked r hr))
    · rcases List.mem_append.mp hr with hr | hr
      · exact h.lt_next r hr
      · exact ht.lt_next r hr
    · exact h.visible.append (List.Sublist.refl drawn)
    · refine List.pairwise_append.mpr ⟨h.distinct, ?_, ?_⟩
      · exact ht.ascending.imp fun hlt _ => hlt.ne
      · exact fun r hr r' hr' hkey => (ht.above r' hr' r hr hkey).ne
  | rollback hi =>
    exact h.setTx (fun u hu => absurd hu (by simp)) (fun u hu => absurd hu (by simp))

omit [DecidableEq ι] in
theorem Inv.delete (h : Inv lockOf s) (p : Row κ α → Bool) : Inv lockOf (s.delete p) where
  tx_ok j u hj := (h.tx_ok j u hj).stable le_rfl fun r hr => .inl hr
  exclusive := h.exclusive
  lt_next := h.lt_next
  visible := List.filter_sublist.trans h.visible
  distinct := h.distinct

/-- What is settled stays settled. -/
theorem Settled.step {key : κ} {b : ℕ} (hb : Settled s key b) (hstep : Step programs s s') :
    Settled s' key b := by
  have hset : ∀ {i : ι} {t : Option (Tx κ ℓ α)},
      (∀ u ∈ t, ∀ r ∈ u.drawn, r.key = key → b < r.pos) →
        ∀ j u, (s.setTx i t).txs j = some u → ∀ r ∈ u.drawn, r.key = key → b < r.pos := by
    intro i t ht j u hj
    rcases State.setTx_txs hj with ⟨-, hu⟩ | hj
    · exact ht u hu
    · exact hb.2 j u hj
  cases hstep with
  | start hnew htodo => exact ⟨hb.1, hset fun u hu => by cases Option.some.inj hu; simp⟩
  | lock hi hfree =>
    refine ⟨hb.1, hset fun u hu r hr => ?_⟩
    cases Option.some.inj hu
    exact hb.2 _ _ hi r hr
  | draw hi hpos =>
    refine ⟨hb.1.trans_le (hpos.trans (Nat.le_succ _)), hset fun u hu r hr hkey => ?_⟩
    cases Option.some.inj hu
    rcases List.mem_append.mp hr with hr | hr
    · exact hb.2 _ _ hi r hr hkey
    · cases List.mem_singleton.mp hr
      exact hb.1.trans_le hpos
  | commit hi => exact ⟨hb.1, hset fun u hu => absurd hu (by simp)⟩
  | rollback hi => exact ⟨hb.1, hset fun u hu => absurd hu (by simp)⟩

/-- What is settled, over a whole run. -/
theorem Settled.lasts {key : κ} {b : ℕ} (hb : Settled s key b) (hrun : Run programs s s') :
    Settled s' key b := by
  induction hrun with
  | refl => exact hb
  | step _ hstep ih => exact ih.step hstep
  | delete _ p ih => exact ih

/-- What one step makes visible lies above what is settled. -/
theorem Settled.visible_step {key : κ} {b : ℕ} (hb : Settled s key b) (hstep : Step programs s s')
    {r : Row κ α} (hkey : r.key = key) (hle : r.pos ≤ b) :
    (r ∈ s'.committed → r ∈ s.committed) ∧ (r ∈ s'.history → r ∈ s.history) := by
  cases hstep with
  | start hnew htodo => exact ⟨id, id⟩
  | lock hi hfree => exact ⟨id, id⟩
  | draw hi hpos => exact ⟨id, id⟩
  | commit hi =>
    have hnot := fun hr => (hb.2 _ _ hi r hr hkey).not_ge hle
    exact ⟨fun hr => (List.mem_append.mp hr).resolve_right hnot,
      fun hr => (List.mem_append.mp hr).resolve_right hnot⟩
  | rollback hi => exact ⟨id, id⟩

/-- Nothing becomes visible at a settled position or below, in any run. -/
theorem Settled.run {key : κ} {b : ℕ} (hb : Settled s key b) (hrun : Run programs s s')
    {r : Row κ α} (hkey : r.key = key) (hle : r.pos ≤ b) :
    (r ∈ s'.committed → r ∈ s.committed) ∧ (r ∈ s'.history → r ∈ s.history) := by
  induction hrun with
  | refl => exact ⟨id, id⟩
  | step hrun hstep ih =>
    have hlast := (hb.lasts hrun).visible_step hstep hkey hle
    exact ⟨ih.1 ∘ hlast.1, ih.2 ∘ hlast.2⟩
  | delete _ p ih => exact ⟨ih.1 ∘ List.mem_of_mem_filter, ih.2⟩

end Invariant

end Memplex.Lib.Sequenced
