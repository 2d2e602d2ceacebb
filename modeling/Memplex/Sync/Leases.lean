import Memplex.Sync.Compaction

/-!
# The lease machine

A delivery is pending, leased, delivered or given up. What one operation may do with one row is
said once, by `RowStep`, together with the circumstances in which it does it: a claim lets a lease
run out and gives a new one to a pending row with attempts left, an acknowledgement needs the
active lease or a cursor that has passed the row, a failure needs the lease, and a replay a row that
was given up. `step_rows` shows that every operation moves every row in one of these ways.
The properties of the machine follow from the ways alone, and are collected in `lease_machine`.
-/

namespace Memplex

open Lib

namespace SyncState

/-- A worker holds a delivery that was handed out to it: the lease of the row is its own, and has
not run out. -/
def Holds (s : SyncState) (now : Instant) (x : SyncDelivery) (d : DeliveryRow) : Prop :=
  s.isRowOf x d = true ∧ requireActiveLease now d x = .ok ()

/-- The operation acknowledges a row for a worker that holds it. -/
def Acknowledges (s : SyncState) (op : RepoOp) (d : DeliveryRow) : Prop :=
  ∃ now deliveries receipts, op = .base (.ackBatch now deliveries receipts) ∧
    ∃ x ∈ deliveries, s.Holds now x d

/-- The operation asks for a page with a cursor of the target that has passed the row. -/
def Confirms (op : RepoOp) (d : DeliveryRow) : Prop :=
  ∃ now consumerId c limit, op = .base (.page now d.targetId consumerId (some c) limit) ∧
    d.streamSeq ≤ c.afterSeq

end SyncState

open SyncState

/-- What an operation may do with a row. -/
inductive RowStep (cfg : SyncConfig) (s : SyncState) (op : RepoOp) (d : DeliveryRow) :
    DeliveryRow → Prop where
  | same : RowStep cfg s op d d
  | expire {now : Instant} {leaseId : ℕ → String} {targetId : String} {limit leaseSeconds : ℕ}
      (hop : op = .base (.claim now leaseId targetId limit leaseSeconds)) :
    RowStep cfg s op d (expireLease cfg targetId now d)
  | lease {now : Instant} {leaseId : ℕ → String} {targetId : String} {limit leaseSeconds : ℕ}
      (hop : op = .base (.claim now leaseId targetId limit leaseSeconds))
      (hpending : (expireLease cfg targetId now d).state = .pending)
      (hattempt : (expireLease cfg targetId now d).attemptCount < cfg.maxAttempts) (i : ℕ) :
    RowStep cfg s op d { expireLease cfg targetId now d with
      state := .leased
      attemptCount := (expireLease cfg targetId now d).attemptCount + 1
      leaseOwner := some (leaseId i)
      leaseUntil := some (now + leaseSeconds * second)
      lastErrorCode := none }
  | deliver (hcause : s.Acknowledges op d ∨ Confirms op d) : RowStep cfg s op d (delivered d)
  | fail {clock now : Instant} {x : SyncDelivery} {errorCode : String}
      (hop : op = .base (.fail clock x errorCode now)) (hleased : d.state = .leased) :
    RowStep cfg s op d (failed cfg errorCode now d)
  | deadLetter {clock now : Instant} {x : SyncDelivery} {errorCode : String}
      (hop : op = .base (.deadLetter clock x errorCode now)) (hleased : d.state = .leased) :
    RowStep cfg s op d (deadLettered errorCode now d)
  | replay {now : Instant} {targetId eventId : String}
      (hop : op = .base (.replayDeadLetter now targetId eventId)) (hdead : d.state = .deadLetter) :
    RowStep cfg s op d (replayed now d)

/-- What holds of every row: the lease fields are those of its state, and so are the attempts. -/
structure RowOk (cfg : SyncConfig) (d : DeliveryRow) : Prop where
  /-- A leased row carries an owner and an expiry. -/
  leased : d.state = .leased → d.leaseOwner.isSome = true ∧ d.leaseUntil.isSome = true
  /-- No other row carries either. -/
  unleased : d.state ≠ .leased → d.leaseOwner = none ∧ d.leaseUntil = none
  /-- A delivery is attempted no more often than allowed. -/
  attempts : d.attemptCount ≤ cfg.maxAttempts
  /-- A pending delivery has an attempt left. -/
  pending : d.state = .pending → d.attemptCount < cfg.maxAttempts

theorem rowOk_fresh {cfg : SyncConfig} (hmax : 1 ≤ cfg.maxAttempts) (targetId : String)
    (streamSeq : ℕ) (now : Instant) : RowOk cfg (.fresh targetId streamSeq now) where
  leased h := absurd h (by simp [DeliveryRow.fresh])
  unleased _ := ⟨rfl, rfl⟩
  attempts := Nat.zero_le _
  pending _ := hmax

theorem RowOk.expireLease {cfg : SyncConfig} {d : DeliveryRow} (h : RowOk cfg d)
    (targetId : String) (now : Instant) : RowOk cfg (expireLease cfg targetId now d) := by
  unfold SyncState.expireLease
  split_ifs with hexp hlast
  · exact ⟨fun hs => absurd hs (by simp), fun _ => ⟨rfl, rfl⟩, h.attempts,
      fun hs => absurd hs (by simp)⟩
  · exact ⟨fun hs => absurd hs (by simp), fun _ => ⟨rfl, rfl⟩, h.attempts,
      fun _ => not_le.mp hlast⟩
  · exact h

/-- Every step keeps a row as it should be. -/
theorem RowStep.rowOk {cfg : SyncConfig} {s : SyncState} {op : RepoOp} {d d' : DeliveryRow}
    (hmax : 1 ≤ cfg.maxAttempts) (h : RowOk cfg d) (hstep : RowStep cfg s op d d') :
    RowOk cfg d' := by
  cases hstep with
  | same => exact h
  | expire hop => exact h.expireLease _ _
  | lease hop hpending hattempt i =>
    exact ⟨fun _ => ⟨rfl, rfl⟩, fun hs => absurd rfl hs, hattempt, fun hs => absurd hs (by simp)⟩
  | deliver hcause =>
    exact ⟨fun hs => absurd hs (by simp [delivered]), fun _ => ⟨rfl, rfl⟩, h.attempts,
      fun hs => absurd hs (by simp [delivered])⟩
  | fail hop hleased =>
    unfold failed
    split_ifs with hlast
    · exact ⟨fun hs => absurd hs (by simp), fun _ => ⟨rfl, rfl⟩, h.attempts,
        fun hs => absurd hs (by simp)⟩
    · exact ⟨fun hs => absurd hs (by simp), fun _ => ⟨rfl, rfl⟩, h.attempts,
        fun _ => not_le.mp hlast⟩
  | deadLetter hop hleased =>
    exact ⟨fun hs => absurd hs (by simp [deadLettered]), fun _ => ⟨rfl, rfl⟩, h.attempts,
      fun hs => absurd hs (by simp [deadLettered])⟩
  | replay hop hdead =>
    exact ⟨fun hs => absurd hs (by simp [replayed]), fun _ => ⟨rfl, rfl⟩, Nat.zero_le _,
      fun _ => hmax⟩

/-- A delivered row stays delivered. -/
theorem RowStep.delivered_stays {cfg : SyncConfig} {s : SyncState} {op : RepoOp}
    {d d' : DeliveryRow} (hstep : RowStep cfg s op d d') (hd : d.state = .delivered) :
    d'.state = .delivered := by
  have hexpire : ∀ targetId now, expireLease cfg targetId now d = d := fun targetId now => by
    unfold expireLease
    rw [if_neg]
    rintro ⟨-, hleased, -⟩
    rw [hd] at hleased
    exact absurd hleased (by simp)
  cases hstep with
  | same => exact hd
  | expire hop => rw [hexpire]; exact hd
  | lease hop hpending hattempt i =>
    rw [hexpire, hd] at hpending
    exact absurd hpending (by simp)
  | deliver hcause => rfl
  | fail hop hleased => rw [hd] at hleased; exact absurd hleased (by simp)
  | deadLetter hop hleased => rw [hd] at hleased; exact absurd hleased (by simp)
  | replay hop hdead => rw [hd] at hdead; exact absurd hdead (by simp)

/-- A row is delivered by an acknowledgement or by a confirmed cursor, and by nothing else. -/
theorem RowStep.delivered_cause {cfg : SyncConfig} {s : SyncState} {op : RepoOp}
    {d d' : DeliveryRow} (hstep : RowStep cfg s op d d') (hd : d.state ≠ .delivered)
    (hd' : d'.state = .delivered) : s.Acknowledges op d ∨ Confirms op d := by
  cases hstep with
  | same => exact absurd hd' hd
  | expire hop =>
    unfold expireLease at hd'
    split_ifs at hd'
    exact absurd hd' hd
  | lease hop hpending hattempt i => exact absurd hd' (by simp)
  | deliver hcause => exact hcause
  | fail hop hleased =>
    unfold failed at hd'
    split_ifs at hd'
  | deadLetter hop hleased => exact absurd hd' (by simp [deadLettered])
  | replay hop hdead => exact absurd hd' (by simp [replayed])

/-- A claim leaves a lease alone that has not run out. -/
theorem RowStep.claim_keeps {cfg : SyncConfig} {s : SyncState} {d d' : DeliveryRow} {now : Instant}
    {leaseId : ℕ → String} {targetId : String} {limit leaseSeconds : ℕ}
    (hstep : RowStep cfg s (.base (.claim now leaseId targetId limit leaseSeconds)) d d')
    (hleased : d.state = .leased) (huntil : ∀ t ∈ d.leaseUntil, now < t) : d' = d := by
  have hexpire : ∀ targetId, expireLease cfg targetId now d = d := fun targetId => by
    unfold expireLease
    rw [if_neg]
    rintro ⟨-, -, t, ht, hle⟩
    exact absurd (huntil t ht) (not_lt.mpr hle)
  cases hstep with
  | same => rfl
  | expire hop =>
    cases hop
    exact hexpire _
  | lease hop hpending hattempt i =>
    cases hop
    rw [hexpire, hleased] at hpending
    exact absurd hpending (by simp)
  | deliver hcause =>
    rcases hcause with ⟨_, _, _, hop, -⟩ | ⟨_, _, _, _, hop, -⟩
    · exact absurd hop (by simp)
    · exact absurd hop (by simp)
  | fail hop _ => exact absurd hop (by simp)
  | deadLetter hop _ => exact absurd hop (by simp)
  | replay hop _ => exact absurd hop (by simp)

/-! ## The rows of a state -/

/-- What arrives is offered in new rows, and leaves the others alone. -/
theorem Arrives.deliveries {s s' : SyncState} (h : Arrives s s') :
    ∃ rows, s'.deliveries = s.deliveries ++ rows ∧
      ∀ d ∈ rows, ∃ targetId n now, d = .fresh targetId n now := by
  induction h with
  | refl => exact ⟨[], by simp, by simp⟩
  | aside _ _ _ _ _ ih => exact ih
  | @append s₁ e _ ih =>
    obtain ⟨rows, hrows, hfresh⟩ := ih
    refine ⟨rows ++ (s₁.fanOut e.originNodeId).map fun t =>
      .fresh t.targetId s₁.nextStreamSeq e.version.occurredAt.micros, ?_, ?_⟩
    · show s₁.deliveries ++ _ = _
      rw [hrows, List.append_assoc]
    · intro d hd
      rcases List.mem_append.mp hd with hd | hd
      · exact hfresh d hd
      · obtain ⟨t, -, rfl⟩ := List.mem_map.mp hd
        exact ⟨_, _, _, rfl⟩

theorem registerTarget_deliveries {s s' : SyncState} {cfg : SyncConfig} {now : Instant}
    {targetId : String} {bootstrap : Bootstrap}
    (h : s.registerTarget cfg now targetId bootstrap = .ok s') :
    ∃ rows, s'.deliveries = s.deliveries ++ rows ∧
      ∀ d ∈ rows, ∃ targetId n now, d = .fresh targetId n now := by
  obtain ⟨_, -, h⟩ := Except.bind_ok.mp h
  obtain ⟨_, -, h⟩ := Except.bind_ok.mp h
  split at h
  · cases Except.ok.inj h
    exact ⟨[], by simp, by simp⟩
  · obtain ⟨_, -, heq⟩ := Except.bind_ok.mp h
    cases Except.ok.inj heq
    refine ⟨_, rfl, fun d hd => ?_⟩
    obtain ⟨r, -, rfl⟩ := List.mem_map.mp hd
    exact ⟨_, _, _, rfl⟩

/-- The row of a delivery that was handed out, after rows have been changed in place. -/
theorem deliveryRow_map {s : SyncState} {f : DeliveryRow → DeliveryRow} (x : SyncDelivery)
    (hf : ∀ d, (f d).key = d.key) :
    deliveryRow { s with deliveries := s.deliveries.map f } x = (s.deliveryRow x).map f := by
  unfold deliveryRow
  rw [List.find?_map]
  have htest : isRowOf { s with deliveries := s.deliveries.map f } x ∘ f = s.isRowOf x := by
    funext d
    obtain ⟨htarget, hseq⟩ := Prod.mk.inj (hf d)
    show isRowOf { s with deliveries := s.deliveries.map f } x (f d) = s.isRowOf x d
    unfold isRowOf
    rw [htarget, hseq]
    rfl
  rw [htest]

/-- The acknowledged rows are those that were found for the deliveries and are not delivered yet. -/
theorem foldl_ackRow (ds : List SyncDelivery) (s : SyncState) :
    ∃ g : DeliveryRow → DeliveryRow, (∀ d, (g d).key = d.key) ∧
      ds.foldl ackRow s = { s with deliveries := s.deliveries.map g } ∧
      (∀ d, g d = d ∨ (g d = delivered d ∧
        ∃ x ∈ ds, ∃ r, s.deliveryRow x = some r ∧ r.key = d.key ∧ r.state ≠ .delivered)) ∧
      ∀ x ∈ ds, ∀ r, s.deliveryRow x = some r → (g r).state = .delivered := by
  induction ds generalizing s with
  | nil => exact ⟨id, fun _ => rfl, by simp, fun _ => .inl rfl, by simp⟩
  | cons x ds ih =>
    -- The change of the first delivery, as a change of every row.
    obtain ⟨u, hkey, hack, hu, hfound⟩ : ∃ u : DeliveryRow → DeliveryRow,
        (∀ d, (u d).key = d.key) ∧ s.ackRow x = { s with deliveries := s.deliveries.map u } ∧
        (∀ d, u d = d ∨ (u d = delivered d ∧
          ∃ r, s.deliveryRow x = some r ∧ r.key = d.key ∧ r.state ≠ .delivered)) ∧
        ∀ r, s.deliveryRow x = some r → (u r).state = .delivered := by
      unfold ackRow
      split
      next hnone => exact ⟨id, fun _ => rfl, by simp, fun _ => .inl rfl, by simp [hnone]⟩
      next r hsome =>
        split_ifs with hdel
        · refine ⟨id, fun _ => rfl, by simp, fun _ => .inl rfl, fun r' hr' => ?_⟩
          rw [← Option.some.inj (hsome.symm.trans hr')]
          exact hdel
        · refine ⟨fun d => if d.key = r.key then delivered d else d, fun d => ?_, rfl, fun d => ?_,
            fun r' hr' => ?_⟩
          · show (if d.key = r.key then delivered d else d).key = d.key
            split_ifs
            · rfl
            · rfl
          · by_cases hd : d.key = r.key
            · exact .inr ⟨if_pos hd, r, hsome, hd.symm, hdel⟩
            · exact .inl (if_neg hd)
          · rw [← Option.some.inj (hsome.symm.trans hr')]
            simp [delivered]
    obtain ⟨g, hgkey, hfold, hg, hgfound⟩ := ih (s.ackRow x)
    have hstate : ∀ d, (u d).state ≠ .delivered → u d = d := fun d hd =>
      (hu d).resolve_right fun h => hd (by rw [h.1]; rfl)
    have hstays : ∀ d, d.state = .delivered → (g d).state = .delivered := fun d hd => by
      rcases hg d with h | ⟨h, -⟩
      · rw [h]; exact hd
      · rw [h]; rfl
    have hrow : ∀ y, (s.ackRow x).deliveryRow y = (s.deliveryRow y).map u := fun y => by
      rw [hack]
      exact deliveryRow_map y hkey
    refine ⟨g ∘ u, fun d => (hgkey _).trans (hkey d), ?_, fun d => ?_, fun y hy r hr => ?_⟩
    · rw [List.foldl_cons, hfold, hack]
      simp only [List.map_map]
    · rcases hg (u d) with h | ⟨h, y, hy, r, hr, hrkey, hrstate⟩
      · rcases hu d with h' | ⟨h', r, hr, hrkey, hrstate⟩
        · exact .inl (h.trans h')
        · exact .inr ⟨h.trans h', x, List.mem_cons_self .., r, hr, hrkey, hrstate⟩
      · -- The row that was found later is one of the old state, and was not changed before.
        rw [hrow y] at hr
        obtain ⟨r₀, hr₀, rfl⟩ := Option.map_eq_some_iff.mp hr
        have hsame : u r₀ = r₀ := hstate r₀ hrstate
        refine .inr ⟨?_, y, List.mem_cons_of_mem _ hy, r₀, hr₀, ?_, ?_⟩
        · rcases hu d with h' | ⟨h', -⟩
          · rw [Function.comp_apply, h, h']
          · rw [Function.comp_apply, h, h']; rfl
        · rw [← hsame, hrkey, hkey d]
        · rwa [hsame] at hrstate
    · rcases List.mem_cons.mp hy with rfl | hy
      · exact hstays _ (hfound r hr)
      · exact hgfound y hy (u r) (by rw [hrow y, hr]; rfl)

theorem deliveryRow_some {s : SyncState} {x : SyncDelivery} {r : DeliveryRow}
    (h : s.deliveryRow x = some r) : r ∈ s.deliveries ∧ s.isRowOf x r = true :=
  ⟨List.mem_of_find?_eq_some h, List.find?_some h⟩

/-- Rows are told apart by their keys. -/
theorem row_of_key {s : SyncState} (h : s.deliveryKeys.Nodup) {d d' : DeliveryRow}
    (hd : d ∈ s.deliveries) (hd' : d' ∈ s.deliveries) (hkey : d.key = d'.key) : d = d' :=
  List.inj_on_of_nodup_map h hd hd' hkey

/-- Where an acknowledgement succeeds, each row is acknowledged for a worker that holds it or stays
as it is, and each row that was found for a delivery is delivered. -/
theorem ackBatch_rows {s s' : SyncState} {now : Instant} {ds : List SyncDelivery}
    {receipts : List SyncReceipt} (hkeys : s.deliveryKeys.Nodup)
    (h : s.ackBatch now ds receipts = .ok s') :
    ∃ g : DeliveryRow → DeliveryRow, (∀ d, (g d).key = d.key) ∧
      s' = { s with deliveries := s.deliveries.map g } ∧
      (∀ d ∈ s.deliveries, g d = d ∨ (g d = delivered d ∧ ∃ x ∈ ds, s.Holds now x d)) ∧
      ∀ x ∈ ds, ∀ r ∈ s'.deliveryRow x, r.state = .delivered := by
  obtain ⟨_, -, h⟩ := Except.bind_ok.mp h
  obtain ⟨_, -, h⟩ := Except.bind_ok.mp h
  obtain ⟨_, hcheck, heq⟩ := Except.bind_ok.mp h
  have hcheck := forM_ok.mp hcheck
  obtain ⟨g, hgkey, hfold, hg, hfound⟩ := foldl_ackRow ds s
  have hs' : s' = { s with deliveries := s.deliveries.map g } :=
    (Except.ok.inj heq).symm.trans hfold
  refine ⟨g, hgkey, hs', fun d hd => ?_, fun x hx r hr => ?_⟩
  · rcases hg d with h | ⟨h, x, hx, r, hr, hrkey, hrstate⟩
    · exact .inl h
    · obtain ⟨hrmem, hrow⟩ := deliveryRow_some hr
      have hsame : r = d := row_of_key hkeys hrmem hd hrkey
      have hactive := hcheck x hx
      rw [checkAck, hr] at hactive
      simp only [hrstate, if_false] at hactive
      exact .inr ⟨h, x, hx, hsame ▸ hrow, hsame ▸ hactive⟩
  · rw [hs', Option.mem_def, deliveryRow_map x hgkey] at hr
    obtain ⟨r₀, hr₀, rfl⟩ := Option.map_eq_some_iff.mp hr
    exact hfound x hx r₀ hr₀

/-- The rows of a claim: a lease that has run out is ended, and the rows that are taken, pending
rows with an attempt left, are leased. -/
theorem claim_rows {s s' : SyncState} {cfg : SyncConfig} {now : Instant} {leaseId : ℕ → String}
    {targetId : String} {limit leaseSeconds : ℕ} {handed : List SyncDelivery}
    (hkeys : s.deliveryKeys.Nodup)
    (h : s.claim cfg now leaseId targetId limit leaseSeconds = .ok (s', handed)) :
    ∀ d' ∈ s'.deliveries, ∃ d ∈ s.deliveries, d.key = d'.key ∧
      RowStep cfg s (.base (.claim now leaseId targetId limit leaseSeconds)) d d' := by
  obtain ⟨_, -, h⟩ := Except.bind_ok.mp h
  obtain ⟨_, -, h⟩ := Except.bind_ok.mp h
  obtain ⟨_, -, h⟩ := Except.bind_ok.mp h
  split at h
  · cases Except.ok.inj h
    exact fun d hd => ⟨d, hd, rfl, .same⟩
  · split_ifs at h
    · cases Except.ok.inj h
      set s₁ : SyncState := { s with deliveries := s.deliveries.map (expireLease cfg targetId now) }
        with hs₁
      have hkeys₁ : s₁.deliveryKeys.Nodup := by
        rw [(quiet_of_map (s := s) (expireLease_key cfg targetId now)).keys]
        exact hkeys
      intro d' hd'
      obtain ⟨d₁, hd₁, rfl⟩ := List.mem_map.mp hd'
      obtain ⟨d, hd, rfl⟩ := List.mem_map.mp hd₁
      refine ⟨d, hd, ?_, ?_⟩
      · rw [lease_key, expireLease_key]
      · unfold SyncState.lease
        split
        · exact .expire rfl
        next i hfind =>
          -- The row that was taken under this key is the row itself.
          obtain ⟨hlt, hkey, -⟩ := List.findIdx?_eq_some_iff_getElem.mp hfind
          have hmem := List.getElem_mem hlt
          have hclaimed := (List.take_subset _ _) hmem
          rw [List.mem_mergeSort] at hclaimed
          obtain ⟨htaken, hclaim⟩ := List.mem_filter.mp hclaimed
          have hsame := row_of_key hkeys₁ htaken hd₁ (decide_eq_true_eq.mp hkey)
          rw [hsame, claimable, decide_eq_true_eq] at hclaim
          exact .lease rfl hclaim.2.1 hclaim.2.2.1 i
    · cases Except.ok.inj h
      exact fun d hd => ⟨d, hd, rfl, .same⟩

/-- The rows of a failure: one row under an active lease changes. -/
theorem endLease_rows {s s' : SyncState} {clock : Instant} {x : SyncDelivery} {errorCode : String}
    {f : DeliveryRow → DeliveryRow} (hkeys : s.deliveryKeys.Nodup) (hf : ∀ d, (f d).key = d.key)
    (h : s.endLease clock x errorCode f = .ok s') :
    ∀ d' ∈ s'.deliveries, ∃ d ∈ s.deliveries, d.key = d'.key ∧
      (d' = d ∨ (d' = f d ∧ d.state = .leased)) := by
  obtain ⟨_, -, h⟩ := Except.bind_ok.mp h
  split at h
  · cases Except.ok.inj h
    exact fun d hd => ⟨d, hd, rfl, .inl rfl⟩
  next r hsome =>
    obtain ⟨_, hactive, heq⟩ := Except.bind_ok.mp h
    obtain ⟨_, hleased, -⟩ := Except.bind_ok.mp hactive
    cases Except.ok.inj heq
    intro d' hd'
    obtain ⟨d, hd, rfl⟩ := List.mem_map.mp hd'
    refine ⟨d, hd, ?_, ?_⟩
    · split_ifs
      · exact (hf d).symm
      · rfl
    · split_ifs with hkey
      · have hsame := row_of_key hkeys hd (deliveryRow_some hsome).1 hkey
        exact .inr ⟨rfl, hsame ▸ (require_ok.mp hleased).1⟩
      · exact .inl rfl

theorem replayDeadLetter_rows {s s' : SyncState} {cfg : SyncConfig} {now : Instant} {targetId eventId : String}
    {found : Bool} (hkeys : s.deliveryKeys.Nodup)
    (h : s.replayDeadLetter now targetId eventId = .ok (s', found)) :
    ∀ d' ∈ s'.deliveries, ∃ d ∈ s.deliveries, d.key = d'.key ∧
      RowStep cfg s (.base (.replayDeadLetter now targetId eventId)) d d' := by
  obtain ⟨_, -, h⟩ := Except.bind_ok.mp h
  obtain ⟨_, -, h⟩ := Except.bind_ok.mp h
  split at h
  · cases Except.ok.inj h
    exact fun d hd => ⟨d, hd, rfl, .same⟩
  next r hsome =>
    cases Except.ok.inj h
    intro d' hd'
    obtain ⟨d, hd, rfl⟩ := List.mem_map.mp hd'
    refine ⟨d, hd, ?_, ?_⟩
    · split_ifs
      · rfl
      · rfl
    · split_ifs with hkey
      · have hsame := row_of_key hkeys hd (List.mem_of_find?_eq_some hsome) hkey
        have htest := List.find?_some hsome
        have hdead := (decide_eq_true_eq.mp htest).2.1
        exact .replay rfl (hsame ▸ hdead)
      · exact .same

/-- The rows of a page: those that its cursor has passed are delivered. -/
theorem page_rows {s s' : SyncState} {cfg : SyncConfig} {now : Instant}
    {remoteId consumerId : String} {cursor : Option SyncCursorClaims} {limit : ℕ} {p : SyncPage}
    (h : s.page now remoteId consumerId cursor limit = .ok (s', p)) :
    ∀ d' ∈ s'.deliveries, ∃ d ∈ s.deliveries, d.key = d'.key ∧
      RowStep cfg s (.base (.page now remoteId consumerId cursor limit)) d d' := by
  obtain ⟨_, -, h⟩ := Except.bind_ok.mp h
  obtain ⟨_, -, h⟩ := Except.bind_ok.mp h
  obtain ⟨_, -, h⟩ := Except.bind_ok.mp h
  obtain ⟨_, -, h⟩ := Except.bind_ok.mp h
  obtain ⟨_, -, h⟩ := Except.bind_ok.mp h
  obtain ⟨_, -, heq⟩ := Except.bind_ok.mp h
  cases Except.ok.inj heq
  cases cursor with
  | none => exact fun d hd => ⟨d, hd, rfl, .same⟩
  | some c =>
    intro d' hd'
    obtain ⟨d, hd, rfl⟩ := List.mem_map.mp hd'
    refine ⟨d, hd, ?_, ?_⟩
    · split_ifs
      · rfl
      · rfl
    · split_ifs with hpassed
      · obtain ⟨htarget, -, hle, -⟩ := decide_eq_true_eq.mp hpassed
        exact .deliver (.inr ⟨now, consumerId, c, limit, by rw [htarget], hle⟩)
      · exact .same

/-- Every operation moves every row in one of the ways of `RowStep`, or makes it anew. -/
theorem step_rows (cfg : SyncConfig) (env : Env) (sha256 : ByteArray → String) {s : LiteStore}
    {stream : List OutboxRow} (h : RepoInv s.sync stream) (op : RepoOp) :
    ∀ d' ∈ (op.step cfg env sha256 s).sync.deliveries,
      (∃ d ∈ s.sync.deliveries, d.key = d'.key ∧ RowStep cfg s.sync op d d') ∨
        (d'.key ∉ s.sync.deliveryKeys ∧ ∃ targetId n now, d' = .fresh targetId n now) := by
  obtain ⟨missed, hoff⟩ := h.offered
  have hkeys := hoff.keys_nodup
  obtain ⟨missed', hoff'⟩ := (step_repoInv cfg env sha256 h op).offered
  have hkeys' := hoff'.keys_nodup
  -- Rows that are appended are new, for no key occurs twice.
  have hnew : ∀ rows, (op.step cfg env sha256 s).sync.deliveries = s.sync.deliveries ++ rows →
      (∀ d ∈ rows, ∃ targetId n now, d = DeliveryRow.fresh targetId n now) →
      ∀ d' ∈ (op.step cfg env sha256 s).sync.deliveries,
        (∃ d ∈ s.sync.deliveries, d.key = d'.key ∧ RowStep cfg s.sync op d d') ∨
          (d'.key ∉ s.sync.deliveryKeys ∧ ∃ targetId n now, d' = .fresh targetId n now) := by
    intro rows hrows hfresh d' hd'
    rw [SyncState.deliveryKeys, hrows, List.map_append, List.nodup_append] at hkeys'
    rw [hrows, List.mem_append] at hd'
    rcases hd' with hd' | hd'
    · exact .inl ⟨d', hd', rfl, .same⟩
    · exact .inr ⟨fun hmem => hkeys'.2.2 _ hmem _ (List.mem_map_of_mem hd') rfl, hfresh d' hd'⟩
  unfold RepoOp.step at hnew ⊢
  split at hnew
  next s' happly =>
    cases op with
    | createSnapshot now remoteId consumerId requestId limit tenantId events snapshotId =>
      obtain ⟨⟨sync, p⟩, hrun, rfl⟩ := Except.map_ok happly
      exact hnew [] (by rw [List.append_nil]; exact (createSnapshot_aside hrun).deliveries) (by simp)
    | readSnapshot now =>
      cases Except.ok.inj happly
      exact hnew [] (by rw [List.append_nil]; rfl) (by simp)
    | base op =>
      cases op with
      | capture business event =>
        obtain ⟨sync, hrun, rfl⟩ := Except.map_ok happly
        obtain ⟨rows, hrows, hfresh⟩ := (captureLocalEvent_arrives hrun).deliveries
        exact hnew rows hrows hfresh
      | deliver d =>
        obtain ⟨rows, hrows, hfresh⟩ := (deliver_arrives happly).deliveries
        exact hnew rows hrows hfresh
      | registerTarget now targetId bootstrap =>
        obtain ⟨sync, hrun, rfl⟩ := Except.map_ok happly
        obtain ⟨rows, hrows, hfresh⟩ := registerTarget_deliveries hrun
        exact hnew rows hrows hfresh
      | setTargetEnabled targetId enabled =>
        obtain ⟨sync, hrun, rfl⟩ := Except.map_ok happly
        obtain ⟨_, -, hrun⟩ := Except.bind_ok.mp hrun
        split at hrun
        · exact absurd hrun (by simp)
        · cases Except.ok.inj hrun
          exact hnew [] (by rw [List.append_nil]) (by simp)
      | claim now leaseId targetId limit leaseSeconds =>
        obtain ⟨⟨sync, handed⟩, hrun, rfl⟩ := Except.map_ok happly
        exact fun d' hd' => .inl (claim_rows hkeys hrun d' hd')
      | ackBatch now deliveries receipts =>
        obtain ⟨sync, hrun, rfl⟩ := Except.map_ok happly
        obtain ⟨g, hgkey, hs', hg, -⟩ := ackBatch_rows hkeys hrun
        intro d' hd'
        have hd' : d' ∈ sync.deliveries := hd'
        rw [hs'] at hd'
        obtain ⟨d, hd, rfl⟩ := List.mem_map.mp hd'
        refine .inl ⟨d, hd, (hgkey d).symm, ?_⟩
        rcases hg d hd with hgd | ⟨hgd, x, hx, hholds⟩
        · rw [hgd]; exact .same
        · rw [hgd]; exact .deliver (.inl ⟨now, deliveries, receipts, rfl, x, hx, hholds⟩)
      | fail clock x errorCode now =>
        obtain ⟨sync, hrun, rfl⟩ := Except.map_ok happly
        intro d' hd'
        obtain ⟨d, hd, hkey, hstep⟩ :=
          endLease_rows hkeys (failed_key cfg errorCode now) hrun d' hd'
        refine .inl ⟨d, hd, hkey, ?_⟩
        rcases hstep with rfl | ⟨rfl, hleased⟩
        · exact .same
        · exact .fail rfl hleased
      | deadLetter clock x errorCode now =>
        obtain ⟨sync, hrun, rfl⟩ := Except.map_ok happly
        intro d' hd'
        obtain ⟨d, hd, hkey, hstep⟩ :=
          endLease_rows (f := deadLettered errorCode now) hkeys (fun _ => rfl) hrun d' hd'
        refine .inl ⟨d, hd, hkey, ?_⟩
        rcases hstep with rfl | ⟨rfl, hleased⟩
        · exact .same
        · exact .deadLetter rfl hleased
      | replayDeadLetter now targetId eventId =>
        obtain ⟨⟨sync, found⟩, hrun, rfl⟩ := Except.map_ok happly
        exact fun d' hd' => .inl (replayDeadLetter_rows hkeys hrun d' hd')
      | page now remoteId consumerId cursor limit =>
        obtain ⟨⟨sync, p⟩, hrun, rfl⟩ := Except.map_ok happly
        exact fun d' hd' => .inl (page_rows hrun d' hd')
      | compact now limit =>
        obtain ⟨⟨sync, n⟩, hrun, rfl⟩ := Except.map_ok happly
        intro d' hd'
        have hd' : d' ∈ sync.deliveries := hd'
        rw [(compact_ok h.recorded hrun).2.2.2.2.1] at hd'
        exact .inl ⟨d', List.mem_of_mem_filter hd', rfl, .same⟩
  · exact hnew [] (by rw [List.append_nil]) (by simp)

/-! ## Runs -/

/-- Every row of a state is as it should be. -/
theorem runRepo_rowOk (cfg : SyncConfig) (env : Env) (sha256 : ByteArray → String)
    (hmax : 1 ≤ cfg.maxAttempts) (ops : List RepoOp) {s : LiteStore} {stream : List OutboxRow}
    (h : RepoInv s.sync stream) (hrows : ∀ d ∈ s.sync.deliveries, RowOk cfg d) :
    ∀ d ∈ (runRepo cfg env sha256 s ops).sync.deliveries, RowOk cfg d := by
  induction ops generalizing s stream with
  | nil => exact hrows
  | cons op ops ih =>
    refine ih (step_repoInv cfg env sha256 h op) fun d' hd' => ?_
    rcases step_rows cfg env sha256 h op d' hd' with ⟨d, hd, -, hstep⟩ | ⟨-, _, _, _, rfl⟩
    · exact hstep.rowOk hmax (hrows d hd)
    · exact rowOk_fresh hmax _ _ _

/-- What an operation hands out. -/
def handedBy (cfg : SyncConfig) (s : SyncState) : RepoOp → List SyncDelivery
  | .base (.claim now leaseId targetId limit leaseSeconds) =>
    match s.claim cfg now leaseId targetId limit leaseSeconds with
    | .ok (_, handed) => handed
    | .error _ => []
  | _ => []

/-- What the claims of a run hand out to workers. -/
def handedOut (cfg : SyncConfig) (env : Env) (sha256 : ByteArray → String) (s : LiteStore) :
    List RepoOp → List SyncDelivery
  | [] => []
  | op :: ops => handedBy cfg s.sync op ++
      handedOut cfg env sha256 (op.step cfg env sha256 s) ops

/-- The lease machine, in every state that a run reaches and for every next operation, whatever the
clock shows. Leases are told apart by fresh identifiers, and the limit on attempts is positive, as
the constructor of a repository checks. -/
theorem lease_machine (cfg : SyncConfig) (env : Env) (sha256 : ByteArray → String)
    (ops : List RepoOp) (hmax : 1 ≤ cfg.maxAttempts)
    (hfresh : ((handedOut cfg env sha256 .empty ops).map SyncDelivery.leaseId).Nodup) :
    -- A row is leased exactly when it carries an owner and an expiry, and its attempts are bounded.
    (∀ d ∈ (runRepo cfg env sha256 .empty ops).sync.deliveries,
      (d.state = .leased ↔ d.leaseOwner.isSome = true ∧ d.leaseUntil.isSome = true) ∧
        d.attemptCount ≤ cfg.maxAttempts ∧
        (d.state = .pending → d.attemptCount < cfg.maxAttempts)) ∧
    -- At most one of the workers holds a delivery.
    (∀ now, ∀ d ∈ (runRepo cfg env sha256 .empty ops).sync.deliveries,
      ∀ x ∈ handedOut cfg env sha256 .empty ops, ∀ y ∈ handedOut cfg env sha256 .empty ops,
        (runRepo cfg env sha256 .empty ops).sync.Holds now x d →
          (runRepo cfg env sha256 .empty ops).sync.Holds now y d → x = y) ∧
    ∀ op : RepoOp,
      (∀ d ∈ (runRepo cfg env sha256 .empty ops).sync.deliveries,
        ∀ d' ∈ (op.step cfg env sha256 (runRepo cfg env sha256 .empty ops)).sync.deliveries,
          d'.key = d.key →
          -- A delivered row stays delivered.
          (d.state = .delivered → d'.state = .delivered) ∧
          -- A row is delivered by an acknowledgement of its holder, or a cursor that passed it.
          (d.state ≠ .delivered → d'.state = .delivered →
            (runRepo cfg env sha256 .empty ops).sync.Acknowledges op d ∨ Confirms op d) ∧
          -- A claim does not touch a lease that has not run out.
          ∀ now leaseId targetId limit leaseSeconds,
            op = .base (.claim now leaseId targetId limit leaseSeconds) → d.state = .leased →
              (∀ t ∈ d.leaseUntil, now < t) → d' = d) ∧
      -- A batch of acknowledgements changes nothing, or acknowledges every delivery it names.
      ∀ now deliveries receipts, op = .base (.ackBatch now deliveries receipts) →
        op.step cfg env sha256 (runRepo cfg env sha256 .empty ops) =
            runRepo cfg env sha256 .empty ops ∨
          ∀ x ∈ deliveries,
            ∀ d ∈ (op.step cfg env sha256
              (runRepo cfg env sha256 .empty ops)).sync.deliveryRow x, d.state = .delivered := by
  have hinv := runRepo_repoInv cfg env sha256 ops (s := .empty) repoInv_empty
  have hrows := runRepo_rowOk cfg env sha256 hmax ops (s := .empty) repoInv_empty
    (by simp [LiteStore.empty, SyncState.empty])
  generalize runRepo cfg env sha256 .empty ops = s at *
  obtain ⟨missed, hoff⟩ := hinv.offered
  refine ⟨fun d hd => ?_, ?_, fun op => ⟨?_, ?_⟩⟩
  · have hok := hrows d hd
    refine ⟨⟨hok.leased, fun hsome => ?_⟩, hok.attempts, hok.pending⟩
    by_contra hne
    rw [(hok.unleased hne).1] at hsome
    exact absurd hsome.1 (by simp)
  · intro now d hd x hx y hy hxd hyd
    obtain ⟨_, hx', -⟩ := Except.bind_ok.mp hxd.2
    obtain ⟨_, hy', -⟩ := Except.bind_ok.mp hyd.2
    have hlease : x.leaseId = y.leaseId := Option.some.inj
      ((require_ok.mp hx').2.symm.trans (require_ok.mp hy').2)
    exact List.inj_on_of_nodup_map hfresh hx hy hlease
  · intro d hd d' hd' hkey
    have hstep : RowStep cfg s.sync op d d' := by
      rcases step_rows cfg env sha256 hinv op d' hd' with ⟨d₁, hd₁, hkey₁, hstep⟩ | ⟨hno, -⟩
      · have hsame := row_of_key hoff.keys_nodup hd₁ hd (hkey₁.trans hkey)
        exact hsame ▸ hstep
      · exact absurd (List.mem_map_of_mem hd) (hkey ▸ hno)
    refine ⟨hstep.delivered_stays, hstep.delivered_cause, ?_⟩
    rintro now leaseId targetId limit leaseSeconds rfl hleased huntil
    exact hstep.claim_keeps hleased huntil
  · rintro now deliveries receipts rfl
    unfold RepoOp.step
    split
    next s' happly =>
      obtain ⟨sync, hrun, rfl⟩ := Except.map_ok happly
      obtain ⟨g, -, -, -, hall⟩ := ackBatch_rows hoff.keys_nodup hrun
      exact .inr hall
    · exact .inl rfl

/-- A target is registered, an event is captured, and a worker claims its delivery. -/
def sampleClaim : List RepoOp :=
  [.base (.registerTarget 0 "q" .future), .base (.capture .empty sampleFactA),
    .base (.claim (10 ^ 17) (fun _ => "lease") "q" 5 30)]

/-- The machine after a claim. -/
theorem sampleClaim_machine :
    (handedOut (sampleConfig "peer") sampleEnv (fun _ => "") .empty sampleClaim).length = 1 ∧
      ∀ d ∈ (runRepo (sampleConfig "peer") sampleEnv (fun _ => "") .empty
          sampleClaim).sync.deliveries,
        (d.state = .leased ↔ d.leaseOwner.isSome = true ∧ d.leaseUntil.isSome = true) ∧
          d.attemptCount ≤ 8 ∧ (d.state = .pending → d.attemptCount < 8) :=
  ⟨by decide +kernel, (lease_machine (sampleConfig "peer") sampleEnv (fun _ => "") sampleClaim
    (by decide) (by decide +kernel)).1⟩

end Memplex
