import Memplex.Postgres.Deliveries
import Memplex.Sync.Converge

/-!
# Deliveries that a claim no longer returns

What one call may do with one row is said by `LeaseStep`. A row is served when it is delivered or
given up, when a lease holds it that has not run out, or when a claim of its target returns it as
soon as it is due. A claim takes rows with an attempt left only, and its sweep ends the lease of
every row that has run out; a row whose last attempt ends in this way is pending for ever. This is
also the only way in which a row of a local event stops being served: `served_iff`.
-/

namespace Memplex

open Lib

/-- What a call, at a reading of the clock, may do with a row. -/
inductive LeaseStep (cfg : SyncConfig) (t : SyncTables) (now : Instant) (d : DeliveryRow) :
    DeliveryRow → Prop where
  | same : LeaseStep cfg t now d d
  | release (hexpired : SyncTables.expired d.targetId now d = true) :
    LeaseStep cfg t now d (RowUpdate.release.set d)
  | lease {swept : DeliveryRow}
      (hswept : swept = d ∨
        (SyncTables.expired d.targetId now d = true ∧ swept = RowUpdate.release.set d))
      (hpending : swept.state = .pending) (hattempt : swept.attemptCount < cfg.maxAttempts)
      (leaseId : String) (leaseUntil : Instant) (attempt : ℕ) :
    LeaseStep cfg t now d ((RowUpdate.lease leaseId leaseUntil attempt).set swept)
  | deliver (hleased : d.state = .leased) : LeaseStep cfg t now d (SyncState.delivered d)
  | fail (hleased : d.state = .leased) (errorCode : String) (at' : Instant) :
    LeaseStep cfg t now d (SyncState.failed cfg errorCode at' d)
  | giveUp (hleased : d.state = .leased) (errorCode : String) (at' : Instant) :
    LeaseStep cfg t now d (SyncState.deadLettered errorCode at' d)
  | replay (hdead : d.state = .deadLetter) (at' : Instant) :
    LeaseStep cfg t now d (SyncState.replayed at' d)

namespace SyncTables

/-- A call changes the delivery table alone, and each of its rows by a step. -/
structure Moves (cfg : SyncConfig) (now : Instant) (t t' : SyncTables) : Prop where
  outbox : t'.outbox = t.outbox
  rows : ∀ d' ∈ t'.deliveries, ∃ d ∈ t.deliveries, d'.key = d.key ∧ LeaseStep cfg t now d d'

theorem Moves.refl (cfg : SyncConfig) (now : Instant) (t : SyncTables) : Moves cfg now t t :=
  ⟨rfl, fun d hd => ⟨d, hd, rfl, .same⟩⟩

/-- An `UPDATE` whose rows may all make the step that it sets. -/
theorem moves_update {cfg : SyncConfig} {now : Instant} (t : SyncTables) {p : DeliveryRow → Bool}
    {u : RowUpdate} (h : ∀ d ∈ t.deliveries, p d = true → LeaseStep cfg t now d (u.set d)) :
    Moves cfg now t (t.update p u) := by
  refine ⟨rfl, fun d' hd' => ?_⟩
  obtain ⟨d, hd, hkey, ⟨hp, rfl⟩ | rfl⟩ := mem_updated hd'
  · exact ⟨d, hd, hkey, h d hd hp⟩
  · exact ⟨d', hd, hkey, .same⟩

theorem updateOne_ok {t t' : SyncTables} {p : DeliveryRow → Bool} {u : RowUpdate}
    (h : t.updateOne p u = .ok t') : t' = t.update p u := by
  obtain ⟨_, -, h⟩ := Except.bind_ok.mp h
  exact (Except.ok.inj h).symm

/-- Keys tell the rows of a table apart. -/
theorem row_ext (t : SyncTables) {d d' : DeliveryRow} (hd : d ∈ t.deliveries)
    (hd' : d' ∈ t.deliveries) (hkey : d.key = d'.key) : d = d' :=
  List.inj_on_of_nodup_map t.delivery_keys hd hd' hkey

theorem mem_of_deliveryRow {t : SyncTables} {x : SyncDelivery} {d : DeliveryRow}
    (h : t.deliveryRow x = some d) : d ∈ t.deliveries :=
  List.mem_of_find?_eq_some h

theorem leasedTo_leased {key : String × ℕ} {leaseId : String} {d : DeliveryRow}
    (h : leasedTo key leaseId d = true) : d.state = .leased :=
  (decide_eq_true_eq.mp h).2.2

/-! ## The calls -/

/-- After the loop of a claim a row is as before, or leased by one of the rows that were taken. -/
theorem mem_leaseRows (leaseId : ℕ → String) (leaseUntil : Instant)
    (rows : List (DeliveryRow × ℕ)) (t : SyncTables) :
    (t.leaseRows leaseId leaseUntil rows).outbox = t.outbox ∧
    ∀ d' ∈ (t.leaseRows leaseId leaseUntil rows).deliveries, ∃ d ∈ t.deliveries, d'.key = d.key ∧
      (d' = d ∨ ∃ x ∈ rows, x.1.key = d.key ∧
        d' = (RowUpdate.lease (leaseId x.2) leaseUntil (x.1.attemptCount + 1)).set d) := by
  induction rows generalizing t with
  | nil => exact ⟨rfl, fun d' hd' => ⟨d', hd', rfl, .inl rfl⟩⟩
  | cons x rows ih =>
    obtain ⟨hout, hrows⟩ := ih (t.update (underKey x.1.key)
      (.lease (leaseId x.2) leaseUntil (x.1.attemptCount + 1)))
    refine ⟨hout, fun d' hd' => ?_⟩
    obtain ⟨d₁, hd₁, hkey₁, hstep⟩ := hrows d' hd'
    obtain ⟨d, hd, hkey, hfirst⟩ := mem_updated hd₁
    refine ⟨d, hd, hkey₁.trans hkey, ?_⟩
    rcases hstep with rfl | ⟨y, hy, hykey, rfl⟩
    · rcases hfirst with ⟨hp, rfl⟩ | rfl
      · exact .inr ⟨x, List.mem_cons_self .., (decide_eq_true_eq.mp hp).symm, rfl⟩
      · exact .inl rfl
    · -- A second lease overwrites all that the first has set.
      refine .inr ⟨y, List.mem_cons_of_mem _ hy, hykey.trans hkey, ?_⟩
      rcases hfirst with ⟨-, rfl⟩ | rfl
      · rfl
      · rfl

theorem mem_claimed {t : SyncTables} {cfg : SyncConfig} {targetId : String} {now : Instant}
    {locked : String × ℕ → Bool} {limit : ℕ} {d : DeliveryRow}
    (h : d ∈ t.claimed cfg targetId now locked limit) :
    d ∈ t.deliveries ∧ t.claimable cfg targetId now locked d = true := by
  have hsorted := List.take_subset _ _ h
  rw [List.mem_mergeSort] at hsorted
  exact List.mem_filter.mp hsorted

theorem claim_moves {t t' : SyncTables} {cfg : SyncConfig} {now : Instant} {leaseId : ℕ → String}
    {locked : String × ℕ → Bool} {targetId : String} {limit leaseSeconds : ℕ}
    {handed : List SyncDelivery}
    (h : t.claim cfg now leaseId locked targetId limit leaseSeconds = .ok (t', handed)) :
    Moves cfg now t t' := by
  obtain ⟨_, -, h⟩ := Except.bind_ok.mp h
  obtain ⟨_, -, h⟩ := Except.bind_ok.mp h
  obtain ⟨_, -, h⟩ := Except.bind_ok.mp h
  cases Except.ok.inj h
  obtain ⟨hout, hrows⟩ := mem_leaseRows leaseId (now + leaseSeconds * second)
    (((t.update (expired targetId now) .release).claimed cfg targetId now locked limit).zipIdx)
    (t.update (expired targetId now) .release)
  refine ⟨hout, fun d' hd' => ?_⟩
  obtain ⟨d₁, hd₁, hkey₁, hlease⟩ := hrows d' hd'
  obtain ⟨d, hd, hkey, hsweep⟩ := mem_updated hd₁
  have hswept : d₁ = d ∨ (expired d.targetId now d = true ∧ d₁ = RowUpdate.release.set d) := by
    rcases hsweep with ⟨hp, rfl⟩ | rfl
    · have htarget : d.targetId = targetId := (decide_eq_true_eq.mp hp).1
      exact .inr ⟨by rw [htarget]; exact hp, rfl⟩
    · exact .inl rfl
  refine ⟨d, hd, hkey₁.trans hkey, ?_⟩
  rcases hlease with rfl | ⟨x, hx, hxkey, rfl⟩
  · rcases hswept with rfl | ⟨hexpired, rfl⟩
    · exact .same
    · exact .release hexpired
  · obtain ⟨hmem, hclaim⟩ := mem_claimed (List.fst_mem_of_mem_zipIdx hx)
    have hsame : x.1 = d₁ := row_ext _ hmem hd₁ hxkey
    rw [claimable, decide_eq_true_eq, hsame] at hclaim
    exact .lease hswept hclaim.2.2.1 hclaim.2.2.2.2.1 _ _ _

theorem ack_moves {t t' : SyncTables} {cfg : SyncConfig} {clock clock' : Instant} {x : SyncDelivery}
    {receipt : SyncReceipt} (now : Instant) (h : t.ack clock clock' x receipt = .ok t') :
    Moves cfg now t t' := by
  obtain ⟨_, -, h⟩ := Except.bind_ok.mp h
  split at h
  · cases Except.ok.inj h
    exact .refl ..
  · split_ifs at h
    · cases Except.ok.inj h
      exact .refl ..
    · obtain ⟨_, -, h⟩ := Except.bind_ok.mp h
      obtain ⟨_, -, h⟩ := Except.bind_ok.mp h
      rw [updateOne_ok h]
      refine moves_update t fun r _ hr => .deliver ?_
      exact leasedTo_leased (Bool.and_eq_true_iff.mp hr).1

/-- The updates of a batch, one after another, deliver leased rows. -/
theorem foldlM_deliver_rows (xs : List (SyncDelivery × (String × ℕ))) {t t' : SyncTables}
    (h : xs.foldlM (fun t x => t.updateOne (leasedTo x.2 x.1.leaseId) .deliver) t = .ok t') :
    t'.outbox = t.outbox ∧ ∀ d' ∈ t'.deliveries, ∃ d ∈ t.deliveries, d'.key = d.key ∧
      (d' = d ∨ (d.state = .leased ∧ d' = SyncState.delivered d)) := by
  induction xs generalizing t with
  | nil =>
    cases Except.ok.inj h
    exact ⟨rfl, fun d hd => ⟨d, hd, rfl, .inl rfl⟩⟩
  | cons x xs ih =>
    rw [List.foldlM_cons] at h
    obtain ⟨t₁, hfirst, hrest⟩ := Except.bind_ok.mp h
    obtain ⟨hout, hrows⟩ := ih hrest
    rw [updateOne_ok hfirst] at hout hrows
    refine ⟨hout, fun d' hd' => ?_⟩
    obtain ⟨d₁, hd₁, hkey₁, hstep⟩ := hrows d' hd'
    obtain ⟨d, hd, hkey, hone⟩ := mem_updated hd₁
    refine ⟨d, hd, hkey₁.trans hkey, ?_⟩
    rcases hone with ⟨hp, rfl⟩ | rfl
    · rcases hstep with rfl | ⟨hleased, -⟩
      · exact .inr ⟨leasedTo_leased hp, rfl⟩
      · exact absurd hleased (by simp [RowUpdate.deliver, SyncState.delivered])
    · exact hstep

theorem ackBatch_moves {t t' : SyncTables} {cfg : SyncConfig} {clock : ℕ → Instant}
    {xs : List SyncDelivery} {receipts : List SyncReceipt} (now : Instant)
    (h : t.ackBatch clock xs receipts = .ok t') : Moves cfg now t t' := by
  obtain ⟨_, -, h⟩ := Except.bind_ok.mp h
  obtain ⟨_, -, h⟩ := Except.bind_ok.mp h
  obtain ⟨locked, -, h⟩ := Except.bind_ok.mp h
  obtain ⟨hout, hrows⟩ := foldlM_deliver_rows locked h
  refine ⟨hout, fun d' hd' => ?_⟩
  obtain ⟨d, hd, hkey, rfl | ⟨hleased, rfl⟩⟩ := hrows d' hd'
  · exact ⟨d', hd, hkey, .same⟩
  · exact ⟨d, hd, hkey, .deliver hleased⟩

theorem fail_moves {t t' : SyncTables} {cfg : SyncConfig} {clock at' : Instant} {x : SyncDelivery}
    {errorCode : String} (now : Instant) (h : t.fail cfg clock x errorCode at' = .ok t') :
    Moves cfg now t t' := by
  obtain ⟨_, -, h⟩ := Except.bind_ok.mp h
  split at h
  · cases Except.ok.inj h
    exact .refl ..
  next d hrow =>
    split_ifs at h with hstate
    · obtain ⟨_, -, h⟩ := Except.bind_ok.mp h
      cases Except.ok.inj h
      exact .refl ..
    · obtain ⟨_, -, h⟩ := Except.bind_ok.mp h
      rw [updateOne_ok h]
      refine moves_update t fun r hr hkey => .fail ?_ errorCode at'
      rw [row_ext t hr (mem_of_deliveryRow hrow) (decide_eq_true_eq.mp hkey)]
      exact not_not.mp hstate

theorem deadLetter_moves {t t' : SyncTables} {cfg : SyncConfig} {clock at' : Instant}
    {x : SyncDelivery} {errorCode : String} (now : Instant)
    (h : t.deadLetter clock x errorCode at' = .ok t') : Moves cfg now t t' := by
  obtain ⟨_, -, h⟩ := Except.bind_ok.mp h
  split at h
  · cases Except.ok.inj h
    exact .refl ..
  · split_ifs at h
    · cases Except.ok.inj h
      exact .refl ..
    · obtain ⟨_, -, h⟩ := Except.bind_ok.mp h
      obtain ⟨_, -, h⟩ := Except.bind_ok.mp h
      rw [updateOne_ok h]
      exact moves_update t fun r _ hr => .giveUp (leasedTo_leased hr) errorCode at'

theorem replayDeadLetter_moves {t t' : SyncTables} {cfg : SyncConfig} {at' : Instant}
    {targetId eventId : String} {found : Bool} (now : Instant)
    (h : t.replayDeadLetter at' targetId eventId = .ok (t', found)) : Moves cfg now t t' := by
  obtain ⟨_, -, h⟩ := Except.bind_ok.mp h
  obtain ⟨_, -, h⟩ := Except.bind_ok.mp h
  split at h
  · cases Except.ok.inj h
    exact .refl ..
  · cases Except.ok.inj h
    exact moves_update t fun r _ hr => .replay (decide_eq_true_eq.mp hr).2 at'

/-- Every call moves every row by a step. -/
theorem step_moves (cfg : SyncConfig) (t : SyncTables) (call : LeaseCall) :
    Moves cfg call.reading t (call.step cfg t) := by
  unfold LeaseCall.step
  split
  next t' happly =>
    cases call with
    | claim now leaseId locked targetId limit leaseSeconds =>
      obtain ⟨⟨t₁, handed⟩, hrun, rfl⟩ := Except.map_ok happly
      exact claim_moves hrun
    | ack clock clock' delivery receipt => exact ack_moves _ happly
    | ackBatch clock deliveries receipts => exact ackBatch_moves _ happly
    | fail clock delivery errorCode now => exact fail_moves _ happly
    | deadLetter clock delivery errorCode now => exact deadLetter_moves _ happly
    | replayDeadLetter now targetId eventId =>
      obtain ⟨⟨t₁, found⟩, hrun, rfl⟩ := Except.map_ok happly
      exact replayDeadLetter_moves _ hrun
  · exact .refl ..

/-! ## What a claim returns -/

/-- The event of a row originated at this node. -/
def FromHere (t : SyncTables) (cfg : SyncConfig) (d : DeliveryRow) : Prop :=
  (t.outboxEvent d.streamSeq).map SyncEvent.originNodeId = some cfg.localNodeId

/-- Every later claim of the target returns the row, once its retry time and its lease have passed,
the target is enabled and the limit leaves room for it. -/
def Returned (t : SyncTables) (cfg : SyncConfig) (now : Instant) (d : DeliveryRow) : Prop :=
  ∀ later leaseId limit leaseSeconds, now ≤ later → d.nextAttemptAt ≤ later →
    (∀ leaseUntil ∈ d.leaseUntil, leaseUntil ≤ later) → t.deliveries.length ≤ limit →
    1 ≤ leaseSeconds →
    ∃ t₁ t₂ handed, t.setTargetEnabled d.targetId true = .ok t₁ ∧
      t₁.claim cfg later leaseId (fun _ => false) d.targetId limit leaseSeconds =
        .ok (t₂, handed) ∧
      ∃ x ∈ handed, t.outboxEvent d.streamSeq = some x.event

/-- A row that is not lost: it has come to an end, a lease holds it, or a claim will return it. -/
def Served (t : SyncTables) (cfg : SyncConfig) (now : Instant) (d : DeliveryRow) : Prop :=
  d.state = .delivered ∨ d.state = .deadLetter ∨
    (d.state = .leased ∧ ∃ leaseUntil ∈ d.leaseUntil, now < leaseUntil) ∨ t.Returned cfg now d

/-- A row that waits for a claim: it is pending, or its lease has run out. -/
def Waiting (now : Instant) (d : DeliveryRow) : Prop :=
  d.state = .pending ∨ expired d.targetId now d = true

/-- The lease of a last allowed attempt, after it has run out. -/
def SpentLease (cfg : SyncConfig) (now : Instant) (d : DeliveryRow) : Prop :=
  expired d.targetId now d = true ∧ cfg.maxAttempts ≤ d.attemptCount

instance (t : SyncTables) (cfg : SyncConfig) (d : DeliveryRow) : Decidable (t.FromHere cfg d) :=
  inferInstanceAs (Decidable (_ = _))

instance (cfg : SyncConfig) (now : Instant) (d : DeliveryRow) : Decidable (SpentLease cfg now d) :=
  inferInstanceAs (Decidable (_ ∧ _))

/-- One event has one stream sequence. -/
theorem outboxEvent_inj {t : SyncTables} {m n : ℕ} {e : SyncEvent}
    (hm : t.outboxEvent m = some e) (hn : t.outboxEvent n = some e) : m = n := by
  obtain ⟨r, hr, rfl⟩ := Option.map_eq_some_iff.mp hm
  obtain ⟨r', hr', heq⟩ := Option.map_eq_some_iff.mp hn
  have hsame : r' = r := List.inj_on_of_nodup_map t.outbox_unique
    (List.mem_of_find?_eq_some hr') (List.mem_of_find?_eq_some hr) (congrArg SyncEvent.identity heq)
  have hrm : r.streamSeq = m := by simpa using List.find?_some hr
  have hrn : r'.streamSeq = n := by simpa using List.find?_some hr'
  rw [← hrm, ← hrn, hsame]

/-- A row after the sweep of a claim. -/
def swept (now : Instant) (d : DeliveryRow) : DeliveryRow :=
  if expired d.targetId now d then RowUpdate.release.set d else d

theorem swept_key (now : Instant) (d : DeliveryRow) : (swept now d).key = d.key := by
  unfold swept
  split_ifs <;> rfl

theorem swept_attemptCount (now : Instant) (d : DeliveryRow) :
    (swept now d).attemptCount = d.attemptCount := by
  unfold swept
  split_ifs <;> rfl

theorem swept_nextAttemptAt (now : Instant) (d : DeliveryRow) :
    (swept now d).nextAttemptAt = d.nextAttemptAt := by
  unfold swept
  split_ifs <;> rfl

/-- The sweep makes a waiting row pending, once its lease has passed. -/
theorem swept_pending {now later : Instant} {d : DeliveryRow} (hwait : Waiting now d)
    (huntil : ∀ leaseUntil ∈ d.leaseUntil, leaseUntil ≤ later) : (swept later d).state = .pending := by
  unfold swept
  split_ifs with hexpired
  · rfl
  · rcases hwait with hpending | hexp
    · exact hpending
    · obtain ⟨-, hleased, leaseUntil, hmem, -⟩ := decide_eq_true_eq.mp hexp
      exact absurd (decide_eq_true ⟨rfl, hleased, leaseUntil, hmem, huntil _ hmem⟩) hexpired

/-- The swept row is in the table after the sweep. -/
theorem swept_mem {t : SyncTables} (now : Instant) {d : DeliveryRow} (hd : d ∈ t.deliveries) :
    swept now d ∈ (t.update (expired d.targetId now) .release).deliveries := by
  refine List.mem_map.mpr ⟨d, hd, ?_⟩
  rfl

theorem setEnabled_enables {t : SyncTables} {d : DeliveryRow} (hd : d ∈ t.deliveries) :
    ∃ target ∈ (t.setEnabled d.targetId true).targets.rows,
      target.targetId = d.targetId ∧ target.enabled = true := by
  obtain ⟨target, htarget, hid⟩ := t.target_exists d hd
  refine ⟨_, List.mem_map_of_mem htarget, ?_, ?_⟩
  · rw [switched_targetId, hid]
  · rw [switched, if_pos hid]

/-- The result of a claim with valid arguments. -/
theorem claim_eq {t : SyncTables} {cfg : SyncConfig} {now : Instant} {leaseId : ℕ → String}
    {locked : String × ℕ → Bool} {targetId : String} {limit leaseSeconds : ℕ}
    (hnamed : targetId ≠ "") (hlimit : 1 ≤ limit) (hsecs : 1 ≤ leaseSeconds) :
    t.claim cfg now leaseId locked targetId limit leaseSeconds = .ok
      ((t.update (expired targetId now) .release).leaseRows leaseId (now + leaseSeconds * second)
        ((t.update (expired targetId now) .release).claimed cfg targetId now locked limit).zipIdx,
      (((t.update (expired targetId now) .release).claimed cfg targetId now locked
        limit).zipIdx).filterMap fun x => (t.outboxEvent x.1.streamSeq).map fun event =>
          ⟨targetId, event, x.1.attemptCount + 1, leaseId x.2, now + leaseSeconds * second⟩) := by
  rw [claim, require, if_pos hnamed, require, if_pos hlimit, require, if_pos hsecs]
  rfl

/-- A waiting row is returned by later claims exactly when it has an attempt left and its event
originated at this node. -/
theorem returned_iff {t : SyncTables} {cfg : SyncConfig} {now : Instant} {d : DeliveryRow}
    (hd : d ∈ t.deliveries) (hwait : Waiting now d) :
    t.Returned cfg now d ↔ d.attemptCount < cfg.maxAttempts ∧ t.FromHere cfg d := by
  have hnamed : d.targetId ≠ "" := by
    obtain ⟨target, htarget, hid⟩ := t.target_exists d hd
    rw [← hid]
    exact t.target_named target htarget
  constructor
  · intro hret
    -- A claim when everything has passed: what it hands out comes from a claimable row.
    obtain ⟨t₁, t₂, handed, henable, hclaim, x, hx, hevent⟩ := hret
      (max (max now d.nextAttemptAt) (d.leaseUntil.getD now)) (fun _ => "") t.deliveries.length 1
      (by simp) (by simp)
      (fun u hu => by rw [Option.mem_def.mp hu]; simp) le_rfl le_rfl
    generalize max (max now d.nextAttemptAt) (d.leaseUntil.getD now) = later at hclaim
    obtain ⟨_, -, henable⟩ := Except.bind_ok.mp henable
    obtain ⟨_, -, henable⟩ := Except.bind_ok.mp henable
    cases Except.ok.inj henable
    obtain ⟨_, -, hclaim⟩ := Except.bind_ok.mp hclaim
    obtain ⟨_, -, hclaim⟩ := Except.bind_ok.mp hclaim
    obtain ⟨_, -, hclaim⟩ := Except.bind_ok.mp hclaim
    cases Except.ok.inj hclaim
    obtain ⟨y, hy, hyevent⟩ := List.mem_filterMap.mp hx
    obtain ⟨event, hevent', rfl⟩ := Option.map_eq_some_iff.mp hyevent
    obtain ⟨hmem, hclaimable⟩ := mem_claimed (List.fst_mem_of_mem_zipIdx hy)
    have hseq : y.1.streamSeq = d.streamSeq := outboxEvent_inj (t := t) hevent' hevent
    rw [claimable, decide_eq_true_eq] at hclaimable
    obtain ⟨htarget, -, -, -, hattempt, horigin, -⟩ := hclaimable
    have hsame : y.1 = swept later d := by
      refine row_ext _ hmem (swept_mem _ (t := t.setEnabled d.targetId true) hd) ?_
      rw [swept_key]
      exact Prod.ext htarget hseq
    rw [hsame, swept_attemptCount] at hattempt
    rw [hseq] at horigin
    exact ⟨hattempt, horigin⟩
  · rintro ⟨hattempt, horigin⟩ later leaseId limit leaseSeconds hlater hnext huntil hlimit hsecs
    have hpos : 1 ≤ limit := (List.length_pos_of_mem hd).trans_le hlimit
    obtain ⟨event, hevent, -⟩ := Option.map_eq_some_iff.mp horigin
    have henable : t.setTargetEnabled d.targetId true = .ok (t.setEnabled d.targetId true) := by
      rw [setTargetEnabled, require, if_pos hnamed, require, if_pos (t.target_exists d hd)]
      rfl
    have hmem := swept_mem later (t := t.setEnabled d.targetId true) hd
    have hclaimable : ((t.setEnabled d.targetId true).update (expired d.targetId later)
        .release).claimable cfg d.targetId later (fun _ => false) (swept later d) = true := by
      obtain ⟨htarget, hseq⟩ := Prod.mk.inj (swept_key later d)
      rw [claimable, decide_eq_true_eq, htarget, hseq, swept_nextAttemptAt, swept_attemptCount]
      exact ⟨rfl, setEnabled_enables hd, swept_pending hwait huntil, hnext, hattempt, horigin, rfl⟩
    have htaken : swept later d ∈ ((t.setEnabled d.targetId true).update (expired d.targetId later)
        .release).claimed cfg d.targetId later (fun _ => false) limit := by
      rw [claimed, List.take_of_length_le]
      · exact List.mem_mergeSort.mpr (List.mem_filter.mpr ⟨hmem, hclaimable⟩)
      · rw [List.length_mergeSort]
        refine (List.length_filter_le _ _).trans ?_
        show (updated t.deliveries _ _).length ≤ limit
        rw [updated, List.length_map]
        exact hlimit
    obtain ⟨i, hi⟩ := List.mem_iff_getElem?.mp htaken
    refine ⟨_, _, _, henable, claim_eq hnamed hpos hsecs, ⟨d.targetId, event,
      (swept later d).attemptCount + 1, leaseId i, later + leaseSeconds * second⟩, ?_, hevent⟩
    refine List.mem_filterMap.mpr ⟨(swept later d, i), List.mem_zipIdx_iff_getElem?.mpr hi, ?_⟩
    have hseq := (Prod.mk.inj (swept_key later d)).2
    refine Option.map_eq_some_iff.mpr ⟨event, ?_, rfl⟩
    rw [hseq]
    exact hevent

/-- A row is served exactly when it has, if it waits, an attempt left and a local event. -/
theorem served_iff {t : SyncTables} {cfg : SyncConfig} {now : Instant} {d : DeliveryRow}
    (hd : d ∈ t.deliveries) : t.Served cfg now d ↔
      (Waiting now d → d.attemptCount < cfg.maxAttempts ∧ t.FromHere cfg d) := by
  constructor
  · intro hserved hwait
    refine (returned_iff hd hwait).mp ?_
    rcases hserved with h | h | ⟨hleased, leaseUntil, hmem, hlt⟩ | h
    · rcases hwait with hw | hw
      · exact absurd (hw.symm.trans h) (by simp)
      · exact absurd ((decide_eq_true_eq.mp hw).2.1.symm.trans h) (by simp)
    · rcases hwait with hw | hw
      · exact absurd (hw.symm.trans h) (by simp)
      · exact absurd ((decide_eq_true_eq.mp hw).2.1.symm.trans h) (by simp)
    · rcases hwait with hw | hw
      · exact absurd (hw.symm.trans hleased) (by simp)
      · obtain ⟨-, -, leaseUntil', hmem', hle⟩ := decide_eq_true_eq.mp hw
        cases Option.mem_unique hmem hmem'
        exact absurd hlt (not_lt.mpr hle)
    · exact h
  · intro h
    cases hstate : d.state with
    | delivered => exact .inl hstate
    | deadLetter => exact .inr (.inl hstate)
    | pending => exact .inr (.inr (.inr ((returned_iff hd (.inl hstate)).mpr (h (.inl hstate)))))
    | leased =>
      obtain ⟨leaseUntil, huntil⟩ :=
        Option.isSome_iff_exists.mp ((t.delivery_check d hd).mp hstate).2
      by_cases hle : leaseUntil ≤ now
      · have hwait : Waiting now d := .inr (decide_eq_true ⟨rfl, hstate, leaseUntil, huntil, hle⟩)
        exact .inr (.inr (.inr ((returned_iff hd hwait).mpr (h hwait))))
      · exact .inr (.inr (.inl ⟨hstate, leaseUntil, huntil, not_le.mp hle⟩))

end SyncTables

open SyncTables

/-! ## Runs -/

/-- A step leaves a pending row with an attempt left, where the row before it is not the spent lease
of a last attempt. -/
theorem LeaseStep.pending {cfg : SyncConfig} {t : SyncTables} {now : Instant} {d d' : DeliveryRow}
    (hmax : 1 ≤ cfg.maxAttempts) (hstep : LeaseStep cfg t now d d')
    (hpending : d.state = .pending → d.attemptCount < cfg.maxAttempts)
    (hspent : ¬ SpentLease cfg now d) (h : d'.state = .pending) :
    d'.attemptCount < cfg.maxAttempts := by
  cases hstep with
  | same => exact hpending h
  | release hexpired => exact not_le.mp fun hle => hspent ⟨hexpired, hle⟩
  | lease hswept hp hattempt leaseId leaseUntil attempt => exact absurd h (by simp [RowUpdate.lease])
  | deliver hleased => exact absurd h (by simp [SyncState.delivered])
  | fail hleased errorCode at' =>
    unfold SyncState.failed at h ⊢
    split_ifs at h ⊢ with hlast
    exact not_le.mp hlast
  | giveUp hleased errorCode at' => exact absurd h (by simp [SyncState.deadLettered])
  | replay hdead at' => exact hmax

/-- Where no last attempt ends by the expiry of its lease, pending rows have an attempt left, at
every moment of a run. -/
theorem moments_pending (cfg : SyncConfig) (hmax : 1 ≤ cfg.maxAttempts) (calls : List LeaseCall)
    (last : Instant) {t : SyncTables}
    (ht : ∀ d ∈ t.deliveries, d.state = .pending → d.attemptCount < cfg.maxAttempts)
    (hspent : ∀ m ∈ moments cfg t calls last, ∀ d ∈ m.1.deliveries, ¬ SpentLease cfg m.2 d) :
    ∀ m ∈ moments cfg t calls last, ∀ d ∈ m.1.deliveries,
      d.state = .pending → d.attemptCount < cfg.maxAttempts := by
  induction calls generalizing t with
  | nil =>
    intro m hm
    cases List.mem_singleton.mp hm
    exact ht
  | cons call calls ih =>
    intro m hm
    rcases List.mem_cons.mp hm with rfl | hm
    · exact ht
    · refine ih (fun d' hd' hp => ?_)
        (fun m hm => hspent m (List.mem_cons_of_mem _ hm)) m hm
      obtain ⟨d, hd, -, hstep⟩ := (step_moves cfg t call).rows d' hd'
      exact hstep.pending hmax (ht d hd) (hspent _ (List.mem_cons_self ..) d hd) hp

/-- The calls of a run leave the events of the rows as they are. -/
theorem moments_fromHere (cfg : SyncConfig) (calls : List LeaseCall) (last : Instant)
    {t : SyncTables} (ht : ∀ d ∈ t.deliveries, t.FromHere cfg d) :
    ∀ m ∈ moments cfg t calls last, ∀ d ∈ m.1.deliveries, m.1.FromHere cfg d := by
  induction calls generalizing t with
  | nil =>
    intro m hm
    cases List.mem_singleton.mp hm
    exact ht
  | cons call calls ih =>
    intro m hm
    rcases List.mem_cons.mp hm with rfl | hm
    · exact ht
    · refine ih (fun d' hd' => ?_) m hm
      have hmoves := step_moves cfg t call
      obtain ⟨d, hd, hkey, -⟩ := hmoves.rows d' hd'
      unfold FromHere outboxEvent
      rw [hmoves.outbox, (Prod.mk.inj hkey).2]
      exact ht d hd

/-- The first moment of a run. -/
theorem moments_head (cfg : SyncConfig) (t : SyncTables) (calls : List LeaseCall)
    (last : Instant) : ∃ now, (t, now) ∈ moments cfg t calls last := by
  cases calls with
  | nil => exact ⟨last, List.mem_singleton_self _⟩
  | cons call calls => exact ⟨call.reading, List.mem_cons_self ..⟩

/-- The rows of a run, from rows that no one has claimed. All of them are served at all times
exactly when every row is of an event from this node and no reading of the clock finds that the
lease of a last attempt has run out; the latter alone decides whether waiting rows have an attempt
left. -/
theorem deliveries_served_iff (cfg : SyncConfig) (t : SyncTables) (calls : List LeaseCall)
    (last : Instant) (hmax : 1 ≤ cfg.maxAttempts)
    (hfresh : ∀ d ∈ t.deliveries, ∃ due, d = .fresh d.targetId d.streamSeq due) :
    ((∀ m ∈ moments cfg t calls last, ∀ d ∈ m.1.deliveries, m.1.Served cfg m.2 d) ↔
      (∀ d ∈ t.deliveries, t.FromHere cfg d) ∧
        ∀ m ∈ moments cfg t calls last, ∀ d ∈ m.1.deliveries, ¬ SpentLease cfg m.2 d) ∧
    ((∀ m ∈ moments cfg t calls last, ∀ d ∈ m.1.deliveries,
        Waiting m.2 d → d.attemptCount < cfg.maxAttempts) ↔
      ∀ m ∈ moments cfg t calls last, ∀ d ∈ m.1.deliveries, ¬ SpentLease cfg m.2 d) := by
  have hpending : ∀ d ∈ t.deliveries, d.state = .pending := fun d hd => by
    obtain ⟨due, heq⟩ := hfresh d hd
    rw [heq]
    rfl
  have hattempts : ∀ d ∈ t.deliveries, d.state = .pending → d.attemptCount < cfg.maxAttempts :=
    fun d hd _ => by
      obtain ⟨due, heq⟩ := hfresh d hd
      rw [heq]
      exact hmax
  have hwaiting : (∀ m ∈ moments cfg t calls last, ∀ d ∈ m.1.deliveries,
      Waiting m.2 d → d.attemptCount < cfg.maxAttempts) ↔
      ∀ m ∈ moments cfg t calls last, ∀ d ∈ m.1.deliveries, ¬ SpentLease cfg m.2 d := by
    refine ⟨fun h m hm d hd hspent => ?_, fun h m hm d hd hwait => ?_⟩
    · exact absurd (h m hm d hd (.inr hspent.1)) (not_lt.mpr hspent.2)
    · rcases hwait with hp | hexpired
      · exact moments_pending cfg hmax calls last hattempts h m hm d hd hp
      · exact not_le.mp fun hle => h m hm d hd ⟨hexpired, hle⟩
  refine ⟨⟨fun h => ⟨fun d hd => ?_, hwaiting.mp fun m hm d hd hwait => ?_⟩, ?_⟩, hwaiting⟩
  · obtain ⟨now, hm⟩ := moments_head cfg t calls last
    exact ((served_iff hd).mp (h _ hm d hd) (.inl (hpending d hd))).2
  · exact ((served_iff hd).mp (h m hm d hd) hwait).1
  · rintro ⟨hhere, hspent⟩ m hm d hd
    refine (served_iff hd).mpr fun hwait => ⟨hwaiting.mpr hspent m hm d hd hwait, ?_⟩
    exact moments_fromHere cfg calls last hhere m hm d hd

/-- A repository of the node `peer` that allows one attempt. -/
def oneAttempt : SyncConfig := { sampleConfig "peer" with maxAttempts := 1 }

/-- An event of `peer` that waits for the target `q`. -/
def sampleTables : SyncTables where
  targets := ⟨[⟨"q", "q", 0, true⟩], by decide⟩
  outbox := [⟨1, sampleFactA⟩]
  deliveries := [.fresh "q" 1 0]
  outbox_keys := by decide
  outbox_unique := by simp
  delivery_keys := by decide
  target_exists := by simp [DeliveryRow.fresh]
  event_exists := by simp [DeliveryRow.fresh]
  delivery_check := by simp [DeliveryRow.LeaseChecked, DeliveryRow.fresh]
  target_named := by simp

/-- A claim of one event for half a minute. -/
def sampleClaimAt (now : Instant) : LeaseCall :=
  .claim now (fun _ => "lease") (fun _ => false) "q" 1 30

/-- The worker that has claimed the delivery for its only attempt does not come back: the next claim
ends the lease and returns nothing, and no later claim returns the delivery. -/
theorem last_attempt_stranded :
    ∃ m ∈ moments oneAttempt sampleTables [sampleClaimAt 0, sampleClaimAt (31 * second)]
        (31 * second), ∃ d ∈ m.1.deliveries, d.state = .pending ∧
      d.attemptCount = oneAttempt.maxAttempts ∧ ¬ m.1.Served oneAttempt m.2 d := by
  let t := (sampleClaimAt (31 * second)).step oneAttempt
    ((sampleClaimAt 0).step oneAttempt sampleTables)
  have hrows : t.deliveries = [⟨"q", 1, .pending, 1, 0, none, none, none⟩] := by decide +kernel
  have hmem : ⟨"q", 1, .pending, 1, 0, none, none, none⟩ ∈ t.deliveries := by simp [hrows]
  refine ⟨(t, 31 * second), ?_, _, hmem, rfl, rfl, fun hserved => ?_⟩
  · exact List.mem_cons_of_mem _ (List.mem_cons_of_mem _ (List.mem_singleton_self _))
  · have hattempt := ((served_iff hmem).mp hserved (.inl rfl)).1
    exact absurd hattempt (by decide)

/-- At its only attempt the delivery is served. -/
theorem first_claim_served : sampleTables.Served oneAttempt 0 (.fresh "q" 1 0) :=
  (deliveries_served_iff oneAttempt sampleTables [sampleClaimAt 0] (29 * second) (by decide)
    (fun d hd => ⟨0, List.mem_singleton.mp hd ▸ rfl⟩)).1.mpr
      ⟨by decide +kernel, by decide +kernel⟩ (sampleTables, 0) (List.mem_cons_self ..) _
      (List.mem_singleton_self _)

end Memplex
