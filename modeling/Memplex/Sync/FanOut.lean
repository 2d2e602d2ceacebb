import Memplex.Sync.Converge
import Memplex.Sync.Deliveries

/-!
# Fan-out

Which events are offered to a target. A delivery row is made when an event is appended, for the
targets that are enabled then, and when a target is registered, for the events that are retained
then; enabling a target only sets its flag. `FanOutComplete` says that every retained event above
the bootstrap of an enabled target, and of another origin, has exactly one delivery for it.

It does not hold of every run: what is appended while a target is disabled is never offered to it
(`disabled_target_misses`). `missedIn` collects, along a run, the target and the stream sequence of
each such event, and `fanOut_complete_iff` says that nothing else goes wrong: a state that a run
reaches is complete exactly when none of the events it retains was missed by a target that it has
enabled. The invariant `Offered` says the same of all targets, enabled or not.
-/

namespace Memplex

open Lib

/-! ## Operations -/

/-- An operation of a repository. A capture takes place inside a change of the records. -/
inductive SyncOp where
  | capture (business : BusinessState) (event : SyncEvent)
  | deliver (d : Delivery)
  | registerTarget (now : Instant) (targetId : String) (bootstrap : SyncState.Bootstrap)
  | setTargetEnabled (targetId : String) (enabled : Bool)
  | claim (now : Instant) (leaseId : ℕ → String) (targetId : String) (limit leaseSeconds : ℕ)
  | ackBatch (now : Instant) (deliveries : List SyncDelivery) (receipts : List SyncReceipt)
  | fail (clock : Instant) (delivery : SyncDelivery) (errorCode : String) (now : Instant)
  | deadLetter (clock : Instant) (delivery : SyncDelivery) (errorCode : String) (now : Instant)
  | replayDeadLetter (now : Instant) (targetId eventId : String)
  | page (now : Instant) (remoteId consumerId : String) (cursor : Option SyncCursorClaims)
      (limit : ℕ)
  | compact (now : Instant) (limit : ℕ)

section Run

variable (cfg : SyncConfig) (env : Env) (sha256 : ByteArray → String)

/-- What an operation does, or the error that it raises. -/
def SyncOp.apply (s : LiteStore) : SyncOp → Except PyError LiteStore
  | .capture business event =>
    (s.sync.captureLocalEvent cfg event).map fun sync => ⟨business, sync⟩
  | .deliver d => Memplex.deliver cfg env sha256 s d
  | .registerTarget now targetId bootstrap =>
    (s.sync.registerTarget cfg now targetId bootstrap).map fun sync => { s with sync := sync }
  | .setTargetEnabled targetId enabled =>
    (s.sync.setTargetEnabled targetId enabled).map fun sync => { s with sync := sync }
  | .claim now leaseId targetId limit leaseSeconds =>
    (s.sync.claim cfg now leaseId targetId limit leaseSeconds).map fun r => { s with sync := r.1 }
  | .ackBatch now deliveries receipts =>
    (s.sync.ackBatch now deliveries receipts).map fun sync => { s with sync := sync }
  | .fail clock delivery errorCode now =>
    (s.sync.fail cfg clock delivery errorCode now).map fun sync => { s with sync := sync }
  | .deadLetter clock delivery errorCode now =>
    (s.sync.deadLetter clock delivery errorCode now).map fun sync => { s with sync := sync }
  | .replayDeadLetter now targetId eventId =>
    (s.sync.replayDeadLetter now targetId eventId).map fun r => { s with sync := r.1 }
  | .page now remoteId consumerId cursor limit =>
    (s.sync.page now remoteId consumerId cursor limit).map fun r => { s with sync := r.1 }
  | .compact now limit => (s.sync.compact cfg now limit).map fun r => { s with sync := r.1 }

/-- One operation of a run: where it raises, the transaction leaves the store as it was. -/
def SyncOp.step (s : LiteStore) (op : SyncOp) : LiteStore :=
  match op.apply cfg env sha256 s with
  | .ok s' => s'
  | .error _ => s

/-- A run from a store. -/
def runOps (s : LiteStore) (ops : List SyncOp) : LiteStore :=
  ops.foldl (SyncOp.step cfg env sha256) s

/-- The targets that are disabled in `s`, with the stream sequences that are taken between `s` and
`s'`. -/
def missedBy (s s' : SyncState) : Set (String × ℕ) :=
  {p | (∃ t ∈ s.targets.rows, t.enabled = false ∧ p.1 = t.targetId) ∧
    s.nextStreamSeq ≤ p.2 ∧ p.2 < s'.nextStreamSeq}

/-- The targets of a run with the stream sequences that were taken while they were disabled. -/
def missedIn (s : LiteStore) : List SyncOp → Set (String × ℕ)
  | [] => ∅
  | op :: ops =>
    missedBy s.sync (op.step cfg env sha256 s).sync ∪ missedIn (op.step cfg env sha256 s) ops

end Run

/-! ## The property and its invariant -/

/-- An event that is to be offered to a target. -/
def Concerns (t : TargetRow) (r : OutboxRow) : Prop :=
  t.bootstrapSeq < r.streamSeq ∧ r.event.originNodeId ≠ t.targetId

/-- Every retained event has exactly one delivery for each enabled target it is to be offered to. -/
def FanOutComplete (s : SyncState) : Prop :=
  ∀ t ∈ s.targets.rows, t.enabled = true → ∀ r ∈ s.outbox, Concerns t r →
    s.deliveries.countP (fun d => d.key = (t.targetId, r.streamSeq)) = 1

/-- The identities of the deliveries. -/
def SyncState.deliveryKeys (s : SyncState) : List (String × ℕ) := s.deliveries.map DeliveryRow.key

/-- The deliveries of a state are those of its events that no target missed. -/
structure Offered (s : SyncState) (missed : Set (String × ℕ)) : Prop where
  /-- The stream sequences of the events are distinct. -/
  seqs_nodup : (s.outbox.map OutboxRow.streamSeq).Nodup
  /-- The stream sequences of the events have been taken. -/
  seqs_lt : ∀ r ∈ s.outbox, r.streamSeq < s.nextStreamSeq
  /-- No delivery is made twice. -/
  keys_nodup : s.deliveryKeys.Nodup
  /-- Deliveries are for known targets and taken sequences. -/
  keys_known : ∀ k ∈ s.deliveryKeys, k.1 ∈ s.targets.rows.map TargetRow.targetId ∧
    k.2 < s.nextStreamSeq
  /-- Targets are their own remote nodes, and begin within the stream. -/
  targets_ok : ∀ t ∈ s.targets.rows, t.remoteNodeId = t.targetId ∧ t.bootstrapSeq < s.nextStreamSeq
  /-- The retention floor is within the stream. -/
  floor_lt : s.retentionFloor < s.nextStreamSeq
  /-- Only known targets have missed events, and only events of the stream. -/
  missed_known : ∀ k ∈ missed, k.1 ∈ s.targets.rows.map TargetRow.targetId ∧
    k.2 < s.nextStreamSeq
  /-- An event that concerns a target has a delivery for it, unless the target missed it. -/
  offered : ∀ t ∈ s.targets.rows, ∀ r ∈ s.outbox, Concerns t r →
    ((t.targetId, r.streamSeq) ∈ s.deliveryKeys ↔ (t.targetId, r.streamSeq) ∉ missed)

/-- The invariant depends on the stream, the targets and the identities of the deliveries. -/
theorem Offered.congr {s s' : SyncState} {missed : Set (String × ℕ)} (h : Offered s missed)
    (houtbox : s'.outbox = s.outbox) (hnext : s'.nextStreamSeq = s.nextStreamSeq)
    (htargets : s'.targets = s.targets) (hkeys : s'.deliveryKeys = s.deliveryKeys)
    (hfloor : s'.retentionFloor = s.retentionFloor) : Offered s' missed := by
  obtain ⟨h1, h2, h3, h4, h5, h6, h7, h8⟩ := h
  constructor
  · rwa [houtbox]
  · rwa [houtbox, hnext]
  · rwa [hkeys]
  · rwa [hkeys, htargets, hnext]
  · rwa [htargets, hnext]
  · rwa [hfloor, hnext]
  · rwa [htargets, hnext]
  · rwa [htargets, houtbox, hkeys]

/-- Nothing is missed where no sequence is taken. -/
theorem missedBy_of_next_eq {s s' : SyncState} (h : s'.nextStreamSeq = s.nextStreamSeq) :
    missedBy s s' = ∅ := by
  ext p
  simp only [missedBy, h, Set.mem_ofPred_eq, Set.mem_empty_iff_false, iff_false]
  rintro ⟨-, hle, hlt⟩
  exact absurd hlt (not_lt.mpr hle)

/-- The event of a complete state is offered once where it is offered at all. -/
theorem countP_key_eq_one {s : SyncState} (h : s.deliveryKeys.Nodup) (k : String × ℕ) :
    s.deliveries.countP (fun d => d.key = k) = 1 ↔ k ∈ s.deliveryKeys := by
  have hcount : s.deliveries.countP (fun d => d.key = k) = s.deliveryKeys.count k := by
    rw [SyncState.deliveryKeys, List.count, List.countP_map]
    exact List.countP_congr fun d _ => by simp
  rw [hcount]
  constructor
  · intro hone
    exact List.count_pos_iff.mp (by omega)
  · intro hmem
    exact List.count_eq_one_of_mem h hmem

/-- A state whose deliveries are known is complete exactly when its enabled targets missed none of
its events. -/
theorem Offered.complete_iff {s : SyncState} {missed : Set (String × ℕ)} (h : Offered s missed) :
    FanOutComplete s ↔ ∀ t ∈ s.targets.rows, t.enabled = true → ∀ r ∈ s.outbox, Concerns t r →
      (t.targetId, r.streamSeq) ∉ missed := by
  constructor
  · intro hc t ht hen r hr hcon
    rw [← h.offered t ht r hr hcon, ← countP_key_eq_one h.keys_nodup]
    exact hc t ht hen r hr hcon
  · intro hm t ht hen r hr hcon
    rw [countP_key_eq_one h.keys_nodup, h.offered t ht r hr hcon]
    exact hm t ht hen r hr hcon

/-! ## Appending an event -/

theorem SyncState.deliveryKeys_appended (s : SyncState) (e : SyncEvent) :
    (s.appended e).deliveryKeys = s.deliveryKeys ++
      (s.fanOut e.originNodeId).map fun t => (t.targetId, s.nextStreamSeq) := by
  rw [deliveryKeys, appended, List.map_append, List.map_map]
  rfl

/-- A target is offered a new event when it is enabled and the event is not its own. -/
theorem SyncState.mem_fanOut {s : SyncState} {origin : String} {t : TargetRow} :
    t ∈ s.fanOut origin ↔ t ∈ s.targets.rows ∧ t.enabled = true ∧ t.remoteNodeId ≠ origin := by
  simp [fanOut]

/-- Targets are known by their ids. -/
theorem target_of_id {s : SyncState} {t t' : TargetRow} (ht : t ∈ s.targets.rows)
    (ht' : t' ∈ s.targets.rows) (h : t.targetId = t'.targetId) : t = t' := by
  have hget := (s.targets.mem_rows_iff t).mp ht
  have hget' := (s.targets.mem_rows_iff t').mp ht'
  rw [h] at hget
  exact Option.some.inj (hget.symm.trans hget')

/-- An append offers the event to the enabled targets; the disabled ones miss it. -/
theorem Offered.appended {s : SyncState} {missed : Set (String × ℕ)} (h : Offered s missed)
    (e : SyncEvent) : Offered (s.appended e) (missed ∪ missedBy s (s.appended e)) := by
  have hnext : (s.appended e).nextStreamSeq = s.nextStreamSeq + 1 := rfl
  have houtbox : (s.appended e).outbox = s.outbox ++ [⟨s.nextStreamSeq, e⟩] := rfl
  have htargets : (s.appended e).targets = s.targets := rfl
  have hkeys := s.deliveryKeys_appended e
  have hfresh : ∀ t : TargetRow, (t.targetId, s.nextStreamSeq) ∉ s.deliveryKeys := fun t hmem =>
    lt_irrefl _ (h.keys_known _ hmem).2
  have hfresh' : ∀ t : TargetRow, (t.targetId, s.nextStreamSeq) ∉ missed := fun t hmem =>
    lt_irrefl _ (h.missed_known _ hmem).2
  constructor
  · rw [houtbox, List.map_append, List.nodup_append]
    refine ⟨h.seqs_nodup, by simp, ?_⟩
    rintro a ha b hb rfl
    obtain ⟨r, hr, rfl⟩ := List.mem_map.mp ha
    rw [List.map_singleton, List.mem_singleton] at hb
    exact (h.seqs_lt r hr).ne hb
  · intro r hr
    rw [houtbox, List.mem_append, List.mem_singleton] at hr
    rcases hr with hr | rfl
    · have := h.seqs_lt r hr; omega
    · exact Nat.lt_succ_self _
  · rw [hkeys, List.nodup_append]
    refine ⟨h.keys_nodup, ?_, ?_⟩
    · have hids : ((s.fanOut e.originNodeId).map TargetRow.targetId).Nodup :=
        s.targets.nodup.sublist (List.filter_sublist.map _)
      have hpairs := hids.map (f := fun i => (i, s.nextStreamSeq))
        fun a b hab => (Prod.mk.inj hab).1
      rwa [List.map_map] at hpairs
    · rintro a ha b hb rfl
      obtain ⟨t, -, rfl⟩ := List.mem_map.mp hb
      exact hfresh t ha
  · intro k hk
    rw [hkeys, List.mem_append] at hk
    rcases hk with hk | hk
    · obtain ⟨hid, hlt⟩ := h.keys_known k hk
      exact ⟨hid, by omega⟩
    · obtain ⟨t, ht, rfl⟩ := List.mem_map.mp hk
      exact ⟨List.mem_map_of_mem (SyncState.mem_fanOut.mp ht).1, Nat.lt_succ_self _⟩
  · intro t ht
    obtain ⟨hremote, hlt⟩ := h.targets_ok t ht
    exact ⟨hremote, by omega⟩
  · have hfloor : (s.appended e).retentionFloor = s.retentionFloor := rfl
    have := h.floor_lt
    omega
  · rintro k (hk | ⟨⟨t, ht, -, hkt⟩, -, hlt⟩)
    · obtain ⟨hid, hlt⟩ := h.missed_known k hk
      exact ⟨hid, by omega⟩
    · exact ⟨hkt ▸ List.mem_map_of_mem ht, hlt⟩
  · intro t ht r hr hcon
    rw [houtbox, List.mem_append, List.mem_singleton] at hr
    rcases hr with hr | rfl
    · -- An event that was in the stream before.
      have hlt := h.seqs_lt r hr
      have hnot : (t.targetId, r.streamSeq) ∉ missedBy s (s.appended e) := fun hm =>
        absurd hm.2.1 (not_le.mpr hlt)
      have hnot' : (t.targetId, r.streamSeq) ∉
          (s.fanOut e.originNodeId).map fun t => (t.targetId, s.nextStreamSeq) := by
        intro hm
        obtain ⟨t', -, heq⟩ := List.mem_map.mp hm
        have := (Prod.mk.inj heq).2
        omega
      rw [hkeys, List.mem_append, or_iff_left hnot', h.offered t ht r hr hcon, Set.mem_union,
        or_iff_left hnot]
    · -- The event itself: offered to the target if it is enabled, and missed if it is not.
      rw [hkeys, List.mem_append, or_iff_right (hfresh t), Set.mem_union, or_iff_right (hfresh' t)]
      obtain ⟨hremote, -⟩ := h.targets_ok t ht
      constructor
      · intro hm
        obtain ⟨t', ht', heq⟩ := List.mem_map.mp hm
        obtain ⟨hmem', hen, -⟩ := SyncState.mem_fanOut.mp ht'
        have hsame : t' = t := target_of_id hmem' ht (Prod.mk.inj heq).1
        rintro ⟨⟨t₁, ht₁, hdis, hid⟩, -⟩
        have hsame₁ : t₁ = t := target_of_id ht₁ ht hid.symm
        rw [hsame₁, ← hsame, hen] at hdis
        exact absurd hdis (by simp)
      · intro hm
        have hen : t.enabled = true := by
          by_contra hdis
          exact hm ⟨⟨t, ht, by simpa using hdis, rfl⟩, le_rfl, Nat.lt_succ_self _⟩
        have hmem : t ∈ s.fanOut e.originNodeId :=
          SyncState.mem_fanOut.mpr ⟨ht, hen, by rw [hremote]; exact Ne.symm hcon.2⟩
        exact List.mem_map.mpr ⟨t, hmem, rfl⟩

/-! ## Arrivals -/

/-- A change outside the stream, the targets and the identities of the deliveries. -/
structure Quiet (s s' : SyncState) : Prop where
  outbox : s'.outbox = s.outbox
  next : s'.nextStreamSeq = s.nextStreamSeq
  targets : s'.targets = s.targets
  keys : s'.deliveryKeys = s.deliveryKeys
  floor : s'.retentionFloor = s.retentionFloor

/-- A state that is reached by appending events, with quiet changes between them. -/
inductive Appends (s : SyncState) : SyncState → Prop where
  | refl : Appends s s
  | quiet {s₁ s₂ : SyncState} : Appends s s₁ → Quiet s₁ s₂ → Appends s s₂
  | append {s₁ : SyncState} (e : SyncEvent) : Appends s s₁ → Appends s (s₁.appended e)

theorem Quiet.appends {s s' : SyncState} (h : Quiet s s') : Appends s s' := .quiet .refl h

/-- Appending changes no target and takes sequences in order. -/
theorem Appends.targets_next {s s' : SyncState} (h : Appends s s') :
    s'.targets = s.targets ∧ s.nextStreamSeq ≤ s'.nextStreamSeq := by
  induction h with
  | refl => exact ⟨rfl, le_rfl⟩
  | quiet _ hq ih => exact ⟨hq.targets.trans ih.1, ih.2.trans hq.next.ge⟩
  | append e _ ih => exact ⟨ih.1, ih.2.trans (Nat.le_succ _)⟩

/-- What is missed in two parts of a run between which no target changes. -/
theorem missedBy_trans {s s₁ s₂ : SyncState} (htargets : s₁.targets = s.targets)
    (hle : s.nextStreamSeq ≤ s₁.nextStreamSeq) (hle' : s₁.nextStreamSeq ≤ s₂.nextStreamSeq) :
    missedBy s s₁ ∪ missedBy s₁ s₂ = missedBy s s₂ := by
  ext p
  simp only [missedBy, htargets, Set.mem_union, Set.mem_ofPred_eq]
  constructor
  · rintro (⟨hp, hlo, hhi⟩ | ⟨hp, hlo, hhi⟩)
    · exact ⟨hp, hlo, by omega⟩
    · exact ⟨hp, by omega, hhi⟩
  · rintro ⟨hp, hlo, hhi⟩
    by_cases hmid : p.2 < s₁.nextStreamSeq
    · exact Or.inl ⟨hp, hlo, hmid⟩
    · exact Or.inr ⟨hp, by omega, hhi⟩

/-- Arrivals keep the invariant, and the disabled targets miss what arrives. -/
theorem Offered.appends {s s' : SyncState} {missed : Set (String × ℕ)} (h : Offered s missed)
    (happ : Appends s s') : Offered s' (missed ∪ missedBy s s') := by
  induction happ with
  | refl => rwa [missedBy_of_next_eq rfl, Set.union_empty]
  | @quiet s₁ s₂ happ hq ih =>
    have hsame : missedBy s s₂ = missedBy s s₁ := by
      unfold missedBy
      rw [hq.next]
    rw [hsame]
    exact ih.congr hq.outbox hq.next hq.targets hq.keys hq.floor
  | @append s₁ e happ ih =>
    obtain ⟨htargets, hle⟩ := happ.targets_next
    have hstep : s₁.nextStreamSeq ≤ (s₁.appended e).nextStreamSeq := Nat.le_succ _
    rw [← missedBy_trans htargets hle hstep, ← Set.union_assoc]
    exact ih.appended e

/-- A state that is reached by appending events, with changes of the tenant and of what is known of
other streams between them. -/
inductive Arrives (s : SyncState) : SyncState → Prop where
  | refl : Arrives s s
  | aside {s₁ : SyncState} (tenant : Option String) (inbox : List InboxRow)
      (batches : List BatchRow) (inbound : List CursorRow) : Arrives s s₁ →
    Arrives s { s₁ with
      tenantBinding := tenant
      inbox := inbox
      batches := batches
      inboundCursors := inbound }
  | append {s₁ : SyncState} (e : SyncEvent) : Arrives s s₁ → Arrives s (s₁.appended e)

theorem Arrives.trans {s s₁ s₂ : SyncState} (h : Arrives s s₁) (h' : Arrives s₁ s₂) :
    Arrives s s₂ := by
  induction h' with
  | refl => exact h
  | aside tenant inbox batches inbound _ ih => exact ih.aside tenant inbox batches inbound
  | append e _ ih => exact ih.append e

/-- What arrives is appended. -/
theorem Arrives.appends {s s' : SyncState} (h : Arrives s s') : Appends s s' := by
  induction h with
  | refl => exact .refl
  | aside _ _ _ _ _ ih => exact ih.quiet ⟨rfl, rfl, rfl, rfl, rfl⟩
  | append e _ ih => exact ih.append e

/-- A successful append. -/
theorem appendEvent_arrives {s s' : SyncState} {cfg : SyncConfig} {e : SyncEvent} {seq : ℕ}
    (h : s.appendEvent cfg e = .ok (s', seq)) : Arrives s s' := by
  obtain ⟨rfl, -, -, -⟩ := SyncState.appendEvent_ok h
  exact (Arrives.refl.append e).aside _ _ _ _

/-- A captured event. -/
theorem captureLocalEvent_arrives {s s' : SyncState} {cfg : SyncConfig} {e : SyncEvent}
    (h : s.captureLocalEvent cfg e = .ok s') : Arrives s s' := by
  unfold SyncState.captureLocalEvent at h
  split_ifs at h
  · rw [← Except.ok.inj h]
    exact .refl
  · cases happ : s.appendEvent cfg e with
    | error err => rw [happ] at h; exact absurd h (by simp [Except.map])
    | ok r =>
      rw [happ] at h
      rw [← Except.ok.inj h]
      exact appendEvent_arrives happ

/-- One round of the loop over a delivery. -/
theorem applyEvent_arrives {cfg : SyncConfig} {env : Env} {clock : SyncEvent → String}
    {st st' : ApplyState} {e : SyncEvent} (h : st.applyEvent cfg env clock e = .ok st') :
    Arrives st.store.sync st'.store.sync := by
  have haccept : st.accept cfg env (clock e) e = .ok st' →
      Arrives st.store.sync st'.store.sync := by
    intro hacc
    simp only [ApplyState.accept, Except.bind_ok] at hacc
    obtain ⟨⟨b', ts'⟩, -, ⟨sync', seq⟩, happend, heq⟩ := hacc
    rw [← Except.ok.inj heq]
    exact (appendEvent_arrives happend).aside _ _ _ _
  unfold ApplyState.applyEvent at h
  split at h
  · rw [← Except.ok.inj h]
    exact .refl
  · split at h
    · split_ifs at h
      · rw [← Except.ok.inj h]
        exact Arrives.refl.aside _ _ _ _
      · exact haccept h
    · exact haccept h

/-- The loop over a delivery. -/
theorem applyEvents_arrives {cfg : SyncConfig} {env : Env} {clock : SyncEvent → String}
    {events : List SyncEvent} {st st' : ApplyState}
    (h : events.foldlM (ApplyState.applyEvent cfg env clock) st = .ok st') :
    Arrives st.store.sync st'.store.sync := by
  induction events generalizing st with
  | nil =>
    rw [← Except.ok.inj h]
    exact .refl
  | cons e events ih =>
    rw [List.foldlM_cons] at h
    obtain ⟨st₁, hstep, hrest⟩ := Except.bind_ok.mp h
    exact (applyEvent_arrives hstep).trans (ih hrest)

theorem syncApplyBatch_arrives {cfg : SyncConfig} {env : Env} {sha256 : ByteArray → String}
    {now : Instant} {clock : SyncEvent → String} {s s' : LiteStore} {b : SyncBatch}
    {result : SyncBatchResult}
    (h : syncApplyBatch cfg env sha256 now clock s b = .ok (s', result)) :
    Arrives s.sync s'.sync := by
  obtain ⟨sync, hbind, hrest⟩ := Except.bind_ok.mp h
  obtain ⟨rfl, -⟩ := SyncState.bindTenant_ok hbind
  have hbound : Arrives s.sync { s.sync with tenantBinding := some b.tenantId } :=
    Arrives.refl.aside _ _ _ _
  split at hrest
  · obtain ⟨-, -, heq⟩ := Except.bind_ok.mp hrest
    cases Except.ok.inj heq
    exact hbound
  · obtain ⟨st, happly, heq⟩ := Except.bind_ok.mp hrest
    cases Except.ok.inj heq
    exact (hbound.trans (applyEvents_arrives happly)).aside _ _ _ _

theorem syncApplyPage_arrives {cfg : SyncConfig} {env : Env} {now : Instant}
    {clock : SyncEvent → String} {s s' : LiteStore} {remoteId : String} {p : SyncPage}
    {result : SyncApplyResult}
    (h : syncApplyPage cfg env now clock s remoteId p = .ok (s', result)) :
    Arrives s.sync s'.sync := by
  obtain ⟨-, -, h⟩ := Except.bind_ok.mp h
  obtain ⟨-, -, h⟩ := Except.bind_ok.mp h
  obtain ⟨events, -, h⟩ := Except.bind_ok.mp h
  obtain ⟨sync, hbind, h⟩ := Except.bind_ok.mp h
  obtain ⟨tenant, rfl⟩ := bindPageTenant_congr hbind
  have hbound : Arrives s.sync { s.sync with tenantBinding := tenant } :=
    Arrives.refl.aside _ _ _ _
  obtain ⟨-, -, h⟩ := Except.bind_ok.mp h
  obtain ⟨-, -, h⟩ := Except.bind_ok.mp h
  split_ifs at h
  · cases Except.ok.inj h
    exact hbound
  · obtain ⟨st, happly, heq⟩ := Except.bind_ok.mp h
    cases Except.ok.inj heq
    exact (hbound.trans (applyEvents_arrives happly)).aside _ _ _ _

theorem deliver_arrives {cfg : SyncConfig} {env : Env} {sha256 : ByteArray → String}
    {s s' : LiteStore} {d : Delivery} (h : Memplex.deliver cfg env sha256 s d = .ok s') :
    Arrives s.sync s'.sync := by
  unfold Memplex.deliver at h
  split at h
  · obtain ⟨⟨s₁, result⟩, hrun, rfl⟩ := Except.map_ok h
    exact syncApplyBatch_arrives hrun
  · obtain ⟨⟨s₁, result⟩, hrun, rfl⟩ := Except.map_ok h
    exact syncApplyPage_arrives hrun

/-! ## Targets -/

/-- A new target is offered what is retained, or begins after it. -/
theorem registerTarget_offered {s s' : SyncState} {cfg : SyncConfig} {now : Instant}
    {targetId : String} {bootstrap : SyncState.Bootstrap} {missed : Set (String × ℕ)}
    (hoff : Offered s missed) (h : s.registerTarget cfg now targetId bootstrap = .ok s') :
    Offered s' missed ∧ s'.nextStreamSeq = s.nextStreamSeq := by
  obtain ⟨-, -, h⟩ := Except.bind_ok.mp h
  obtain ⟨-, -, h⟩ := Except.bind_ok.mp h
  split at h
  · rw [← Except.ok.inj h]
    exact ⟨hoff, rfl⟩
  next hnone =>
    obtain ⟨-, -, heq⟩ := Except.bind_ok.mp h
    set seq := s.bootstrapSeq bootstrap with hseq
    set t₀ : TargetRow := ⟨targetId, targetId, seq, true⟩ with ht₀
    set retained := s.retainedFor targetId bootstrap seq with hretained
    have hs' := (Except.ok.inj heq).symm
    have hid₀ : t₀.targetId = targetId := rfl
    have hnew : ∀ t ∈ s.targets.rows, t.targetId ≠ targetId := findRow_eq_none.mp hnone
    have hunknown : targetId ∉ s.targets.rows.map TargetRow.targetId := fun hmem => by
      obtain ⟨t, ht, hid⟩ := List.mem_map.mp hmem
      exact hnew t ht hid
    have hpos : 0 < s.nextStreamSeq := Nat.zero_lt_of_lt hoff.floor_lt
    have hseq_lt : seq < s.nextStreamSeq := by
      rw [hseq]
      cases bootstrap with
      | future => exact Nat.sub_one_lt hpos.ne'
      | retained => exact hoff.floor_lt
    have hkeys : s'.deliveryKeys = s.deliveryKeys ++ retained.map fun r => (targetId, r.streamSeq) := by
      rw [hs', SyncState.deliveryKeys, List.map_append, List.map_map]
      rfl
    have hmem : ∀ t, t ∈ s'.targets.rows ↔ t = t₀ ∨ t ∈ s.targets.rows := by
      intro t
      rw [hs']
      show t ∈ upsertRow TargetRow.targetId t₀ s.targets.rows ↔ _
      rw [mem_upsertRow]
      exact or_congr Iff.rfl ⟨fun h => h.1, fun h => ⟨h, hnew t h⟩⟩
    have hids : ∀ i, i ∈ s.targets.rows.map TargetRow.targetId →
        i ∈ s'.targets.rows.map TargetRow.targetId := fun i hi => by
      obtain ⟨t, ht, rfl⟩ := List.mem_map.mp hi
      exact List.mem_map_of_mem ((hmem t).mpr (Or.inr ht))
    have houtbox : s'.outbox = s.outbox := by rw [hs']
    have hnext : s'.nextStreamSeq = s.nextStreamSeq := by rw [hs']
    have hfloor : s'.retentionFloor = s.retentionFloor := by rw [hs']
    have hmem_retained : ∀ r, r ∈ retained ↔ r ∈ s.outbox ∧ bootstrap = .retained ∧
        seq ≤ r.streamSeq ∧ r.event.originNodeId ≠ targetId := by
      intro r
      simp [hretained, SyncState.retainedFor]
    refine ⟨?_, hnext⟩
    constructor
    · rw [houtbox]; exact hoff.seqs_nodup
    · rw [houtbox, hnext]; exact hoff.seqs_lt
    · rw [hkeys, List.nodup_append]
      refine ⟨hoff.keys_nodup, ?_, ?_⟩
      · have hseqs : (retained.map OutboxRow.streamSeq).Nodup :=
          hoff.seqs_nodup.sublist (List.filter_sublist.map _)
        have hpairs := hseqs.map (f := fun i => (targetId, i)) fun a b hab => (Prod.mk.inj hab).2
        rwa [List.map_map] at hpairs
      · rintro a ha b hb rfl
        obtain ⟨r, -, rfl⟩ := List.mem_map.mp hb
        exact hunknown (hoff.keys_known _ ha).1
    · intro k hk
      rw [hkeys, List.mem_append] at hk
      rw [hnext]
      rcases hk with hk | hk
      · exact ⟨hids _ (hoff.keys_known k hk).1, (hoff.keys_known k hk).2⟩
      · obtain ⟨r, hr, rfl⟩ := List.mem_map.mp hk
        exact ⟨List.mem_map_of_mem (f := TargetRow.targetId) ((hmem t₀).mpr (Or.inl rfl)),
          hoff.seqs_lt r ((hmem_retained r).mp hr).1⟩
    · intro t ht
      rw [hnext]
      rcases (hmem t).mp ht with rfl | ht
      · exact ⟨rfl, hseq_lt⟩
      · exact hoff.targets_ok t ht
    · rw [hfloor, hnext]; exact hoff.floor_lt
    · intro k hk
      rw [hnext]
      exact ⟨hids _ (hoff.missed_known k hk).1, (hoff.missed_known k hk).2⟩
    · intro t ht r hr hcon
      rw [houtbox] at hr
      rw [hkeys, List.mem_append]
      rcases (hmem t).mp ht with rfl | ht
      · -- The new target: it has missed nothing, and is offered all that is retained.
        have hnot : (t₀.targetId, r.streamSeq) ∉ missed := fun hm =>
          hunknown (hoff.missed_known _ hm).1
        refine iff_of_true (Or.inr ?_) hnot
        have hboot : bootstrap = .retained := by
          cases hb : bootstrap with
          | retained => rfl
          | future =>
            have hlt := hoff.seqs_lt r hr
            have hcon₁ : seq < r.streamSeq := hcon.1
            have hfuture : seq = s.nextStreamSeq - 1 := by rw [hseq, hb]; rfl
            omega
        exact List.mem_map.mpr ⟨r, (hmem_retained r).mpr ⟨hr, hboot, hcon.1.le, hcon.2⟩, rfl⟩
      · rw [← hoff.offered t ht r hr hcon]
        refine or_iff_left fun hm => ?_
        obtain ⟨r', -, heq⟩ := List.mem_map.mp hm
        exact hnew t ht (Prod.mk.inj heq).1.symm

/-- Switching a target on or off leaves what it is to be offered and what it missed. -/
theorem setTargetEnabled_offered {s s' : SyncState} {targetId : String} {enabled : Bool}
    {missed : Set (String × ℕ)} (hoff : Offered s missed)
    (h : s.setTargetEnabled targetId enabled = .ok s') :
    Offered s' missed ∧ s'.nextStreamSeq = s.nextStreamSeq := by
  obtain ⟨-, -, h⟩ := Except.bind_ok.mp h
  split at h
  · exact absurd h (by simp)
  next target hsome =>
    have hs' := (Except.ok.inj h).symm
    obtain ⟨htarget, hid⟩ := findRow_some hsome
    have hids : s'.targets.rows.map TargetRow.targetId = s.targets.rows.map TargetRow.targetId := by
      rw [hs']
      exact map_key_upsertRow_of_mem ⟨target, htarget, rfl⟩
    -- Every target of the new state is one of the old, but for its flag.
    have hold : ∀ t ∈ s'.targets.rows, ∃ t₁ ∈ s.targets.rows, t₁.targetId = t.targetId ∧
        t₁.remoteNodeId = t.remoteNodeId ∧ t₁.bootstrapSeq = t.bootstrapSeq := by
      intro t ht
      rw [hs'] at ht
      rcases mem_upsertRow.mp ht with rfl | ⟨ht, -⟩
      · exact ⟨target, htarget, rfl, rfl, rfl⟩
      · exact ⟨t, ht, rfl, rfl, rfl⟩
    have houtbox : s'.outbox = s.outbox := by rw [hs']
    have hnext : s'.nextStreamSeq = s.nextStreamSeq := by rw [hs']
    have hfloor : s'.retentionFloor = s.retentionFloor := by rw [hs']
    have hkeys : s'.deliveryKeys = s.deliveryKeys := by rw [hs']; rfl
    refine ⟨?_, hnext⟩
    constructor
    · rw [houtbox]; exact hoff.seqs_nodup
    · rw [houtbox, hnext]; exact hoff.seqs_lt
    · rw [hkeys]; exact hoff.keys_nodup
    · rw [hkeys, hids, hnext]; exact hoff.keys_known
    · intro t ht
      obtain ⟨t₁, ht₁, hid₁, hremote, hboot⟩ := hold t ht
      rw [hnext, ← hid₁, ← hremote, ← hboot]
      exact hoff.targets_ok t₁ ht₁
    · rw [hfloor, hnext]; exact hoff.floor_lt
    · rw [hids, hnext]; exact hoff.missed_known
    · intro t ht r hr hcon
      obtain ⟨t₁, ht₁, hid₁, -, hboot⟩ := hold t ht
      rw [houtbox] at hr
      have hcon₁ : Concerns t₁ r := ⟨hboot.symm ▸ hcon.1, hid₁.symm ▸ hcon.2⟩
      rw [hkeys, ← hid₁]
      exact hoff.offered t₁ ht₁ r hr hcon₁

/-! ## Deliveries -/

/-- Changes of delivery rows that keep their identities are quiet. -/
theorem quiet_of_map {s : SyncState} {f : DeliveryRow → DeliveryRow}
    (hf : ∀ d, (f d).key = d.key) : Quiet s { s with deliveries := s.deliveries.map f } where
  outbox := rfl
  next := rfl
  targets := rfl
  keys := by
    rw [SyncState.deliveryKeys, SyncState.deliveryKeys, List.map_map]
    exact List.map_congr_left fun d _ => hf d
  floor := rfl

theorem Quiet.trans {s s₁ s₂ : SyncState} (h : Quiet s s₁) (h' : Quiet s₁ s₂) : Quiet s s₂ :=
  ⟨h'.outbox.trans h.outbox, h'.next.trans h.next, h'.targets.trans h.targets,
    h'.keys.trans h.keys, h'.floor.trans h.floor⟩

theorem Quiet.refl (s : SyncState) : Quiet s s := ⟨rfl, rfl, rfl, rfl, rfl⟩

theorem updateDelivery_quiet (s : SyncState) (key : String × ℕ) {f : DeliveryRow → DeliveryRow}
    (hf : ∀ d, (f d).key = d.key) : Quiet s (s.updateDelivery key f) :=
  quiet_of_map fun d => by
    split_ifs
    · exact hf d
    · rfl

theorem expireLease_key (cfg : SyncConfig) (targetId : String) (now : Instant) (d : DeliveryRow) :
    (SyncState.expireLease cfg targetId now d).key = d.key := by
  unfold SyncState.expireLease
  split_ifs <;> rfl

theorem lease_key (taken : List DeliveryRow) (leaseId : ℕ → String) (leaseUntil : Instant)
    (d : DeliveryRow) : (SyncState.lease taken leaseId leaseUntil d).key = d.key := by
  unfold SyncState.lease
  split <;> rfl

theorem failed_key (cfg : SyncConfig) (errorCode : String) (now : Instant) (d : DeliveryRow) :
    (SyncState.failed cfg errorCode now d).key = d.key := by
  unfold SyncState.failed
  split_ifs <;> rfl

theorem claim_quiet {s s' : SyncState} {cfg : SyncConfig} {now : Instant} {leaseId : ℕ → String}
    {targetId : String} {limit leaseSeconds : ℕ} {handed : List SyncDelivery}
    (h : s.claim cfg now leaseId targetId limit leaseSeconds = .ok (s', handed)) : Quiet s s' := by
  obtain ⟨-, -, h⟩ := Except.bind_ok.mp h
  obtain ⟨-, -, h⟩ := Except.bind_ok.mp h
  obtain ⟨-, -, h⟩ := Except.bind_ok.mp h
  split at h
  · cases Except.ok.inj h
    exact .refl s
  · split_ifs at h
    · cases Except.ok.inj h
      exact (quiet_of_map (expireLease_key cfg targetId now)).trans (quiet_of_map (lease_key _ _ _))
    · cases Except.ok.inj h
      exact .refl s

theorem ackRow_quiet (s : SyncState) (delivery : SyncDelivery) : Quiet s (s.ackRow delivery) := by
  unfold SyncState.ackRow
  split
  · exact .refl s
  · split_ifs
    · exact .refl s
    · exact updateDelivery_quiet s _ fun _ => rfl

theorem foldl_ackRow_quiet (s : SyncState) (deliveries : List SyncDelivery) :
    Quiet s (deliveries.foldl SyncState.ackRow s) := by
  induction deliveries generalizing s with
  | nil => exact .refl s
  | cons d ds ih => exact (ackRow_quiet s d).trans (ih _)

theorem ackBatch_quiet {s s' : SyncState} {now : Instant} {deliveries : List SyncDelivery}
    {receipts : List SyncReceipt} (h : s.ackBatch now deliveries receipts = .ok s') :
    Quiet s s' := by
  obtain ⟨-, -, h⟩ := Except.bind_ok.mp h
  obtain ⟨-, -, h⟩ := Except.bind_ok.mp h
  obtain ⟨-, -, h⟩ := Except.bind_ok.mp h
  rw [← Except.ok.inj h]
  exact foldl_ackRow_quiet s deliveries

theorem endLease_quiet {s s' : SyncState} {clock : Instant} {delivery : SyncDelivery}
    {errorCode : String} {f : DeliveryRow → DeliveryRow} (hf : ∀ d, (f d).key = d.key)
    (h : s.endLease clock delivery errorCode f = .ok s') : Quiet s s' := by
  obtain ⟨-, -, h⟩ := Except.bind_ok.mp h
  split at h
  · rw [← Except.ok.inj h]
    exact .refl s
  · obtain ⟨-, -, h⟩ := Except.bind_ok.mp h
    rw [← Except.ok.inj h]
    exact updateDelivery_quiet s _ hf

theorem replayDeadLetter_quiet {s s' : SyncState} {now : Instant} {targetId eventId : String}
    {found : Bool} (h : s.replayDeadLetter now targetId eventId = .ok (s', found)) : Quiet s s' := by
  obtain ⟨-, -, h⟩ := Except.bind_ok.mp h
  obtain ⟨-, -, h⟩ := Except.bind_ok.mp h
  split at h
  · cases Except.ok.inj h
    exact .refl s
  · cases Except.ok.inj h
    exact updateDelivery_quiet s _ fun _ => rfl

theorem acknowledge_quiet (s : SyncState) (remoteId : String) (after : ℕ) :
    Quiet s (s.acknowledge remoteId after) :=
  quiet_of_map fun d => by
    split_ifs
    · rfl
    · rfl

theorem page_quiet {s s' : SyncState} {now : Instant} {remoteId consumerId : String}
    {cursor : Option SyncCursorClaims} {limit : ℕ} {p : SyncPage}
    (h : s.page now remoteId consumerId cursor limit = .ok (s', p)) : Quiet s s' := by
  obtain ⟨-, -, h⟩ := Except.bind_ok.mp h
  obtain ⟨-, -, h⟩ := Except.bind_ok.mp h
  obtain ⟨-, -, h⟩ := Except.bind_ok.mp h
  obtain ⟨-, -, h⟩ := Except.bind_ok.mp h
  obtain ⟨-, -, h⟩ := Except.bind_ok.mp h
  obtain ⟨_, -, heq⟩ := Except.bind_ok.mp h
  cases Except.ok.inj heq
  have hrecord : ∀ s₁ : SyncState, ∀ after, Quiet s₁ (s₁.recordCursor now remoteId consumerId after) :=
    fun _ _ => ⟨rfl, rfl, rfl, rfl, rfl⟩
  split_ifs
  · exact (acknowledge_quiet s _ _).trans (hrecord _ _)
  · exact hrecord _ _

/-! ## Compaction -/

/-- A compaction drops sequences of the stream. -/
theorem mem_compactable {s : SyncState} {cfg : SyncConfig} {now : Instant} {limit q : ℕ}
    (h : q ∈ s.compactable cfg now limit) : q ∈ s.outbox.map OutboxRow.streamSeq := by
  obtain ⟨r, hr, rfl⟩ := List.mem_map.mp h
  have hr₁ := (List.takeWhile_subset _) (List.mem_of_mem_take hr)
  exact List.mem_map_of_mem (List.mem_of_mem_filter hr₁)

/-- Dropping events drops their deliveries, and no others. -/
theorem dropEvents_offered {s : SyncState} {missed : Set (String × ℕ)} {selected : List ℕ}
    (hoff : Offered s missed) (hsel : ∀ q ∈ selected, q ∈ s.outbox.map OutboxRow.streamSeq) :
    Offered (s.dropEvents selected) missed ∧
      (s.dropEvents selected).nextStreamSeq = s.nextStreamSeq := by
  unfold SyncState.dropEvents
  split
  · exact ⟨hoff, rfl⟩
  next through hlast =>
    have hthrough : through < s.nextStreamSeq := by
      obtain ⟨r, hr, hrq⟩ := List.mem_map.mp (hsel through (List.mem_of_getLast? hlast))
      exact hrq ▸ hoff.seqs_lt r hr
    have hkeys : (s.deliveries.filter fun d => d.streamSeq ∉ selected).map DeliveryRow.key =
        s.deliveryKeys.filter fun k => k.2 ∉ selected := by
      rw [SyncState.deliveryKeys, List.filter_map]
      rfl
    refine ⟨?_, rfl⟩
    constructor
    · exact hoff.seqs_nodup.sublist (List.filter_sublist.map _)
    · exact fun r hr => hoff.seqs_lt r (List.mem_of_mem_filter hr)
    · exact hoff.keys_nodup.sublist (List.filter_sublist.map _)
    · exact fun k hk => hoff.keys_known k ((List.filter_sublist.map _).subset hk)
    · exact hoff.targets_ok
    · exact hthrough
    · exact hoff.missed_known
    · intro t ht r hr hcon
      obtain ⟨hr, hkept⟩ := List.mem_filter.mp hr
      rw [← hoff.offered t ht r hr hcon]
      show _ ∈ (s.deliveries.filter fun d => d.streamSeq ∉ selected).map DeliveryRow.key ↔ _
      rw [hkeys, List.mem_filter]
      exact and_iff_left hkept

theorem compact_offered {s s' : SyncState} {cfg : SyncConfig} {now : Instant} {limit n : ℕ}
    {missed : Set (String × ℕ)} (hoff : Offered s missed)
    (h : s.compact cfg now limit = .ok (s', n)) :
    Offered s' missed ∧ s'.nextStreamSeq = s.nextStreamSeq := by
  obtain ⟨-, -, heq⟩ := Except.bind_ok.mp h
  cases Except.ok.inj heq
  have hquiet : Offered ((s.cleanupExpiredSnapshots now).forgetConsumers cfg now) missed :=
    hoff.congr rfl rfl rfl rfl rfl
  exact dropEvents_offered hquiet fun q hq => mem_compactable hq

/-! ## Runs -/

theorem Offered.quiet {s s' : SyncState} {missed : Set (String × ℕ)} (h : Offered s missed)
    (hq : Quiet s s') : Offered s' (missed ∪ missedBy s s') :=
  h.appends hq.appends

theorem Offered.still {s s' : SyncState} {missed : Set (String × ℕ)}
    (h : Offered s' missed ∧ s'.nextStreamSeq = s.nextStreamSeq) :
    Offered s' (missed ∪ missedBy s s') := by
  rw [missedBy_of_next_eq h.2, Set.union_empty]
  exact h.1

/-- The step: what a run has missed grows by what the operation makes the disabled targets miss. -/
theorem step_offered (cfg : SyncConfig) (env : Env) (sha256 : ByteArray → String) {s : LiteStore}
    {missed : Set (String × ℕ)} (h : Offered s.sync missed) (op : SyncOp) :
    Offered (op.step cfg env sha256 s).sync
      (missed ∪ missedBy s.sync (op.step cfg env sha256 s).sync) := by
  unfold SyncOp.step
  split
  next s' happly =>
    cases op with
    | capture business event =>
      obtain ⟨sync, hrun, rfl⟩ := Except.map_ok happly
      exact h.appends (captureLocalEvent_arrives hrun).appends
    | deliver d => exact h.appends (deliver_arrives happly).appends
    | registerTarget now targetId bootstrap =>
      obtain ⟨sync, hrun, rfl⟩ := Except.map_ok happly
      exact .still (registerTarget_offered h hrun)
    | setTargetEnabled targetId enabled =>
      obtain ⟨sync, hrun, rfl⟩ := Except.map_ok happly
      exact .still (setTargetEnabled_offered h hrun)
    | claim now leaseId targetId limit leaseSeconds =>
      obtain ⟨⟨sync, handed⟩, hrun, rfl⟩ := Except.map_ok happly
      exact h.quiet (claim_quiet hrun)
    | ackBatch now deliveries receipts =>
      obtain ⟨sync, hrun, rfl⟩ := Except.map_ok happly
      exact h.quiet (ackBatch_quiet hrun)
    | fail clock delivery errorCode now =>
      obtain ⟨sync, hrun, rfl⟩ := Except.map_ok happly
      exact h.quiet (endLease_quiet (failed_key cfg errorCode now) hrun)
    | deadLetter clock delivery errorCode now =>
      obtain ⟨sync, hrun, rfl⟩ := Except.map_ok happly
      exact h.quiet (endLease_quiet (f := SyncState.deadLettered errorCode now) (fun _ => rfl) hrun)
    | replayDeadLetter now targetId eventId =>
      obtain ⟨⟨sync, found⟩, hrun, rfl⟩ := Except.map_ok happly
      exact h.quiet (replayDeadLetter_quiet hrun)
    | page now remoteId consumerId cursor limit =>
      obtain ⟨⟨sync, p⟩, hrun, rfl⟩ := Except.map_ok happly
      exact h.quiet (page_quiet hrun)
    | compact now limit =>
      obtain ⟨⟨sync, n⟩, hrun, rfl⟩ := Except.map_ok happly
      exact .still (compact_offered h hrun)
  · exact h.quiet (.refl _)

theorem offered_empty : Offered .empty ∅ where
  seqs_nodup := List.nodup_nil
  seqs_lt := by simp [SyncState.empty]
  keys_nodup := List.nodup_nil
  keys_known := by simp [SyncState.deliveryKeys, SyncState.empty]
  targets_ok := by simp [SyncState.empty, Table.empty]
  floor_lt := by decide
  missed_known := by simp
  offered := by simp [SyncState.empty, Table.empty]

/-- The run: a store in which everything but `missed` was offered has offered everything but
`missed` and what the run missed. -/
theorem runOps_offered (cfg : SyncConfig) (env : Env) (sha256 : ByteArray → String)
    (ops : List SyncOp) {s : LiteStore} {missed : Set (String × ℕ)} (h : Offered s.sync missed) :
    Offered (runOps cfg env sha256 s ops).sync (missed ∪ missedIn cfg env sha256 s ops) := by
  induction ops generalizing s missed with
  | nil => rwa [missedIn, Set.union_empty]
  | cons op ops ih =>
    have hstep := step_offered cfg env sha256 h op
    rw [missedIn, ← Set.union_assoc]
    exact ih hstep

/-- A store that a run reaches is complete exactly when none of the events that it retains was
appended while a target was disabled that it concerns and that is enabled now. -/
theorem fanOut_complete_iff (cfg : SyncConfig) (env : Env) (sha256 : ByteArray → String)
    (ops : List SyncOp) :
    FanOutComplete (runOps cfg env sha256 .empty ops).sync ↔
      ∀ t ∈ (runOps cfg env sha256 .empty ops).sync.targets.rows, t.enabled = true →
        ∀ r ∈ (runOps cfg env sha256 .empty ops).sync.outbox, Concerns t r →
          (t.targetId, r.streamSeq) ∉ missedIn cfg env sha256 .empty ops := by
  have hempty : Offered LiteStore.empty.sync ∅ := offered_empty
  have h := runOps_offered cfg env sha256 ops hempty
  rw [Set.empty_union] at h
  exact h.complete_iff

instance (t : TargetRow) (r : OutboxRow) : Decidable (Concerns t r) := by
  unfold Concerns; infer_instance

instance (s : SyncState) : Decidable (FanOutComplete s) := by
  unfold FanOutComplete; infer_instance

/-- A target is disabled, an event arrives, and the target is enabled again. -/
def sampleToggle : List SyncOp :=
  [.registerTarget 0 "q" .future, .setTargetEnabled "q" false,
    .deliver (samplePageDelivery "peer" (samplePage sampleFactA) "2024"),
    .setTargetEnabled "q" true]

/-- What is appended while a target is disabled is never offered to it. -/
theorem disabled_target_misses :
    ¬ FanOutComplete
      (runOps (sampleConfig "local") sampleEnv (fun _ => "") .empty sampleToggle).sync := by
  decide +kernel

end Memplex
