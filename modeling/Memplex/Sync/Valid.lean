import Memplex.Sync.Bootstrap
import Memplex.Sync.Leases
import Memplex.Lite.Validation

/-!
# The operations and the validator

Every operation of a store ends in a commit, which the validator of the sync state must accept. Each
section says of one kind of change that it leads from valid states to valid ones, and under what
condition where there is one.
-/

namespace Memplex

open Lib

namespace SyncState

variable {s : SyncState}

/-! ## The tenant and the stream -/

/-- A state that is bound to the tenant that it has, if it has one. -/
theorem Valid.bind (h : s.Valid) {tenantId : String} (hne : tenantId ≠ "")
    (hsame : ∀ current ∈ s.tenantBinding, current = tenantId) :
    Valid { s with tenantBinding := some tenantId } :=
  have hkeep : ∀ t, s.tenantBinding = some t → some tenantId = some t := fun t ht => by
    rw [hsame t ht]
  { h with
    tenant := fun hempty => hne (Option.some.inj hempty)
    outbox_tenant := fun r hr => hkeep _ (h.outbox_tenant r hr)
    items := fun i hi => ⟨(h.items i hi).1, hkeep _ (h.items i hi).2⟩ }

theorem Valid.bindTenant (h : s.Valid) {s' : SyncState} {tenantId : String} (hne : tenantId ≠ "")
    (hbind : s.bindTenant tenantId = .ok s') : s'.Valid := by
  obtain ⟨rfl, hsame⟩ := bindTenant_ok hbind
  exact h.bind hne hsame

/-- The sequences of the outbox are those above the retention floor that were taken. -/
theorem Valid.mem_seqs (h : s.Valid) {q : ℕ} :
    q ∈ s.outbox.map OutboxRow.streamSeq ↔ s.retentionFloor < q ∧ q < s.nextStreamSeq := by
  rw [h.seqs, List.mem_range'_1]
  omega

theorem leaseOk_fresh (targetId : String) (streamSeq : ℕ) (now : Instant) :
    LeaseOk (.fresh targetId streamSeq now) := by
  simp [LeaseOk, DeliveryRow.fresh]

/-- An event of the bound tenant is appended. -/
theorem Valid.appended (h : s.Valid) (hfloor : s.retentionFloor < s.nextStreamSeq) {e : SyncEvent}
    (htenant : s.tenantBinding = some e.scope.tenantId)
    (hfresh : ∀ r ∈ s.outbox, r.event.eventId ≠ e.eventId) : (s.appended e).Valid := by
  have hseqs : (s.appended e).outbox.map OutboxRow.streamSeq =
      s.outbox.map OutboxRow.streamSeq ++ [s.nextStreamSeq] := List.map_append ..
  have hnext : (s.appended e).nextStreamSeq = s.nextStreamSeq + 1 := rfl
  have hmem : ∀ {r}, r ∈ (s.appended e).outbox → r ∈ s.outbox ∨ r = ⟨s.nextStreamSeq, e⟩ :=
    fun hr => (List.mem_append.mp hr).imp_right List.mem_singleton.mp
  have hrows : ∀ {d}, d ∈ (s.appended e).deliveries → d ∈ s.deliveries ∨
      ∃ t ∈ s.fanOut e.originNodeId,
        .fresh t.targetId s.nextStreamSeq e.version.occurredAt.micros = d :=
    fun hd => (List.mem_append.mp hd).imp_right List.mem_map.mp
  -- The sequence of the event was not taken, so no delivery is one of it.
  have hnew : ∀ d ∈ s.deliveries, d.streamSeq ≠ s.nextStreamSeq := fun d hd => by
    have hlt := (h.mem_seqs.mp (h.delivery_seq d hd)).2
    omega
  exact { h with
    next_pos := Nat.le_add_left 1 _
    seqs := by
      have hfloor' : (s.appended e).retentionFloor = s.retentionFloor := rfl
      rw [hseqs, h.seqs, hnext, hfloor', show s.nextStreamSeq + 1 - (s.retentionFloor + 1) =
        s.nextStreamSeq - (s.retentionFloor + 1) + 1 by omega, List.range'_concat]
      congr 2
      omega
    outbox_tenant := fun r hr => by
      rcases hmem hr with hr | rfl
      · exact h.outbox_tenant r hr
      · exact htenant
    events := by
      have hmap : (s.appended e).outbox.map (fun r => r.event.eventId) =
          s.outbox.map (fun r => r.event.eventId) ++ [e.eventId] := List.map_append ..
      rw [hmap, List.nodup_append]
      refine ⟨h.events, List.nodup_singleton _, ?_⟩
      rintro i hi j hj rfl
      obtain ⟨r, hr, hid⟩ := List.mem_map.mp hi
      exact hfresh r hr (hid.trans (List.mem_singleton.mp hj))
    versions := fun r hr => by
      rcases mem_upsertRow.mp hr with rfl | ⟨hr, -⟩
      · exact ⟨e.kind_agrees, e.version.event_valid, rfl, h.next_pos⟩
      · exact h.versions r hr
    targets := fun t ht => by
      obtain ⟨hid, hremote, hboot⟩ := h.targets t ht
      exact ⟨hid, hremote, Nat.lt_succ_of_lt hboot⟩
    delivery_target := fun d hd => by
      rcases hrows hd with hd | ⟨t, ht, rfl⟩
      · exact h.delivery_target d hd
      · exact List.mem_map_of_mem (mem_fanOut.mp ht).1
    delivery_seq := fun d hd => by
      rw [hseqs, List.mem_append, List.mem_singleton]
      rcases hrows hd with hd | ⟨t, ht, rfl⟩
      · exact .inl (h.delivery_seq d hd)
      · exact .inr rfl
    leases := fun d hd => by
      rcases hrows hd with hd | ⟨t, ht, rfl⟩
      · exact h.leases d hd
      · exact leaseOk_fresh _ _ _
    delivery_keys := by
      have hkeys := s.deliveryKeys_appended e
      rw [deliveryKeys, deliveryKeys] at hkeys
      rw [hkeys, List.nodup_append]
      refine ⟨h.delivery_keys, ?_, ?_⟩
      · have hids : ((s.fanOut e.originNodeId).map TargetRow.targetId).Nodup :=
          s.targets.nodup.sublist (List.filter_sublist.map _)
        have hpairs := hids.map (f := fun i => (i, s.nextStreamSeq))
          fun a b hab => (Prod.mk.inj hab).1
        rwa [List.map_map] at hpairs
      · rintro k hk k' hk' rfl
        obtain ⟨d, hd, hkey⟩ := List.mem_map.mp hk
        obtain ⟨t, -, hkey'⟩ := List.mem_map.mp hk'
        exact hnew d hd (congrArg Prod.snd (hkey.trans hkey'.symm))
    cursors := fun c hc => by
      obtain ⟨hok, hlo, hhi⟩ := h.cursors c hc
      exact ⟨hok, hlo, Nat.lt_succ_of_lt hhi⟩
    snapshots := fun x hx => by
      obtain ⟨hok, hlo, hhi⟩ := h.snapshots x hx
      exact ⟨hok, hlo, Nat.lt_succ_of_lt hhi⟩ }

/-- A successful append. -/
theorem Valid.appendEvent (h : s.Valid) (hfloor : s.retentionFloor < s.nextStreamSeq)
    {s' : SyncState} {cfg : SyncConfig} {e : SyncEvent} {seq : ℕ}
    (happend : s.appendEvent cfg e = .ok (s', seq)) : s'.Valid := by
  obtain ⟨rfl, -, hfresh, hsame⟩ := appendEvent_ok happend
  have hbound := h.bind e.scope.valid.tenant.1 hsame
  exact Valid.appended (s := { s with tenantBinding := some e.scope.tenantId }) hbound hfloor rfl
    hfresh

/-! ## Arrivals -/

/-- The inbox takes an event that it did not know. -/
theorem Valid.inboxed (h : s.Valid) {e : SyncEvent} (hnew : e.identity ∉ s.identities)
    (outcome : ReceiptOutcome) (streamSeq : Option ℕ) :
    Valid { s with inbox := s.inbox ++ [inboxRow e outcome streamSeq] } :=
  { h with
    inbox := fun r hr => by
      rcases List.mem_append.mp hr with hr | hr
      · exact h.inbox r hr
      · rw [List.mem_singleton.mp hr]
        exact ⟨e.version.origin_valid.1, e.version.event_valid⟩
    identities := by
      rw [List.map_append, List.nodup_append]
      refine ⟨h.identities, List.nodup_singleton _, ?_⟩
      rintro i hi j hj rfl
      have hsame : i = e.identity := List.mem_singleton.mp hj
      exact hnew (hsame ▸ hi) }

/-- A batch that was applied is remembered. -/
theorem Valid.remember (h : s.Valid) {row : BatchRow} (hrow : BatchOk row)
    (hnew : s.findBatch row.batchId = none) : Valid { s with batches := s.batches ++ [row] } :=
  { h with
    batches := fun b hb => by
      rcases List.mem_append.mp hb with hb | hb
      · exact h.batches b hb
      · rw [List.mem_singleton.mp hb]
        exact hrow
    batch_ids := by
      rw [List.map_append, List.nodup_append]
      refine ⟨h.batch_ids, List.nodup_singleton _, ?_⟩
      rintro i hi j hj rfl
      obtain ⟨b, hb, hid⟩ := List.mem_map.mp hi
      exact findRow_eq_none.mp hnew b hb (hid.trans (List.mem_singleton.mp hj)) }

/-- The position in the stream of a peer, under the name of this node. -/
theorem Valid.confirm (h : s.Valid) {row : CursorRow} (hrow : CursorOk row) :
    Valid { s with inboundCursors := upsertRow CursorRow.key row s.inboundCursors } :=
  { h with
    inbound := fun c hc => by
      rcases mem_upsertRow.mp hc with rfl | ⟨hc, -⟩
      · exact hrow
      · exact h.inbound c hc
    inbound_keys := nodup_upsertRow h.inbound_keys }

end SyncState

/-- What one round of the loop over a delivery does: the event is answered, rejected or appended. -/
inductive ApplyRound (cfg : SyncConfig) (s : SyncState) (e : SyncEvent) : SyncState → Prop where
  | answered (hknown : e.identity ∈ s.identities) : ApplyRound cfg s e s
  | rejected (hnew : e.identity ∉ s.identities)
      (hold : ∃ v ∈ s.held e.entity, e.version ≤ v) :
    ApplyRound cfg s e { s with inbox := s.inbox ++ [inboxRow e .rejectedConflict none] }
  | accepted (hnew : e.identity ∉ s.identities)
      (hnewer : ¬∃ v ∈ s.held e.entity, e.version ≤ v) {s' : SyncState} {seq : ℕ}
      (happend : s.appendEvent cfg e = .ok (s', seq)) :
    ApplyRound cfg s e { s' with inbox := s'.inbox ++ [inboxRow e .accepted (some seq)] }

section Loop

variable {cfg : SyncConfig} {env : Env} {clock : SyncEvent → String}

theorem applyEvent_round {st st' : ApplyState} {e : SyncEvent}
    (h : st.applyEvent cfg env clock e = .ok st') :
    ApplyRound cfg st.store.sync e st'.store.sync ∧
      ∃ outcome, st'.receipts = st.receipts ++ [⟨e.eventId, outcome⟩] := by
  have haccept : e.identity ∉ st.store.sync.identities →
      (¬∃ v ∈ st.store.sync.held e.entity, e.version ≤ v) →
      st.accept cfg env (clock e) e = .ok st' → ApplyRound cfg st.store.sync e st'.store.sync ∧
        ∃ outcome, st'.receipts = st.receipts ++ [⟨e.eventId, outcome⟩] := by
    intro hnew hnewer hacc
    obtain ⟨⟨b', ts'⟩, -, hacc⟩ := Except.bind_ok.mp hacc
    obtain ⟨⟨sync', seq⟩, happend, heq⟩ := Except.bind_ok.mp hacc
    cases Except.ok.inj heq
    exact ⟨.accepted hnew hnewer happend, _, rfl⟩
  unfold ApplyState.applyEvent at h
  split at h
  next row hrow =>
    cases Except.ok.inj h
    obtain ⟨hmem, hident⟩ := findRow_some hrow
    exact ⟨.answered (hident ▸ List.mem_map_of_mem hmem), _, rfl⟩
  next hnone =>
    have hnew : e.identity ∉ st.store.sync.identities := by
      intro hmem
      obtain ⟨row, hrow, hident⟩ := List.mem_map.mp hmem
      exact findRow_eq_none.mp hnone row hrow hident
    split at h
    next current hcurrent =>
      have hheld : st.store.sync.held e.entity = some current.version := by
        rw [SyncState.held, hcurrent, Option.map_some]
      split_ifs at h with hle
      · cases Except.ok.inj h
        exact ⟨.rejected hnew ⟨_, hheld, hle⟩, _, rfl⟩
      · refine haccept hnew ?_ h
        rintro ⟨v, hv, hv'⟩
        cases Option.some.inj (hheld.symm.trans hv)
        exact hle hv'
    next hcurrent =>
      refine haccept hnew ?_ h
      rintro ⟨v, hv, -⟩
      rw [SyncState.held, hcurrent] at hv
      exact absurd hv (by simp)

/-- How many events have entered a stream between two states. -/
structure Entered (s s' : SyncState) (n : ℕ) : Prop where
  next : s'.nextStreamSeq = s.nextStreamSeq + n
  length : s'.outbox.length = s.outbox.length + n
  floor : s'.retentionFloor = s.retentionFloor

theorem Entered.refl (s : SyncState) : Entered s s 0 := ⟨rfl, rfl, rfl⟩

theorem Entered.trans {s s₁ s₂ : SyncState} {m n : ℕ} (h : Entered s s₁ m) (h' : Entered s₁ s₂ n) :
    Entered s s₂ (m + n) := by
  refine ⟨?_, ?_, h'.floor.trans h.floor⟩
  · rw [h'.next, h.next, Nat.add_assoc]
  · rw [h'.length, h.length, Nat.add_assoc]

/-- An appended event has entered the stream, and its inbox row makes it known. -/
theorem appendEvent_entered {s s' : SyncState} {e : SyncEvent} {seq : ℕ}
    (h : s.appendEvent cfg e = .ok (s', seq)) : Entered s s' 1 ∧
      SyncState.identities { s' with inbox := s'.inbox ++ [inboxRow e .accepted (some seq)] } =
        s.identities ++ [e.identity] ∧
      SyncState.held { s' with inbox := s'.inbox ++ [inboxRow e .accepted (some seq)] } =
        fun k => if e.entity = k then some e.version else s.held k := by
  obtain ⟨rfl, -, -, -⟩ := SyncState.appendEvent_ok h
  exact ⟨⟨rfl, List.length_append, rfl⟩, List.map_append, s.held_appended e⟩

theorem admitted_accepted {s s' : SyncState} {e : SyncEvent} (hnew : e.identity ∉ s.identities)
    (hnewer : ¬∃ v ∈ s.held e.entity, e.version ≤ v)
    (hids : s'.identities = s.identities ++ [e.identity])
    (hheld : s'.held = fun k => if e.entity = k then some e.version else s.held k)
    (events : List SyncEvent) : s.admitted (e :: events) = e :: s'.admitted events := by
  rw [SyncState.admitted, Memplex.admitted, if_neg hnew, if_neg hnewer, ← hids, ← hheld]
  rfl

/-- A round appends its event if it takes effect, and else nothing. -/
theorem ApplyRound.admitted {s s' : SyncState} {e : SyncEvent} (h : ApplyRound cfg s e s')
    (events : List SyncEvent) : ∃ n, Entered s s' n ∧
      (s.admitted (e :: events)).length = n + (s'.admitted events).length := by
  cases h with
  | answered hknown =>
    refine ⟨0, .refl s, ?_⟩
    rw [SyncState.admitted, Memplex.admitted, if_pos hknown, Nat.zero_add]
    rfl
  | rejected hnew hold =>
    refine ⟨0, ⟨rfl, rfl, rfl⟩, ?_⟩
    have hids : SyncState.identities { s with inbox := s.inbox ++
        [inboxRow e .rejectedConflict none] } = s.identities ++ [e.identity] := List.map_append
    rw [SyncState.admitted, Memplex.admitted, if_neg hnew, if_pos hold, Nat.zero_add, ← hids]
    rfl
  | accepted hnew hnewer happend =>
    obtain ⟨hentered, hids, hheld⟩ := appendEvent_entered happend
    refine ⟨1, ⟨hentered.next, hentered.length, hentered.floor⟩, ?_⟩
    rw [admitted_accepted hnew hnewer hids hheld, List.length_cons, Nat.add_comm]

/-- A round keeps a state valid, if there is room in the stream for what it appends. -/
theorem ApplyRound.valid {s s' : SyncState} {e : SyncEvent} (h : ApplyRound cfg s e s') (hvalid : s.Valid)
    {events : List SyncEvent}
    (hroom : s.retentionFloor < s.nextStreamSeq ∨ s.admitted (e :: events) = []) : s'.Valid := by
  cases h with
  | answered hknown => exact hvalid
  | rejected hnew hold => exact hvalid.inboxed hnew _ _
  | @accepted hnew hnewer s₁ seq happend =>
    have hfloor : s.retentionFloor < s.nextStreamSeq := by
      refine hroom.resolve_right fun hnone => ?_
      rw [SyncState.admitted, Memplex.admitted, if_neg hnew, if_neg hnewer] at hnone
      exact absurd hnone (by simp)
    have happended := hvalid.appendEvent hfloor happend
    obtain ⟨rfl, -, -, -⟩ := SyncState.appendEvent_ok happend
    exact happended.inboxed (e := e) hnew _ _

/-- The loop over a delivery keeps a state valid, if there is room, and appends the events that take
effect. -/
theorem applyEvents_valid {events : List SyncEvent} {st st' : ApplyState}
    (hvalid : st.store.sync.Valid)
    (hroom : st.store.sync.retentionFloor < st.store.sync.nextStreamSeq ∨
      st.store.sync.admitted events = [])
    (h : events.foldlM (ApplyState.applyEvent cfg env clock) st = .ok st') :
    st'.store.sync.Valid := by
  induction events generalizing st with
  | nil =>
    cases Except.ok.inj h
    exact hvalid
  | cons e events ih =>
    rw [List.foldlM_cons] at h
    obtain ⟨st₁, hstep, hrest⟩ := Except.bind_ok.mp h
    have hround := (applyEvent_round hstep).1
    obtain ⟨n, hentered, hlength⟩ := hround.admitted events
    refine ih (hround.valid hvalid hroom) ?_ hrest
    rcases hroom with hfloor | hnone
    · refine .inl ?_
      rw [hentered.floor, hentered.next]
      omega
    · rw [hnone, List.length_nil] at hlength
      exact .inr (List.eq_nil_of_length_eq_zero (by omega))

theorem applyEvents_entered {events : List SyncEvent} {st st' : ApplyState}
    (h : events.foldlM (ApplyState.applyEvent cfg env clock) st = .ok st') :
    Entered st.store.sync st'.store.sync (st.store.sync.admitted events).length := by
  induction events generalizing st with
  | nil =>
    cases Except.ok.inj h
    exact .refl _
  | cons e events ih =>
    rw [List.foldlM_cons] at h
    obtain ⟨st₁, hstep, hrest⟩ := Except.bind_ok.mp h
    obtain ⟨n, hentered, hlength⟩ := (applyEvent_round hstep).1.admitted events
    rw [hlength]
    exact hentered.trans (ih hrest)

/-- The receipts of a delivery are of its events. -/
theorem applyEvents_receipts {events : List SyncEvent} {st st' : ApplyState}
    (h : events.foldlM (ApplyState.applyEvent cfg env clock) st = .ok st') :
    st'.receipts.map SyncReceipt.eventId =
      st.receipts.map SyncReceipt.eventId ++ events.map SyncEvent.eventId := by
  induction events generalizing st with
  | nil =>
    cases Except.ok.inj h
    rw [List.map_nil, List.append_nil]
  | cons e events ih =>
    rw [List.foldlM_cons] at h
    obtain ⟨st₁, hstep, hrest⟩ := Except.bind_ok.mp h
    obtain ⟨outcome, hreceipts⟩ := (applyEvent_round hstep).2
    rw [ih hrest, hreceipts, List.map_append, List.append_assoc]
    rfl

end Loop

/-! ## Deliveries from peers -/

theorem SyncBatch.tenantId_ne (b : SyncBatch) : b.tenantId ≠ "" :=
  (b.events.head b.nonempty).scope.valid.tenant.1

section Deliver

variable {cfg : SyncConfig} {env : Env} {sha256 : ByteArray → String} {now : Instant}
  {clock : SyncEvent → String} {s s' : LiteStore}

theorem syncApplyBatch_valid (hsha : ∀ bytes, Digest (sha256 bytes)) {b : SyncBatch}
    {result : SyncBatchResult} (hvalid : s.sync.Valid)
    (hroom : s.sync.retentionFloor < s.sync.nextStreamSeq ∨
      Delivery.admitted cfg s ⟨.batch b, now, clock⟩ = [])
    (h : syncApplyBatch cfg env sha256 now clock s b = .ok (s', result)) : s'.sync.Valid := by
  obtain ⟨sync, hbind, h⟩ := Except.bind_ok.mp h
  have hbound := hvalid.bindTenant b.tenantId_ne hbind
  obtain ⟨rfl, -⟩ := SyncState.bindTenant_ok hbind
  have hbatch : SyncState.findBatch { s.sync with tenantBinding := some b.tenantId } b.batchId =
      s.sync.findBatch b.batchId := rfl
  rw [hbatch] at h
  cases hfound : s.sync.findBatch b.batchId with
  | some existing =>
    rw [hfound] at h
    obtain ⟨_, -, heq⟩ := Except.bind_ok.mp h
    cases Except.ok.inj heq
    exact hbound
  | none =>
    rw [hfound] at h
    obtain ⟨st, happly, heq⟩ := Except.bind_ok.mp h
    cases Except.ok.inj heq
    simp only [Delivery.admitted, hfound, Option.isSome_none] at hroom
    have hst := applyEvents_valid hbound hroom happly
    have hbatches := applyEvents_batches happly
    refine hst.remember ⟨b.batch_valid, hsha _, rfl, rfl, fun r hr => ?_⟩ ?_
    · -- Every receipt is of an event of the batch.
      have hids := applyEvents_receipts happly
      rw [List.map_nil, List.nil_append] at hids
      have hmem := hids ▸ List.mem_map_of_mem (f := SyncReceipt.eventId) hr
      obtain ⟨e, -, hid⟩ := List.mem_map.mp hmem
      exact hid ▸ e.version.event_valid
    · rw [SyncState.findBatch, hbatches]
      exact hfound

theorem bindPageTenant_valid {sync sync' : SyncState} {events : List SyncEvent}
    (hvalid : sync.Valid) (h : sync.bindPageTenant events = .ok sync') : sync'.Valid := by
  cases events with
  | nil =>
    cases Except.ok.inj h
    exact hvalid
  | cons e events => exact hvalid.bindTenant e.scope.valid.tenant.1 h

theorem syncApplyPage_valid {remoteId : String} {p : SyncPage} {result : SyncApplyResult}
    (hvalid : s.sync.Valid)
    (hroom : s.sync.retentionFloor < s.sync.nextStreamSeq ∨
      Delivery.admitted cfg s ⟨.page remoteId p, now, clock⟩ = [])
    (hnamed : s.sync.confirmed cfg remoteId < p.nextAfterSeq → cfg.localNodeId ≠ "")
    (h : syncApplyPage cfg env now clock s remoteId p = .ok (s', result)) : s'.sync.Valid := by
  obtain ⟨_, hremote, h⟩ := Except.bind_ok.mp h
  obtain ⟨_, -, h⟩ := Except.bind_ok.mp h
  obtain ⟨events, hpage, h⟩ := Except.bind_ok.mp h
  cases validateIncomingPage_ok hpage
  obtain ⟨sync, hbind, h⟩ := Except.bind_ok.mp h
  have hbound := bindPageTenant_valid hvalid hbind
  obtain ⟨tenant, rfl⟩ := bindPageTenant_congr hbind
  obtain ⟨_, -, h⟩ := Except.bind_ok.mp h
  obtain ⟨_, -, h⟩ := Except.bind_ok.mp h
  have hconfirmed : SyncState.confirmed { s.sync with tenantBinding := tenant } cfg remoteId =
      s.sync.confirmed cfg remoteId := rfl
  rw [hconfirmed] at h
  simp only [Delivery.admitted] at hroom
  split_ifs at h with hle
  · cases Except.ok.inj h
    exact hbound
  · obtain ⟨st, happly, heq⟩ := Except.bind_ok.mp h
    cases Except.ok.inj heq
    rw [if_neg hle] at hroom
    exact (applyEvents_valid hbound hroom happly).confirm
      ⟨require_ok.mp hremote, hnamed (not_le.mp hle)⟩

theorem syncApplyBatch_entered {b : SyncBatch} {result : SyncBatchResult}
    (h : syncApplyBatch cfg env sha256 now clock s b = .ok (s', result)) :
    Entered s.sync s'.sync (Delivery.admitted cfg s ⟨.batch b, now, clock⟩).length := by
  obtain ⟨sync, hbind, h⟩ := Except.bind_ok.mp h
  obtain ⟨rfl, -⟩ := SyncState.bindTenant_ok hbind
  simp only [Delivery.admitted]
  have hbatch : SyncState.findBatch { s.sync with tenantBinding := some b.tenantId } b.batchId =
      s.sync.findBatch b.batchId := rfl
  rw [hbatch] at h
  cases hfound : s.sync.findBatch b.batchId with
  | some existing =>
    rw [hfound] at h
    obtain ⟨_, -, heq⟩ := Except.bind_ok.mp h
    cases Except.ok.inj heq
    exact ⟨rfl, rfl, rfl⟩
  | none =>
    rw [hfound] at h
    obtain ⟨st, happly, heq⟩ := Except.bind_ok.mp h
    cases Except.ok.inj heq
    obtain ⟨hnext, hlength, hfloor⟩ := applyEvents_entered happly
    exact ⟨hnext, hlength, hfloor⟩

theorem syncApplyPage_entered {remoteId : String} {p : SyncPage} {result : SyncApplyResult}
    (h : syncApplyPage cfg env now clock s remoteId p = .ok (s', result)) :
    Entered s.sync s'.sync (Delivery.admitted cfg s ⟨.page remoteId p, now, clock⟩).length := by
  obtain ⟨_, -, h⟩ := Except.bind_ok.mp h
  obtain ⟨_, -, h⟩ := Except.bind_ok.mp h
  obtain ⟨events, hpage, h⟩ := Except.bind_ok.mp h
  cases validateIncomingPage_ok hpage
  obtain ⟨sync, hbind, h⟩ := Except.bind_ok.mp h
  obtain ⟨tenant, rfl⟩ := bindPageTenant_congr hbind
  obtain ⟨_, -, h⟩ := Except.bind_ok.mp h
  obtain ⟨_, -, h⟩ := Except.bind_ok.mp h
  have hconfirmed : SyncState.confirmed { s.sync with tenantBinding := tenant } cfg remoteId =
      s.sync.confirmed cfg remoteId := rfl
  rw [hconfirmed] at h
  simp only [Delivery.admitted]
  split_ifs at h with hle
  · cases Except.ok.inj h
    rw [if_pos hle]
    exact ⟨rfl, rfl, rfl⟩
  · obtain ⟨st, happly, heq⟩ := Except.bind_ok.mp h
    cases Except.ok.inj heq
    obtain ⟨hnext, hlength, hfloor⟩ := applyEvents_entered happly
    rw [if_neg hle]
    exact ⟨hnext, hlength, hfloor⟩

/-- The name of a node stands in the cursor of a page that it has applied. -/
theorem syncApplyPage_named {remoteId : String} {p : SyncPage} {result : SyncApplyResult}
    (hvalid : s'.sync.Valid) (hnew : s.sync.confirmed cfg remoteId < p.nextAfterSeq)
    (h : syncApplyPage cfg env now clock s remoteId p = .ok (s', result)) :
    cfg.localNodeId ≠ "" := by
  obtain ⟨_, -, h⟩ := Except.bind_ok.mp h
  obtain ⟨_, -, h⟩ := Except.bind_ok.mp h
  obtain ⟨events, -, h⟩ := Except.bind_ok.mp h
  obtain ⟨sync, hbind, h⟩ := Except.bind_ok.mp h
  obtain ⟨tenant, rfl⟩ := bindPageTenant_congr hbind
  obtain ⟨_, -, h⟩ := Except.bind_ok.mp h
  obtain ⟨_, -, h⟩ := Except.bind_ok.mp h
  have hconfirmed : SyncState.confirmed { s.sync with tenantBinding := tenant } cfg remoteId =
      s.sync.confirmed cfg remoteId := rfl
  rw [hconfirmed, if_neg (not_le.mpr hnew)] at h
  obtain ⟨st, -, heq⟩ := Except.bind_ok.mp h
  cases Except.ok.inj heq
  exact (hvalid.inbound _ (mem_upsertRow.mpr (.inl rfl))).2

end Deliver

/-- Between valid states, events enter a stream that has a position above its retention floor. -/
theorem Entered.room {s s' : SyncState} {events : List SyncEvent}
    (h : Entered s s' events.length) (hvalid : s.Valid) (hvalid' : s'.Valid) :
    s.retentionFloor < s.nextStreamSeq ∨ events = [] := by
  have hlength := congrArg List.length hvalid.seqs
  have hlength' := congrArg List.length hvalid'.seqs
  rw [List.length_map, List.length_range'] at hlength hlength'
  rw [h.next, h.floor, h.length, hlength] at hlength'
  cases events with
  | nil => exact .inr rfl
  | cons e events =>
    rw [List.length_cons] at hlength'
    exact .inl (by omega)

/-! ## Rows and targets -/

/-- A row that is not leased, without the fields of a lease. -/
theorem leaseOk_ended {d : DeliveryRow} (hstate : d.state ≠ .leased) (howner : d.leaseOwner = none)
    (huntil : d.leaseUntil = none) : SyncState.LeaseOk d := by
  rw [SyncState.LeaseOk, if_neg hstate]
  exact ⟨howner, huntil⟩

theorem leaseOk_delivered (d : DeliveryRow) : SyncState.LeaseOk (SyncState.delivered d) :=
  leaseOk_ended (by simp [SyncState.delivered]) rfl rfl

theorem leaseOk_failed (cfg : SyncConfig) (errorCode : String) (now : Instant) (d : DeliveryRow) :
    SyncState.LeaseOk (SyncState.failed cfg errorCode now d) := by
  unfold SyncState.failed
  split_ifs with hlast
  · exact leaseOk_ended (by simp) rfl rfl
  · exact leaseOk_ended (by simp) rfl rfl

theorem leaseOk_deadLettered (errorCode : String) (now : Instant) (d : DeliveryRow) :
    SyncState.LeaseOk (SyncState.deadLettered errorCode now d) :=
  leaseOk_ended (by simp [SyncState.deadLettered]) rfl rfl

/-- What an operation may do with a row keeps the lease fields those of its state. -/
theorem RowStep.leaseOk {cfg : SyncConfig} {s : SyncState} {op : RepoOp} {d d' : DeliveryRow}
    (h : RowStep cfg s op d d') (hd : SyncState.LeaseOk d) : SyncState.LeaseOk d' := by
  cases h with
  | same => exact hd
  | expire hop =>
    unfold SyncState.expireLease
    split_ifs with hexp hlast
    · exact leaseOk_ended (by simp) rfl rfl
    · exact leaseOk_ended (by simp) rfl rfl
    · exact hd
  | lease hop hpending hattempt i =>
    rw [SyncState.LeaseOk, if_pos rfl]
    exact ⟨by simp, by simp⟩
  | deliver hcause => exact leaseOk_delivered d
  | fail hop hleased => exact leaseOk_failed _ _ _ d
  | deadLetter hop hleased => exact leaseOk_deadLettered _ _ d
  | replay hop hdead => exact leaseOk_ended (by simp [SyncState.replayed]) rfl rfl

/-- A change of the delivery rows in place, and of nothing else. -/
structure Redelivers (s s' : SyncState) : Prop where
  frame : s' = { s with deliveries := s'.deliveries }
  keys : s'.deliveryKeys = s.deliveryKeys
  rows : ∀ d' ∈ s'.deliveries, ∃ d ∈ s.deliveries, d.key = d'.key ∧
    (SyncState.LeaseOk d → SyncState.LeaseOk d')

theorem Redelivers.valid {s s' : SyncState} (h : Redelivers s s') (hvalid : s.Valid) :
    s'.Valid := by
  have hrow : ∀ d' ∈ s'.deliveries, (d'.targetId ∈ s.targets.rows.map TargetRow.targetId ∧
      d'.streamSeq ∈ s.outbox.map OutboxRow.streamSeq) ∧ SyncState.LeaseOk d' := fun d' hd' => by
    obtain ⟨d, hd, hkey, hlease⟩ := h.rows d' hd'
    obtain ⟨htarget, hseq⟩ := Prod.mk.inj hkey
    rw [← htarget, ← hseq]
    exact ⟨⟨hvalid.delivery_target d hd, hvalid.delivery_seq d hd⟩,
      hlease (hvalid.leases d hd)⟩
  have hkeys : (s'.deliveries.map DeliveryRow.key).Nodup := by
    have hnodup := hvalid.delivery_keys
    rwa [← SyncState.deliveryKeys, ← h.keys] at hnodup
  rw [h.frame]
  exact { hvalid with
    delivery_target := fun d hd => (hrow d hd).1.1
    delivery_seq := fun d hd => (hrow d hd).1.2
    leases := fun d hd => (hrow d hd).2
    delivery_keys := hkeys }

section Rows

variable {cfg : SyncConfig} {s s' : SyncState} {now : Instant}

theorem claim_redelivers {leaseId : ℕ → String} {targetId : String} {limit leaseSeconds : ℕ}
    {handed : List SyncDelivery} (hkeys : s.deliveryKeys.Nodup)
    (h : s.claim cfg now leaseId targetId limit leaseSeconds = .ok (s', handed)) :
    Redelivers s s' := by
  refine ⟨?_, (claim_quiet h).keys, fun d' hd' => ?_⟩
  swap
  · obtain ⟨d, hd, hkey, hstep⟩ := claim_rows hkeys h d' hd'
    exact ⟨d, hd, hkey, hstep.leaseOk⟩
  obtain ⟨_, -, h⟩ := Except.bind_ok.mp h
  obtain ⟨_, -, h⟩ := Except.bind_ok.mp h
  obtain ⟨_, -, h⟩ := Except.bind_ok.mp h
  split at h
  · cases Except.ok.inj h
    rfl
  · split_ifs at h
    · cases Except.ok.inj h
      rfl
    · cases Except.ok.inj h
      rfl

theorem ackBatch_redelivers {ds : List SyncDelivery} {receipts : List SyncReceipt}
    (hkeys : s.deliveryKeys.Nodup) (h : s.ackBatch now ds receipts = .ok s') :
    Redelivers s s' := by
  obtain ⟨g, hgkey, rfl, hrows, -⟩ := ackBatch_rows hkeys h
  refine ⟨rfl, (ackBatch_quiet h).keys, fun d' hd' => ?_⟩
  obtain ⟨d, hd, rfl⟩ := List.mem_map.mp hd'
  refine ⟨d, hd, (hgkey d).symm, ?_⟩
  rcases hrows d hd with hsame | ⟨hdel, -⟩
  · rw [hsame]
    exact id
  · rw [hdel]
    exact fun _ => leaseOk_delivered d

theorem endLease_redelivers {clock : Instant} {x : SyncDelivery} {errorCode : String}
    {f : DeliveryRow → DeliveryRow} (hkeys : s.deliveryKeys.Nodup) (hf : ∀ d, (f d).key = d.key)
    (hends : ∀ d, SyncState.LeaseOk (f d)) (h : s.endLease clock x errorCode f = .ok s') :
    Redelivers s s' := by
  refine ⟨?_, (endLease_quiet hf h).keys, fun d' hd' => ?_⟩
  · obtain ⟨_, -, h⟩ := Except.bind_ok.mp h
    split at h
    · cases Except.ok.inj h
      rfl
    · obtain ⟨_, -, heq⟩ := Except.bind_ok.mp h
      cases Except.ok.inj heq
      rfl
  · obtain ⟨d, hd, hkey, rfl | ⟨rfl, -⟩⟩ := endLease_rows hkeys hf h d' hd'
    · exact ⟨d', hd, rfl, id⟩
    · exact ⟨d, hd, hkey, fun _ => hends d⟩

theorem replayDeadLetter_redelivers {targetId eventId : String} {found : Bool}
    (h : s.replayDeadLetter now targetId eventId = .ok (s', found)) :
    Redelivers s s' := by
  have hquiet := replayDeadLetter_quiet h
  obtain ⟨_, -, h⟩ := Except.bind_ok.mp h
  obtain ⟨_, -, h⟩ := Except.bind_ok.mp h
  split at h
  · cases Except.ok.inj h
    exact ⟨rfl, rfl, fun d hd => ⟨d, hd, rfl, id⟩⟩
  · cases Except.ok.inj h
    refine ⟨rfl, hquiet.keys, fun d' hd' => ?_⟩
    obtain ⟨d, hd, rfl⟩ := List.mem_map.mp hd'
    split_ifs
    · exact ⟨d, hd, rfl, fun _ => leaseOk_ended (by simp [SyncState.replayed]) rfl rfl⟩
    · exact ⟨d, hd, rfl, id⟩

end Rows

namespace SyncState

variable {s s' : SyncState} {cfg : SyncConfig} {now : Instant}

/-- A new target begins within the stream, unless the stream has no room. -/
theorem Valid.registerTarget (h : s.Valid) {targetId : String} {bootstrap : Bootstrap}
    (hroom : s.retentionFloor < s.nextStreamSeq ∨ (s.targets.get? targetId).isSome = true ∨
      bootstrap = .future)
    (hreg : s.registerTarget cfg now targetId bootstrap = .ok s') : s'.Valid := by
  obtain ⟨_, hnamed, hreg⟩ := Except.bind_ok.mp hreg
  obtain ⟨_, -, hreg⟩ := Except.bind_ok.mp hreg
  split at hreg
  · cases Except.ok.inj hreg
    exact h
  next hnone =>
    obtain ⟨_, -, heq⟩ := Except.bind_ok.mp hreg
    cases Except.ok.inj heq
    have hid := require_ok.mp hnamed
    have hunknown : ∀ t ∈ s.targets.rows, t.targetId ≠ targetId := findRow_eq_none.mp hnone
    have hboot : s.bootstrapSeq bootstrap < s.nextStreamSeq := by
      have hpos := h.next_pos
      rw [hnone] at hroom
      cases bootstrap with
      | future => exact Nat.sub_one_lt (by omega)
      | retained => exact hroom.elim id (by simp)
    set t₀ : TargetRow := ⟨targetId, targetId, s.bootstrapSeq bootstrap, true⟩
    have hmem : ∀ t, t ∈ (s.targets.set t₀).rows ↔ t = t₀ ∨ t ∈ s.targets.rows := fun t => by
      show t ∈ upsertRow TargetRow.targetId t₀ s.targets.rows ↔ _
      rw [mem_upsertRow]
      exact or_congr Iff.rfl ⟨fun h => h.1, fun h => ⟨h, hunknown t h⟩⟩
    have hrows : ∀ d ∈ s.deliveries ++
        (s.retainedFor targetId bootstrap (s.bootstrapSeq bootstrap)).map
          (fun r => DeliveryRow.fresh targetId r.streamSeq now), d ∈ s.deliveries ∨
        ∃ r ∈ s.outbox, .fresh targetId r.streamSeq now = d := fun d hd => by
      rcases List.mem_append.mp hd with hd | hd
      · exact .inl hd
      · obtain ⟨r, hr, rfl⟩ := List.mem_map.mp hd
        exact .inr ⟨r, List.mem_of_mem_filter hr, rfl⟩
    exact { h with
      targets := fun t ht => by
        rcases (hmem t).mp ht with rfl | ht
        · exact ⟨hid, hid, hboot⟩
        · exact h.targets t ht
      delivery_target := fun d hd => by
        rcases hrows d hd with hd | ⟨r, -, rfl⟩
        · obtain ⟨t, ht, heq⟩ := List.mem_map.mp (h.delivery_target d hd)
          exact List.mem_map.mpr ⟨t, (hmem t).mpr (.inr ht), heq⟩
        · exact List.mem_map.mpr ⟨t₀, (hmem t₀).mpr (.inl rfl), rfl⟩
      delivery_seq := fun d hd => by
        rcases hrows d hd with hd | ⟨r, hr, rfl⟩
        · exact h.delivery_seq d hd
        · exact List.mem_map_of_mem hr
      leases := fun d hd => by
        rcases hrows d hd with hd | ⟨r, -, rfl⟩
        · exact h.leases d hd
        · exact leaseOk_fresh _ _ _
      delivery_keys := by
        rw [List.map_append, List.nodup_append]
        refine ⟨h.delivery_keys, ?_, ?_⟩
        · have hseqs : (s.outbox.map OutboxRow.streamSeq).Nodup := by
            rw [h.seqs]
            exact List.nodup_range'
          have hretained : ((s.retainedFor targetId bootstrap
              (s.bootstrapSeq bootstrap)).map OutboxRow.streamSeq).Nodup :=
            hseqs.sublist (List.filter_sublist.map _)
          have hpairs := hretained.map (f := fun q => (targetId, q))
            fun a b hab => (Prod.mk.inj hab).2
          rwa [List.map_map] at hpairs ⊢
        · rintro k hk k' hk' rfl
          obtain ⟨d, hd, hkey⟩ := List.mem_map.mp hk
          obtain ⟨_, hrow, hkey'⟩ := List.mem_map.mp hk'
          obtain ⟨r, -, rfl⟩ := List.mem_map.mp hrow
          obtain ⟨t, ht, htid⟩ := List.mem_map.mp (h.delivery_target d hd)
          exact hunknown t ht (htid.trans (congrArg Prod.fst (hkey.trans hkey'.symm))) }

theorem Valid.setTargetEnabled (h : s.Valid) {targetId : String} {enabled : Bool}
    (hset : s.setTargetEnabled targetId enabled = .ok s') : s'.Valid := by
  obtain ⟨_, -, hset⟩ := Except.bind_ok.mp hset
  split at hset
  · exact absurd hset (by simp)
  next target hsome =>
    cases Except.ok.inj hset
    obtain ⟨htarget, -⟩ := findRow_some hsome
    have hids : (s.targets.set { target with enabled := enabled }).rows.map TargetRow.targetId =
        s.targets.rows.map TargetRow.targetId := map_key_upsertRow_of_mem ⟨target, htarget, rfl⟩
    exact { h with
      targets := fun t ht => by
        rcases mem_upsertRow.mp ht with rfl | ⟨ht, -⟩
        · obtain ⟨hid, hremote, hboot⟩ := h.targets target htarget
          exact ⟨hid, hremote, hboot⟩
        · exact h.targets t ht
      delivery_target := fun d hd => by
        rw [hids]
        exact h.delivery_target d hd }

/-! ## Pages -/

theorem acknowledge_redelivers (s : SyncState) (remoteId : String) (after : ℕ) :
    Redelivers s (s.acknowledge remoteId after) := by
  refine ⟨rfl, (acknowledge_quiet s remoteId after).keys, fun d' hd' => ?_⟩
  obtain ⟨d, hd, rfl⟩ := List.mem_map.mp hd'
  split_ifs with hpassed
  · exact ⟨d, hd, rfl, fun _ => leaseOk_delivered d⟩
  · exact ⟨d, hd, rfl, id⟩

/-- A confirmed position is one of the stream. -/
theorem Valid.served_lt (h : s.Valid) (remoteId consumerId : String) :
    s.served remoteId consumerId < s.nextStreamSeq := by
  unfold served
  split
  · exact h.next_pos
  next row hrow => exact (h.cursors row (findRow_some hrow).1).2.2

theorem Valid.recordCursor (h : s.Valid) {remoteId consumerId : String} (hremote : remoteId ≠ "")
    (hconsumer : consumerId ≠ "") {after : ℕ} (hafter : s.Within after) :
    (s.recordCursor now remoteId consumerId after).Valid :=
  { h with
    cursors := fun c hc => by
      rcases mem_upsertRow.mp hc with rfl | ⟨hc, -⟩
      · exact ⟨⟨hremote, hconsumer⟩, le_max_of_le_right hafter.1,
          max_lt (h.served_lt remoteId consumerId) hafter.2⟩
      · exact h.cursors c hc
    cursor_keys := nodup_upsertRow h.cursor_keys }

/-- A page leaves a valid state exactly when its cursor is behind the end of the stream. -/
theorem Valid.page_iff (h : s.Valid) {remoteId consumerId : String}
    {cursor : Option SyncCursorClaims} {limit : ℕ} {p : SyncPage}
    (hpage : s.page now remoteId consumerId cursor limit = .ok (s', p)) :
    s'.Valid ↔ ∀ c ∈ cursor, c.afterSeq < s.nextStreamSeq := by
  obtain ⟨_, hremote, hpage⟩ := Except.bind_ok.mp hpage
  obtain ⟨_, hconsumer, hpage⟩ := Except.bind_ok.mp hpage
  obtain ⟨_, -, hpage⟩ := Except.bind_ok.mp hpage
  obtain ⟨_, hfloor, hpage⟩ := Except.bind_ok.mp hpage
  obtain ⟨_, -, hpage⟩ := Except.bind_ok.mp hpage
  obtain ⟨_, -, heq⟩ := Except.bind_ok.mp hpage
  have hremote := require_ok.mp hremote
  have hconsumer := require_ok.mp hconsumer
  have hfloor := require_ok.mp hfloor
  cases Except.ok.inj heq
  cases cursor with
  | none =>
    refine iff_of_true ?_ (by simp)
    exact h.recordCursor hremote hconsumer ⟨hfloor, h.served_lt remoteId consumerId⟩
  | some c =>
    constructor
    · rintro hvalid _ ⟨⟩
      -- The position is in the row of the consumer from then on.
      have hrow := (hvalid.cursors _ (mem_upsertRow.mpr (.inl rfl))).2.2
      exact (le_max_right _ _).trans_lt hrow
    · intro hcursor
      have hacked : (s.acknowledge remoteId c.afterSeq).Valid :=
        (acknowledge_redelivers s remoteId c.afterSeq).valid h
      exact hacked.recordCursor hremote hconsumer ⟨hfloor, hcursor c rfl⟩

/-! ## Compaction -/

theorem Valid.cleanupExpiredSnapshots (h : s.Valid) (now : Instant) :
    (s.cleanupExpiredSnapshots now).Valid :=
  { h with
    snapshots := fun x hx => h.snapshots x (List.mem_of_mem_filter hx)
    snapshot_ids := h.snapshot_ids.sublist (List.filter_sublist.map _)
    requests := h.requests.sublist (List.filter_sublist.map _)
    items := fun i hi => by
      obtain ⟨hi, hkept⟩ := List.mem_filter.mp hi
      obtain ⟨hin, htenant⟩ := h.items i hi
      obtain ⟨x, hx, hid⟩ := List.mem_map.mp hin
      exact ⟨List.mem_map.mpr ⟨x, List.mem_filter.mpr ⟨hx, by rwa [hid]⟩, hid⟩, htenant⟩
    item_keys := h.item_keys.sublist (List.filter_sublist.map _) }

theorem Valid.forgetConsumers (h : s.Valid) (cfg : SyncConfig) (now : Instant) :
    (s.forgetConsumers cfg now).Valid :=
  { h with
    cursors := fun c hc => h.cursors c (List.mem_of_mem_filter hc)
    cursor_keys := h.cursor_keys.sublist (List.filter_sublist.map _)
    inbound := fun c hc => h.inbound c (List.mem_of_mem_filter hc)
    inbound_keys := h.inbound_keys.sublist (List.filter_sublist.map _) }

/-- Positions that pin the stream are not passed. -/
theorem unpinned_le : (∀ c ∈ s.cursors, s.unpinned ≤ c.afterSeq) ∧
    ∀ x ∈ s.snapshots, s.unpinned ≤ x.resumeSeq := by
  have hle : ∀ n ∈ s.cursors.map CursorRow.afterSeq ++ s.snapshots.map SnapshotRow.resumeSeq,
      s.unpinned ≤ n := fun n hn => by
    unfold unpinned
    cases hmin : (s.cursors.map CursorRow.afterSeq ++
        s.snapshots.map SnapshotRow.resumeSeq).min? with
    | none => exact absurd (List.min?_eq_none_iff.mp hmin ▸ hn) (List.not_mem_nil)
    | some m => exact (List.min?_eq_some_iff.mp hmin).2 n hn
  exact ⟨fun c hc => hle _ (List.mem_append_left _ (List.mem_map_of_mem hc)),
    fun x hx => hle _ (List.mem_append_right _ (List.mem_map_of_mem hx))⟩

/-- The sequences that a compaction drops are the first ones of the outbox. -/
theorem Valid.compactable (h : s.Valid) (cfg : SyncConfig) (now : Instant) (limit : ℕ) :
    ∃ n ≤ s.nextStreamSeq - (s.retentionFloor + 1),
      s.compactable cfg now limit = List.range' (s.retentionFloor + 1) n ∧
      ∀ q ∈ s.compactable cfg now limit, q ≤ s.unpinned := by
  have hkeep : s.outbox.filter (fun r => s.retentionFloor < r.streamSeq) = s.outbox := by
    refine List.filter_eq_self.mpr fun r hr => decide_eq_true ?_
    exact (h.mem_seqs.mp (List.mem_map_of_mem hr)).1
  -- What is dropped is a prefix of the outbox.
  have hprefix : s.compactable cfg now limit <+: s.outbox.map OutboxRow.streamSeq := by
    rw [SyncState.compactable, hkeep]
    exact ((List.take_prefix _ _).trans (List.takeWhile_prefix _)).map _
  have hlength := hprefix.length_le
  have htake := List.prefix_iff_eq_take.mp hprefix
  rw [h.seqs, List.length_range'] at hlength
  rw [h.seqs, List.take_range'_of_length_ge hlength] at htake
  refine ⟨_, hlength, htake, fun q hq => ?_⟩
  obtain ⟨r, hr, rfl⟩ := List.mem_map.mp hq
  have htest := List.mem_takeWhile_imp (List.mem_of_mem_take hr)
  exact (decide_eq_true_eq.mp htest).1

/-- The outbox without its first sequences. -/
theorem Valid.dropEvents (h : s.Valid) {n : ℕ} (hn : n ≤ s.nextStreamSeq - (s.retentionFloor + 1))
    (hpinned : ∀ q ∈ List.range' (s.retentionFloor + 1) n, q ≤ s.unpinned) :
    (s.dropEvents (List.range' (s.retentionFloor + 1) n)).Valid := by
  cases n with
  | zero => exact h
  | succ n =>
    have hlast : (List.range' (s.retentionFloor + 1) (n + 1)).getLast? =
        some (s.retentionFloor + 1 + n) := by
      rw [List.getLast?_range']
      simp
    unfold SyncState.dropEvents
    rw [hlast]
    set through := s.retentionFloor + 1 + n with hthrough
    set dropped := List.range' (s.retentionFloor + 1) (n + 1) with hdropped
    have hmem : ∀ q, q ∈ dropped ↔ s.retentionFloor < q ∧ q ≤ through := fun q => by
      rw [hdropped, List.mem_range'_1]
      omega
    have hpin : through ≤ s.unpinned := hpinned _ ((hmem _).mpr (by omega))
    have hsplit : s.outbox.map OutboxRow.streamSeq =
        dropped ++ List.range' (through + 1) (s.nextStreamSeq - (through + 1)) := by
      rw [h.seqs, show s.nextStreamSeq - (s.retentionFloor + 1) =
        n + 1 + (s.nextStreamSeq - (through + 1)) by omega, ← List.range'_append_1,
        show s.retentionFloor + 1 + (n + 1) = through + 1 by omega]
    have hseqs : (s.outbox.filter fun r => r.streamSeq ∉ dropped).map OutboxRow.streamSeq =
        List.range' (through + 1) (s.nextStreamSeq - (through + 1)) := by
      have hfilter : (s.outbox.filter fun r => r.streamSeq ∉ dropped).map OutboxRow.streamSeq =
          (s.outbox.map OutboxRow.streamSeq).filter fun q => q ∉ dropped := by
        rw [List.filter_map]
        rfl
      have hnone : dropped.filter (fun q => q ∉ dropped) = [] :=
        List.filter_eq_nil_iff.mpr fun q hq => by simpa using hq
      have hall : (List.range' (through + 1) (s.nextStreamSeq - (through + 1))).filter
          (fun q => q ∉ dropped) = List.range' (through + 1) (s.nextStreamSeq - (through + 1)) := by
        refine List.filter_eq_self.mpr fun q hq => decide_eq_true fun hdrop => ?_
        rw [List.mem_range'_1] at hq
        have hle := ((hmem q).mp hdrop).2
        omega
      rw [hfilter, hsplit, List.filter_append, hnone, hall, List.nil_append]
    exact { h with
      compacted := rfl
      seqs := hseqs
      outbox_tenant := fun r hr => h.outbox_tenant r (List.mem_of_mem_filter hr)
      events := h.events.sublist (List.filter_sublist.map _)
      delivery_target := fun d hd => h.delivery_target d (List.mem_of_mem_filter hd)
      delivery_seq := fun d hd => by
        obtain ⟨hd, hkept⟩ := List.mem_filter.mp hd
        have hin := h.delivery_seq d hd
        rw [hsplit, List.mem_append] at hin
        rw [hseqs]
        exact hin.resolve_left (decide_eq_true_eq.mp hkept)
      leases := fun d hd => h.leases d (List.mem_of_mem_filter hd)
      delivery_keys := h.delivery_keys.sublist (List.filter_sublist.map _)
      cursors := fun c hc =>
        ⟨(h.cursors c hc).1, hpin.trans (unpinned_le.1 c hc), (h.cursors c hc).2.2⟩
      snapshots := fun x hx =>
        ⟨(h.snapshots x hx).1, hpin.trans (unpinned_le.2 x hx), (h.snapshots x hx).2.2⟩ }

/-- A compaction drops what nothing refers to. -/
theorem Valid.compact (h : s.Valid) {limit n : ℕ} (hrun : s.compact cfg now limit = .ok (s', n)) :
    s'.Valid := by
  obtain ⟨_, -, heq⟩ := Except.bind_ok.mp hrun
  cases Except.ok.inj heq
  have hcleaned := (h.cleanupExpiredSnapshots now).forgetConsumers cfg now
  obtain ⟨k, hk, hdropped, hpinned⟩ := hcleaned.compactable cfg now limit
  rw [hdropped] at hpinned ⊢
  exact hcleaned.dropEvents hk hpinned

/-! ## Snapshots -/

/-- A tenant of the records has a name. -/
theorem tenants_ne {b : BusinessState} {t : String} (h : t ∈ b.tenants) : t ≠ "" := by
  obtain ⟨v, -, hv⟩ := List.mem_filterMap.mp h
  exact (boundText_ok hv).2

theorem Valid.bindRecords (h : s.Valid) {tenantId : Option String} (hne : tenantId ≠ some "")
    (hbind : s.bindRecords tenantId = .ok s') : s'.Valid := by
  cases tenantId with
  | none =>
    cases Except.ok.inj hbind
    exact h
  | some t => exact h.bindTenant (fun hempty => hne (congrArg some hempty)) hbind

theorem bindRecords_congr {tenantId : Option String} (h : s.bindRecords tenantId = .ok s') :
    ∃ tenant, s' = { s with tenantBinding := tenant } := by
  cases tenantId with
  | none => exact ⟨s.tenantBinding, (Except.ok.inj h).symm⟩
  | some t => exact ⟨_, (bindTenant_ok h).1⟩

/-- The copy of the records binds their tenant at most. -/
theorem Valid.currentSnapshotEvents {S : SnapshotEnv} {st : LiteStore} {events : List SyncEvent}
    (h : st.sync.Valid) (hcopy : currentSnapshotEvents S cfg st = .ok (s', events)) :
    s'.Valid ∧ ∃ tenant, s' = { st.sync with tenantBinding := tenant } := by
  obtain ⟨tenantId, hassert, hcopy⟩ := Except.bind_ok.mp hcopy
  obtain ⟨bound, hbind, hcopy⟩ := Except.bind_ok.mp hcopy
  obtain ⟨_, -, heq⟩ := Except.bind_ok.mp hcopy
  cases Except.ok.inj heq
  obtain ⟨_, -, heq⟩ := Except.bind_ok.mp hassert
  refine ⟨h.bindRecords ?_ hbind, bindRecords_congr hbind⟩
  rw [← Except.ok.inj heq]
  cases hhead : st.business.tenants.head? with
  | none => exact h.tenant
  | some t => exact fun hempty => tenants_ne (List.mem_of_head? hhead) (Option.some.inj hempty)

/-- Events of distinct entities have distinct addresses. -/
theorem nodup_address_iff {events : List SyncEvent} :
    (events.map SyncEvent.address).Nodup ↔ (events.map SyncEvent.entity).Nodup := by
  rw [List.Nodup, List.Nodup, List.pairwise_map, List.pairwise_map]
  exact List.Pairwise.iff fun e e' => not_congr SyncEvent.address_eq_iff

/-- A new snapshot leaves a valid state exactly when the stream has room for its position and no
record is copied twice. -/
theorem Valid.newSnapshot_iff {S : SnapshotEnv} {st : LiteStore} {row : SnapshotRow}
    {remoteId consumerId requestId snapshotId : String} (h : st.sync.Valid)
    (hremote : remoteId ≠ "") (hconsumer : consumerId ≠ "") (hrequest : requestId ≠ "")
    (huuid : CanonicalUuid snapshotId)
    (hunused : ∀ x ∈ st.sync.snapshots, x.snapshotId ≠ snapshotId)
    (hnew : ∀ x ∈ st.sync.snapshots, requestKey x ≠ (remoteId, consumerId, requestId))
    (hrun : st.newSnapshot S cfg now remoteId consumerId requestId snapshotId = .ok (s', row)) :
    s'.Valid ↔ st.sync.retentionFloor < st.sync.nextStreamSeq ∧ (st.business.copied S).Nodup := by
  obtain ⟨_, -, hrun⟩ := Except.bind_ok.mp hrun
  obtain ⟨_, -, hrun⟩ := Except.bind_ok.mp hrun
  obtain ⟨⟨bound, events⟩, hcopy, hrun⟩ := Except.bind_ok.mp hrun
  obtain ⟨_, -, heq⟩ := Except.bind_ok.mp hrun
  cases Except.ok.inj heq
  obtain ⟨hbound, tenant, rfl⟩ := h.currentSnapshotEvents hcopy
  obtain ⟨-, hperm, htenants, -⟩ := currentSnapshotEvents_ok hcopy
  have hnodup : (st.business.copied S).Nodup ↔ (events.map SyncEvent.entity).Nodup := by
    rw [← hperm.nodup_iff, nodup_address_iff]
  have hkeys : (events.map fun e => (⟨snapshotId, e⟩ : SnapshotItem)).map itemKey =
      (events.map SyncEvent.entity).map fun k => (snapshotId, k) := by
    rw [List.map_map, List.map_map]
    rfl
  have hpos := h.next_pos
  rw [hnodup]
  constructor
  · intro hvalid
    obtain ⟨-, hlo, -⟩ := hvalid.snapshots _ (List.mem_append_right _ (List.mem_singleton_self _))
    have hitems := hvalid.item_keys
    rw [List.map_append, hkeys] at hitems
    have hlo : st.sync.retentionFloor ≤ st.sync.nextStreamSeq - 1 := hlo
    exact ⟨by omega, (List.nodup_append.mp hitems).2.1.of_map _⟩
  · rintro ⟨hroom, hevents⟩
    exact { hbound with
      snapshots := fun x hx => by
        rcases List.mem_append.mp hx with hx | hx
        · exact hbound.snapshots x hx
        · rw [List.mem_singleton.mp hx]
          refine ⟨⟨huuid, hremote, hconsumer, hrequest⟩, ?_, ?_⟩
          · show st.sync.retentionFloor ≤ st.sync.nextStreamSeq - 1
            omega
          · show st.sync.nextStreamSeq - 1 < st.sync.nextStreamSeq
            omega
      snapshot_ids := by
        rw [List.map_append, List.nodup_append]
        refine ⟨hbound.snapshot_ids, List.nodup_singleton _, ?_⟩
        rintro i hi j hj rfl
        obtain ⟨x, hx, hid⟩ := List.mem_map.mp hi
        exact hunused x hx (hid.trans (List.mem_singleton.mp hj))
      requests := by
        rw [List.map_append, List.nodup_append]
        refine ⟨hbound.requests, List.nodup_singleton _, ?_⟩
        rintro i hi j hj rfl
        obtain ⟨x, hx, hid⟩ := List.mem_map.mp hi
        exact hnew x hx (hid.trans (List.mem_singleton.mp hj))
      items := fun i hi => by
        rcases List.mem_append.mp hi with hi | hi
        · obtain ⟨hin, htenant⟩ := hbound.items i hi
          exact ⟨by rw [List.map_append]; exact List.mem_append_left _ hin, htenant⟩
        · obtain ⟨e, he, rfl⟩ := List.mem_map.mp hi
          exact ⟨by rw [List.map_append]; exact List.mem_append_right _ (List.mem_singleton_self _),
            htenants e he⟩
      item_keys := by
        rw [List.map_append, hkeys, List.nodup_append]
        refine ⟨hbound.item_keys, hevents.map fun k k' hk => (Prod.mk.inj hk).2, ?_⟩
        rintro k hk k' hk' rfl
        obtain ⟨i, hi, hkey⟩ := List.mem_map.mp hk
        obtain ⟨k, -, hkey'⟩ := List.mem_map.mp hk'
        obtain ⟨x, hx, hid⟩ := List.mem_map.mp (hbound.items i hi).1
        exact hunused x hx (hid.trans (congrArg Prod.fst (hkey.trans hkey'.symm))) }

end SyncState

end Memplex
