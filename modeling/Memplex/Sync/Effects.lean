import Memplex.Sync.Leases

/-!
# The effect of what arrives

An event that arrives is answered from the inbox, rejected, or applied. `Handling` is the record of
an event that the inbox did not answer, with the version that its entity held then: the event was
superseded if that version is not older, and has an effect otherwise. `handlings` reads the records
off the loop over a delivery, and `RepoOp.handlings` off an operation of a repository.

The inbox is the journal of the handlings: `step_entries` says that an operation appends to it what
it handles, in this order, and nothing else, and `deliver_handles` that the records of the store
change by the effects of a delivery alone.
-/

namespace Memplex

open Lib

/-! ## Handlings -/

/-- What became of an event that the inbox did not know. -/
structure Handling where
  event : SyncEvent
  /-- The version that the entity of the event held. -/
  held : Option SyncVersion
deriving DecidableEq

namespace Handling

/-- The event is not newer than what its entity held. -/
def superseded (h : Handling) : Bool := h.held.any fun held => h.event.version ≤ held

/-- The outcome that the inbox keeps. -/
def outcome (h : Handling) : ReceiptOutcome :=
  if h.superseded then .rejectedConflict else .accepted

/-- What the inbox keeps of a handling. -/
def entry (h : Handling) : (String × String) × ReceiptOutcome := (h.event.identity, h.outcome)

end Handling

/-- What a row of the inbox says. -/
def InboxRow.entry (r : InboxRow) : (String × String) × ReceiptOutcome := (r.identity, r.outcome)

/-- The events that were applied. -/
def effects (hs : List Handling) : List SyncEvent :=
  (hs.filter fun h => !h.superseded).map Handling.event

theorem effects_append (hs hs' : List Handling) : effects (hs ++ hs') = effects hs ++ effects hs' := by
  rw [effects, List.filter_append, List.map_append]
  rfl

/-- What one round of the loop over a delivery handles. -/
def ApplyState.handling (st : ApplyState) (event : SyncEvent) : List Handling :=
  match findRow InboxRow.identity event.identity st.store.sync.inbox with
  | some _ => []
  | none => [⟨event, (st.store.sync.entityVersions.get? event.entity).map VersionRow.version⟩]

theorem ApplyState.handling_known {st : ApplyState} {event : SyncEvent} {row : InboxRow}
    (h : findRow InboxRow.identity event.identity st.store.sync.inbox = some row) :
    st.handling event = [] := by
  rw [handling, h]

theorem ApplyState.handling_new {st : ApplyState} {event : SyncEvent}
    (h : findRow InboxRow.identity event.identity st.store.sync.inbox = none) :
    st.handling event =
      [⟨event, (st.store.sync.entityVersions.get? event.entity).map VersionRow.version⟩] := by
  rw [handling, h]

/-- What the loop over a delivery handles. -/
def handlings (cfg : SyncConfig) (env : Env) (clock : SyncEvent → String) :
    ApplyState → List SyncEvent → List Handling
  | _, [] => []
  | st, event :: events => st.handling event ++
      match st.applyEvent cfg env clock event with
      | .ok st' => handlings cfg env clock st' events
      | .error _ => []

section Operations

variable (cfg : SyncConfig) (env : Env) (sha256 : ByteArray → String)

/-- What the loop of a delivery handles, which a repeated batch and a confirmed page do not enter. -/
def Content.handlings (clock : SyncEvent → String) (store : LiteStore) : Content → List Handling
  | .batch b =>
    match store.sync.bindTenant b.tenantId with
    | .error _ => []
    | .ok sync =>
      if (sync.findBatch b.batchId).isSome then []
      else Memplex.handlings cfg env clock ⟨{ store with sync := sync }, [], []⟩ b.events
  | .page remoteId p =>
    match store.sync.bindPageTenant p.events with
    | .error _ => []
    | .ok sync =>
      if p.nextAfterSeq ≤ sync.confirmed cfg remoteId then []
      else Memplex.handlings cfg env clock ⟨{ store with sync := sync }, [], []⟩ p.events

/-- What a delivery handles: nothing where it fails, since the transaction is undone. -/
def Delivery.handlings (store : LiteStore) (d : Delivery) : List Handling :=
  match deliver cfg env sha256 store d with
  | .error _ => []
  | .ok _ => d.content.handlings cfg env d.clock store

/-- What an operation of a repository handles. -/
def RepoOp.handlings (store : LiteStore) : RepoOp → List Handling
  | .base (.deliver d) => d.handlings cfg env sha256 store
  | _ => []

end Operations

/-! ## What handling does -/

/-- The records after some events were applied, one after the other. -/
inductive Applied (env : Env) : BusinessState → List SyncEvent → BusinessState → Prop where
  | nil {b : BusinessState} : Applied env b [] b
  | cons {b b₁ b₂ : BusinessState} {event : SyncEvent} {events : List SyncEvent} {now : String}
      {edgeTombstones edgeTombstones' : List SyncEntityKey}
      (happly : applyBusinessEvent env now b edgeTombstones event = .ok (b₁, edgeTombstones'))
      (hrest : Applied env b₁ events b₂) : Applied env b (event :: events) b₂

theorem Applied.append {env : Env} {b b₁ b₂ : BusinessState} {es es' : List SyncEvent}
    (h : Applied env b es b₁) (h' : Applied env b₁ es' b₂) : Applied env b (es ++ es') b₂ := by
  induction h with
  | nil => exact h'
  | cons happly _ ih => exact .cons happly (ih h')

/-- A store between whose states some events were handled: its inbox has one row more for each of
them, which it did not have before, and its records are those that their effects have left. -/
structure Handles (env : Env) (s : LiteStore) (hs : List Handling) (s' : LiteStore) : Prop where
  entries : s'.sync.inbox.map InboxRow.entry =
    s.sync.inbox.map InboxRow.entry ++ hs.map Handling.entry
  nodup : s.sync.identities.Nodup → s'.sync.identities.Nodup
  records : Applied env s.business (effects hs) s'.business

namespace Handles

variable {env : Env} {s s₁ s₂ : LiteStore} {hs hs' : List Handling}

theorem refl (env : Env) (s : LiteStore) : Handles env s [] s := ⟨by simp, id, .nil⟩

theorem trans (h : Handles env s hs s₁) (h' : Handles env s₁ hs' s₂) :
    Handles env s (hs ++ hs') s₂ where
  entries := by rw [h'.entries, h.entries, List.map_append, List.append_assoc]
  nodup hs := h'.nodup (h.nodup hs)
  records := by
    rw [effects_append]
    exact h.records.append h'.records

/-- Handling depends on the inbox and the records. -/
theorem congr {t t' : LiteStore} (h : Handles env s hs s₁)
    (hinbox : t.sync.inbox = s.sync.inbox) (hbusiness : t.business = s.business)
    (hinbox' : t'.sync.inbox = s₁.sync.inbox) (hbusiness' : t'.business = s₁.business) :
    Handles env t hs t' := by
  constructor
  · rw [hinbox, hinbox']
    exact h.entries
  · rw [SyncState.identities, SyncState.identities, hinbox, hinbox']
    exact h.nodup
  · rw [hbusiness, hbusiness']
    exact h.records

end Handles

/-- One round of the loop. -/
theorem applyEvent_handles {cfg : SyncConfig} {env : Env} {clock : SyncEvent → String}
    {st st' : ApplyState} {event : SyncEvent} (h : st.applyEvent cfg env clock event = .ok st') :
    Handles env st.store (st.handling event) st'.store := by
  have hnodup := (applyEvent_takes h).nodup
  have haccept : ∀ held : Option SyncVersion, (∀ v ∈ held, ¬ event.version ≤ v) →
      st.accept cfg env (clock event) event = .ok st' →
      Handles env st.store [⟨event, held⟩] st'.store := by
    intro held hnewer hacc
    obtain ⟨⟨b', ts'⟩, hbusiness, hacc⟩ := Except.bind_ok.mp hacc
    obtain ⟨⟨sync', seq⟩, happend, heq⟩ := Except.bind_ok.mp hacc
    cases Except.ok.inj heq
    obtain ⟨rfl, -, -, -⟩ := SyncState.appendEvent_ok happend
    have hfresh : Handling.superseded ⟨event, held⟩ = false := by
      cases held with
      | none => rfl
      | some v => exact decide_eq_false (hnewer v rfl)
    have heffects : effects [⟨event, held⟩] = [event] := by
      rw [effects, List.filter_cons_of_pos (by rw [hfresh]; rfl), List.filter_nil]
      rfl
    refine ⟨?_, hnodup, ?_⟩
    · rw [List.map_cons, List.map_nil, Handling.entry, Handling.outcome, hfresh]
      exact List.map_append
    · rw [heffects]
      exact .cons hbusiness .nil
  unfold ApplyState.applyEvent at h
  split at h
  next row hrow =>
    -- The inbox answers.
    cases Except.ok.inj h
    rw [ApplyState.handling_known hrow]
    exact .refl env st.store
  next hnone =>
    rw [ApplyState.handling_new hnone]
    split at h
    next current hcurrent =>
      rw [hcurrent]
      split_ifs at h with hle
      · -- The event is not newer, and leaves a row in the inbox alone.
        cases Except.ok.inj h
        have hold : Handling.superseded ⟨event, some current.version⟩ = true := decide_eq_true hle
        have heffects : effects [⟨event, some current.version⟩] = [] := by
          rw [effects, List.filter_cons_of_neg (by rw [hold]; simp), List.filter_nil]
          rfl
        refine ⟨?_, hnodup, ?_⟩
        · rw [List.map_cons, List.map_nil, Handling.entry, Handling.outcome]
          show List.map InboxRow.entry (_ ++ _) = _
          rw [List.map_append, Option.map_some, hold]
          rfl
        · rw [Option.map_some, heffects]
          exact .nil
      · refine haccept (some current.version) ?_ h
        rintro v hv
        cases Option.mem_some.mp hv
        exact hle
    next hcurrent =>
      rw [hcurrent]
      exact haccept none (by simp) h

/-- The loop over a delivery. -/
theorem applyEvents_handles {cfg : SyncConfig} {env : Env} {clock : SyncEvent → String}
    {events : List SyncEvent} {st st' : ApplyState}
    (h : events.foldlM (ApplyState.applyEvent cfg env clock) st = .ok st') :
    Handles env st.store (handlings cfg env clock st events) st'.store := by
  induction events generalizing st with
  | nil =>
    cases Except.ok.inj h
    exact .refl env _
  | cons e events ih =>
    rw [List.foldlM_cons] at h
    obtain ⟨st₁, hstep, hrest⟩ := Except.bind_ok.mp h
    rw [handlings, hstep]
    exact (applyEvent_handles hstep).trans (ih hrest)

/-! ## Deliveries -/

theorem syncApplyBatch_handles {cfg : SyncConfig} {env : Env} {sha256 : ByteArray → String}
    {now : Instant} {clock : SyncEvent → String} {s s' : LiteStore} {b : SyncBatch}
    {result : SyncBatchResult}
    (h : syncApplyBatch cfg env sha256 now clock s b = .ok (s', result)) :
    Handles env s (Content.handlings cfg env clock s (.batch b)) s' := by
  obtain ⟨sync, hbind, h⟩ := Except.bind_ok.mp h
  have hinbox : sync.inbox = s.sync.inbox := by
    rw [(SyncState.bindTenant_ok hbind).1]
  simp only [Content.handlings, hbind]
  split at h
  next existing hfound =>
    obtain ⟨_, -, heq⟩ := Except.bind_ok.mp h
    cases Except.ok.inj heq
    have hrepeated : (some existing).isSome = true := rfl
    rw [hfound, if_pos hrepeated]
    exact (Handles.refl env s).congr rfl rfl hinbox rfl
  next hnone =>
    obtain ⟨st, happly, heq⟩ := Except.bind_ok.mp h
    cases Except.ok.inj heq
    rw [hnone, if_neg (by simp)]
    exact (applyEvents_handles happly).congr hinbox.symm rfl rfl rfl

theorem syncApplyPage_handles {cfg : SyncConfig} {env : Env} {now : Instant}
    {clock : SyncEvent → String} {s s' : LiteStore} {remoteId : String} {p : SyncPage}
    {result : SyncApplyResult}
    (h : syncApplyPage cfg env now clock s remoteId p = .ok (s', result)) :
    Handles env s (Content.handlings cfg env clock s (.page remoteId p)) s' := by
  obtain ⟨-, -, h⟩ := Except.bind_ok.mp h
  obtain ⟨-, -, h⟩ := Except.bind_ok.mp h
  obtain ⟨events, hvalid, h⟩ := Except.bind_ok.mp h
  cases validateIncomingPage_ok hvalid
  obtain ⟨sync, hbind, h⟩ := Except.bind_ok.mp h
  obtain ⟨-, -, h⟩ := Except.bind_ok.mp h
  obtain ⟨-, -, h⟩ := Except.bind_ok.mp h
  have hinbox : sync.inbox = s.sync.inbox := by
    obtain ⟨tenant, rfl⟩ := bindPageTenant_congr hbind
    rfl
  simp only [Content.handlings, hbind]
  by_cases hskip : p.nextAfterSeq ≤ sync.confirmed cfg remoteId
  · rw [if_pos hskip] at h ⊢
    cases Except.ok.inj h
    exact (Handles.refl env s).congr rfl rfl hinbox rfl
  · rw [if_neg hskip] at h ⊢
    obtain ⟨st, happly, heq⟩ := Except.bind_ok.mp h
    cases Except.ok.inj heq
    exact (applyEvents_handles happly).congr hinbox.symm rfl rfl rfl

/-- What a delivery does to a store: the records change by its effects, and the inbox by its
handlings. -/
theorem deliver_handles {cfg : SyncConfig} {env : Env} {sha256 : ByteArray → String}
    {s s' : LiteStore} {d : Delivery} (h : deliver cfg env sha256 s d = .ok s') :
    Handles env s (d.handlings cfg env sha256 s) s' := by
  rw [Delivery.handlings, h]
  obtain ⟨content, now, clock⟩ := d
  cases content with
  | batch b =>
    obtain ⟨⟨s₁, result⟩, happly, rfl⟩ := Except.map_ok h
    exact syncApplyBatch_handles happly
  | page remoteId p =>
    obtain ⟨⟨s₁, result⟩, happly, rfl⟩ := Except.map_ok h
    exact syncApplyPage_handles happly

/-! ## Other operations -/

/-- A change that leaves what is known of deliveries alone. -/
structure Untouched (s s' : SyncState) : Prop where
  inbox : s'.inbox = s.inbox
  batches : s'.batches = s.batches

theorem Untouched.refl (s : SyncState) : Untouched s s := ⟨rfl, rfl⟩

section Untouching

open SyncState

theorem captureLocalEvent_untouched {s s' : SyncState} {cfg : SyncConfig} {e : SyncEvent}
    (h : s.captureLocalEvent cfg e = .ok s') : Untouched s s' := by
  cases hcfg : cfg.captureRequired with
  | false =>
    rw [captureLocalEvent, hcfg, if_pos rfl] at h
    cases Except.ok.inj h
    exact .refl s
  | true =>
    cases captureLocalEvent_ok hcfg h
    exact ⟨rfl, rfl⟩

theorem registerTarget_untouched {s s' : SyncState} {cfg : SyncConfig} {now : Instant}
    {targetId : String} {bootstrap : Bootstrap}
    (h : s.registerTarget cfg now targetId bootstrap = .ok s') : Untouched s s' := by
  obtain ⟨-, -, h⟩ := Except.bind_ok.mp h
  obtain ⟨-, -, h⟩ := Except.bind_ok.mp h
  split at h
  · cases Except.ok.inj h
    exact .refl s
  · obtain ⟨-, -, heq⟩ := Except.bind_ok.mp h
    cases Except.ok.inj heq
    exact ⟨rfl, rfl⟩

theorem setTargetEnabled_untouched {s s' : SyncState} {targetId : String} {enabled : Bool}
    (h : s.setTargetEnabled targetId enabled = .ok s') : Untouched s s' := by
  obtain ⟨-, -, h⟩ := Except.bind_ok.mp h
  split at h
  · exact absurd h (by simp)
  · cases Except.ok.inj h
    exact ⟨rfl, rfl⟩

theorem claim_untouched {s s' : SyncState} {cfg : SyncConfig} {now : Instant} {leaseId : ℕ → String}
    {targetId : String} {limit leaseSeconds : ℕ} {handed : List SyncDelivery}
    (h : s.claim cfg now leaseId targetId limit leaseSeconds = .ok (s', handed)) :
    Untouched s s' := by
  obtain ⟨-, -, h⟩ := Except.bind_ok.mp h
  obtain ⟨-, -, h⟩ := Except.bind_ok.mp h
  obtain ⟨-, -, h⟩ := Except.bind_ok.mp h
  split at h
  · cases Except.ok.inj h
    exact .refl s
  · split_ifs at h
    · cases Except.ok.inj h
      exact ⟨rfl, rfl⟩
    · cases Except.ok.inj h
      exact .refl s

theorem ackBatch_untouched {s s' : SyncState} {now : Instant} {ds : List SyncDelivery}
    {receipts : List SyncReceipt} (h : s.ackBatch now ds receipts = .ok s') : Untouched s s' := by
  obtain ⟨-, -, h⟩ := Except.bind_ok.mp h
  obtain ⟨-, -, h⟩ := Except.bind_ok.mp h
  obtain ⟨-, -, heq⟩ := Except.bind_ok.mp h
  obtain ⟨g, -, hfold, -⟩ := foldl_ackRow ds s
  rw [← Except.ok.inj heq, hfold]
  exact ⟨rfl, rfl⟩

theorem endLease_untouched {s s' : SyncState} {clock : Instant} {x : SyncDelivery}
    {errorCode : String} {f : DeliveryRow → DeliveryRow}
    (h : s.endLease clock x errorCode f = .ok s') : Untouched s s' := by
  obtain ⟨-, -, h⟩ := Except.bind_ok.mp h
  split at h
  · cases Except.ok.inj h
    exact .refl s
  · obtain ⟨-, -, heq⟩ := Except.bind_ok.mp h
    cases Except.ok.inj heq
    exact ⟨rfl, rfl⟩

theorem replayDeadLetter_untouched {s s' : SyncState} {now : Instant} {targetId eventId : String}
    {found : Bool} (h : s.replayDeadLetter now targetId eventId = .ok (s', found)) :
    Untouched s s' := by
  obtain ⟨-, -, h⟩ := Except.bind_ok.mp h
  obtain ⟨-, -, h⟩ := Except.bind_ok.mp h
  split at h
  · cases Except.ok.inj h
    exact .refl s
  · cases Except.ok.inj h
    exact ⟨rfl, rfl⟩

theorem page_untouched {s s' : SyncState} {now : Instant} {remoteId consumerId : String}
    {cursor : Option SyncCursorClaims} {limit : ℕ} {p : SyncPage}
    (h : s.page now remoteId consumerId cursor limit = .ok (s', p)) : Untouched s s' := by
  obtain ⟨-, -, h⟩ := Except.bind_ok.mp h
  obtain ⟨-, -, h⟩ := Except.bind_ok.mp h
  obtain ⟨-, -, h⟩ := Except.bind_ok.mp h
  obtain ⟨-, -, h⟩ := Except.bind_ok.mp h
  obtain ⟨-, -, h⟩ := Except.bind_ok.mp h
  obtain ⟨_, -, heq⟩ := Except.bind_ok.mp h
  cases Except.ok.inj heq
  split_ifs
  · exact ⟨rfl, rfl⟩
  · exact ⟨rfl, rfl⟩

theorem compact_untouched {s s' : SyncState} {cfg : SyncConfig} {now : Instant} {limit n : ℕ}
    (h : s.compact cfg now limit = .ok (s', n)) : Untouched s s' := by
  obtain ⟨-, -, heq⟩ := Except.bind_ok.mp h
  cases Except.ok.inj heq
  unfold dropEvents
  split
  · exact ⟨rfl, rfl⟩
  · exact ⟨rfl, rfl⟩

theorem createSnapshot_untouched {s s' : SyncState} {cfg : SyncConfig} {now : Instant}
    {remoteId consumerId requestId snapshotId : String} {limit : ℕ} {tenantId : Option String}
    {events : List SyncEvent} {p : SyncSnapshotPage}
    (h : s.createSnapshot cfg now remoteId consumerId requestId limit tenantId events snapshotId =
      .ok (s', p)) : Untouched s s' := by
  obtain ⟨-, -, h⟩ := Except.bind_ok.mp h
  obtain ⟨-, -, h⟩ := Except.bind_ok.mp h
  obtain ⟨-, -, h⟩ := Except.bind_ok.mp h
  obtain ⟨-, -, h⟩ := Except.bind_ok.mp h
  obtain ⟨⟨s₁, row⟩, hopen, heq⟩ := Except.bind_ok.mp h
  cases Except.ok.inj heq
  unfold openSnapshot at hopen
  split at hopen
  · cases Except.ok.inj hopen
    exact ⟨rfl, rfl⟩
  · obtain ⟨-, -, hopen⟩ := Except.bind_ok.mp hopen
    obtain ⟨-, -, hopen⟩ := Except.bind_ok.mp hopen
    obtain ⟨s₂, hbind, hopen⟩ := Except.bind_ok.mp hopen
    obtain ⟨-, -, heq⟩ := Except.bind_ok.mp hopen
    cases Except.ok.inj heq
    cases tenantId with
    | none =>
      cases Except.ok.inj hbind
      exact ⟨rfl, rfl⟩
    | some tenantId =>
      obtain ⟨rfl, -⟩ := bindTenant_ok hbind
      exact ⟨rfl, rfl⟩

end Untouching

/-- Only a delivery changes what is known of deliveries. -/
theorem step_untouched (cfg : SyncConfig) (env : Env) (sha256 : ByteArray → String) (s : LiteStore)
    {op : RepoOp} (hop : ∀ d, op ≠ .base (.deliver d)) :
    Untouched s.sync (op.step cfg env sha256 s).sync := by
  unfold RepoOp.step
  split
  next s' happly =>
    cases op with
    | createSnapshot now remoteId consumerId requestId limit tenantId events snapshotId =>
      obtain ⟨⟨sync, p⟩, hrun, rfl⟩ := Except.map_ok happly
      exact createSnapshot_untouched hrun
    | readSnapshot now =>
      cases Except.ok.inj happly
      exact ⟨rfl, rfl⟩
    | base op =>
      cases op with
      | deliver d => exact absurd rfl (hop d)
      | capture business event =>
        obtain ⟨sync, hrun, rfl⟩ := Except.map_ok happly
        exact captureLocalEvent_untouched hrun
      | registerTarget now targetId bootstrap =>
        obtain ⟨sync, hrun, rfl⟩ := Except.map_ok happly
        exact registerTarget_untouched hrun
      | setTargetEnabled targetId enabled =>
        obtain ⟨sync, hrun, rfl⟩ := Except.map_ok happly
        exact setTargetEnabled_untouched hrun
      | claim now leaseId targetId limit leaseSeconds =>
        obtain ⟨⟨sync, handed⟩, hrun, rfl⟩ := Except.map_ok happly
        exact claim_untouched hrun
      | ackBatch now deliveries receipts =>
        obtain ⟨sync, hrun, rfl⟩ := Except.map_ok happly
        exact ackBatch_untouched hrun
      | fail clock x errorCode now =>
        obtain ⟨sync, hrun, rfl⟩ := Except.map_ok happly
        exact endLease_untouched hrun
      | deadLetter clock x errorCode now =>
        obtain ⟨sync, hrun, rfl⟩ := Except.map_ok happly
        exact endLease_untouched hrun
      | replayDeadLetter now targetId eventId =>
        obtain ⟨⟨sync, found⟩, hrun, rfl⟩ := Except.map_ok happly
        exact replayDeadLetter_untouched hrun
      | page now remoteId consumerId cursor limit =>
        obtain ⟨⟨sync, p⟩, hrun, rfl⟩ := Except.map_ok happly
        exact page_untouched hrun
      | compact now limit =>
        obtain ⟨⟨sync, n⟩, hrun, rfl⟩ := Except.map_ok happly
        exact compact_untouched hrun
  · exact .refl s.sync

/-- The journal: an operation appends to the inbox what it handles, and nothing else, and no
identity twice. -/
theorem step_entries (cfg : SyncConfig) (env : Env) (sha256 : ByteArray → String) (s : LiteStore)
    (op : RepoOp) :
    (op.step cfg env sha256 s).sync.inbox.map InboxRow.entry =
        s.sync.inbox.map InboxRow.entry ++
          (op.handlings cfg env sha256 s).map Handling.entry ∧
      (s.sync.identities.Nodup → (op.step cfg env sha256 s).sync.identities.Nodup) := by
  by_cases hop : ∃ d, op = .base (.deliver d)
  · obtain ⟨d, rfl⟩ := hop
    show _ = _ ++ (d.handlings cfg env sha256 s).map Handling.entry ∧ _
    unfold RepoOp.step
    split
    next s' happly =>
      have hhandles := deliver_handles happly
      exact ⟨hhandles.entries, hhandles.nodup⟩
    next e happly =>
      -- The transaction is undone, and counts for nothing.
      have hfails : deliver cfg env sha256 s d = .error e := happly
      have hnothing : d.handlings cfg env sha256 s = [] := by rw [Delivery.handlings, hfails]
      rw [hnothing, List.map_nil, List.append_nil]
      exact ⟨rfl, id⟩
  · have hother : ∀ d, op ≠ .base (.deliver d) := fun d hd => hop ⟨d, hd⟩
    have hnothing : op.handlings cfg env sha256 s = [] := by
      unfold RepoOp.handlings
      split
      next d => exact absurd rfl (hother d)
      · rfl
    have hinbox := (step_untouched cfg env sha256 s hother).inbox
    rw [SyncState.identities, SyncState.identities, hinbox, hnothing, List.map_nil, List.append_nil]
    exact ⟨rfl, id⟩

end Memplex
