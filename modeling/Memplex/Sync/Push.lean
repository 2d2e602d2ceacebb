import Memplex.Sync.Dispatch

/-!
# Push delivery

A sender with its outbox, a dispatcher, and a receiver at each target. Requests and answers travel
by a network that loses, repeats, delays and reorders them: what was sent stays under way, and may
arrive any number of times, at any time. Between the steps of a delivery each store has its other
work, leases expire, and what was claimed is grouped into batches anew.

Three parts make the delivery of an event happen once (`push_exactly_once`). The inbox of a receiver
takes an identity once, so that no event is applied twice. An answer that names a batch is only given
when the events of the batch are in the inbox, now or at an earlier time (`Answers`), and stays true.
And a delivery is acknowledged only by such an answer, for a lease on an event of this node
(`LeasedLocal`).
-/

namespace Memplex

open Lib

/-! ## The parties -/

/-- What does not change: the configurations, and the functions of the platform. -/
structure PushNet where
  sender : SyncConfig
  receiver : String → SyncConfig
  env : Env
  sha256 : ByteArray → String
  uuid5 : String → String

/-- A request of the dispatcher, with the deliveries that it is sent for. -/
structure Push where
  targetId : String
  deliveries : List SyncDelivery
  batch : SyncBatch

/-- The stores, what the claims have handed out, and the requests and answers under way. -/
structure PushState where
  sender : LiteStore
  receiver : String → LiteStore
  handed : List SyncDelivery
  pushes : List Push
  replies : List (String × Reply)

/-- An answer without a result. -/
def Reply.faulty (r : Reply) : Bool :=
  (∀ status ∈ r.status, status < 200 ∨ 300 ≤ status) ∨
    ∀ body ∈ r.body, (SyncBatchResult.parse body).toOption.isNone

/-- The operation is an acknowledgement. -/
def RepoOp.acknowledges : RepoOp → Bool
  | .base (.ackBatch _ _ _) => true
  | _ => false

/-- A step of a run. -/
inductive PushStep where
  /-- The repository of the sender has other work, or hands out deliveries. -/
  | outbox (op : RepoOp)
  /-- The repository of a receiver has other work. -/
  | inbox (targetId : String) (op : RepoOp)
  /-- The dispatcher sends deliveries that were handed out for a target. -/
  | send (targetId : String) (deliveries : List SyncDelivery)
  /-- A request arrives. -/
  | arrive (push : ℕ) (now : Instant) (clock : SyncEvent → String)
  /-- An answer without a result is on its way, of whatever origin. -/
  | fault (targetId : String) (reply : Reply)
  /-- The dispatcher ends a request, with an answer of the target or without any. -/
  | settle (push reply : ℕ) (times : SendTimes)

namespace PushNet

variable (net : PushNet)

/-- The answers of a target. -/
def answers (st : PushState) (targetId : String) : List Reply :=
  (st.replies.filter fun r => r.1 = targetId).map Prod.snd

/-- What the dispatcher asks of the repository at the end of a request. -/
def settling (st : PushState) (push : Push) (reply : ℕ) (times : SendTimes) : List RepoOp :=
  (sendOutcome net.sha256 push.batch push.deliveries (answers st push.targetId)[reply]?).ops times
    push.deliveries

/-- One step. Acknowledgements come from the dispatcher alone. -/
def step (st : PushState) : PushStep → PushState
  | .outbox op =>
    if op.acknowledges then st
    else { st with
      sender := op.step net.sender net.env net.sha256 st.sender
      handed := st.handed ++ handedBy net.sender st.sender.sync op }
  | .inbox targetId op =>
    { st with
      receiver := Function.update st.receiver targetId
        (op.step (net.receiver targetId) net.env net.sha256 (st.receiver targetId)) }
  | .send targetId deliveries =>
    if ∀ x ∈ deliveries, x ∈ st.handed ∧ x.targetId = targetId then
      match dispatchBatch net.uuid5 net.sender.localNodeId targetId deliveries with
      | .ok batch => { st with pushes := st.pushes ++ [⟨targetId, deliveries, batch⟩] }
      | .error _ => st
    else st
  | .arrive i now clock =>
    match st.pushes[i]? with
    | none => st
    | some push =>
      let answer := pushBatch (net.receiver push.targetId) net.env net.sha256 now clock
        (st.receiver push.targetId) push.batch.canonicalBytes
      { st with
        receiver := Function.update st.receiver push.targetId answer.1
        replies := st.replies ++ [(push.targetId, answer.2)] }
  | .fault targetId reply =>
    if reply.faulty then { st with replies := st.replies ++ [(targetId, reply)] } else st
  | .settle i j times =>
    match st.pushes[i]? with
    | none => st
    | some push =>
      { st with
        sender := attempt net.sender net.env net.sha256 st.sender (net.settling st push j times) }

/-- A run. -/
def run (st : PushState) (steps : List PushStep) : PushState := steps.foldl net.step st

/-- A run in two parts. -/
theorem run_append (st : PushState) (xs ys : List PushStep) :
    net.run st (xs ++ ys) = net.run (net.run st xs) ys :=
  List.foldl_append

/-- The beginning: nothing was written anywhere, and nothing sent. -/
def start : PushState := ⟨.empty, fun _ => .empty, [], [], []⟩

/-- The work of a receiver in a step. -/
def received (st : PushState) : PushStep → Option (String × RepoOp)
  | .inbox targetId op => some (targetId, op)
  | .arrive i now clock =>
    match st.pushes[i]? with
    | none => none
    | some push =>
      match validateIngressBatch net.sha256 push.batch.canonicalBytes
          (net.sha256 push.batch.canonicalBytes) with
      | .ok batch => some (push.targetId, .base (.deliver ⟨.batch batch, now, clock⟩))
      | .error _ => none
  | _ => none

/-- What a receiver handles in a step. -/
def handles (targetId : String) (st : PushState) (x : PushStep) : List Handling :=
  match net.received st x with
  | some (id, op) =>
    if id = targetId then
      op.handlings (net.receiver targetId) net.env net.sha256 (st.receiver targetId)
    else []
  | none => []

/-- What a receiver handles in a run. -/
def handled (targetId : String) : PushState → List PushStep → List Handling
  | _, [] => []
  | st, x :: xs => net.handles targetId st x ++ handled targetId (net.step st x) xs

/-- The batches of a run: those that the dispatcher has sent, and those that receivers were delivered
beside. -/
def batches (steps : List PushStep) : Set SyncBatch :=
  {b | (∃ push ∈ (net.run start steps).pushes, push.batch = b) ∨
    ∃ targetId now clock, PushStep.inbox targetId (.base (.deliver ⟨.batch b, now, clock⟩)) ∈ steps}

end PushNet

/-! ## The receivers -/

/-- The endpoint does to the store what the delivery of the batch does. -/
theorem pushBatch_store {cfg : SyncConfig} {env : Env} {sha256 : ByteArray → String} {now : Instant}
    {clock : SyncEvent → String} {s : LiteStore} {raw : ByteArray} {batch : SyncBatch}
    (hbatch : validateIngressBatch sha256 raw (sha256 raw) = .ok batch) :
    (pushBatch cfg env sha256 now clock s raw).1 =
      RepoOp.step cfg env sha256 s (.base (.deliver ⟨.batch batch, now, clock⟩)) := by
  have happly : RepoOp.apply cfg env sha256 s (.base (.deliver ⟨.batch batch, now, clock⟩)) =
      (syncApplyBatch cfg env sha256 now clock s batch).map Prod.fst := rfl
  rw [RepoOp.step, happly]
  simp only [pushBatch, hbatch]
  cases syncApplyBatch cfg env sha256 now clock s batch with
  | error e => rfl
  | ok r => rfl

namespace PushNet

variable {net : PushNet} {st : PushState}

/-- A step changes the receivers by the work of one of them. -/
theorem step_receiver (net : PushNet) (st : PushState) (x : PushStep) :
    (net.step st x).receiver = match net.received st x with
      | some (targetId, op) => Function.update st.receiver targetId
          (op.step (net.receiver targetId) net.env net.sha256 (st.receiver targetId))
      | none => st.receiver := by
  cases x with
  | outbox op =>
    rw [step]
    split_ifs
    · rfl
    · rfl
  | inbox targetId op => rfl
  | send targetId deliveries =>
    rw [step]
    split_ifs
    · split
      · rfl
      · rfl
    · rfl
  | fault targetId reply =>
    rw [step]
    split_ifs
    · rfl
    · rfl
  | settle i j times =>
    rw [step]
    split
    · rfl
    · rfl
  | arrive i now clock =>
    rw [step, received]
    cases st.pushes[i]? with
    | none => rfl
    | some push =>
      cases hbatch : validateIngressBatch net.sha256 push.batch.canonicalBytes
          (net.sha256 push.batch.canonicalBytes) with
      | ok batch =>
        simp only [hbatch, pushBatch_store hbatch]
      | error e =>
        have hsame : (pushBatch (net.receiver push.targetId) net.env net.sha256 now clock
            (st.receiver push.targetId) push.batch.canonicalBytes).1 =
              st.receiver push.targetId := by
          simp only [pushBatch, hbatch]
        simp only [hbatch, hsame, Function.update_eq_self]

/-- The step of the journal: the inbox of a receiver grows by what it handles. -/
theorem step_journal (net : PushNet) (st : PushState) (x : PushStep) (targetId : String) :
    ((net.step st x).receiver targetId).sync.inbox.map InboxRow.entry =
        (st.receiver targetId).sync.inbox.map InboxRow.entry ++
          (net.handles targetId st x).map Handling.entry ∧
      ((st.receiver targetId).sync.identities.Nodup →
        ((net.step st x).receiver targetId).sync.identities.Nodup) := by
  rw [step_receiver, handles]
  cases net.received st x with
  | none => exact ⟨by simp, id⟩
  | some work =>
    obtain ⟨id', op⟩ := work
    by_cases hid : id' = targetId
    · subst hid
      simp only [Function.update_self, if_true]
      exact step_entries (net.receiver id') net.env net.sha256 (st.receiver id') op
    · simp only [Function.update_of_ne (Ne.symm hid), if_neg hid, List.map_nil, List.append_nil]
      exact ⟨trivial, id⟩

/-- The run of the journal. -/
theorem run_journal (net : PushNet) (st : PushState) (xs : List PushStep) (targetId : String) :
    ((net.run st xs).receiver targetId).sync.inbox.map InboxRow.entry =
        (st.receiver targetId).sync.inbox.map InboxRow.entry ++
          (net.handled targetId st xs).map Handling.entry ∧
      ((st.receiver targetId).sync.identities.Nodup →
        ((net.run st xs).receiver targetId).sync.identities.Nodup) := by
  induction xs generalizing st with
  | nil => exact ⟨by simp [handled, run], id⟩
  | cons x xs ih =>
    obtain ⟨hentries, hnodup⟩ := step_journal net st x targetId
    obtain ⟨hrest, hrestNodup⟩ := ih (net.step st x)
    refine ⟨?_, fun h => hrestNodup (hnodup h)⟩
    calc ((net.run st (x :: xs)).receiver targetId).sync.inbox.map InboxRow.entry
        = ((net.run (net.step st x) xs).receiver targetId).sync.inbox.map InboxRow.entry := rfl
      _ = ((net.step st x).receiver targetId).sync.inbox.map InboxRow.entry ++
            (net.handled targetId (net.step st x) xs).map Handling.entry := hrest
      _ = (st.receiver targetId).sync.inbox.map InboxRow.entry ++
            (net.handled targetId st (x :: xs)).map Handling.entry := by
          rw [hentries, handled, List.map_append, List.append_assoc]

/-- The identities that a receiver has recorded are those that it has handled. -/
theorem identities_run (net : PushNet) (xs : List PushStep) (targetId : String) :
    ((net.run start xs).receiver targetId).sync.identities =
      (net.handled targetId start xs).map fun h => h.event.identity := by
  have hjournal := congrArg (List.map Prod.fst) (run_journal net start xs targetId).1
  rw [List.map_append, List.map_map, List.map_map, List.map_map] at hjournal
  have hempty : ((start.receiver targetId).sync.inbox : List InboxRow) = [] := rfl
  rw [hempty, List.map_nil, List.nil_append] at hjournal
  exact hjournal

/-- What is recorded stays recorded. -/
theorem identities_mono (net : PushNet) (st : PushState) (xs : List PushStep) {targetId : String}
    {i : String × String} (h : i ∈ (st.receiver targetId).sync.identities) :
    i ∈ ((net.run st xs).receiver targetId).sync.identities := by
  have hjournal := congrArg (List.map Prod.fst) (run_journal net st xs targetId).1
  rw [List.map_append, List.map_map, List.map_map] at hjournal
  have hsplit : ((net.run st xs).receiver targetId).sync.identities =
      (st.receiver targetId).sync.identities ++ _ := hjournal
  rw [hsplit]
  exact List.mem_append_left _ h

end PushNet

/-! ## Answers -/

/-- A result names the digest of a batch whose events are recorded. -/
def Answers (sha256 : ByteArray → String) (batches : Set SyncBatch) (s : SyncState)
    (result : SyncBatchResult) : Prop :=
  ∃ b ∈ batches, result.requestDigest = b.requestDigest sha256 ∧
    ∀ e ∈ b.events, e.identity ∈ s.identities

theorem Answers.mono {sha256 : ByteArray → String} {batches : Set SyncBatch} {s s' : SyncState}
    {result : SyncBatchResult} (h : Answers sha256 batches s result)
    (hids : ∀ i ∈ s.identities, i ∈ s'.identities) : Answers sha256 batches s' result := by
  obtain ⟨b, hb, hdigest, hevents⟩ := h
  exact ⟨b, hb, hdigest, fun e he => hids _ (hevents e he)⟩

/-- The responses that a store remembers are answers. -/
def AnswersAll (sha256 : ByteArray → String) (batches : Set SyncBatch) (s : SyncState) : Prop :=
  ∀ row ∈ s.batches, Answers sha256 batches s row.response

/-- A store whose responses are answers gives an answer for a batch, and remembers answers. -/
theorem syncApplyBatch_answers {cfg : SyncConfig} {env : Env} {sha256 : ByteArray → String}
    {now : Instant} {clock : SyncEvent → String} {s s' : LiteStore} {b : SyncBatch}
    {result : SyncBatchResult} {batches : Set SyncBatch} (h : AnswersAll sha256 batches s.sync)
    (hb : ∃ b₀ ∈ batches, b₀.canonicalBytes = b.canonicalBytes)
    (hrun : syncApplyBatch cfg env sha256 now clock s b = .ok (s', result)) :
    AnswersAll sha256 batches s'.sync ∧ Answers sha256 batches s'.sync result := by
  obtain ⟨sync, hbind, hrun⟩ := Except.bind_ok.mp hrun
  obtain ⟨rfl, -⟩ := SyncState.bindTenant_ok hbind
  split at hrun
  next existing hfound =>
    -- A repetition gets the response that the store remembers.
    obtain ⟨_, -, heq⟩ := Except.bind_ok.mp hrun
    cases Except.ok.inj heq
    exact ⟨h, h existing (findRow_some hfound).1⟩
  next hnone =>
    obtain ⟨st, happly, heq⟩ := Except.bind_ok.mp hrun
    cases Except.ok.inj heq
    have htakes := applyEvents_takes happly
    have hold : ∀ i ∈ s.sync.identities, i ∈ st.store.sync.identities := fun i hi =>
      (htakes.identities i).mpr (.inl hi)
    have hnew : ∀ e ∈ b.events, e.identity ∈ st.store.sync.identities := fun e he =>
      (htakes.identities _).mpr (.inr (List.mem_map_of_mem he))
    obtain ⟨b₀, hb₀, hbytes⟩ := hb
    have hanswer : ∀ receipts, Answers sha256 batches st.store.sync
        ⟨b.batchId, b.requestDigest sha256, receipts⟩ := fun receipts => by
      refine ⟨b₀, hb₀, congrArg sha256 hbytes.symm, fun e he => ?_⟩
      have hmem : e.identity ∈ b.events.map SyncEvent.identity := by
        rw [← identities_of_bytes hbytes]
        exact List.mem_map_of_mem he
      obtain ⟨e', he', hsame⟩ := List.mem_map.mp hmem
      exact hsame ▸ hnew e' he'
    refine ⟨fun row hrow => ?_, hanswer st.receipts⟩
    have hrow : row ∈ st.store.sync.batches ++ [_] := hrow
    rw [applyEvents_batches happly] at hrow
    rcases List.mem_append.mp hrow with hrow | hrow
    · exact (h row hrow).mono hold
    · cases List.mem_singleton.mp hrow
      exact hanswer st.receipts

/-- A page leaves the batches that a store remembers, and keeps what is recorded. -/
theorem syncApplyPage_batches {cfg : SyncConfig} {env : Env} {now : Instant}
    {clock : SyncEvent → String} {s s' : LiteStore} {remoteId : String} {p : SyncPage}
    {result : SyncApplyResult}
    (h : syncApplyPage cfg env now clock s remoteId p = .ok (s', result)) :
    s'.sync.batches = s.sync.batches ∧ ∀ i ∈ s.sync.identities, i ∈ s'.sync.identities := by
  obtain ⟨-, -, h⟩ := Except.bind_ok.mp h
  obtain ⟨-, -, h⟩ := Except.bind_ok.mp h
  obtain ⟨events, -, h⟩ := Except.bind_ok.mp h
  obtain ⟨sync, hbind, h⟩ := Except.bind_ok.mp h
  obtain ⟨tenant, rfl⟩ := bindPageTenant_congr hbind
  obtain ⟨-, -, h⟩ := Except.bind_ok.mp h
  obtain ⟨-, -, h⟩ := Except.bind_ok.mp h
  split_ifs at h
  · cases Except.ok.inj h
    exact ⟨rfl, fun i hi => hi⟩
  · obtain ⟨st, happly, heq⟩ := Except.bind_ok.mp h
    cases Except.ok.inj heq
    exact ⟨applyEvents_batches happly, fun i hi =>
      ((applyEvents_takes happly).identities i).mpr (.inl hi)⟩

/-- Whatever a receiver does, the responses that it remembers stay answers. -/
theorem step_answersAll {cfg : SyncConfig} {env : Env} {sha256 : ByteArray → String} {s : LiteStore}
    {op : RepoOp} {batches : Set SyncBatch} (h : AnswersAll sha256 batches s.sync)
    (hop : ∀ b now clock, op = .base (.deliver ⟨.batch b, now, clock⟩) →
      ∃ b₀ ∈ batches, b₀.canonicalBytes = b.canonicalBytes) :
    AnswersAll sha256 batches (op.step cfg env sha256 s).sync := by
  by_cases hdeliver : ∃ d, op = .base (.deliver d)
  · obtain ⟨⟨content, now, clock⟩, rfl⟩ := hdeliver
    unfold RepoOp.step
    split
    next s' happly =>
      cases content with
      | batch b =>
        obtain ⟨⟨s₁, result⟩, hrun, rfl⟩ := Except.map_ok happly
        exact (syncApplyBatch_answers h (hop b now clock rfl) hrun).1
      | page remoteId p =>
        obtain ⟨⟨s₁, result⟩, hrun, rfl⟩ := Except.map_ok happly
        obtain ⟨hbatches, hids⟩ := syncApplyPage_batches hrun
        intro row hrow
        rw [hbatches] at hrow
        exact (h row hrow).mono hids
    · exact h
  · have huntouched := step_untouched cfg env sha256 s fun d hd => hdeliver ⟨d, hd⟩
    intro row hrow
    rw [huntouched.batches] at hrow
    refine (h row hrow).mono fun i hi => ?_
    rwa [SyncState.identities, huntouched.inbox]

/-! ## The outbox -/

/-- The leases are on events of this node. -/
def LeasedLocal (cfg : SyncConfig) (s : SyncState) : Prop :=
  ∀ d ∈ s.deliveries, d.state = .leased → ∀ r ∈ s.outbox, r.streamSeq = d.streamSeq →
    r.event.originNodeId = cfg.localNodeId

/-- The row at a sequence is the event that is found there. -/
theorem outboxEvent_of_mem {s : SyncState} (hnodup : (s.outbox.map OutboxRow.streamSeq).Nodup)
    {r : OutboxRow} (hr : r ∈ s.outbox) : s.outboxEvent r.streamSeq = some r.event := by
  cases hfind : s.outbox.find? fun x => x.streamSeq = r.streamSeq with
  | none =>
    exact absurd (decide_eq_true rfl) (List.find?_eq_none.mp hfind r hr)
  | some x =>
    have hx : x.streamSeq = r.streamSeq := by simpa using List.find?_some hfind
    have hsame := List.inj_on_of_nodup_map hnodup (List.mem_of_find?_eq_some hfind) hr hx
    rw [SyncState.outboxEvent, hfind, hsame, Option.map_some]

theorem outboxEvent_some {s : SyncState} {q : ℕ} {e : SyncEvent} (h : s.outboxEvent q = some e) :
    ∃ r ∈ s.outbox, r.streamSeq = q ∧ r.event = e := by
  obtain ⟨r, hr, he⟩ := Option.map_eq_some_iff.mp h
  exact ⟨r, List.mem_of_find?_eq_some hr, by simpa using List.find?_some hr, he⟩

section Outbox

variable {cfg : SyncConfig} {env : Env} {sha256 : ByteArray → String} {s : LiteStore}
  {stream : List OutboxRow}

/-- A row of the outbox after an operation was there before, or is new in the stream. -/
theorem step_outbox (h : RepoInv s.sync stream) (op : RepoOp) {r : OutboxRow}
    (hr : r ∈ (op.step cfg env sha256 s).sync.outbox) :
    r ∈ s.sync.outbox ∨ s.sync.nextStreamSeq ≤ r.streamSeq := by
  cases step_streamStep cfg env sha256 s op with
  | appends happ =>
    obtain ⟨rows, hout, hge, -⟩ := h.recorded.exists_appends happ
    rw [hout] at hr
    exact (List.mem_append.mp hr).imp_right (hge r)
  | register hreg => exact .inl ((registerTarget_stream hreg).1 ▸ hr)
  | toggle htog => exact .inl ((setTargetEnabled_stream htog).1 ▸ hr)
  | compact hcomp =>
    rw [(compact_ok h.recorded hcomp).1]
    exact .inl (List.mem_append_right _ hr)

/-- A claim leases events of this node. -/
theorem claim_leased {sync sync' : SyncState} {now : Instant} {leaseId : ℕ → String}
    {targetId : String} {limit leaseSeconds : ℕ} {handed : List SyncDelivery}
    (hkeys : sync.deliveryKeys.Nodup)
    (h : sync.claim cfg now leaseId targetId limit leaseSeconds = .ok (sync', handed)) :
    ∀ d' ∈ sync'.deliveries, d'.state = .leased → d' ∈ sync.deliveries ∨
      (sync.outboxEvent d'.streamSeq).map SyncEvent.originNodeId = some cfg.localNodeId := by
  obtain ⟨_, -, h⟩ := Except.bind_ok.mp h
  obtain ⟨_, -, h⟩ := Except.bind_ok.mp h
  obtain ⟨_, -, h⟩ := Except.bind_ok.mp h
  split at h
  · cases Except.ok.inj h
    exact fun d hd _ => .inl hd
  · split_ifs at h
    · cases Except.ok.inj h
      set s₁ : SyncState :=
        { sync with deliveries := sync.deliveries.map (SyncState.expireLease cfg targetId now) }
        with hs₁
      have hkeys₁ : s₁.deliveryKeys.Nodup := by
        rw [(quiet_of_map (s := sync) (expireLease_key cfg targetId now)).keys]
        exact hkeys
      intro d' hd' hleased
      obtain ⟨d₁, hd₁, rfl⟩ := List.mem_map.mp hd'
      cases hfind : (s₁.claimed cfg targetId limit now).findIdx? fun x => x.key = d₁.key with
      | none =>
        -- The row is not taken, and a lease that stays has not run out.
        have hsame : SyncState.lease (s₁.claimed cfg targetId limit now) leaseId
            (now + leaseSeconds * second) d₁ = d₁ := by rw [SyncState.lease, hfind]
        rw [hsame] at hleased ⊢
        obtain ⟨d, hd, rfl⟩ := List.mem_map.mp hd₁
        unfold SyncState.expireLease at hleased ⊢
        split_ifs at hleased ⊢
        exact .inl hd
      | some i =>
        obtain ⟨hlt, hkey, -⟩ := List.findIdx?_eq_some_iff_getElem.mp hfind
        have hclaimed := (List.take_subset _ _) (List.getElem_mem hlt)
        rw [List.mem_mergeSort] at hclaimed
        obtain ⟨htaken, hclaim⟩ := List.mem_filter.mp hclaimed
        have hsame := row_of_key hkeys₁ htaken hd₁ (decide_eq_true_eq.mp hkey)
        rw [hsame, SyncState.claimable, decide_eq_true_eq] at hclaim
        have hseq := congrArg Prod.snd (lease_key (s₁.claimed cfg targetId limit now) leaseId
          (now + leaseSeconds * second) d₁)
        have hseq : (SyncState.lease (s₁.claimed cfg targetId limit now) leaseId
          (now + leaseSeconds * second) d₁).streamSeq = d₁.streamSeq := hseq
        rw [hseq]
        exact .inr hclaim.2.2.2.2
    · cases Except.ok.inj h
      exact fun d hd _ => .inl hd

/-- The step: the leases stay on events of this node. -/
theorem step_leasedLocal (h : RepoInv s.sync stream) (hleased : LeasedLocal cfg s.sync)
    (op : RepoOp) : LeasedLocal cfg (op.step cfg env sha256 s).sync := by
  obtain ⟨missed, hoff⟩ := h.offered
  intro d' hd' hstate r hr hseq
  rcases step_rows cfg env sha256 h op d' hd' with ⟨d, hd, hkey, hstep⟩ | ⟨-, _, _, _, rfl⟩
  · have hlt : d.streamSeq < s.sync.nextStreamSeq :=
      (hoff.keys_known _ (List.mem_map_of_mem hd)).2
    have hdseq : d.streamSeq = d'.streamSeq := congrArg Prod.snd hkey
    have hold : r ∈ s.sync.outbox := by
      refine (step_outbox h op hr).resolve_right fun hge => ?_
      omega
    by_cases hclaim : ∃ now leaseId targetId limit leaseSeconds,
        op = .base (.claim now leaseId targetId limit leaseSeconds)
    · obtain ⟨now, leaseId, targetId, limit, leaseSeconds, rfl⟩ := hclaim
      unfold RepoOp.step at hd'
      split at hd'
      next s' happly =>
        obtain ⟨⟨sync, handed⟩, hrun, rfl⟩ := Except.map_ok happly
        rcases claim_leased hoff.keys_nodup hrun d' hd' hstate with hkept | hlocal
        · exact hleased d' hkept hstate r hold hseq
        · rw [← hseq, outboxEvent_of_mem hoff.seqs_nodup hold] at hlocal
          exact Option.some.inj hlocal
      · exact hleased d' hd' hstate r hold hseq
    · -- Only a claim leases a row.
      have hsame : d' = d := by
        cases hstep with
        | same => rfl
        | expire hop => exact absurd ⟨_, _, _, _, _, hop⟩ hclaim
        | lease hop _ _ _ => exact absurd ⟨_, _, _, _, _, hop⟩ hclaim
        | deliver _ => exact absurd hstate (by simp [SyncState.delivered])
        | fail _ _ =>
          unfold SyncState.failed at hstate
          split_ifs at hstate
        | deadLetter _ _ => exact absurd hstate (by simp [SyncState.deadLettered])
        | replay _ _ => exact absurd hstate (by simp [SyncState.replayed])
      subst hsame
      exact hleased d' hd hstate r hold hseq
  · exact absurd hstate (by simp [DeliveryRow.fresh])

/-- The run. -/
theorem run_leasedLocal (env : Env) (sha256 : ByteArray → String) (h : RepoInv s.sync stream)
    (hleased : LeasedLocal cfg s.sync) (ops : List RepoOp) :
    LeasedLocal cfg (runRepo cfg env sha256 s ops).sync := by
  induction ops generalizing s stream with
  | nil => exact hleased
  | cons op ops ih =>
    exact ih (step_repoInv cfg env sha256 h op) (step_leasedLocal h hleased op)

/-- A row that is delivered after an operation was delivered before, or is acknowledged for its holder
or passed by a cursor. -/
theorem step_delivered (h : RepoInv s.sync stream) (op : RepoOp) {d' : DeliveryRow}
    (hd' : d' ∈ (op.step cfg env sha256 s).sync.deliveries) (hafter : d'.state = .delivered) :
    ∃ d ∈ s.sync.deliveries, d.key = d'.key ∧
      (d.state = .delivered ∨ s.sync.Acknowledges op d ∨ SyncState.Confirms op d) := by
  rcases step_rows cfg env sha256 h op d' hd' with ⟨d, hd, hkey, hstep⟩ | ⟨-, _, _, _, rfl⟩
  · refine ⟨d, hd, hkey, ?_⟩
    by_cases hbefore : d.state = .delivered
    · exact .inl hbefore
    · exact .inr (hstep.delivered_cause hbefore hafter)
  · exact absurd hafter (by simp [DeliveryRow.fresh])

/-- Operations that acknowledge and confirm nothing deliver no row. -/
theorem run_delivered (h : RepoInv s.sync stream) {ops : List RepoOp}
    (hops : ∀ op ∈ ops, ∀ (s : SyncState) d, ¬ s.Acknowledges op d ∧ ¬ SyncState.Confirms op d)
    {d' : DeliveryRow} (hd' : d' ∈ (runRepo cfg env sha256 s ops).sync.deliveries)
    (hafter : d'.state = .delivered) :
    ∃ d ∈ s.sync.deliveries, d.key = d'.key ∧ d.state = .delivered := by
  induction ops generalizing s stream with
  | nil => exact ⟨d', hd', rfl, hafter⟩
  | cons op ops ih =>
    obtain ⟨d₁, hd₁, hkey₁, hstate₁⟩ := ih (step_repoInv cfg env sha256 h op)
      (fun op' hop' => hops op' (List.mem_cons_of_mem _ hop')) hd'
    obtain ⟨d, hd, hkey, hcause⟩ := step_delivered h op hd₁ hstate₁
    obtain ⟨hack, hconfirm⟩ := hops op List.mem_cons_self s.sync d
    refine ⟨d, hd, hkey.trans hkey₁, hcause.resolve_right ?_⟩
    rintro (h | h)
    · exact hack h
    · exact hconfirm h

end Outbox

/-! ## The invariant -/

/-- The deliveries of a request are for its target, and their events, of this node, are in its
batch. -/
structure Push.Ok (cfg : SyncConfig) (p : Push) : Prop where
  target : ∀ x ∈ p.deliveries, x.targetId = p.targetId
  event : ∀ x ∈ p.deliveries, x.event ∈ p.batch.events
  origin : ∀ x ∈ p.deliveries, x.event.originNodeId = cfg.localNodeId

/-- The answer carries a result that names a batch with recorded events, unless it carries none. -/
def Reply.Ok (sha256 : ByteArray → String) (batches : Set SyncBatch) (s : SyncState) (r : Reply) :
    Prop :=
  r.faulty = true ∨ ∀ body ∈ r.body, ∀ result, SyncBatchResult.parse body = .ok result →
    Answers sha256 batches s result

/-- What holds of the parties and of what is under way between them. -/
structure PushInv (net : PushNet) (batches : Set SyncBatch) (st : PushState) : Prop where
  stream : ∃ stream, RepoInv st.sender.sync stream
  leased : LeasedLocal net.sender st.sender.sync
  pushes : ∀ p ∈ st.pushes, p.Ok net.sender
  remembered : ∀ targetId, AnswersAll net.sha256 batches (st.receiver targetId).sync
  replies : ∀ r ∈ st.replies, r.2.Ok net.sha256 batches (st.receiver r.1).sync

theorem Reply.Ok.mono {sha256 : ByteArray → String} {batches : Set SyncBatch} {s s' : SyncState}
    {r : Reply} (h : r.Ok sha256 batches s) (hids : ∀ i ∈ s.identities, i ∈ s'.identities) :
    r.Ok sha256 batches s' :=
  h.imp_right fun h body hbody result hparse => (h body hbody result hparse).mono hids

/-- The endpoint answers with a result that names a recorded batch, or with a failure. -/
theorem pushBatch_ok (cfg : SyncConfig) (env : Env) {sha256 : ByteArray → String} (now : Instant)
    (clock : SyncEvent → String) {s : LiteStore} {b : SyncBatch} {batches : Set SyncBatch}
    (h : AnswersAll sha256 batches s.sync) (hb : b ∈ batches) :
    AnswersAll sha256 batches (pushBatch cfg env sha256 now clock s b.canonicalBytes).1.sync ∧
      (pushBatch cfg env sha256 now clock s b.canonicalBytes).2.Ok sha256 batches
        (pushBatch cfg env sha256 now clock s b.canonicalBytes).1.sync := by
  have hfault : ∀ e, (⟨some (pushStatus e), none⟩ : Reply).faulty = true := fun e => by
    simp [Reply.faulty]
  unfold pushBatch
  split
  · exact ⟨h, .inl (hfault _)⟩
  next batch hbatch =>
    have hbytes : b.canonicalBytes = batch.canonicalBytes :=
      ((validateIngressBatch_canonicalBytes sha256).2 _ _ _ hbatch).1
    split
    · exact ⟨h, .inl (hfault _)⟩
    next store' result hrun =>
      obtain ⟨hall, hanswer⟩ := syncApplyBatch_answers h ⟨b, hb, hbytes⟩ hrun
      refine ⟨hall, .inr ?_⟩
      rintro body hbody result' hparse
      cases Option.mem_some.mp hbody
      exact SyncBatchResult.parse_toDict hparse ▸ hanswer

namespace PushNet

variable {net : PushNet} {st : PushState} {batches : Set SyncBatch}

/-- The step: whatever happens, answers stay answers, and leases stay local. -/
theorem step_inv (h : PushInv net batches st) (x : PushStep)
    (hpushes : ∀ p ∈ (net.step st x).pushes, p.batch ∈ batches)
    (hdelivered : ∀ targetId b now clock,
      x = .inbox targetId (.base (.deliver ⟨.batch b, now, clock⟩)) → b ∈ batches) :
    PushInv net batches (net.step st x) := by
  have hids : ∀ targetId, ∀ i ∈ (st.receiver targetId).sync.identities,
      i ∈ ((net.step st x).receiver targetId).sync.identities := fun targetId i hi =>
    identities_mono net st [x] hi
  obtain ⟨⟨stream, hstream⟩, hleased, hok, hremembered, hreplies⟩ := h
  cases x with
  | outbox op =>
    rw [step]
    split_ifs
    · exact ⟨⟨stream, hstream⟩, hleased, hok, hremembered, hreplies⟩
    · exact ⟨⟨_, step_repoInv net.sender net.env net.sha256 hstream op⟩,
        step_leasedLocal hstream hleased op, hok, hremembered, hreplies⟩
  | inbox targetId op =>
    refine ⟨⟨stream, hstream⟩, hleased, hok, fun id' => ?_, fun r hr =>
      (hreplies r hr).mono (hids r.1)⟩
    show AnswersAll _ _ (Function.update st.receiver targetId _ id').sync
    by_cases hid : id' = targetId
    · subst hid
      rw [Function.update_self]
      exact step_answersAll (hremembered id') fun b now clock hop =>
        ⟨b, hdelivered id' b now clock (by rw [hop]), rfl⟩
    · rw [Function.update_of_ne hid]
      exact hremembered id'
  | send targetId deliveries =>
    rw [step]
    split_ifs with hhanded
    · split
      next batch hbatch =>
        refine ⟨⟨stream, hstream⟩, hleased, fun p hp => ?_, hremembered, hreplies⟩
        rcases List.mem_append.mp hp with hp | hp
        · exact hok p hp
        · cases List.mem_singleton.mp hp
          obtain ⟨hevents, horigin⟩ := dispatchBatch_ok hbatch
          have hmem : ∀ x ∈ deliveries, x.event ∈ batch.events := fun x hx =>
            hevents ▸ List.mem_map_of_mem hx
          exact ⟨fun x hx => (hhanded x hx).2, hmem, fun x hx => horigin _ (hmem x hx)⟩
      · exact ⟨⟨stream, hstream⟩, hleased, hok, hremembered, hreplies⟩
    · exact ⟨⟨stream, hstream⟩, hleased, hok, hremembered, hreplies⟩
  | arrive i now clock =>
    rw [step] at hids hpushes ⊢
    cases hpush : st.pushes[i]? with
    | none => exact ⟨⟨stream, hstream⟩, hleased, hok, hremembered, hreplies⟩
    | some push =>
      simp only [hpush] at hids hpushes ⊢
      have hmem : push ∈ st.pushes := List.mem_of_getElem? hpush
      obtain ⟨hall, hanswer⟩ := pushBatch_ok (net.receiver push.targetId) net.env now clock
        (hremembered push.targetId) (hpushes push hmem)
      refine ⟨⟨stream, hstream⟩, hleased, hok, fun id' => ?_, fun r hr => ?_⟩
      · show AnswersAll _ _ (Function.update st.receiver push.targetId _ id').sync
        by_cases hid : id' = push.targetId
        · subst hid
          rw [Function.update_self]
          exact hall
        · rw [Function.update_of_ne hid]
          exact hremembered id'
      · rcases List.mem_append.mp hr with hr | hr
        · exact (hreplies r hr).mono (hids r.1)
        · cases List.mem_singleton.mp hr
          show Reply.Ok _ _ (Function.update st.receiver push.targetId _ push.targetId).sync _
          rw [Function.update_self]
          exact hanswer
  | fault targetId reply =>
    rw [step]
    split_ifs with hfaulty
    · refine ⟨⟨stream, hstream⟩, hleased, hok, hremembered, fun r hr => ?_⟩
      rcases List.mem_append.mp hr with hr | hr
      · exact hreplies r hr
      · cases List.mem_singleton.mp hr
        exact .inl hfaulty
    · exact ⟨⟨stream, hstream⟩, hleased, hok, hremembered, hreplies⟩
  | settle i j times =>
    rw [step]
    split
    · exact ⟨⟨stream, hstream⟩, hleased, hok, hremembered, hreplies⟩
    next push hpush =>
      obtain ⟨done, -, hrun⟩ := attempt_eq_run net.sender net.env net.sha256 st.sender
        (net.settling st push j times)
      have hinv := runRepo_repoInv net.sender net.env net.sha256 done hstream
      have hlocal := run_leasedLocal net.env net.sha256 hstream hleased done
      rw [← hrun] at hinv hlocal
      exact ⟨⟨_, hinv⟩, hlocal, hok, hremembered, hreplies⟩

/-- Requests stay under way. -/
theorem pushes_mono (net : PushNet) (st : PushState) (xs : List PushStep) {p : Push}
    (h : p ∈ st.pushes) : p ∈ (net.run st xs).pushes := by
  induction xs generalizing st with
  | nil => exact h
  | cons x xs ih =>
    refine ih (net.step st x) ?_
    cases x with
    | inbox targetId op => exact h
    | outbox op =>
      rw [step]
      split_ifs
      · exact h
      · exact h
    | send targetId deliveries =>
      rw [step]
      split_ifs
      · split
        · exact List.mem_append_left _ h
        · exact h
      · exact h
    | arrive i now clock =>
      rw [step]
      split
      · exact h
      · exact h
    | fault targetId reply =>
      rw [step]
      split_ifs
      · exact h
      · exact h
    | settle i j times =>
      rw [step]
      split
      · exact h
      · exact h

/-- The run, where its batches are among some. -/
theorem run_inv (h : PushInv net batches st) (xs : List PushStep)
    (hpushes : ∀ p ∈ (net.run st xs).pushes, p.batch ∈ batches)
    (hdelivered : ∀ targetId b now clock,
      PushStep.inbox targetId (.base (.deliver ⟨.batch b, now, clock⟩)) ∈ xs → b ∈ batches) :
    PushInv net batches (net.run st xs) := by
  induction xs generalizing st with
  | nil => exact h
  | cons x xs ih =>
    refine ih (step_inv h x (fun p hp => hpushes p (pushes_mono net _ xs hp)) ?_) hpushes ?_
    · rintro targetId b now clock rfl
      exact hdelivered targetId b now clock List.mem_cons_self
    · exact fun targetId b now clock hmem =>
        hdelivered targetId b now clock (List.mem_cons_of_mem _ hmem)

theorem start_inv : PushInv net batches start where
  stream := ⟨[], repoInv_empty⟩
  leased := by simp [LeasedLocal, start, LiteStore.empty, SyncState.empty]
  pushes := by simp [start]
  remembered := by simp [AnswersAll, start, LiteStore.empty, SyncState.empty]
  replies := by simp [start]

/-! ## Delivery -/

/-- The dispatcher acknowledges by an answer of the target whose result is for the batch. -/
theorem acknowledge_result {sha256 : ByteArray → String} {b : SyncBatch}
    {deliveries : List SyncDelivery} {reply : Option Reply} {receipts : List SyncReceipt}
    (h : sendOutcome sha256 b deliveries reply = .acknowledge receipts) :
    ∃ r ∈ reply, r.faulty = false ∧ ∃ body ∈ r.body, ∃ result,
      SyncBatchResult.parse body = .ok result ∧ result.requestDigest = b.requestDigest sha256 := by
  unfold sendOutcome at h
  split at h
  · exact absurd h (by simp)
  next r =>
    split at h
    · exact absurd h (by simp)
    next status hstatus =>
      split_ifs at h with h1 h2 h3 h4
      split at h
      next result hresult =>
        unfold Reply.result at hresult
        split at hresult
        · exact absurd hresult (by simp)
        next body hbody =>
          obtain ⟨result', hparse, hresult⟩ := Except.bind_ok.mp hresult
          obtain ⟨_, hvalid, -⟩ := Except.bind_ok.mp hresult
          obtain ⟨_, hident, -⟩ := Except.bind_ok.mp hvalid
          have hgenuine : r.faulty = false := by
            rw [Reply.faulty, decide_eq_false_iff_not]
            rintro (hbad | hnone)
            · exact h4 (hbad status hstatus)
            · have hnone := hnone body hbody
              rw [hparse] at hnone
              exact absurd hnone (by simp [Except.toOption])
          exact ⟨r, rfl, hgenuine, body, hbody, result', hparse, (require_ok.mp hident).2⟩
      · exact absurd h (by simp)

/-- An acknowledged row is that of an event which the target has recorded. -/
theorem acknowledged_recorded (h : PushInv net batches st) (hsha : CollisionFree net.sha256 batches)
    {push : Push} (hpush : push ∈ st.pushes) (hbatch : push.batch ∈ batches) {j : ℕ}
    {receipts : List SyncReceipt}
    (houtcome : sendOutcome net.sha256 push.batch push.deliveries
      (answers st push.targetId)[j]? = .acknowledge receipts)
    {now : Instant} {x : SyncDelivery} (hx : x ∈ push.deliveries) {d : DeliveryRow}
    (hd : d ∈ st.sender.sync.deliveries) (hholds : st.sender.sync.Holds now x d) :
    ∃ r ∈ st.sender.sync.outbox, r.streamSeq = d.streamSeq ∧
      r.event.identity ∈ (st.receiver d.targetId).sync.identities := by
  obtain ⟨htarget, hevent⟩ := decide_eq_true_eq.mp hholds.1
  obtain ⟨e, he, hid⟩ := Option.map_eq_some_iff.mp hevent
  obtain ⟨r, hr, hseq, rfl⟩ := outboxEvent_some he
  obtain ⟨_, hleased, -⟩ := Except.bind_ok.mp hholds.2
  have hok := h.pushes push hpush
  -- The row and the delivery are of one event of this node.
  have horigin : r.event.originNodeId = x.event.originNodeId :=
    (h.leased d hd (require_ok.mp hleased).1 r hr hseq).trans (hok.origin x hx).symm
  have hident : r.event.identity = x.event.identity := Prod.ext horigin hid
  -- The answer names a batch with the bytes of the one that was sent.
  obtain ⟨reply, hreply, hgenuine, body, hbody, result, hparse, hdigest⟩ :=
    acknowledge_result houtcome
  have hmem := List.mem_of_getElem? hreply
  obtain ⟨p, hp, rfl⟩ := List.mem_map.mp hmem
  obtain ⟨hp, hto⟩ := List.mem_filter.mp hp
  have hto : p.1 = push.targetId := decide_eq_true_eq.mp hto
  have hanswer := (h.replies p hp).resolve_left (by rw [hgenuine]; simp)
  obtain ⟨b, hb, hsame, hrecorded⟩ := hanswer body hbody result hparse
  have hbytes : b.canonicalBytes = push.batch.canonicalBytes :=
    hsha b hb push.batch hbatch (hsame.symm.trans hdigest)
  have hin : x.event.identity ∈ b.events.map SyncEvent.identity := by
    rw [identities_of_bytes hbytes]
    exact List.mem_map_of_mem (hok.event x hx)
  obtain ⟨e', he', hsame'⟩ := List.mem_map.mp hin
  have hhere : d.targetId = p.1 := htarget.trans ((hok.target x hx).trans hto.symm)
  refine ⟨r, hr, hseq, ?_⟩
  rw [hident, ← hsame', hhere]
  exact hrecorded e' he'

/-- The end of a request without a result marks no row. -/
theorem not_marked {stream : List OutboxRow} (h : RepoInv st.sender.sync stream)
    {ops : List RepoOp}
    (hops : ∀ op ∈ ops,
      (∀ now deliveries receipts, op ≠ .base (.ackBatch now deliveries receipts)) ∧
        ∀ now remoteId consumerId cursor limit,
          op ≠ .base (.page now remoteId consumerId cursor limit))
    {d d' : DeliveryRow} (hunique : ∀ d₁ ∈ st.sender.sync.deliveries, d₁.key = d'.key → d₁ = d)
    (hbefore : d.state ≠ .delivered) (hafter : d'.state = .delivered) :
    d' ∉ (attempt net.sender net.env net.sha256 st.sender ops).sync.deliveries := by
  intro hd'
  obtain ⟨done, hdone, hrun⟩ := attempt_eq_run net.sender net.env net.sha256 st.sender ops
  rw [hrun] at hd'
  have hidle : ∀ op ∈ done, ∀ (s : SyncState) d,
      ¬ s.Acknowledges op d ∧ ¬ SyncState.Confirms op d := by
    intro op hop s d
    obtain ⟨hack, hpage⟩ := hops op (hdone.subset hop)
    constructor
    · rintro ⟨now, deliveries, receipts, heq, -⟩
      exact hack now deliveries receipts heq
    · rintro ⟨now, consumerId, c, limit, heq, -⟩
      exact hpage now d.targetId consumerId (some c) limit heq
  obtain ⟨d₁, hd₁, hkey, hstate⟩ := run_delivered h hidle hd' hafter
  exact hbefore (hunique d₁ hd₁ hkey ▸ hstate)

/-- The step: a row that is marked delivered was passed by a cursor of its target, or its event is
recorded there. -/
theorem step_marks (h : PushInv net batches st) (hsha : CollisionFree net.sha256 batches)
    (hbatches : ∀ p ∈ st.pushes, p.batch ∈ batches) {x : PushStep} {d d' : DeliveryRow}
    (hd : d ∈ st.sender.sync.deliveries) (hd' : d' ∈ (net.step st x).sender.sync.deliveries)
    (hkey : d'.key = d.key) (hbefore : d.state ≠ .delivered) (hafter : d'.state = .delivered) :
    (∃ op, x = .outbox op ∧ SyncState.Confirms op d) ∨
      ∃ r ∈ st.sender.sync.outbox, r.streamSeq = d.streamSeq ∧
        r.event.identity ∈ (st.receiver d.targetId).sync.identities := by
  obtain ⟨stream, hstream⟩ := h.stream
  obtain ⟨missed, hoff⟩ := hstream.offered
  have hunique : ∀ d₁ ∈ st.sender.sync.deliveries, d₁.key = d'.key → d₁ = d := fun d₁ hd₁ hkey₁ =>
    row_of_key hoff.keys_nodup hd₁ hd (hkey₁.trans hkey)
  -- Where the sender does nothing, no row changes.
  have hidle : (net.step st x).sender = st.sender → False := fun hsame => by
    rw [hsame] at hd'
    exact hbefore (hunique d' hd' rfl ▸ hafter)
  cases x with
  | inbox targetId op => exact absurd rfl hidle
  | send targetId deliveries =>
    refine absurd ?_ hidle
    rw [step]
    split_ifs
    · split
      · rfl
      · rfl
    · rfl
  | arrive i now clock =>
    refine absurd ?_ hidle
    rw [step]
    split
    · rfl
    · rfl
  | fault targetId reply =>
    refine absurd ?_ hidle
    rw [step]
    split_ifs
    · rfl
    · rfl
  | outbox op =>
    rw [step] at hd' hidle
    split_ifs at hd' hidle with hacks
    · exact absurd rfl hidle
    · obtain ⟨d₁, hd₁, hkey₁, hcause⟩ := step_delivered hstream op hd' hafter
      obtain rfl := hunique d₁ hd₁ hkey₁
      rcases hcause with hdone | ⟨now, deliveries, receipts, rfl, -⟩ | hconfirms
      · exact absurd hdone hbefore
      · exact absurd rfl hacks
      · exact .inl ⟨op, rfl, hconfirms⟩
  | settle i j times =>
    cases hpush : st.pushes[i]? with
    | none =>
      refine absurd ?_ hidle
      rw [step]
      simp only [hpush]
    | some push =>
      have hmem := List.mem_of_getElem? hpush
      rw [step] at hd'
      simp only [hpush, settling] at hd'
      cases houtcome : sendOutcome net.sha256 push.batch push.deliveries
        (answers st push.targetId)[j]? with
      | acknowledge receipts =>
        rw [houtcome] at hd'
        have hstep : attempt net.sender net.env net.sha256 st.sender
            ((SendOutcome.acknowledge receipts).ops times push.deliveries) =
              RepoOp.step net.sender net.env net.sha256 st.sender
                (.base (.ackBatch times.acked push.deliveries receipts)) := by
          rw [SendOutcome.ops, attempt, RepoOp.step]
          cases RepoOp.apply net.sender net.env net.sha256 st.sender
            (.base (.ackBatch times.acked push.deliveries receipts)) with
          | ok s' => rfl
          | error e => rfl
        rw [hstep] at hd'
        obtain ⟨d₁, hd₁, hkey₁, hcause⟩ := step_delivered hstream _ hd' hafter
        obtain rfl := hunique d₁ hd₁ hkey₁
        rcases hcause with hdone | ⟨now, deliveries, receipts', hop, y, hy, hholds⟩ |
          ⟨now, consumerId, c, limit, hop, -⟩
        · exact absurd hdone hbefore
        · cases hop
          exact .inr (acknowledged_recorded h hsha hmem (hbatches push hmem) houtcome hy hd hholds)
        · exact absurd hop (by simp)
      | retry errorCode =>
        rw [houtcome] at hd'
        exact absurd hd' (not_marked hstream (fun op hop => by
          obtain ⟨y, -, rfl⟩ := List.mem_map.mp hop
          exact ⟨fun _ _ _ => by simp, fun _ _ _ _ _ => by simp⟩) hunique hbefore hafter)
      | giveUp errorCode =>
        rw [houtcome] at hd'
        exact absurd hd' (not_marked hstream (fun op hop => by
          obtain ⟨y, -, rfl⟩ := List.mem_map.mp hop
          exact ⟨fun _ _ _ => by simp, fun _ _ _ _ _ => by simp⟩) hunique hbefore hafter)

/-- Push delivery takes effect exactly once. A receiver records every event once and applies it once
at most. And when a delivery is marked delivered at the sender, by other means than a cursor with
which the target itself asks for what follows, its event has been recorded at the target: it has had
its effect there or was superseded, and it stays recorded. Two batches with one digest would be one
batch to the receiver, which is where the digests of the run must not collide. -/
theorem push_exactly_once (net : PushNet) (steps : List PushStep) :
    (∀ targetId, ((net.run start steps).receiver targetId).sync.identities.Nodup ∧
      ((effects (net.handled targetId start steps)).map SyncEvent.identity).Nodup) ∧
    (CollisionFree net.sha256 (net.batches steps) → ∀ before x after,
      steps = before ++ x :: after →
      ∀ d ∈ (net.run start before).sender.sync.deliveries,
      ∀ d' ∈ (net.run start (before ++ [x])).sender.sync.deliveries,
        d'.key = d.key → d.state ≠ .delivered → d'.state = .delivered →
          (∃ op, x = .outbox op ∧ SyncState.Confirms op d) ∨
          ∃ r ∈ (net.run start before).sender.sync.outbox, r.streamSeq = d.streamSeq ∧
            (r.event.identity ∈
                (effects (net.handled d.targetId start before)).map SyncEvent.identity ∨
              ∃ h ∈ net.handled d.targetId start before,
                h.superseded = true ∧ h.event.identity = r.event.identity) ∧
            r.event.identity ∈ ((net.run start before).receiver d.targetId).sync.identities ∧
            r.event.identity ∈ ((net.run start steps).receiver d.targetId).sync.identities) := by
  refine ⟨fun targetId => ?_, fun hsha before x after hsteps d hd d' hd' hkey hbefore hafter => ?_⟩
  · have hnodup := (run_journal net start steps targetId).2 (by
      simp [start, LiteStore.empty, SyncState.empty, SyncState.identities])
    refine ⟨hnodup, ?_⟩
    rw [identities_run] at hnodup
    rw [effects, List.map_map]
    exact hnodup.sublist (List.filter_sublist.map _)
  · subst hsteps
    have hpushes : ∀ p ∈ (net.run start before).pushes,
        p.batch ∈ net.batches (before ++ x :: after) := fun p hp => by
      refine .inl ⟨p, ?_, rfl⟩
      rw [run_append]
      exact pushes_mono net _ _ hp
    have hinv : PushInv net (net.batches (before ++ x :: after)) (net.run start before) :=
      run_inv start_inv before hpushes fun targetId b now clock hmem =>
        .inr ⟨targetId, now, clock, List.mem_append_left _ hmem⟩
    have hstep : net.run start (before ++ [x]) = net.step (net.run start before) x :=
      net.run_append start before [x]
    rw [hstep] at hd'
    refine (step_marks hinv hsha hpushes hd hd' hkey hbefore hafter).imp_right ?_
    rintro ⟨r, hr, hseq, hrecorded⟩
    refine ⟨r, hr, hseq, ?_, hrecorded, ?_⟩
    · -- What is recorded was handled: it was applied, or superseded.
      rw [identities_run] at hrecorded
      obtain ⟨h, hmem, hident⟩ := List.mem_map.mp hrecorded
      cases hsup : h.superseded with
      | true => exact .inr ⟨h, hmem, hsup, hident⟩
      | false =>
        refine .inl (List.mem_map.mpr ⟨h.event, List.mem_map_of_mem ?_, hident⟩)
        exact List.mem_filter.mpr ⟨hmem, by rw [hsup]; rfl⟩
    · rw [run_append]
      exact identities_mono net _ _ hrecorded

end PushNet

/-! ## A sample run -/

/-- Deliveries of the events of a batch are sent as that batch, if it has the id of the events. -/
theorem dispatchBatch_events (uuid5 : String → String) (b : SyncBatch) {targetId : String}
    {deliveries : List SyncDelivery} (hevents : deliveries.map SyncDelivery.event = b.events)
    (hid : uuid5 ("\x00".intercalate
      (b.originNodeId :: targetId :: deliveries.map fun x => x.event.eventId)) = b.batchId) :
    dispatchBatch uuid5 b.originNodeId targetId deliveries = .ok b := by
  rw [dispatchBatch, hevents, hid]
  exact SyncBatch.create_of_checks b.batch_valid b.origin_valid b.nonempty b.count b.checked b.size

/-- The gate takes the bytes of a batch for what arrives of it. -/
theorem validateIngressBatch_received (sha256 : ByteArray → String) (b : SyncBatch) :
    validateIngressBatch sha256 b.canonicalBytes (sha256 b.canonicalBytes) = .ok b.received := by
  rw [validateIngressBatch, if_neg (not_not.mpr rfl), readIngress_canonicalBytes]
  exact if_neg (not_not.mpr b.received_canonicalBytes)

namespace PushNet

variable (net : PushNet)

/-- Deliveries that make a batch are under way with it. -/
theorem step_send {st : PushState} {targetId : String} {deliveries : List SyncDelivery}
    {b : SyncBatch} (hhanded : ∀ x ∈ deliveries, x ∈ st.handed ∧ x.targetId = targetId)
    (hbatch : dispatchBatch net.uuid5 net.sender.localNodeId targetId deliveries = .ok b) :
    net.step st (.send targetId deliveries) =
      { st with pushes := st.pushes ++ [⟨targetId, deliveries, b⟩] } := by
  rw [step, if_pos hhanded, hbatch]

/-- A batch that the receiver applies is answered with the result. -/
theorem step_arrive {st : PushState} {i : ℕ} {push : Push} (hpush : st.pushes[i]? = some push)
    {now : Instant} {clock : SyncEvent → String} {store : LiteStore} {result : SyncBatchResult}
    (happly : syncApplyBatch (net.receiver push.targetId) net.env net.sha256 now clock
      (st.receiver push.targetId) push.batch.received = .ok (store, result)) :
    net.step st (.arrive i now clock) = { st with
      receiver := Function.update st.receiver push.targetId store
      replies := st.replies ++ [(push.targetId, ⟨some 200, some (.obj result.toDict)⟩)] } := by
  rw [step, hpush]
  simp only [pushBatch, validateIngressBatch_received, happly]

theorem step_arrive_pushes (st : PushState) (i : ℕ) (now : Instant) (clock : SyncEvent → String) :
    (net.step st (.arrive i now clock)).pushes = st.pushes := by
  rw [step]
  split
  · rfl
  · rfl

theorem step_settle_pushes (st : PushState) (i j : ℕ) (times : SendTimes) :
    (net.step st (.settle i j times)).pushes = st.pushes := by
  rw [step]
  split
  · rfl
  · rfl

/-- The work of the sender leaves the receivers. -/
theorem run_outbox_receiver (st : PushState) (ops : List RepoOp) :
    (net.run st (ops.map .outbox)).receiver = st.receiver := by
  induction ops generalizing st with
  | nil => rfl
  | cons op ops ih => exact (ih _).trans (net.step_receiver st (.outbox op))

theorem run_singleton (st : PushState) (x : PushStep) : net.run st [x] = net.step st x := rfl

theorem run_pair (st : PushState) (x y : PushStep) :
    net.run st [x, y] = net.step (net.step st x) y := rfl

end PushNet


/-- A sender `peer`, and a receiver under the name of every target. -/
def samplePushNet : PushNet where
  sender := sampleConfig "peer"
  receiver := sampleConfig
  env := sampleEnv
  sha256 _ := "0000000000000000000000000000000000000000000000000000000000000000"
  uuid5 _ := "00000000-0000-4000-8000-000000000009"

/-- A text has no more than four bytes for each of its characters. -/
theorem size_toByteArray_le (cs : List Char) :
    (String.ofList cs).toByteArray.size ≤ 4 * cs.length := by
  rw [String.toByteArray_ofList]
  induction cs with
  | nil => exact le_rfl
  | cons c cs ih =>
    rw [List.utf8Encode_cons, ByteArray.size_append, List.utf8Encode_singleton, List.length_cons]
    have hchar : c.utf8Size ≤ 4 := Char.utf8Size_le_four c
    have hsize : (String.utf8EncodeChar c).toByteArray.size = c.utf8Size := by simp
    omega

/-- A batch with the fact `a`. -/
def samplePushBatch : SyncBatch where
  batchId := "00000000-0000-4000-8000-000000000009"
  originNodeId := "peer"
  events := [sampleFactA]
  batch_valid := by decide +kernel
  origin_valid := sampleFactA.version.origin_valid
  nonempty := List.cons_ne_nil _ _
  count := by decide
  checked := by decide +kernel
  size := (size_toByteArray_le _).trans (by decide +kernel)

/-- A target is registered, a fact is captured, and its delivery is claimed. -/
def sampleClaiming : PushState := samplePushNet.run PushNet.start (sampleClaim.map .outbox)

/-- The delivery is sent. -/
def sampleSending : PushState :=
  { sampleClaiming with pushes := [⟨"q", sampleClaiming.handed, samplePushBatch⟩] }

/-- The request arrives. -/
def sampleArriving : PushState :=
  match syncApplyBatch (sampleConfig "q") sampleEnv samplePushNet.sha256 0 (fun _ => "") .empty
      samplePushBatch.received with
  | .ok (store, result) => { sampleSending with
      receiver := Function.update sampleSending.receiver "q" store
      replies := [("q", ⟨some 200, some (.obj result.toDict)⟩)] }
  | .error _ => sampleSending

/-- The end of the request, by the answer. -/
def sampleSettle : PushStep := .settle 0 0 ⟨10 ^ 17, 10 ^ 17, fun _ => 10 ^ 17, fun _ => 0⟩

/-- The steps before it. -/
def samplePushing : List PushStep :=
  sampleClaim.map .outbox ++ [.send "q" sampleClaiming.handed, .arrive 0 0 fun _ => ""]

theorem samplePushNet_send :
    samplePushNet.step sampleClaiming (.send "q" sampleClaiming.handed) = sampleSending := by
  have hevents : sampleClaiming.handed.map SyncDelivery.event = samplePushBatch.events := by
    decide +kernel
  have hbatch : dispatchBatch samplePushNet.uuid5 samplePushNet.sender.localNodeId "q"
      sampleClaiming.handed = .ok samplePushBatch :=
    dispatchBatch_events samplePushNet.uuid5 samplePushBatch hevents rfl
  have hhanded : ∀ x ∈ sampleClaiming.handed, x ∈ sampleClaiming.handed ∧ x.targetId = "q" := by
    decide +kernel
  have hnone : sampleClaiming.pushes = [] := by decide +kernel
  rw [samplePushNet.step_send hhanded hbatch, hnone, List.nil_append, sampleSending]

theorem samplePushNet_arrive :
    samplePushNet.step sampleSending (.arrive 0 0 fun _ => "") = sampleArriving := by
  have hpush : sampleSending.pushes[0]? = some ⟨"q", sampleClaiming.handed, samplePushBatch⟩ := by
    rw [sampleSending]
    exact List.getElem?_cons_zero
  have hempty : sampleSending.receiver "q" = .empty := by
    rw [sampleSending]
    exact congrFun (samplePushNet.run_outbox_receiver PushNet.start sampleClaim) "q"
  have hnone : sampleSending.replies = [] := by decide +kernel
  have hok : (syncApplyBatch (sampleConfig "q") sampleEnv samplePushNet.sha256 0 (fun _ => "")
      .empty samplePushBatch.received).toOption.isSome = true := by decide +kernel
  obtain ⟨⟨store, result⟩, happly⟩ := Except.exists_ok hok
  rw [samplePushNet.step_arrive hpush (by rw [hempty]; exact happly), hnone, List.nil_append,
    sampleArriving, happly]

theorem samplePushing_run : samplePushNet.run PushNet.start samplePushing = sampleArriving := by
  rw [samplePushing, PushNet.run_append, ← sampleClaiming, PushNet.run_pair, samplePushNet_send,
    samplePushNet_arrive]

theorem samplePushing_settle :
    samplePushNet.run PushNet.start (samplePushing ++ [sampleSettle]) =
      samplePushNet.step sampleArriving sampleSettle := by
  rw [PushNet.run_append, samplePushing_run, PushNet.run_singleton]

/-- The only batch of the run is the one that was sent, so that no two digests collide. -/
theorem samplePushing_batches : CollisionFree samplePushNet.sha256
    (samplePushNet.batches (samplePushing ++ [sampleSettle])) := by
  have hpushes : sampleArriving.pushes = [⟨"q", sampleClaiming.handed, samplePushBatch⟩] := by
    rw [← samplePushNet_arrive, PushNet.step_arrive_pushes, sampleSending]
  have hone : ∀ b ∈ samplePushNet.batches (samplePushing ++ [sampleSettle]),
      b = samplePushBatch := by
    rintro b (⟨push, hpush, rfl⟩ | ⟨targetId, now, clock, hmem⟩)
    · rw [samplePushing_settle, sampleSettle, PushNet.step_settle_pushes, hpushes] at hpush
      rw [List.mem_singleton.mp hpush]
    · simp [samplePushing, sampleSettle] at hmem
  intro b hb b' hb' _
  rw [hone b hb, hone b' hb']

/-- The delivery of the sample run is marked delivered, and its event is recorded at the target. -/
theorem samplePushing_recorded :
    ∃ d ∈ (samplePushNet.run PushNet.start samplePushing).sender.sync.deliveries,
      d.state ≠ .delivered ∧
      ((∃ op, sampleSettle = .outbox op ∧ SyncState.Confirms op d) ∨
        ∃ r ∈ (samplePushNet.run PushNet.start samplePushing).sender.sync.outbox,
          r.streamSeq = d.streamSeq ∧
          (r.event.identity ∈ (effects (samplePushNet.handled d.targetId PushNet.start
                samplePushing)).map SyncEvent.identity ∨
            ∃ h ∈ samplePushNet.handled d.targetId PushNet.start samplePushing,
              h.superseded = true ∧ h.event.identity = r.event.identity) ∧
          r.event.identity ∈ ((samplePushNet.run PushNet.start samplePushing).receiver
              d.targetId).sync.identities ∧
          r.event.identity ∈ ((samplePushNet.run PushNet.start
              (samplePushing ++ [sampleSettle])).receiver d.targetId).sync.identities) := by
  have hmarked : ∃ d ∈ (samplePushNet.run PushNet.start samplePushing).sender.sync.deliveries,
      ∃ d' ∈ (samplePushNet.run PushNet.start
          (samplePushing ++ [sampleSettle])).sender.sync.deliveries,
        d'.key = d.key ∧ d.state ≠ .delivered ∧ d'.state = .delivered := by
    rw [samplePushing_settle, samplePushing_run]
    decide +kernel
  obtain ⟨d, hd, d', hd', hkey, hbefore, hafter⟩ := hmarked
  exact ⟨d, hd, hbefore, (PushNet.push_exactly_once samplePushNet
    (samplePushing ++ [sampleSettle])).2 samplePushing_batches samplePushing sampleSettle [] rfl
    d hd d' hd' hkey hbefore hafter⟩

end Memplex
