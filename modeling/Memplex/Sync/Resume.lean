import Memplex.Sync.Pages

/-!
# Pulling a stream, over restarts of the receiver

A receiver pulls the stream of a server. Where it stands is known three times: the server keeps the
position of the last request, the receiver that of the last page it has applied, and the process of
the receiver the cursor to ask with, which a restart forgets. A request without a cursor is answered
from the position that the server keeps, so that its page begins with what the receiver has applied
since. `syncApplyPage` skips a page that ends where the receiver stands, and takes one that begins
behind it; a page that ends anywhere else is refused, however often it is asked for. `Aligned` says
when the page does not, and `pull_resumes_iff` that this decides whether a pull resumes.
-/

namespace Memplex

open Lib

/-- A server and a receiver that pulls from it, with the names they have for each other. -/
structure PullNet where
  server : SyncConfig
  receiver : SyncConfig
  env : Env
  sha256 : ByteArray → String
  /-- The receiver, as the server authenticates it. -/
  remoteId : String
  consumerId : String
  /-- The server, as the receiver is configured with it. -/
  targetId : String
  target_named : targetId ≠ ""
  target_remote : targetId ≠ receiver.localNodeId

/-- The arrival is no page of a peer. -/
def Arrival.Avoids (targetId : String) (a : Arrival) : Prop :=
  ∀ d p, a = .deliver d → d.content ≠ .page targetId p

/-- One request of a pull, with the readings of the clock on both sides. -/
structure Pull where
  limit : ℕ
  now : Instant
  tenantId : String
  expiresAt : Instant
  receivedAt : Instant
  clock : SyncEvent → String

/-- What happens while the process of the receiver lives: the stream of the server grows, the
receiver has other work, or asks for a page. -/
inductive LinkTurn (targetId : String) where
  | grow (a : Arrival)
  | work (a : Arrival) (avoids : a.Avoids targetId)
  | pull (q : Pull)

/-- A server, its stream, and a receiver with the cursor in its memory. -/
structure PullLink where
  server : LiteStore
  /-- All rows that the stream of the server has had. -/
  stream : List OutboxRow
  receiver : LiteStore
  cursor : Option SyncCursorClaims

namespace PullLink

variable (net : PullNet)

/-- The answer of the server. -/
def request (link : PullLink) (q : Pull) : Except PyError (SyncState × SyncPage) :=
  link.server.sync.page q.now net.remoteId net.consumerId link.cursor q.limit

/-- The receiver takes a page. -/
def receive (link : PullLink) (q : Pull) (p : SyncPage) :
    Except PyError (LiteStore × SyncApplyResult) :=
  syncApplyPage net.receiver net.env q.receivedAt q.clock link.receiver net.targetId p

/-- One round of `pull`: a cursor that the server refuses is forgotten, and an error of the receiver
leaves the cursor as it was. -/
def pull (link : PullLink) (q : Pull) : PullLink :=
  match link.request net q with
  | .error e => if e.kind = .syncCursorExpired then { link with cursor := none } else link
  | .ok (sync, p) =>
    match link.receive net q p with
    | .error _ => { link with server := { link.server with sync := sync } }
    | .ok (receiver, _) => { link with
        server := { link.server with sync := sync }
        receiver := receiver
        cursor := some (p.cursor q.tenantId net.remoteId net.consumerId q.expiresAt) }

/-- One turn. -/
def turn (link : PullLink) : LinkTurn net.targetId → PullLink
  | .grow a =>
    let server := a.op.step net.server net.env net.sha256 link.server
    { link with server := server, stream := link.stream ++ grown link.server.sync server.sync }
  | .work a _ => { link with receiver := a.op.step net.receiver net.env net.sha256 link.receiver }
  | .pull q => link.pull net q

/-- The turns of a process. -/
def turns (link : PullLink) (ts : List (LinkTurn net.targetId)) : PullLink :=
  ts.foldl (turn net) link

/-- A life of the process, up to its restart: the cursor is lost. -/
def life (link : PullLink) (ts : List (LinkTurn net.targetId)) : PullLink :=
  { link.turns net ts with cursor := none }

/-- The beginning: the server has no stream yet, and nothing was pulled. -/
def start (receiver : LiteStore) : PullLink := ⟨.empty, [], receiver, none⟩

/-- A history of restarts. -/
def lives (receiver : LiteStore) (history : List (List (LinkTurn net.targetId))) : PullLink :=
  history.foldl (life net) (start receiver)

/-! ## What is asked of a pull -/

/-- The position that the server keeps for the receiver. -/
def served (link : PullLink) : ℕ := link.server.sync.served net.remoteId net.consumerId

/-- The position that the receiver has confirmed. -/
def confirmed (link : PullLink) : ℕ := link.receiver.sync.confirmed net.receiver net.targetId

/-- The last sequence of the stream. -/
def streamEnd (link : PullLink) : ℕ := link.server.sync.nextStreamSeq - 1

/-- The events that the receiver has confirmed and that a request without a cursor is answered with
again. -/
def unacknowledged (link : PullLink) : List OutboxRow :=
  window OutboxRow.streamSeq (link.served net) (link.confirmed net)
    (foreign net.remoteId link.stream)

/-- A page without a cursor does not end amid what the receiver has confirmed, nor behind it: there
is nothing to repeat, or it is repeated up to the end of the stream, or in a page of exactly the same
events. -/
def Aligned (link : PullLink) (limit : ℕ) : Prop :=
  link.unacknowledged net = [] ∨
    ((link.unacknowledged net).length ≤ limit ∧ link.confirmed net = link.streamEnd) ∨
    ((link.unacknowledged net).length = limit ∧
      (∃ r ∈ foreign net.remoteId link.stream, r.streamSeq = link.confirmed net) ∧
      ∃ r ∈ foreign net.remoteId link.stream,
        link.confirmed net < r.streamSeq ∧ r.streamSeq ≤ link.streamEnd)

instance (link : PullLink) (limit : ℕ) : Decidable (link.Aligned net limit) :=
  inferInstanceAs (Decidable (_ ∨ _))

/-- The server answers a request with a page. -/
def Answers (link : PullLink) (q : Pull) : Prop := (link.request net q).toOption.isSome = true

instance (link : PullLink) (q : Pull) : Decidable (link.Answers net q) :=
  inferInstanceAs (Decidable (_ = _))

/-- The receiver takes the page that it is answered with, if it is answered. -/
def accepts (link : PullLink) (q : Pull) : Bool :=
  match link.request net q with
  | .error _ => true
  | .ok (_, p) => (link.receive net q p).toOption.isSome

/-- The events of a page, validated and applied. -/
def applyPage (link : PullLink) (q : Pull) (p : SyncPage) : Except PyError ApplyState := do
  let events ← validateIncomingPage p (link.receiver.sync.pageTenant p)
  let sync ← link.receiver.sync.bindPageTenant events
  applyEvents net.receiver net.env q.clock { link.receiver with sync := sync } events

/-- The events of the page that is answered are such as the receiver can apply, if they are new. -/
def applicable (link : PullLink) (q : Pull) : Bool :=
  match link.request net q with
  | .error _ => true
  | .ok (_, p) => p.nextAfterSeq ≤ link.confirmed net || (link.applyPage net q p).toOption.isSome

/-- Every page is accepted. -/
def Accepted (link : PullLink) : List (LinkTurn net.targetId) → Prop
  | [] => True
  | t :: ts => (∀ q, t = .pull q → link.accepts net q = true) ∧ (link.turn net t).Accepted ts

/-- Every page that is answered to a request without a cursor is aligned, and the new events can be
applied. -/
def Resumable (link : PullLink) : List (LinkTurn net.targetId) → Prop
  | [] => True
  | t :: ts =>
    (∀ q, t = .pull q → (link.Answers net q → link.cursor = none → link.Aligned net q.limit) ∧
      link.applicable net q = true) ∧ (link.turn net t).Resumable ts

/-- The receiver has every event of the stream that is not its own. -/
def Complete (link : PullLink) : Prop :=
  ∀ r ∈ foreign net.remoteId link.stream, r.event.identity ∈ link.receiver.sync.identities

/-- What holds of a link over its history. -/
structure Synced (link : PullLink) : Prop where
  recorded : Recorded link.server.sync link.stream
  retains : link.server.sync.retentionFloor = 0
  served_le : link.served net ≤ link.confirmed net
  confirmed_lt : link.confirmed net < link.server.sync.nextStreamSeq
  cursor : ∀ c ∈ link.cursor, c.afterSeq = link.confirmed net ∧
    c.snapshotSeq < link.server.sync.nextStreamSeq
  /-- What is confirmed is in the inbox. -/
  has : ∀ r ∈ foreign net.remoteId link.stream, r.streamSeq ≤ link.confirmed net →
    r.event.identity ∈ link.receiver.sync.identities
  /-- What is repeated was validated before. -/
  validated : link.unacknowledged net = [] ∨ ∃ tenantId,
    link.receiver.sync.tenantBinding = some tenantId ∧
      checkPageEvents tenantId [] ((link.unacknowledged net).map OutboxRow.event) = .ok ()

end PullLink

/-! ## The two sides of a request -/

/-- The positions of consumers are in the cursor rows. -/
theorem served_congr {s s' : SyncState} (h : s'.cursors = s.cursors)
    {remoteId consumerId : String} :
    s'.served remoteId consumerId = s.served remoteId consumerId := by
  rw [SyncState.served, SyncState.served, h]

/-- After a page the server keeps the position that was asked for. -/
theorem page_served {s s' : SyncState} {now : Instant} {remoteId consumerId : String}
    {cursor : Option SyncCursorClaims} {limit : ℕ} {p : SyncPage}
    (h : s.page now remoteId consumerId cursor limit = .ok (s', p)) :
    s'.served remoteId consumerId =
      max (s.served remoteId consumerId) (s.position remoteId consumerId cursor) := by
  obtain ⟨_, -, h⟩ := Except.bind_ok.mp h
  obtain ⟨_, -, h⟩ := Except.bind_ok.mp h
  obtain ⟨_, -, h⟩ := Except.bind_ok.mp h
  obtain ⟨_, -, h⟩ := Except.bind_ok.mp h
  obtain ⟨_, -, h⟩ := Except.bind_ok.mp h
  obtain ⟨_, -, heq⟩ := Except.bind_ok.mp h
  have hrecord : ∀ (t : SyncState) (after : ℕ),
      (t.recordCursor now remoteId consumerId after).served remoteId consumerId =
        max (t.served remoteId consumerId) after := by
    intro t after
    have hkey : CursorRow.key
        ⟨remoteId, consumerId, max (t.served remoteId consumerId) after, now⟩ =
        (remoteId, consumerId) := rfl
    rw [SyncState.served_eq (t.recordCursor now remoteId consumerId after), SyncState.recordCursor]
    simp only [findRow_upsertRow, if_pos hkey]
    rfl
  cases Except.ok.inj heq
  cases cursor with
  | none => exact hrecord s _
  | some c => exact hrecord (s.acknowledge remoteId c.afterSeq) _

/-- When a page is accepted. -/
theorem syncApplyPage_isSome {cfg : SyncConfig} {env : Env} {now : Instant}
    {clock : SyncEvent → String} {s : LiteStore} {remoteId : String} {p : SyncPage}
    (hnamed : remoteId ≠ "") (hremote : remoteId ≠ cfg.localNodeId) :
    (syncApplyPage cfg env now clock s remoteId p).toOption.isSome = true ↔
      ∃ sync, validateIncomingPage p (s.sync.pageTenant p) = .ok p.events ∧
        s.sync.bindPageTenant p.events = .ok sync ∧
        s.sync.confirmed cfg remoteId ≤ p.nextAfterSeq ∧
        ¬ ((∃ item ∈ p.items.head?, item.streamSeq ≤ s.sync.confirmed cfg remoteId) ∧
          s.sync.confirmed cfg remoteId < p.nextAfterSeq) ∧
        (s.sync.confirmed cfg remoteId < p.nextAfterSeq →
          ∃ st, applyEvents cfg env clock { s with sync := sync } p.events = .ok st) := by
  constructor
  · intro h
    obtain ⟨r, hr⟩ := Except.exists_ok h
    obtain ⟨_, -, hr⟩ := Except.bind_ok.mp hr
    obtain ⟨_, -, hr⟩ := Except.bind_ok.mp hr
    obtain ⟨events, hvalid, hr⟩ := Except.bind_ok.mp hr
    cases validateIncomingPage_ok hvalid
    obtain ⟨sync, hbind, hr⟩ := Except.bind_ok.mp hr
    obtain ⟨_, hreg, hr⟩ := Except.bind_ok.mp hr
    obtain ⟨_, hover, hr⟩ := Except.bind_ok.mp hr
    have hsame : sync.confirmed cfg remoteId = s.sync.confirmed cfg remoteId := by
      obtain ⟨tenant, rfl⟩ := bindPageTenant_congr hbind
      rfl
    rw [hsame] at hreg hover hr
    refine ⟨sync, hvalid, hbind, require_ok.mp hreg, require_ok.mp hover, fun hlt => ?_⟩
    rw [if_neg (not_le.mpr hlt)] at hr
    obtain ⟨st, happly, -⟩ := Except.bind_ok.mp hr
    exact ⟨st, happly⟩
  · rintro ⟨sync, hvalid, hbind, hreg, hover, happly⟩
    have hsame : sync.confirmed cfg remoteId = s.sync.confirmed cfg remoteId := by
      obtain ⟨tenant, rfl⟩ := bindPageTenant_congr hbind
      rfl
    have hok : ∀ {α β : Type} {x : Except PyError α} {a : α} {f : α → Except PyError β},
        x = .ok a → (x >>= f) = f a := fun hx => by rw [hx]; rfl
    have hreq : ∀ {q : Prop} [Decidable q] {e : PyError}, q → require q e = .ok () :=
      fun hq => if_pos hq
    rw [syncApplyPage, hok (hreq hnamed), hok (hreq hremote), hok hvalid, hok hbind]
    simp only [hsame]
    rw [hok (hreq hreg), hok (hreq hover)]
    split_ifs with hle
    · rfl
    · obtain ⟨st, hst⟩ := happly (not_le.mp hle)
      rw [hok hst]
      rfl

/-- What an accepted page leaves: the receiver stands where the page ends and has its events; a page
that ends where it stood changes at most the tenant. -/
theorem syncApplyPage_takes {cfg : SyncConfig} {env : Env} {now : Instant}
    {clock : SyncEvent → String} {s s' : LiteStore} {remoteId : String} {p : SyncPage}
    {result : SyncApplyResult}
    (h : syncApplyPage cfg env now clock s remoteId p = .ok (s', result)) :
    s'.sync.confirmed cfg remoteId = p.nextAfterSeq ∧
      (∀ i, i ∈ s'.sync.identities ↔ i ∈ s.sync.identities ∨
        (s.sync.confirmed cfg remoteId < p.nextAfterSeq ∧ i ∈ p.events.map SyncEvent.identity)) ∧
      (∀ t ∈ s.sync.tenantBinding, s'.sync.tenantBinding = some t) ∧
      checkPageEvents (s.sync.pageTenant p) [] p.events = .ok () ∧
      (p.events ≠ [] → s'.sync.tenantBinding = some (s.sync.pageTenant p)) ∧
      s.sync.confirmed cfg remoteId ≤ p.nextAfterSeq := by
  obtain ⟨_, -, h⟩ := Except.bind_ok.mp h
  obtain ⟨_, -, h⟩ := Except.bind_ok.mp h
  obtain ⟨events, hvalid, h⟩ := Except.bind_ok.mp h
  obtain ⟨_, hcheck, -⟩ := Except.bind_ok.mp hvalid
  cases validateIncomingPage_ok hvalid
  obtain ⟨sync, hbind, h⟩ := Except.bind_ok.mp h
  obtain ⟨_, hreg, h⟩ := Except.bind_ok.mp h
  obtain ⟨_, -, h⟩ := Except.bind_ok.mp h
  -- The tenant of the page is the one that is bound.
  have hbound : (∀ t ∈ s.sync.tenantBinding, sync.tenantBinding = some t) ∧
      (p.events ≠ [] → sync.tenantBinding = some (s.sync.pageTenant p)) := by
    unfold SyncState.pageTenant
    cases hevents : p.events with
    | nil =>
      rw [hevents] at hbind
      cases Except.ok.inj hbind
      exact ⟨fun t ht => ht, fun hne => absurd rfl hne⟩
    | cons e es =>
      rw [hevents] at hbind
      obtain ⟨rfl, htenant⟩ := SyncState.bindTenant_ok hbind
      refine ⟨fun t ht => by rw [htenant t ht], fun _ => ?_⟩
      cases hcur : s.sync.tenantBinding with
      | none => rfl
      | some t =>
        have ht := htenant t hcur
        show some e.scope.tenantId = some t
        rw [ht]
  have hinbox : sync.identities = s.sync.identities := by
    obtain ⟨tenant, rfl⟩ := bindPageTenant_congr hbind
    rfl
  have hsame : sync.confirmed cfg remoteId = s.sync.confirmed cfg remoteId := by
    obtain ⟨tenant, rfl⟩ := bindPageTenant_congr hbind
    rfl
  rw [hsame] at hreg h
  have hreg := require_ok.mp hreg
  split_ifs at h with hle
  · cases Except.ok.inj h
    have heq : p.nextAfterSeq = s.sync.confirmed cfg remoteId := le_antisymm hle hreg
    refine ⟨hsame.trans heq.symm, fun i => ?_, hbound.1, hcheck, hbound.2, hreg⟩
    show i ∈ sync.identities ↔ _
    rw [hinbox]
    exact ⟨.inl, fun hi => hi.resolve_right fun hr => absurd hr.1 (not_lt.mpr hle)⟩
  · obtain ⟨st, happly, heq⟩ := Except.bind_ok.mp h
    cases Except.ok.inj heq
    have htakes := applyEvents_takes happly
    have hkeep : ∀ t, sync.tenantBinding = some t → st.store.sync.tenantBinding = some t :=
      fun t ht => htakes.tenant t ht
    refine ⟨?_, fun i => ?_, fun t ht => hkeep t (hbound.1 t ht), hcheck,
      fun hne => hkeep _ (hbound.2 hne), hreg⟩
    · have hkey : CursorRow.key ⟨remoteId, cfg.localNodeId, p.nextAfterSeq, now⟩ =
        (remoteId, cfg.localNodeId) := rfl
      rw [SyncState.confirmed_eq]
      simp only [findRow_upsertRow, if_pos hkey]
      rfl
    · show i ∈ st.store.sync.identities ↔ _
      rw [htakes.identities]
      show i ∈ sync.identities ∨ _ ↔ _
      rw [hinbox]
      exact or_congr_right ⟨fun hi => ⟨not_le.mp hle, hi⟩, And.right⟩

/-- A page of one peer leaves the position in the stream of another. -/
theorem syncApplyPage_confirmed_ne {cfg : SyncConfig} {env : Env} {now : Instant}
    {clock : SyncEvent → String} {s s' : LiteStore} {remoteId targetId : String} {p : SyncPage}
    {result : SyncApplyResult} (hne : remoteId ≠ targetId)
    (h : syncApplyPage cfg env now clock s remoteId p = .ok (s', result)) :
    s'.sync.confirmed cfg targetId = s.sync.confirmed cfg targetId := by
  obtain ⟨_, -, h⟩ := Except.bind_ok.mp h
  obtain ⟨_, -, h⟩ := Except.bind_ok.mp h
  obtain ⟨events, -, h⟩ := Except.bind_ok.mp h
  obtain ⟨sync, hbind, h⟩ := Except.bind_ok.mp h
  obtain ⟨tenant, rfl⟩ := bindPageTenant_congr hbind
  obtain ⟨_, -, h⟩ := Except.bind_ok.mp h
  obtain ⟨_, -, h⟩ := Except.bind_ok.mp h
  split_ifs at h
  · cases Except.ok.inj h
    rfl
  · obtain ⟨st, happly, heq⟩ := Except.bind_ok.mp h
    cases Except.ok.inj heq
    have hinbound : st.store.sync.inboundCursors = s.sync.inboundCursors :=
      (applyEvents_takes happly).inbound
    have hkey : CursorRow.key ⟨remoteId, cfg.localNodeId, p.nextAfterSeq, now⟩ ≠
        (targetId, cfg.localNodeId) := fun heq => hne (Prod.mk.inj heq).1
    rw [SyncState.confirmed_eq, SyncState.confirmed_eq]
    simp only [findRow_upsertRow, if_neg hkey, hinbound]

/-- What other work leaves to a pull. -/
structure Keeps (cfg : SyncConfig) (targetId : String) (s s' : SyncState) : Prop where
  confirmed : s'.confirmed cfg targetId = s.confirmed cfg targetId
  identities : ∀ i ∈ s.identities, i ∈ s'.identities
  tenant : ∀ t ∈ s.tenantBinding, s'.tenantBinding = some t

theorem Keeps.refl (cfg : SyncConfig) (targetId : String) (s : SyncState) :
    Keeps cfg targetId s s := ⟨rfl, fun _ hi => hi, fun _ ht => ht⟩

theorem Takes.keeps {s s' : SyncState} {events : List SyncEvent} (h : Takes s s' events)
    (cfg : SyncConfig) (targetId : String) : Keeps cfg targetId s s' where
  confirmed := by rw [SyncState.confirmed, SyncState.confirmed, h.inbound]
  identities i hi := (h.identities i).mpr (.inl hi)
  tenant := h.tenant

theorem syncApplyBatch_keeps {cfg : SyncConfig} {env : Env} {sha256 : ByteArray → String}
    {now : Instant} {clock : SyncEvent → String} {s s' : LiteStore} {batch : SyncBatch}
    {result : SyncBatchResult} (targetId : String)
    (h : syncApplyBatch cfg env sha256 now clock s batch = .ok (s', result)) :
    Keeps cfg targetId s.sync s'.sync := by
  obtain ⟨sync, hbind, h⟩ := Except.bind_ok.mp h
  obtain ⟨rfl, htenant⟩ := SyncState.bindTenant_ok hbind
  have hbound : Keeps cfg targetId s.sync { s.sync with tenantBinding := some batch.tenantId } :=
    ⟨rfl, fun _ hi => hi, fun t ht => by rw [htenant t ht]⟩
  split at h
  · obtain ⟨_, -, heq⟩ := Except.bind_ok.mp h
    cases Except.ok.inj heq
    exact hbound
  · obtain ⟨st, happly, heq⟩ := Except.bind_ok.mp h
    cases Except.ok.inj heq
    have hkeeps := (applyEvents_takes happly).keeps cfg targetId
    exact ⟨hkeeps.confirmed, hkeeps.identities, fun t ht =>
      hkeeps.tenant t (hbound.tenant t ht)⟩

/-- An arrival that is no page of the peer. -/
theorem arrival_keeps (cfg : SyncConfig) (env : Env) (sha256 : ByteArray → String)
    {targetId : String} (s : LiteStore) {a : Arrival} (havoid : a.Avoids targetId) :
    Keeps cfg targetId s.sync (a.op.step cfg env sha256 s).sync := by
  unfold RepoOp.step
  split
  next s' happly =>
    cases a with
    | capture business event =>
      obtain ⟨sync, hrun, rfl⟩ := Except.map_ok happly
      unfold SyncState.captureLocalEvent at hrun
      split_ifs at hrun
      · cases Except.ok.inj hrun
        exact .refl ..
      · obtain ⟨⟨sync', streamSeq⟩, happend, rfl⟩ := Except.map_ok hrun
        obtain ⟨rfl, -, -, htenant⟩ := SyncState.appendEvent_ok happend
        refine ⟨rfl, fun _ hi => hi, fun t ht => ?_⟩
        rw [htenant t ht]
    | deliver d =>
      have happly : Memplex.deliver cfg env sha256 s d = .ok s' := happly
      unfold Memplex.deliver at happly
      split at happly
      · obtain ⟨⟨s₁, result⟩, hrun, rfl⟩ := Except.map_ok happly
        exact syncApplyBatch_keeps targetId hrun
      next remoteId p hcontent =>
        obtain ⟨⟨s₁, result⟩, hrun, rfl⟩ := Except.map_ok happly
        have hne : remoteId ≠ targetId := fun heq => havoid d p rfl (heq ▸ hcontent)
        obtain ⟨-, hids, htenant, -⟩ := syncApplyPage_takes hrun
        exact ⟨syncApplyPage_confirmed_ne hne hrun, fun i hi => (hids i).mpr (.inl hi), htenant⟩
  · exact .refl ..

theorem Arrives.cursors {s s' : SyncState} (h : Arrives s s') :
    s'.cursors = s.cursors ∧ s'.retentionFloor = s.retentionFloor := by
  induction h with
  | refl => exact ⟨rfl, rfl⟩
  | aside _ _ _ _ _ ih => exact ih
  | append e _ ih => exact ih

theorem arrival_arrives (cfg : SyncConfig) (env : Env) (sha256 : ByteArray → String)
    (s : LiteStore) (a : Arrival) : Arrives s.sync (a.op.step cfg env sha256 s).sync := by
  unfold RepoOp.step
  split
  next s' happly =>
    cases a with
    | capture business event =>
      obtain ⟨sync, hrun, rfl⟩ := Except.map_ok happly
      exact captureLocalEvent_arrives hrun
    | deliver d => exact deliver_arrives happly
  · exact .refl

/-- A page is the beginning of the window that its request asks for, and ends there. -/
theorem page_eq {s s' : SyncState} {stream : List OutboxRow} {now : Instant}
    {remoteId consumerId : String} {cursor : Option SyncCursorClaims} {limit : ℕ} {p : SyncPage}
    (hrec : Recorded s stream) (h : s.page now remoteId consumerId cursor limit = .ok (s', p)) :
    1 ≤ limit ∧
      p.items = ((window OutboxRow.streamSeq (s.position remoteId consumerId cursor)
        (s.horizon (s.position remoteId consumerId cursor) cursor)
        (foreign remoteId stream)).take limit).map OutboxRow.item ∧
      p.nextAfterSeq = pageEnd OutboxRow.streamSeq limit
        (s.horizon (s.position remoteId consumerId cursor) cursor)
        (window OutboxRow.streamSeq (s.position remoteId consumerId cursor)
          (s.horizon (s.position remoteId consumerId cursor) cursor) (foreign remoteId stream)) := by
  obtain ⟨hlimit, hfloor, hpage⟩ := page_ok h
  rw [hrec.pageRows_eq hfloor] at hpage
  obtain ⟨hitems, -, hnext, -⟩ := SyncPage.create_ok hpage
  refine ⟨hlimit, hitems, hnext.trans ?_⟩
  unfold pageEnd
  split_ifs with hmore hmore' hmore'
  · rfl
  · exact absurd (decide_eq_true_eq.mp hmore) hmore'
  · exact absurd (decide_eq_true hmore') hmore
  · rfl

namespace PullLink

variable {net : PullNet} {link : PullLink}

/-! ## The history of a link -/

/-- A link with nothing pulled yet. -/
theorem start_synced {receiver : LiteStore}
    (h : receiver.sync.confirmed net.receiver net.targetId = 0) : Synced net (start receiver) where
  recorded := recorded_empty
  retains := rfl
  served_le := Nat.zero_le _
  confirmed_lt := by
    show receiver.sync.confirmed net.receiver net.targetId < 1
    omega
  cursor := by simp [start]
  has := by simp [start, foreign]
  validated := .inl rfl

theorem Synced.restart (h : Synced net link) : Synced net { link with cursor := none } where
  recorded := h.recorded
  retains := h.retains
  served_le := h.served_le
  confirmed_lt := h.confirmed_lt
  cursor := by simp
  has := h.has
  validated := h.validated

/-- The stream grows behind what has been confirmed. -/
theorem Synced.grow (h : Synced net link) (a : Arrival) :
    Synced net (link.turn net (.grow a)) := by
  have harrives := arrival_arrives net.server net.env net.sha256 link.server a
  obtain ⟨hcursors, hfloor⟩ := harrives.cursors
  have hnext := harrives.appends.targets_next.2
  have hrec : Recorded (link.turn net (.grow a)).server.sync (link.turn net (.grow a)).stream :=
    step_recorded net.server net.env net.sha256 h.recorded a.op
  have hserved : (link.turn net (.grow a)).served net = link.served net := served_congr hcursors
  have hwindow : ∀ lo, window OutboxRow.streamSeq lo (link.confirmed net)
      (foreign net.remoteId (link.turn net (.grow a)).stream) =
      window OutboxRow.streamSeq lo (link.confirmed net) (foreign net.remoteId link.stream) :=
    fun lo => window_grown h.confirmed_lt
  exact {
    recorded := hrec
    retains := hfloor.trans h.retains
    served_le := hserved.trans_le h.served_le
    confirmed_lt := h.confirmed_lt.trans_le hnext
    cursor := fun c hc => ⟨(h.cursor c hc).1, (h.cursor c hc).2.trans_le hnext⟩
    has := fun r hr hle => by
      have hpos : 0 < r.streamSeq := by
        have hmem := List.mem_map_of_mem (f := OutboxRow.streamSeq) (List.mem_of_mem_filter hr)
        rw [hrec.seqs, List.mem_range'_1] at hmem
        exact hmem.1
      have hold : r ∈ window OutboxRow.streamSeq 0 (link.confirmed net)
          (foreign net.remoteId link.stream) := by
        rw [← hwindow 0]
        exact mem_window.mpr ⟨hr, hpos, hle⟩
      exact h.has r (mem_window.mp hold).1 hle
    validated := by
      have hsame : (link.turn net (.grow a)).unacknowledged net = link.unacknowledged net := by
        rw [unacknowledged, hserved]
        exact hwindow _
      rw [hsame]
      exact h.validated }

/-- Other work of the receiver does not touch what it has pulled. -/
theorem Synced.work (h : Synced net link) (a : Arrival) (havoid : a.Avoids net.targetId) :
    Synced net (link.turn net (.work a havoid)) := by
  have hkeeps := arrival_keeps net.receiver net.env net.sha256 link.receiver havoid
  have hconfirmed : (link.turn net (.work a havoid)).confirmed net = link.confirmed net :=
    hkeeps.confirmed
  have hsame : (link.turn net (.work a havoid)).unacknowledged net = link.unacknowledged net := by
    rw [unacknowledged, hconfirmed]
    rfl
  exact {
    recorded := h.recorded
    retains := h.retains
    served_le := hconfirmed.symm ▸ h.served_le
    confirmed_lt := hconfirmed.symm ▸ h.confirmed_lt
    cursor := hconfirmed.symm ▸ h.cursor
    has := fun r hr hle => hkeeps.identities _ (h.has r hr (hconfirmed ▸ hle))
    validated := by
      rw [hsame]
      rcases h.validated with hnil | ⟨tenantId, htenant, hcheck⟩
      · exact .inl hnil
      · exact .inr ⟨tenantId, hkeeps.tenant tenantId htenant, hcheck⟩ }

/-- Where a request reads from: the confirmed position with a cursor, the one that the server keeps
without. -/
theorem Synced.position (h : Synced net link) :
    link.served net ≤ link.server.sync.position net.remoteId net.consumerId link.cursor ∧
      link.server.sync.position net.remoteId net.consumerId link.cursor ≤ link.confirmed net ∧
      (link.cursor = none →
        link.server.sync.position net.remoteId net.consumerId link.cursor = link.served net) ∧
      (link.cursor ≠ none →
        link.server.sync.position net.remoteId net.consumerId link.cursor =
          link.confirmed net) := by
  cases hcursor : link.cursor with
  | none => exact ⟨le_rfl, h.served_le, fun _ => rfl, fun hne => absurd rfl hne⟩
  | some c =>
    have hc : link.server.sync.position net.remoteId net.consumerId (some c) =
        link.confirmed net := (h.cursor c hcursor).1
    rw [hc]
    exact ⟨h.served_le, le_rfl, fun hnone => absurd hnone (by simp), fun _ => rfl⟩

/-- The page of an answer is a window of the stream. -/
theorem Synced.answer (h : Synced net link) {q : Pull} {sync : SyncState} {p : SyncPage}
    (hreq : link.request net q = .ok (sync, p)) :
    p.items = (window OutboxRow.streamSeq
        (link.server.sync.position net.remoteId net.consumerId link.cursor) p.nextAfterSeq
        (foreign net.remoteId link.stream)).map OutboxRow.item ∧
      link.server.sync.position net.remoteId net.consumerId link.cursor ≤ p.nextAfterSeq ∧
      p.nextAfterSeq ≤ p.snapshotSeq ∧ p.snapshotSeq < link.server.sync.nextStreamSeq :=
  page_window h.recorded (h.position.2.1.trans_lt h.confirmed_lt)
    (fun c hc => (h.cursor c hc).2) hreq

theorem events_of_items {p : SyncPage} {rows : List OutboxRow}
    (h : p.items = rows.map OutboxRow.item) : p.events = rows.map OutboxRow.event := by
  rw [SyncPage.events, h, List.map_map]
  rfl

/-- A pull, whatever comes of it. -/
theorem Synced.pull (h : Synced net link) (q : Pull) : Synced net (link.pull net q) := by
  unfold PullLink.pull
  split
  · split_ifs
    · exact h.restart
    · exact h
  next sync p hreq =>
    obtain ⟨hle, hle', -, -⟩ := h.position
    obtain ⟨hitems, hbegin, hend, hsnapshot⟩ := h.answer hreq
    have hquiet := page_quiet hreq
    have hserved := page_served hreq
    have hserved : sync.served net.remoteId net.consumerId =
        link.server.sync.position net.remoteId net.consumerId link.cursor :=
      hserved.trans (max_eq_right hle)
    have hrec := h.recorded.congr hquiet.outbox hquiet.next hquiet.floor
    have hretains := hquiet.floor.trans h.retains
    generalize hpos : link.server.sync.position net.remoteId net.consumerId link.cursor = pos at *
    split
    · -- The receiver has refused the page: the server keeps what it was asked for.
      exact {
        recorded := hrec
        retains := hretains
        served_le := hserved.trans_le hle'
        confirmed_lt := h.confirmed_lt.trans_eq hquiet.next.symm
        cursor := fun c hc => ⟨(h.cursor c hc).1, (h.cursor c hc).2.trans_eq hquiet.next.symm⟩
        has := h.has
        validated := by
          have hunack : PullLink.unacknowledged net
              { link with server := { link.server with sync := sync } } =
              window OutboxRow.streamSeq pos (link.confirmed net)
                (foreign net.remoteId link.stream) := by
            rw [unacknowledged, PullLink.served, hserved]
            rfl
          rw [hunack]
          cases hcursor : link.cursor with
          | none =>
            have hsame : pos = link.served net := hpos ▸ h.position.2.2.1 hcursor
            rw [hsame]
            exact h.validated
          | some c =>
            have hsame : pos = link.confirmed net :=
              hpos ▸ h.position.2.2.2 (by rw [hcursor]; simp)
            refine .inl (List.filter_eq_nil_iff.mpr fun r _ => ?_)
            rw [decide_eq_true_eq, hsame]
            omega }
    next receiver result hreceive =>
      obtain ⟨hconfirmed, hids, -, hcheck, htenant, hreg⟩ := syncApplyPage_takes hreceive
      have hevents := events_of_items hitems
      have hreg : link.confirmed net ≤ p.nextAfterSeq := hreg
      exact {
        recorded := hrec
        retains := hretains
        served_le := hserved.trans_le (hbegin.trans_eq hconfirmed.symm)
        confirmed_lt := by
          show receiver.sync.confirmed net.receiver net.targetId < sync.nextStreamSeq
          rw [hconfirmed, hquiet.next]
          exact hend.trans_lt hsnapshot
        cursor := fun c hc => by
          cases Option.some.inj hc
          exact ⟨hconfirmed.symm, hsnapshot.trans_eq hquiet.next.symm⟩
        has := fun r hr hle'' => by
          have hle'' : r.streamSeq ≤ p.nextAfterSeq := hle''.trans_eq hconfirmed
          refine (hids _).mpr ?_
          by_cases hold : r.streamSeq ≤ link.confirmed net
          · exact .inl (h.has r hr hold)
          · have hlt := not_le.mp hold
            refine .inr ⟨hlt.trans_le hle'', ?_⟩
            rw [hevents, List.map_map]
            exact List.mem_map_of_mem (mem_window.mpr ⟨hr, hle'.trans_lt hlt, hle''⟩)
        validated := by
          have hunack : PullLink.unacknowledged net ⟨{ link.server with sync := sync },
              link.stream, receiver,
              some (p.cursor q.tenantId net.remoteId net.consumerId q.expiresAt)⟩ =
              window OutboxRow.streamSeq pos p.nextAfterSeq (foreign net.remoteId link.stream) := by
            rw [unacknowledged, PullLink.served, PullLink.confirmed, hserved, hconfirmed]
          rw [hunack, ← hevents]
          by_cases hnil : p.events = []
          · rw [hnil] at hevents
            exact .inl (List.map_eq_nil_iff.mp hevents.symm)
          · exact .inr ⟨_, htenant hnil, hcheck⟩ }

theorem Synced.turn (h : Synced net link) (t : LinkTurn net.targetId) :
    Synced net (link.turn net t) := by
  cases t with
  | grow a => exact h.grow a
  | work a havoid => exact h.work a havoid
  | pull q => exact h.pull q

theorem Synced.turns (h : Synced net link) (ts : List (LinkTurn net.targetId)) :
    Synced net (link.turns net ts) := by
  induction ts generalizing link with
  | nil => exact h
  | cons t ts ih => exact ih (h.turn t)

/-- The run: over any lives of the process. -/
theorem foldl_life_synced (history : List (List (LinkTurn net.targetId))) (h : Synced net link) :
    Synced net (history.foldl (life net) link) := by
  induction history generalizing link with
  | nil => exact h
  | cons ts history ih => exact ih (h.turns ts).restart

/-! ## Acceptance -/

/-- The position of the page of an answer: for a request without a cursor it lies with the receiver
exactly when the page is aligned, and with a cursor always. -/
theorem Synced.bounds_iff (h : Synced net link) {q : Pull} {sync : SyncState} {p : SyncPage}
    (hreq : link.request net q = .ok (sync, p)) :
    (link.confirmed net ≤ p.nextAfterSeq ∧
      ¬ ((∃ item ∈ p.items.head?, item.streamSeq ≤ link.confirmed net) ∧
        link.confirmed net < p.nextAfterSeq)) ↔
      (link.cursor = none → link.Aligned net q.limit) := by
  obtain ⟨hitems, hbegin, -, -⟩ := h.answer hreq
  obtain ⟨-, -, hnocursor, hcursor⟩ := h.position
  have hasc : Ascending OutboxRow.streamSeq (foreign net.remoteId link.stream) :=
    h.recorded.ascending.filter _
  -- Where all items lie behind the confirmed position, nothing overlaps.
  have hbehind : (∀ item ∈ p.items, link.confirmed net < item.streamSeq) →
      ¬ ((∃ item ∈ p.items.head?, item.streamSeq ≤ link.confirmed net) ∧
        link.confirmed net < p.nextAfterSeq) := by
    rintro hall ⟨⟨item, hitem, hle⟩, -⟩
    exact absurd (hall item (List.mem_of_mem_head? hitem)) (not_lt.mpr hle)
  by_cases hnone : link.cursor = none
  · have hpos := hnocursor hnone
    obtain ⟨hlimit, htake, hnext⟩ := page_eq h.recorded hreq
    have hhorizon : link.server.sync.horizon
        (link.server.sync.position net.remoteId net.consumerId link.cursor) link.cursor =
        link.streamEnd := by
      rw [hnone] at hpos ⊢
      have hlt := h.served_le.trans_lt h.confirmed_lt
      refine h.recorded.streamEnd_eq ?_ ?_
      · rw [h.retains]
        exact Nat.zero_le _
      · rw [hpos]
        exact hlt
    rw [hhorizon, hpos] at hnext htake
    rw [hpos] at hitems hbegin
    have hend : link.confirmed net ≤ link.streamEnd := Nat.le_sub_one_of_lt h.confirmed_lt
    by_cases hunack : link.unacknowledged net = []
    · -- Nothing is repeated.
      have hnew : ∀ r ∈ foreign net.remoteId link.stream, link.served net < r.streamSeq →
          link.confirmed net < r.streamSeq := by
        intro r hr hlt
        by_contra hle
        have hmem : r ∈ link.unacknowledged net := mem_window.mpr ⟨hr, hlt, not_lt.mp hle⟩
        rw [hunack] at hmem
        exact absurd hmem (by simp)
      refine iff_of_true ⟨?_, hbehind fun item hitem => ?_⟩ fun _ => .inl hunack
      · rw [hnext]
        unfold pageEnd
        split_ifs with hmore
        · obtain ⟨r, hlast⟩ := exists_last_of_lt hlimit hmore
          have hr := mem_window.mp (List.mem_of_mem_take (List.mem_of_getLast? hlast))
          rw [hlast]
          exact (hnew r hr.1 hr.2.1).le
        · exact hend
      · rw [hitems] at hitem
        obtain ⟨r, hr, rfl⟩ := List.mem_map.mp hitem
        have hr := mem_window.mp hr
        exact hnew r hr.1 hr.2.1
    · -- The page begins with what is repeated, and has to end with it.
      have hhead : ∃ item ∈ p.items.head?, item.streamSeq ≤ link.confirmed net := by
        obtain ⟨r, rows, hrows⟩ := List.exists_cons_of_ne_nil hunack
        have hr : r ∈ link.unacknowledged net := by rw [hrows]; exact List.mem_cons_self ..
        have hsplit := window_append hasc h.served_le hend
        have hcons : window OutboxRow.streamSeq (link.served net) link.streamEnd
            (foreign net.remoteId link.stream) = r :: (rows ++ window OutboxRow.streamSeq
              (link.confirmed net) link.streamEnd (foreign net.remoteId link.stream)) := by
          rw [← hsplit]
          exact congrArg (· ++ _) hrows
        refine ⟨r.item, ?_, (mem_window.mp hr).2.2⟩
        obtain ⟨n, hn⟩ := Nat.exists_eq_add_of_le hlimit
        rw [htake, hcons, hn, Nat.add_comm, List.take_succ_cons]
        rfl
      have hiff := pageEnd_window_eq_iff hasc hlimit h.served_le hend hunack
      rw [← hnext] at hiff
      constructor
      · rintro ⟨hreg, hover⟩ -
        have heq : p.nextAfterSeq = link.confirmed net :=
          le_antisymm (not_lt.mp fun hlt => hover ⟨hhead, hlt⟩) hreg
        exact .inr (hiff.mp heq)
      · intro haligned
        have heq : p.nextAfterSeq = link.confirmed net :=
          hiff.mpr ((haligned hnone).resolve_left hunack)
        exact ⟨heq.ge, fun hover => absurd hover.2 (by rw [heq]; exact lt_irrefl _)⟩
  · have hpos := hcursor hnone
    rw [hpos] at hitems hbegin
    refine iff_of_true ⟨hbegin, hbehind fun item hitem => ?_⟩ fun heq => absurd heq hnone
    rw [hitems] at hitem
    obtain ⟨r, hr, rfl⟩ := List.mem_map.mp hitem
    exact (mem_window.mp hr).2.1

/-- A page that repeats what the receiver has is valid again. -/
theorem Synced.repeated_valid (h : Synced net link) {q : Pull} {sync : SyncState} {p : SyncPage}
    (hreq : link.request net q = .ok (sync, p)) (heq : p.nextAfterSeq = link.confirmed net) :
    ∃ sync', validateIncomingPage p (link.receiver.sync.pageTenant p) = .ok p.events ∧
      link.receiver.sync.bindPageTenant p.events = .ok sync' := by
  obtain ⟨hitems, -, -, -⟩ := h.answer hreq
  have hevents := events_of_items hitems
  rw [heq] at hevents
  have hcheck : ∀ tenantId, checkPageEvents tenantId [] p.events = .ok () →
      validateIncomingPage p tenantId = .ok p.events := by
    intro tenantId hc
    rw [validateIncomingPage, hc]
    rfl
  cases hp : p.events with
  | nil =>
    refine ⟨link.receiver.sync, ?_, rfl⟩
    rw [← hp]
    exact hcheck _ (by rw [hp]; rfl)
  | cons e es =>
    -- Only a request without a cursor repeats events.
    have hsame : p.events = (link.unacknowledged net).map OutboxRow.event := by
      rw [hevents]
      by_cases hnone : link.cursor = none
      · rw [h.position.2.2.1 hnone]
        rfl
      · rw [h.position.2.2.2 hnone] at hevents
        have hnil : window OutboxRow.streamSeq (link.confirmed net) (link.confirmed net)
            (foreign net.remoteId link.stream) = [] := by
          refine List.filter_eq_nil_iff.mpr fun r _ => ?_
          rw [decide_eq_true_eq]
          omega
        rw [hnil, hp] at hevents
        exact absurd hevents (by simp)
    rcases h.validated with hnil | ⟨tenantId, htenant, hvalid⟩
    · rw [hnil, hp] at hsame
      exact absurd hsame (by simp)
    · have hpage : link.receiver.sync.pageTenant p = tenantId := by
        rw [SyncState.pageTenant, htenant]
        rfl
      rw [← hsame, hp] at hvalid
      refine ⟨link.receiver.sync, ?_, ?_⟩
      · rw [hpage, ← hp]
        exact hcheck _ (by rw [hp]; exact hvalid)
      · obtain ⟨_, hfirst, -⟩ := Except.bind_ok.mp hvalid
        have hscope := require_ok.mp hfirst
        exact SyncState.bindTenant_self (htenant.trans (congrArg some hscope.symm))

/-- The pull: a page is accepted exactly when it is aligned, if no cursor was sent, and its new
events can be applied. -/
theorem Synced.accepts_iff (h : Synced net link) (q : Pull) :
    link.accepts net q = true ↔
      (link.Answers net q → link.cursor = none → link.Aligned net q.limit) ∧
        link.applicable net q = true := by
  unfold PullLink.accepts PullLink.applicable PullLink.Answers
  cases hreq : link.request net q with
  | error e => simp [Except.toOption]
  | ok answer =>
    obtain ⟨sync, p⟩ := answer
    have hbounds := h.bounds_iff hreq
    have hiff : (link.receive net q p).toOption.isSome = true ↔ _ :=
      syncApplyPage_isSome net.target_named net.target_remote
    show (link.receive net q p).toOption.isSome = true ↔
      ((true = true → _) ∧ (decide (p.nextAfterSeq ≤ link.confirmed net) ||
        (link.applyPage net q p).toOption.isSome) = true)
    rw [hiff]
    simp only [Bool.or_eq_true, decide_eq_true_eq, forall_const]
    constructor
    · rintro ⟨sync', hvalid, hbind, hreg, hover, happly⟩
      refine ⟨hbounds.mp ⟨hreg, hover⟩, ?_⟩
      by_cases hle : p.nextAfterSeq ≤ link.confirmed net
      · exact .inl hle
      · obtain ⟨st, hst⟩ := happly (not_le.mp hle)
        have hok : link.applyPage net q p = .ok st := by
          rw [applyPage, hvalid]
          show (link.receiver.sync.bindPageTenant p.events >>= _) = _
          rw [hbind]
          exact hst
        exact .inr (by rw [hok]; rfl)
    · rintro ⟨haligned, happlicable⟩
      obtain ⟨hreg, hover⟩ := hbounds.mpr haligned
      by_cases hle : p.nextAfterSeq ≤ link.confirmed net
      · obtain ⟨sync', hvalid, hbind⟩ := h.repeated_valid hreq (le_antisymm hle hreg)
        exact ⟨sync', hvalid, hbind, hreg, hover, fun hlt => absurd hlt (not_lt.mpr hle)⟩
      · obtain ⟨st, hst⟩ := Except.exists_ok (happlicable.resolve_left hle)
        obtain ⟨events, hvalid, hst⟩ := Except.bind_ok.mp hst
        cases validateIncomingPage_ok hvalid
        obtain ⟨sync', hbind, hst⟩ := Except.bind_ok.mp hst
        exact ⟨sync', hvalid, hbind, hreg, hover, fun _ => ⟨st, hst⟩⟩

/-- The run: all pages are accepted exactly when all of them can be resumed from. -/
theorem Synced.accepted_iff (h : Synced net link) (ts : List (LinkTurn net.targetId)) :
    link.Accepted net ts ↔ link.Resumable net ts := by
  induction ts generalizing link with
  | nil => exact Iff.rfl
  | cons t ts ih =>
    refine and_congr (forall_congr' fun q => ?_) (ih (h.turn t))
    exact forall_congr' fun _ => h.accepts_iff q

/-! ## Completion -/

/-- A receiver that stands at the end of the stream has all of it. -/
theorem Synced.complete (h : Synced net link) (hend : link.streamEnd ≤ link.confirmed net) :
    link.Complete net := by
  intro r hr
  have hlt := h.recorded.seq_lt (List.mem_of_mem_filter hr)
  have hend : link.server.sync.nextStreamSeq - 1 ≤ link.confirmed net := hend
  exact h.has r hr (by omega)

/-- An accepted page that was asked for with a cursor brings the receiver forward, up to the end. -/
theorem Synced.pull_advances (h : Synced net link) {q : Pull} (hanswers : link.Answers net q)
    (haccepts : link.accepts net q = true) :
    (link.pull net q).cursor ≠ none ∧ (link.pull net q).streamEnd = link.streamEnd ∧
      link.confirmed net ≤ (link.pull net q).confirmed net ∧
      (link.cursor ≠ none → link.confirmed net < link.streamEnd →
        link.confirmed net < (link.pull net q).confirmed net) := by
  obtain ⟨⟨sync, p⟩, hreq⟩ := Except.exists_ok hanswers
  have hreceive : (link.receive net q p).toOption.isSome = true := by
    rw [accepts, hreq] at haccepts
    exact haccepts
  obtain ⟨⟨receiver, result⟩, hreceive⟩ := Except.exists_ok hreceive
  obtain ⟨hconfirmed, -, -, -, -, hreg⟩ := syncApplyPage_takes hreceive
  have hnext := (page_quiet hreq).next
  have hpull : link.pull net q = ⟨{ link.server with sync := sync }, link.stream, receiver,
      some (p.cursor q.tenantId net.remoteId net.consumerId q.expiresAt)⟩ := by
    simp only [PullLink.pull, hreq, hreceive]
  rw [hpull]
  refine ⟨by simp, congrArg (· - 1) hnext, hreg.trans_eq hconfirmed.symm, fun hsome hlt => ?_⟩
  show link.confirmed net < receiver.sync.confirmed net.receiver net.targetId
  rw [hconfirmed]
  obtain ⟨hlimit, -, hpage⟩ := page_eq h.recorded hreq
  have hpos := h.position.2.2.2 hsome
  rw [hpos] at hpage
  rw [hpage]
  refine lt_pageEnd hlimit ?_
  obtain ⟨c, hc⟩ := Option.ne_none_iff_exists'.mp hsome
  have hafter := (h.cursor c hc).1
  rw [hc]
  show _ < (if c.afterSeq = c.snapshotSeq then link.server.sync.streamEnd _ else c.snapshotSeq)
  have hordered := c.ordered
  split_ifs with hsame
  · rw [h.recorded.streamEnd_eq (by rw [h.retains]; exact Nat.zero_le _) h.confirmed_lt]
    exact hlt
  · omega

/-- The server answers every request. -/
def Answered (net : PullNet) (link : PullLink) : List (LinkTurn net.targetId) → Prop
  | [] => True
  | t :: ts => (∀ q, t = .pull q → link.Answers net q) ∧ (link.turn net t).Answered net ts

/-- Pulls with a cursor that are answered and accepted bring the receiver to the end. -/
theorem Synced.pulls_reach_end (h : Synced net link) (qs : List Pull)
    (hanswered : link.Answered net (qs.map .pull)) (haccepted : link.Accepted net (qs.map .pull))
    (hcursor : link.cursor ≠ none) (hlength : link.streamEnd ≤ link.confirmed net + qs.length) :
    (link.turns net (qs.map .pull)).Complete net := by
  induction qs generalizing link with
  | nil => exact h.complete hlength
  | cons q qs ih =>
    obtain ⟨hcursor', hend, hle, hlt⟩ :=
      h.pull_advances (hanswered.1 q rfl) (haccepted.1 q rfl)
    refine ih (h.turn (.pull q)) hanswered.2 haccepted.2 hcursor' ?_
    show (link.pull net q).streamEnd ≤ (link.pull net q).confirmed net + qs.length
    rw [hend]
    rw [List.length_cons] at hlength
    by_cases hdone : link.confirmed net < link.streamEnd
    · have hstep := hlt hcursor hdone
      omega
    · omega

end PullLink

open PullLink

/-- Whatever the history of pulls and restarts: the pages that a server answers with are accepted
one after the other exactly when each that was asked for without a cursor is aligned and the new
events can be applied. As long as they are, as many more pulls as the stream has events bring the
receiver all of it. -/
theorem pull_resumes_iff (net : PullNet) (receiver : LiteStore)
    (hstart : receiver.sync.confirmed net.receiver net.targetId = 0)
    (history : List (List (LinkTurn net.targetId))) (ts : List (LinkTurn net.targetId)) :
    ((lives net receiver history).Accepted net ts ↔ (lives net receiver history).Resumable net ts) ∧
      ∀ qs : List Pull,
        ((lives net receiver history).turns net ts).Answered net (qs.map .pull) →
        ((lives net receiver history).turns net ts).Accepted net (qs.map .pull) →
        ((lives net receiver history).turns net ts).server.sync.nextStreamSeq ≤ qs.length →
        (((lives net receiver history).turns net ts).turns net (qs.map .pull)).Complete net := by
  have hsynced : Synced net (lives net receiver history) :=
    foldl_life_synced history (start_synced hstart)
  refine ⟨hsynced.accepted_iff ts, fun qs hanswered haccepted hlength => ?_⟩
  have hlast := hsynced.turns ts
  generalize (lives net receiver history).turns net ts = link at *
  cases qs with
  | nil =>
    have hnext := hlast.recorded.floor_lt
    rw [List.length_nil] at hlength
    omega
  | cons q qs =>
    -- The first page brings a cursor, and the others the rest of the stream.
    obtain ⟨hcursor, hend, -, -⟩ :=
      hlast.pull_advances (hanswered.1 q rfl) (haccepted.1 q rfl)
    refine (hlast.turn (.pull q)).pulls_reach_end qs hanswered.2 haccepted.2 hcursor ?_
    show (link.pull net q).streamEnd ≤ _
    rw [hend, List.length_cons] at *
    show link.server.sync.nextStreamSeq - 1 ≤ _
    omega

/-- The node `peer`, and the node `local` that pulls from it. -/
def sampleNet : PullNet where
  server := sampleConfig "peer"
  receiver := sampleConfig "local"
  env := sampleEnv
  sha256 := fun _ => ""
  remoteId := "local"
  consumerId := "local"
  targetId := "peer"
  target_named := by decide
  target_remote := by decide

/-- A request for at most five events. -/
def samplePull : Pull := ⟨5, 0, "t", 9, 0, fun _ => "2024"⟩

/-- The first event of `peer` is pulled, and the process of `local` restarts. -/
def samplePulled : List (List (LinkTurn sampleNet.targetId)) :=
  [[.grow (.capture .empty sampleFactA), .pull samplePull]]

/-- A second event is captured before the pull resumes: the page has both, and is refused. -/
theorem short_page_not_resumed :
    ¬ (lives sampleNet .empty samplePulled).Accepted sampleNet
      [.grow (.capture .empty sampleFunction), .pull samplePull] := by
  intro h
  have haccepts := h.2.1 samplePull rfl
  exact absurd haccepts (by decide +kernel)

/-- Without the second event the page is the one that was applied, and the pull resumes. -/
theorem short_page_resumed :
    (lives sampleNet .empty samplePulled).Accepted sampleNet [.pull samplePull] :=
  (pull_resumes_iff sampleNet .empty rfl samplePulled [.pull samplePull]).1.mpr
    ⟨fun q hq => by
      cases hq
      exact ⟨fun _ _ => by decide +kernel, by decide +kernel⟩, trivial⟩

end Memplex
