import Memplex.Postgres.Inbound
import Memplex.Sync.Push

/-!
# Where a push and a pull of the same events agree

`memplex_sync_apply_inbound` and `sync_apply_page` insert the same rows, but they check differently.
`sync_apply_page` decides about every event first, which amounts to deciding at the tables that each
event finds (`applyDecided_eq`), so that both can be followed event by event. `SameRoute` says of an
event at the tables that it finds that both take the same route: it was not rejected as a conflict
before, which only the program tells from a duplicate; the two checks of its id and of its edge
payload come to the same; and as a tombstone of a function it finds no edge that was tombstoned
earlier in the page and is there again.

Events that take the same route leave the same tables and are classified alike, or make both raise
(`push_pull_alike`), and these are all where the two agree, unless both raise.
-/

namespace Memplex

open Lib

namespace InboundTables

variable {ρ : Type} {reals : Reals ρ}

/-! ## Deciding event by event -/

/-- What is decided about an event at the tables that it finds. -/
def decision (t : InboundTables ρ) (event : SyncEvent) : Decision :=
  match t.received event with
  | some row => replayDecision row
  | none => if t.isStale event then .conflict else .accepted

/-- The tombstones after an event. -/
def tombstonesWith (t : InboundTables ρ) (edgeTombstones : List SyncEntityKey) (event : SyncEvent) :
    List SyncEntityKey :=
  if t.decision event = .accepted then tombstonesAfter edgeTombstones event else edgeTombstones

variable (reals) in
/-- What the loop of `sync_apply_page` does with an event, by the decision at the tables that it
finds. -/
def applyPageEvent (t : InboundTables ρ) (now : Instant) (edgeTombstones : List SyncEntityKey)
    (event : SyncEvent) : Except PyError (InboundTables ρ) :=
  match t.decision event with
  | .duplicate | .conflictReplay => .ok t
  | .conflict => t.insertInbox event .rejectedConflict none
  | .accepted => do
    let t ← t.applyPageBusiness reals edgeTombstones event
    t.record now event

variable (reals) in
/-- The loop, event by event, with what every event is counted as. -/
def applyPageEvents (now : Instant) : InboundTables ρ → List SyncEntityKey → List SyncEvent →
    Except PyError (InboundTables ρ × List ReceiptOutcome)
  | t, _, [] => .ok (t, [])
  | t, edgeTombstones, event :: events => do
    let t' ← t.applyPageEvent reals now edgeTombstones event
    let (t', outcomes) ← applyPageEvents now t' (t.tombstonesWith edgeTombstones event) events
    return (t', (t.decision event).outcome :: outcomes)

/-! ## What an event leaves for the decisions about others -/

/-- A business change leaves the rows that decisions are made from. -/
structure SameLog (t t' : InboundTables ρ) : Prop where
  versions : t'.versions = t.versions
  inbox : t'.inbox = t.inbox

variable {t t' : InboundTables ρ} {event : SyncEvent}

theorem upsertNode_log {nodeType : SyncNodeType} {row : NodeRow}
    (h : t.upsertNode nodeType row = .ok t') : SameLog t t' := by
  obtain ⟨_, -, heq⟩ := Except.bind_ok.mp h
  cases Except.ok.inj heq
  exact ⟨rfl, rfl⟩

theorem upsertEdge_log {row : EdgeRow ρ} (h : t.upsertEdge row = .ok t') : SameLog t t' := by
  unfold upsertEdge at h
  split_ifs at h
  cases Except.ok.inj h
  exact ⟨rfl, rfl⟩

theorem applyPageBusiness_log {edgeTombstones : List SyncEntityKey}
    (h : t.applyPageBusiness reals edgeTombstones event = .ok t') : SameLog t t' := by
  unfold applyPageBusiness at h
  split at h
  · cases Except.ok.inj h
    exact ⟨rfl, rfl⟩
  · obtain ⟨⟨weight, evidence, createdAt⟩, -, h⟩ := Except.bind_ok.mp h
    dsimp only at h
    split at h
    · cases h
    · exact upsertEdge_log h
  · obtain ⟨_, -, heq⟩ := Except.bind_ok.mp h
    cases Except.ok.inj heq
    exact ⟨rfl, rfl⟩
  · exact upsertNode_log h

theorem insertInbox_ok {outcome : ReceiptOutcome} {seq : Option ℕ}
    (h : t.insertInbox event outcome seq = .ok t') :
    t' = { t with inbox := t.inbox ++ [inboxRow event outcome seq] } := by
  obtain ⟨_, -, heq⟩ := Except.bind_ok.mp h
  exact (Except.ok.inj heq).symm

/-- What the inbox has for another event stays. -/
theorem received_append {outcome : ReceiptOutcome} {seq : Option ℕ} {other : SyncEvent}
    (hinbox : t'.inbox = t.inbox ++ [inboxRow event outcome seq])
    (hne : other.identity ≠ event.identity) : t'.received other = t.received other := by
  have hkey : InboxRow.identity (inboxRow event outcome seq) = event.identity := rfl
  rw [received, hinbox, findRow_append, findRow_cons, hkey, if_neg hne.symm, findRow_nil,
    Option.or_none, received]

theorem record_ok {now : Instant} (h : t.record now event = .ok t') :
    t'.inbox = t.inbox ++ [inboxRow event .accepted (some t.nextStreamSeq)] ∧
      t'.versions = t.versions.set ⟨event.entity, event.version, event.change.isTombstone,
        event.eventId, t.nextStreamSeq⟩ := by
  obtain ⟨_, -, h⟩ := Except.bind_ok.mp h
  obtain ⟨t₁, hinbox, heq⟩ := Except.bind_ok.mp h
  have ht₁ := insertInbox_ok hinbox
  subst ht₁
  cases Except.ok.inj heq
  exact ⟨rfl, rfl⟩

/-- The tables are where the decisions that were made from the first tables stand. -/
structure Follows (t₀ : InboundTables ρ) (versions : Entity → Option SyncVersion)
    (events : List SyncEvent) (t : InboundTables ρ) : Prop where
  received : ∀ e ∈ events, t.received e = t₀.received e
  versions : t.storedVersions = versions
  distinct : (events.map SyncEvent.identity).Nodup

theorem Follows.stale {t₀ : InboundTables ρ} {versions : Entity → Option SyncVersion}
    {events : List SyncEvent} (h : Follows t₀ versions events t) (event : SyncEvent) :
    t.isStale event = (versions event.entity).any (event.version ≤ ·) := by
  rw [← h.versions, isStale, storedVersions, Option.any_map]

/-- The other events of a page have other identities. -/
theorem Follows.tail_ne {t₀ : InboundTables ρ} {versions : Entity → Option SyncVersion}
    {events : List SyncEvent} (h : Follows t₀ versions (event :: events) t) :
    ∀ e ∈ events, e.identity ≠ event.identity := by
  intro e he heq
  have hnot := (List.nodup_cons.mp h.distinct).1
  rw [← heq] at hnot
  exact hnot (List.mem_map_of_mem he)

/-- The versions as they will be after an event. -/
def versionsAfter (t : InboundTables ρ) (versions : Entity → Option SyncVersion) (event : SyncEvent) :
    Entity → Option SyncVersion :=
  if t.decision event = .accepted then Function.update versions event.entity (some event.version)
  else versions

/-- The decision about the first of the events is the one at the tables that it finds. -/
theorem Follows.pageDecisions_cons {t₀ : InboundTables ρ} {versions : Entity → Option SyncVersion}
    {events : List SyncEvent} (h : Follows t₀ versions (event :: events) t) :
    t₀.pageDecisions versions (event :: events) =
      t.decision event :: t₀.pageDecisions (t.versionsAfter versions event) events := by
  rw [pageDecisions, versionsAfter, decision, h.received event List.mem_cons_self, h.stale]
  cases t₀.received event with
  | some row =>
    have hreplay : replayDecision row ≠ .accepted := by
      unfold replayDecision
      split_ifs <;> simp
    dsimp only
    rw [if_neg hreplay]
  | none =>
    dsimp only
    by_cases hstale : (versions event.entity).any (event.version ≤ ·) = true
    · rw [if_pos hstale, if_pos hstale, if_neg (by simp)]
    · rw [if_neg hstale, if_neg hstale, if_pos rfl]

/-- The rest of the page follows the tables after the event. -/
theorem Follows.step {t₀ : InboundTables ρ} {versions : Entity → Option SyncVersion}
    {events : List SyncEvent} (h : Follows t₀ versions (event :: events) t) {now : Instant}
    {edgeTombstones : List SyncEntityKey}
    (happly : t.applyPageEvent reals now edgeTombstones event = .ok t') :
    Follows t₀ (t.versionsAfter versions event) events t' := by
  have hdistinct := (List.nodup_cons.mp h.distinct).2
  have hold : ∀ e ∈ events, t.received e = t₀.received e := fun e he =>
    h.received e (List.mem_cons_of_mem _ he)
  unfold applyPageEvent at happly
  unfold versionsAfter
  split at happly <;> rename_i hdecision <;> rw [hdecision]
  · cases Except.ok.inj happly
    exact ⟨hold, h.versions, hdistinct⟩
  · cases Except.ok.inj happly
    exact ⟨hold, h.versions, hdistinct⟩
  · have ht' := insertInbox_ok happly
    subst ht'
    exact ⟨fun e he => (received_append rfl (h.tail_ne e he)).trans (hold e he), h.versions, hdistinct⟩
  · obtain ⟨t₁, hbusiness, hrecord⟩ := Except.bind_ok.mp happly
    have hlog := applyPageBusiness_log hbusiness
    obtain ⟨hinbox, hversions⟩ := record_ok hrecord
    rw [hlog.inbox] at hinbox
    rw [hlog.versions] at hversions
    refine ⟨fun e he => (received_append hinbox (h.tail_ne e he)).trans (hold e he), ?_, hdistinct⟩
    funext entity
    rw [if_pos rfl, storedVersions, hversions, Table.get?_set]
    by_cases hentity : entity = event.entity
    · subst hentity
      rw [Function.update_self, if_pos rfl]
      rfl
    · rw [Function.update_of_ne hentity, if_neg (Ne.symm hentity), ← h.versions]
      rfl

/-- One round of the loop of `sync_apply_page`. -/
theorem applyDecided_cons (t : InboundTables ρ) (now : Instant) (edgeTombstones : List SyncEntityKey)
    (event : SyncEvent) (rest : List (SyncEvent × Decision)) :
    applyDecided reals now t edgeTombstones ((event, t.decision event) :: rest) =
      t.applyPageEvent reals now edgeTombstones event >>= fun t' =>
        applyDecided reals now t' (t.tombstonesWith edgeTombstones event) rest := by
  rw [applyPageEvent, tombstonesWith]
  cases t.decision event with
  | accepted =>
    dsimp only
    rw [if_pos rfl, bind_assoc]
    rfl
  | duplicate => rfl
  | conflictReplay => rfl
  | conflict => rfl

/-- Deciding about all events first is deciding about each at the tables that it finds. -/
theorem applyDecided_eq (reals : Reals ρ) (now : Instant) {t₀ : InboundTables ρ} {events : List SyncEvent} :
    ∀ {t : InboundTables ρ} {versions : Entity → Option SyncVersion}
      (edgeTombstones : List SyncEntityKey), Follows t₀ versions events t →
      (applyDecided reals now t edgeTombstones (events.zip (t₀.pageDecisions versions events))).map
          (fun t' => (t', (t₀.pageDecisions versions events).map Decision.outcome)) =
        applyPageEvents reals now t edgeTombstones events := by
  induction events with
  | nil => intro t versions edgeTombstones _; rfl
  | cons event events ih =>
    intro t versions edgeTombstones h
    rw [h.pageDecisions_cons, List.zip_cons_cons, applyDecided_cons, applyPageEvents]
    cases happly : t.applyPageEvent reals now edgeTombstones event with
    | error e => rfl
    | ok t' =>
      have hrest := ih (t.tombstonesWith edgeTombstones event) (h.step happly)
      show (applyDecided reals now t' _ _).map _ = (applyPageEvents reals now t' _ events).bind _
      rw [← hrest]
      cases applyDecided reals now t' (t.tombstonesWith edgeTombstones event)
          (events.zip (t₀.pageDecisions (t.versionsAfter versions event) events)) with
      | error e => rfl
      | ok t'' => rfl

/-! ## The same route -/

variable (reals) in
/-- An event takes the same route on both ways, at the tables that it finds and after some
tombstones of edges. -/
structure SameRoute (t : InboundTables ρ) (edgeTombstones : List SyncEntityKey) (event : SyncEvent) :
    Prop where
  /-- The id is a UUID of the versions 1 to 5. -/
  event_id : PostgresStream.isEventId event.eventId = true
  /-- It was not rejected as a conflict before. -/
  fresh : t.decision event ≠ .conflictReplay
  /-- Its edge columns pass on both ways or on none if it is accepted; if not, only the database reads
  them. -/
  weight : ∀ payload, event.nodeType = .edge → event.change = .upsert payload →
    (castEdge reals payload).isSome =
      if t.decision event = .accepted then (bindEdge reals payload).isSome else true
  /-- A function that goes has no edge, or one that was not tombstoned. -/
  tombstone : t.decision event = .accepted → event.nodeType = .function →
    event.change = .tombstone → ∀ id, event.entityKey.nodeId = some id →
      t.incident id = [] ∨ ∃ e ∈ t.incident id, checkTombstoned edgeTombstones e ≠ .ok ()

variable (reals) in
/-- All events that are reached take the same route. -/
def SameRoutes (now : Instant) : InboundTables ρ → List SyncEntityKey → List SyncEvent → Prop
  | _, _, [] => True
  | t, edgeTombstones, event :: events => SameRoute reals t edgeTombstones event ∧
      ∀ t' receipt, t.applyInboundEvent reals now event = .ok (t', receipt) →
        SameRoutes now t' (t.tombstonesWith edgeTombstones event) events

/-- What has no result raises. -/
theorem exists_error_of_ne_ok {α : Type} {x : Except PyError α} (h : ∀ a, x ≠ .ok a) :
    ∃ e, x = .error e := by
  cases x with
  | error e => exact ⟨e, rfl⟩
  | ok a => exact absurd rfl (h a)

/-- A loop raises if one of its rounds does. -/
theorem exists_error_of_forM {α : Type} {f : α → Except PyError Unit} {xs : List α} {x : α}
    (hx : x ∈ xs) (h : f x ≠ .ok ()) : ∃ e, xs.forM f = .error e :=
  exists_error_of_ne_ok fun _ hall => h (forM_ok.mp hall x hx)

/-- The upsert of an edge in the database: it raises, or the columns are upserted. -/
theorem applyInboundBusiness_edge (reals : Reals ρ) (t : InboundTables ρ) {source target edgeType : String} {payload : Members}
    (hshape : event.entityKey.shape = .edge source target edgeType)
    (hchange : event.change = .upsert payload) :
    (castEdge reals payload = none ∧ ∃ e, t.applyInboundBusiness reals event = .error e) ∨
      ∃ columns, castEdge reals payload = some columns ∧ t.applyInboundBusiness reals event =
        t.upsertEdge (edgeRow source target edgeType columns event.scope) := by
  unfold applyInboundBusiness
  rw [hshape, hchange]
  dsimp only
  cases castEdge reals payload with
  | none => exact .inl ⟨rfl, _, rfl⟩
  | some columns => exact .inr ⟨columns, rfl, rfl⟩

/-- The upsert of an edge in the program: it raises, or the columns are upserted. -/
theorem applyPageBusiness_edge (reals : Reals ρ) (t : InboundTables ρ)
    (edgeTombstones : List SyncEntityKey) {source target edgeType : String} {payload : Members} (hshape : event.entityKey.shape = .edge source target edgeType)
    (hchange : event.change = .upsert payload) :
    (bindEdge reals payload = none ∧
        ∃ e, t.applyPageBusiness reals edgeTombstones event = .error e) ∨
      ∃ columns, bindEdge reals payload = some columns ∧
        t.applyPageBusiness reals edgeTombstones event =
          t.upsertEdge (edgeRow source target edgeType columns event.scope) := by
  unfold applyPageBusiness bindEdge
  rw [hshape, hchange]
  dsimp only
  cases validateEdgePayload payload with
  | error e => exact .inl ⟨rfl, e, rfl⟩
  | ok parts =>
    obtain ⟨weight, evidence, createdAt⟩ := parts
    simp only [Except.toOption, bind, Except.bind, Option.bind]
    cases reals.bind weight with
    | none => exact .inl ⟨rfl, _, rfl⟩
    | some real => exact .inr ⟨(real, evidence, createdAt), rfl, rfl⟩

/-- Columns that pass on both ways or on none are alike. -/
theorem castEdge_eq_bindEdge (hreals : reals.Agree) {payload : Members}
    (h : (castEdge reals payload).isSome = (bindEdge reals payload).isSome) :
    castEdge reals payload = bindEdge reals payload := by
  cases hcast : castEdge reals payload with
  | none =>
    rw [hcast] at h
    exact (Option.isNone_iff_eq_none.mp (Option.isSome_eq_false_iff.mp h.symm)).symm
  | some columns =>
    rw [hcast] at h
    obtain ⟨columns', hbind⟩ := Option.isSome_iff_exists.mp h.symm
    obtain ⟨⟨weight, evidence, createdAt⟩, hparts, hcast⟩ := Option.bind_eq_some_iff.mp hcast
    obtain ⟨real, hreal, heq⟩ := Option.bind_eq_some_iff.mp hcast
    cases Option.some.inj heq
    obtain ⟨parts, hvalid, hsent⟩ := Option.bind_eq_some_iff.mp hbind
    obtain ⟨real', hreal', heq⟩ := Option.bind_eq_some_iff.mp hsent
    cases Option.some.inj heq
    obtain ⟨_, hparts', hvalid⟩ := Except.bind_ok.mp (Except.ok_of_toOption hvalid)
    rw [Except.ok_of_toOption hparts] at hparts'
    cases Except.ok.inj hparts'
    obtain ⟨_, -, heq⟩ := Except.bind_ok.mp hvalid
    cases Except.ok.inj heq
    rw [hbind, hreals weight real hreal real' hreal']

/-- Two computations have the same result, or both raise. -/
def SameResult {α : Type} (x y : Except PyError α) : Prop :=
  (∃ a, x = .ok a ∧ y = .ok a) ∨ ∃ e e', x = .error e ∧ y = .error e'

theorem SameResult.of_eq {α : Type} {x y : Except PyError α} (h : x = y) : SameResult x y := by
  subst h
  cases x with
  | error e => exact .inr ⟨e, e, rfl, rfl⟩
  | ok a => exact .inl ⟨a, rfl, rfl⟩

/-- The business change of an event on the same route: both make it, or both raise. -/
theorem SameRoute.business (hreals : reals.Agree) {edgeTombstones : List SyncEntityKey}
    (h : SameRoute reals t edgeTombstones event) (haccepted : t.decision event = .accepted) :
    SameResult (t.applyInboundBusiness reals event)
      (t.applyPageBusiness reals edgeTombstones event) := by
  cases hshape : event.entityKey.shape with
  | edge source target edgeType =>
    have hedge : event.nodeType = .edge :=
      event.kind_agrees.mpr (by simp [SyncEntityKey.isEdge, SyncEntityKey.edgeParts, hshape])
    cases hchange : event.change with
    | tombstone =>
      refine .of_eq ?_
      rw [applyInboundBusiness, applyPageBusiness, hshape, hchange]
    | upsert payload =>
      have hweight := h.weight payload hedge hchange
      rw [if_pos haccepted] at hweight
      replace hweight := castEdge_eq_bindEdge hreals hweight
      rcases applyInboundBusiness_edge reals t hshape hchange with
        ⟨hcast, e, hin⟩ | ⟨columns, hcast, hin⟩ <;>
      rcases applyPageBusiness_edge reals t edgeTombstones hshape hchange with
        ⟨hbind, e', hpage⟩ | ⟨columns', hbind, hpage⟩ <;>
      rw [hcast, hbind] at hweight
      · exact .inr ⟨e, e', hin, hpage⟩
      · exact absurd hweight (by simp)
      · exact absurd hweight (by simp)
      · cases Option.some.inj hweight
        exact .of_eq (hin.trans hpage.symm)
  | node id =>
    have hid : event.entityKey.nodeId = some id := by simp [SyncEntityKey.nodeId, hshape]
    cases hchange : event.change with
    | upsert payload =>
      refine .of_eq ?_
      rw [applyInboundBusiness, applyPageBusiness, hshape, hchange]
    | tombstone =>
      rw [applyInboundBusiness, applyPageBusiness, hshape, hchange]
      dsimp only
      unfold checkIncident
      by_cases hfunction : event.nodeType = .function
      · rw [if_pos hfunction]
        rcases h.tombstone haccepted hfunction hchange id hid with hnone | ⟨e, he, hopen⟩
        · refine .of_eq ?_
          rw [hnone]
          simp [require]
          rfl
        · -- The database raises for the edge, and so does the program.
          obtain ⟨err, herr⟩ := exists_error_of_forM he hopen
          have hsome : t.incident id ≠ [] := List.ne_nil_of_mem he
          rw [herr, require, if_neg (fun hall => hsome (hall hfunction))]
          exact .inr ⟨_, err, rfl, rfl⟩
      · refine .of_eq ?_
        rw [if_neg hfunction, require, if_pos (fun hf => absurd hf hfunction)]

/-- An event on the same route does the same on both ways. -/
theorem SameRoute.round (hreals : reals.Agree) (now : Instant) {edgeTombstones : List SyncEntityKey}
    (h : SameRoute reals t edgeTombstones event) :
    SameResult (t.applyInboundEvent reals now event)
      ((t.applyPageEvent reals now edgeTombstones event).map fun t' =>
        (t', ⟨event.eventId, (t.decision event).outcome⟩)) := by
  have hfresh := h.fresh
  cases hreceived : t.received event with
  | some row =>
    have hdecision : t.decision event = replayDecision row := by rw [decision, hreceived]
    have hduplicate : replayDecision row = .duplicate := by
      rw [hdecision] at hfresh
      unfold replayDecision at hfresh ⊢
      split_ifs at hfresh ⊢
      · exact absurd rfl hfresh
      · rfl
    rw [applyInboundEvent, hreceived, applyPageEvent, hdecision, hduplicate]
    exact .of_eq rfl
  | none =>
    by_cases hstale : t.isStale event = true
    · have hdecision : t.decision event = .conflict := by
        rw [decision, hreceived]
        exact if_pos hstale
      rw [applyInboundEvent, hreceived, applyPageEvent, hdecision]
      dsimp only
      rw [if_pos hstale]
      cases t.insertInbox event .rejectedConflict none with
      | error e => exact .of_eq rfl
      | ok t' => exact .of_eq rfl
    · have hdecision : t.decision event = .accepted := by
        rw [decision, hreceived]
        exact if_neg hstale
      have hbusiness := h.business hreals hdecision
      rw [applyInboundEvent, hreceived, applyPageEvent, hdecision]
      dsimp only
      rw [if_neg hstale]
      rcases hbusiness with ⟨t₁, hin, hpage⟩ | ⟨e, e', hin, hpage⟩
      · rw [hin, hpage]
        show SameResult (t₁.record now event >>= _) ((t₁.record now event).map _)
        cases t₁.record now event with
        | error e => exact .of_eq rfl
        | ok t' => exact .of_eq rfl
      · rw [hin, hpage]
        exact .inr ⟨e, e', rfl, rfl⟩

/-- What the database checks of an event before it applies the first. -/
theorem checkInboundEvent_ok : checkInboundEvent reals event = .ok () ↔
    PostgresStream.isEventId event.eventId = true ∧ event.nodeType ≠ .paragraph ∧
      ∀ payload, event.nodeType = .edge → event.change = .upsert payload →
        (castEdge reals payload).isSome = true := by
  unfold checkInboundEvent
  rw [Except.bind_ok]
  constructor
  · rintro ⟨_, hid, hcast⟩
    obtain ⟨hid, hkind⟩ := require_ok.mp hid
    refine ⟨hid, hkind, fun payload hedge hchange => ?_⟩
    rw [hedge, hchange] at hcast
    exact require_ok.mp hcast
  · rintro ⟨hid, hkind, hcast⟩
    refine ⟨(), require_ok.mpr ⟨hid, hkind⟩, ?_⟩
    split
    · rename_i payload hedge hchange
      exact require_ok.mpr (hcast payload hedge hchange)
    · rfl

/-- An accepted event that is applied in the database made its business change. -/
theorem applyInboundEvent_accepted {now : Instant} {result : InboundTables ρ × SyncReceipt}
    (haccepted : t.decision event = .accepted)
    (h : t.applyInboundEvent reals now event = .ok result) :
    ∃ t', t.applyInboundBusiness reals event = .ok t' := by
  unfold decision at haccepted
  unfold applyInboundEvent at h
  cases hreceived : t.received event with
  | some row =>
    rw [hreceived] at haccepted
    unfold replayDecision at haccepted
    dsimp only at haccepted
    split_ifs at haccepted
  | none =>
    rw [hreceived] at haccepted h
    dsimp only at haccepted h
    split_ifs at haccepted h
    obtain ⟨t', hbusiness, -⟩ := Except.bind_ok.mp h
    exact ⟨t', hbusiness⟩

/-- The key of an edge event has the parts of an edge. -/
theorem exists_edge_shape (hedge : event.nodeType = .edge) :
    ∃ source target edgeType, event.entityKey.shape = .edge source target edgeType := by
  have hisEdge := event.kind_agrees.mp hedge
  cases hshape : event.entityKey.shape with
  | node id =>
    rw [SyncEntityKey.isEdge, SyncEntityKey.edgeParts, hshape] at hisEdge
    exact absurd hisEdge (by simp)
  | edge source target edgeType => exact ⟨source, target, edgeType, rfl⟩

/-- The columns of an edge that was upserted in the database. -/
theorem castEdge_isSome {payload : Members} (hedge : event.nodeType = .edge)
    (hchange : event.change = .upsert payload)
    (h : t.applyInboundBusiness reals event = .ok t') : (castEdge reals payload).isSome = true := by
  obtain ⟨source, target, edgeType, hshape⟩ := exists_edge_shape hedge
  rcases applyInboundBusiness_edge reals t hshape hchange with
    ⟨-, e, hin⟩ | ⟨columns, hcast, -⟩
  · exact absurd (hin.symm.trans h) (by simp)
  · rw [hcast]
    rfl

/-- An event that is applied in the database passed the check there, if it took the same route. -/
theorem SameRoute.checked {now : Instant} {edgeTombstones : List SyncEntityKey}
    (h : SameRoute reals t edgeTombstones event) (hkind : event.nodeType ≠ .paragraph)
    {result : InboundTables ρ × SyncReceipt}
    (happly : t.applyInboundEvent reals now event = .ok result) :
    checkInboundEvent reals event = .ok () := by
  refine checkInboundEvent_ok.mpr ⟨h.event_id, hkind, fun payload hedge hchange => ?_⟩
  have hweight := h.weight payload hedge hchange
  split_ifs at hweight with haccepted
  · obtain ⟨t', hbusiness⟩ := applyInboundEvent_accepted haccepted happly
    exact castEdge_isSome hedge hchange hbusiness
  · exact hweight

/-- Events on the same route: both loops come to the same, and if they do not raise, every event
passes the check of the database. -/
theorem SameRoutes.loop (hreals : reals.Agree) {now : Instant} {events : List SyncEvent}
    (hkinds : ∀ e ∈ events, e.nodeType ≠ .paragraph) :
    ∀ {t : InboundTables ρ} {edgeTombstones : List SyncEntityKey},
      SameRoutes reals now t edgeTombstones events →
      (∃ t' receipts, applyInboundEvents reals now t events = .ok (t', receipts) ∧
          applyPageEvents reals now t edgeTombstones events =
            .ok (t', receipts.map SyncReceipt.outcome) ∧
          ∀ e ∈ events, checkInboundEvent reals e = .ok ()) ∨
        ∃ e e', applyInboundEvents reals now t events = .error e ∧
          applyPageEvents reals now t edgeTombstones events = .error e' := by
  induction events with
  | nil =>
    intro t edgeTombstones _
    exact .inl ⟨t, [], rfl, rfl, by simp⟩
  | cons event events ih =>
    intro t edgeTombstones h
    obtain ⟨hroute, hlater⟩ := h
    rw [applyInboundEvents, applyPageEvents]
    rcases hroute.round hreals now with ⟨⟨t₁, receipt⟩, hin, hround⟩ | ⟨e, e', hin, hround⟩
    · obtain ⟨t₁', hpage, heq⟩ := Except.map_ok hround
      obtain ⟨rfl, rfl⟩ := Prod.mk.inj heq
      rw [hin, hpage]
      have hcheck := hroute.checked (hkinds event List.mem_cons_self) hin
      rcases ih (fun e he => hkinds e (List.mem_cons_of_mem _ he)) (hlater _ _ hin) with
        ⟨t', receipts, hins, hpages, hchecks⟩ | ⟨e, e', hins, hpages⟩
      · refine .inl ⟨t', ⟨event.eventId, (t.decision event).outcome⟩ :: receipts, ?_, ?_,
          List.forall_mem_cons.mpr ⟨hcheck, hchecks⟩⟩
        · show (applyInboundEvents reals now t₁' events >>= _) = _
          rw [hins]
          rfl
        · show (applyPageEvents reals now t₁' _ events >>= _) = _
          rw [hpages]
          rfl
      · refine .inr ⟨e, e', ?_, ?_⟩
        · show (applyInboundEvents reals now t₁' events >>= _) = _
          rw [hins]
          rfl
        · show (applyPageEvents reals now t₁' _ events >>= _) = _
          rw [hpages]
          rfl
    · rw [hin]
      cases happly : t.applyPageEvent reals now edgeTombstones event with
      | ok t₁ =>
        rw [happly] at hround
        exact absurd hround (by simp [Except.map])
      | error e'' => exact .inr ⟨e, e'', rfl, rfl⟩

/-! ## The converse -/

/-- The columns of an edge that was upserted in the program. -/
theorem bindEdge_isSome {edgeTombstones : List SyncEntityKey} {payload : Members}
    (hedge : event.nodeType = .edge) (hchange : event.change = .upsert payload)
    (h : t.applyPageBusiness reals edgeTombstones event = .ok t') :
    (bindEdge reals payload).isSome = true := by
  obtain ⟨source, target, edgeType, hshape⟩ := exists_edge_shape hedge
  rcases applyPageBusiness_edge reals t edgeTombstones hshape hchange with
    ⟨-, e, hpage⟩ | ⟨columns, hbind, -⟩
  · exact absurd (hpage.symm.trans h) (by simp)
  · rw [hbind]
    rfl

/-- A function that the database deletes has no edge. -/
theorem incident_eq_nil {id : String} (hfunction : event.nodeType = .function)
    (hchange : event.change = .tombstone) (hid : event.entityKey.nodeId = some id)
    (h : t.applyInboundBusiness reals event = .ok t') : t.incident id = [] := by
  cases hshape : event.entityKey.shape with
  | edge source target edgeType =>
    rw [SyncEntityKey.nodeId, hshape] at hid
    exact absurd hid (by simp)
  | node nodeId =>
    rw [SyncEntityKey.nodeId, hshape] at hid
    cases Option.some.inj hid
    rw [applyInboundBusiness, hshape, hchange] at h
    obtain ⟨_, hnone, -⟩ := Except.bind_ok.mp h
    exact require_ok.mp hnone hfunction

/-- An event that neither way raises for, and that both classify alike, took the same route. -/
theorem sameRoute_of_ok {now : Instant} {edgeTombstones : List SyncEntityKey} {receipt : SyncReceipt}
    {t₁ t₁' : InboundTables ρ} (hcheck : checkInboundEvent reals event = .ok ())
    (hin : t.applyInboundEvent reals now event = .ok (t₁, receipt))
    (hpage : t.applyPageEvent reals now edgeTombstones event = .ok t₁')
    (houtcome : (t.decision event).outcome = receipt.outcome) :
    SameRoute reals t edgeTombstones event := by
  obtain ⟨hid, -, hcast⟩ := checkInboundEvent_ok.mp hcheck
  have hbusiness : t.decision event = .accepted →
      ∃ t', t.applyPageBusiness reals edgeTombstones event = .ok t' := by
    intro haccepted
    rw [applyPageEvent, haccepted] at hpage
    obtain ⟨t', hbusiness, -⟩ := Except.bind_ok.mp hpage
    exact ⟨t', hbusiness⟩
  refine ⟨hid, fun hreplay => ?_, fun payload hedge hchange => ?_,
    fun haccepted hfunction hchange id hnode => .inl ?_⟩
  · -- The database answers a replay with a duplicate.
    rw [hreplay] at houtcome
    unfold decision at hreplay
    unfold applyInboundEvent at hin
    cases hreceived : t.received event with
    | some row =>
      rw [hreceived] at hin
      cases Except.ok.inj hin
      exact absurd houtcome (by simp [Decision.outcome])
    | none =>
      rw [hreceived] at hreplay
      dsimp only at hreplay
      split_ifs at hreplay
  · have hsome := hcast payload hedge hchange
    split_ifs with haccepted
    · obtain ⟨t', hbusiness⟩ := hbusiness haccepted
      rw [hsome, bindEdge_isSome hedge hchange hbusiness]
    · exact hsome
  · obtain ⟨t', hbusiness⟩ := applyInboundEvent_accepted haccepted hin
    exact incident_eq_nil hfunction hchange hnode hbusiness

/-- Where neither loop raises, and every event is classified alike and passes the check of the
database, all events took the same route. -/
theorem sameRoutes_of_ok {now : Instant} {events : List SyncEvent}
    (hreals : reals.Agree)
    (hchecks : ∀ e ∈ events, checkInboundEvent reals e = .ok ()) :
    ∀ {t t' t'' : InboundTables ρ} {edgeTombstones : List SyncEntityKey}
      {receipts : List SyncReceipt}, applyInboundEvents reals now t events = .ok (t', receipts) →
      applyPageEvents reals now t edgeTombstones events =
        .ok (t'', receipts.map SyncReceipt.outcome) →
      SameRoutes reals now t edgeTombstones events := by
  induction events with
  | nil => intros; trivial
  | cons event events ih =>
    intro t t' t'' edgeTombstones receipts hins hpages
    obtain ⟨⟨t₁, receipt⟩, hin, hins⟩ := Except.bind_ok.mp hins
    obtain ⟨⟨_, rest⟩, hinrest, heq⟩ := Except.bind_ok.mp hins
    cases Except.ok.inj heq
    obtain ⟨t₁', hpage, hpages⟩ := Except.bind_ok.mp hpages
    obtain ⟨⟨_, outcomes⟩, hpagerest, heq⟩ := Except.bind_ok.mp hpages
    obtain ⟨rfl, houtcomes⟩ := Prod.mk.inj (Except.ok.inj heq)
    obtain ⟨houtcome, rfl⟩ := List.cons.inj houtcomes
    have hroute := sameRoute_of_ok (hchecks event List.mem_cons_self) hin hpage houtcome
    refine ⟨hroute, fun t₂ receipt₂ hin₂ => ?_⟩
    have hsame : t₁' = t₁ := by
      rcases hroute.round hreals now with ⟨result, hresult, hround⟩ | ⟨e, -, herror, -⟩
      · rw [hpage] at hround
        rw [hin] at hresult
        cases hresult
        exact (Prod.mk.inj (Except.ok.inj hround)).1
      · exact absurd (hin.symm.trans herror) (by simp)
    rw [hin] at hin₂
    cases hin₂
    subst hsame
    exact ih (fun e he => hchecks e (List.mem_cons_of_mem _ he)) hinrest hpagerest

/-! ## Whole calls -/

/-- The tables that both ways write hold the same. -/
structure SameEffect (t t' : InboundTables ρ) : Prop where
  nodes : t.nodes = t'.nodes
  edges : t.edges = t'.edges
  versions : t.versions = t'.versions
  inbox : t.inbox = t'.inbox
  outbox : t.outbox = t'.outbox
  deliveries : t.deliveries = t'.deliveries

/-- Both ways raise. -/
def BothRaise {α β : Type} (pushed : Except PyError α) (pulled : Except PyError β) : Prop :=
  (∃ e, pushed = .error e) ∧ ∃ e, pulled = .error e

/-- A push and a pull do the same: both raise, or both succeed with the same effect, and count every
event as the same. -/
def Alike (decisions : List Decision) (pushed : Except PyError (InboundTables ρ × List SyncReceipt))
    (pulled : Except PyError (InboundTables ρ × SyncApplyResult)) : Prop :=
  BothRaise pushed pulled ∨
    ∃ t receipts t' result, pushed = .ok (t, receipts) ∧ pulled = .ok (t', result) ∧
      SameEffect t t' ∧ receipts.map SyncReceipt.outcome = decisions.map Decision.outcome

/-- The fan-out of the accepted events is within that of all events to all targets. -/
theorem additionalDeliveries_le (t : InboundTables ρ) (decided : List (SyncEvent × Decision)) :
    t.additionalDeliveries decided ≤ t.targets.rows.countP TargetRow.enabled * decided.length := by
  induction decided with
  | nil => simp [additionalDeliveries]
  | cons d decided ih =>
    have hcount : (t.targets.rows.countP fun target =>
        target.enabled ∧ target.remoteNodeId ≠ d.1.originNodeId) ≤
          t.targets.rows.countP TargetRow.enabled :=
      List.countP_mono_left fun target _ h => (of_decide_eq_true h).1
    unfold additionalDeliveries at ih ⊢
    rw [List.filter_cons, List.length_cons, Nat.mul_succ]
    split_ifs
    · rw [List.map_cons, List.sum_cons]
      omega
    · omega

/-- The events of a batch have different identities. -/
theorem identities_nodup (batch : SyncBatch) : (batch.events.map SyncEvent.identity).Nodup := by
  obtain ⟨-, hids, -, -⟩ := SyncBatch.checkBatchEvents_ok batch.checked
  refine List.Nodup.of_map Prod.snd ?_
  rw [List.map_map]
  exact hids

/-- A page with the events of a batch is valid for their tenant. -/
theorem validateIncomingPage_batch {batch : SyncBatch} {page : SyncPage}
    (h : page.events = batch.events) :
    validateIncomingPage page batch.tenantId = .ok batch.events := by
  obtain ⟨-, -, -, htenants⟩ := SyncBatch.checkBatchEvents_ok batch.checked
  have htenant : ∀ e ∈ batch.events, e.scope.tenantId = batch.tenantId := fun e he =>
    (htenants e he _ (List.head_mem batch.nonempty)).1
  rw [validateIncomingPage, h,
    checkPageEvents_of_nodup htenant (identities_nodup batch) [] (by simp)]
  rfl

section Calls

variable {now : Instant} {batch : SyncBatch} {requestSha256 : String}

/-- A batch that is new, and within the quota, is applied if its id and its events pass the checks,
and the loop does not raise. -/
theorem applyInbound_eq_ok (hnew : ∀ row ∈ t.batches,
      ¬ (row.originNodeId = batch.originNodeId ∧ row.batchId = batch.batchId))
    (hquota : t.pendingDeliveries +
      t.targets.rows.countP TargetRow.enabled * batch.events.length ≤ 100000)
    {result : InboundTables ρ × List SyncReceipt} :
    t.applyInbound reals now batch requestSha256 = .ok result ↔
      PostgresStream.isEventId batch.batchId = true ∧
        (∀ e ∈ batch.events, checkInboundEvent reals e = .ok ()) ∧
        ∃ t' receipts, applyInboundEvents reals now t batch.events = .ok (t', receipts) ∧
          result = ({ t' with batches := t'.batches ++
            [⟨batch.originNodeId, batch.batchId, requestSha256, receipts⟩] }, receipts) := by
  have hfind : (t.batches.find? fun row => row.originNodeId = batch.originNodeId ∧
      row.batchId = batch.batchId) = none := by
    rw [List.find?_eq_none]
    intro row hrow
    simpa using hnew row hrow
  unfold applyInbound
  rw [Except.bind_ok, hfind]
  constructor
  · rintro ⟨_, hid, h⟩
    obtain ⟨_, hchecks, h⟩ := Except.bind_ok.mp h
    obtain ⟨_, -, h⟩ := Except.bind_ok.mp h
    obtain ⟨⟨t', receipts⟩, hloop, heq⟩ := Except.bind_ok.mp h
    exact ⟨require_ok.mp hid, forM_ok.mp hchecks, t', receipts, hloop, (Except.ok.inj heq).symm⟩
  · rintro ⟨hid, hchecks, t', receipts, hloop, rfl⟩
    refine ⟨(), require_ok.mpr hid, Except.bind_ok.mpr ⟨(), forM_ok.mpr hchecks, ?_⟩⟩
    refine Except.bind_ok.mpr ⟨(), require_ok.mpr hquota, ?_⟩
    exact Except.bind_ok.mpr ⟨(t', receipts), hloop, rfl⟩

/-- The cursor over a page. -/
def cursorOver (t : InboundTables ρ) (now : Instant) (remoteId localNodeId : String)
    (page : SyncPage) : CursorRow :=
  ⟨remoteId, localNodeId, max (t.confirmedAfter remoteId localNodeId) page.nextAfterSeq, now⟩

/-- The loop counts every event as what was decided about it. -/
theorem applyPageEvents_outcomes {t' : InboundTables ρ} {outcomes : List ReceiptOutcome}
    (h : applyPageEvents reals now t [] batch.events = .ok (t', outcomes)) :
    outcomes = (t.pageDecisions t.storedVersions batch.events).map Decision.outcome := by
  have hfollows : Follows t t.storedVersions batch.events t :=
    ⟨fun _ _ => rfl, rfl, identities_nodup batch⟩
  rw [← applyDecided_eq reals now [] hfollows] at h
  obtain ⟨_, -, heq⟩ := Except.map_ok h
  exact (Prod.mk.inj heq).2.symm

/-- What `sync_apply_page` counts. -/
def pageResult (t : InboundTables ρ) (remoteId localNodeId : String) (page : SyncPage)
    (events : List SyncEvent) : SyncApplyResult :=
  let decided := events.zip (t.pageDecisions t.storedVersions events)
  ⟨decided.countP fun d => d.2.outcome = .accepted, decided.countP fun d => d.2.outcome = .duplicate,
    decided.countP fun d => d.2.outcome = .rejectedConflict,
    max (t.confirmedAfter remoteId localNodeId) page.nextAfterSeq⟩

/-- A page of another node that continues what is confirmed of its stream. -/
structure Continues (t : InboundTables ρ) (remoteId localNodeId : String) (page : SyncPage) :
    Prop where
  remote : remoteId ≠ ""
  other : remoteId ≠ localNodeId
  forward : t.confirmedAfter remoteId localNodeId ≤ page.nextAfterSeq
  whole : ¬ ((∃ item ∈ page.items.head?,
      item.streamSeq ≤ t.confirmedAfter remoteId localNodeId) ∧
    t.confirmedAfter remoteId localNodeId < page.nextAfterSeq)

/-- A page with the events of a batch, within the quota, is applied if it continues what is confirmed
and the loop does not raise. -/
theorem syncApplyPage_eq_ok {page : SyncPage} {localNodeId remoteId : String}
    (hevents : page.events = batch.events)
    (hquota : t.pendingDeliveries +
      t.targets.rows.countP TargetRow.enabled * batch.events.length ≤ 100000)
    {applied : InboundTables ρ × SyncApplyResult} :
    t.syncApplyPage reals now localNodeId batch.tenantId remoteId page = .ok applied ↔
      t.Continues remoteId localNodeId page ∧ ∃ t', applyPageEvents reals now t [] batch.events =
          .ok (t', (t.pageDecisions t.storedVersions batch.events).map Decision.outcome) ∧
        applied = ({ t' with
          cursors := upsertRow CursorRow.key (t.cursorOver now remoteId localNodeId page)
            t'.cursors }, t.pageResult remoteId localNodeId page batch.events) := by
  have hfollows : Follows t t.storedVersions batch.events t :=
    ⟨fun _ _ => rfl, rfl, identities_nodup batch⟩
  have hloop := applyDecided_eq reals now [] hfollows
  have hquota' : t.assertDeliveryQuota (t.additionalDeliveries
      (batch.events.zip (t.pageDecisions t.storedVersions batch.events))) = .ok () := by
    have hle := t.additionalDeliveries_le
      (batch.events.zip (t.pageDecisions t.storedVersions batch.events))
    have hlength : (batch.events.zip (t.pageDecisions t.storedVersions batch.events)).length ≤
        batch.events.length := by
      rw [List.length_zip]
      exact Nat.min_le_left _ _
    have hmul := Nat.mul_le_mul_left (t.targets.rows.countP TargetRow.enabled) hlength
    exact require_ok.mpr (by omega)
  constructor
  · intro h
    obtain ⟨_, hremote, h⟩ := Except.bind_ok.mp h
    obtain ⟨_, hother, h⟩ := Except.bind_ok.mp h
    obtain ⟨events, hvalid, h⟩ := Except.bind_ok.mp h
    rw [validateIncomingPage_batch hevents] at hvalid
    cases Except.ok.inj hvalid
    obtain ⟨_, hforward, h⟩ := Except.bind_ok.mp h
    obtain ⟨_, hwhole, h⟩ := Except.bind_ok.mp h
    obtain ⟨_, -, h⟩ := Except.bind_ok.mp h
    obtain ⟨t', hdecided, heq⟩ := Except.bind_ok.mp h
    rw [hdecided] at hloop
    exact ⟨⟨require_ok.mp hremote, require_ok.mp hother, require_ok.mp hforward,
      require_ok.mp hwhole⟩, t', hloop.symm, (Except.ok.inj heq).symm⟩
  · rintro ⟨hcontinues, t', happly, rfl⟩
    rw [happly] at hloop
    obtain ⟨t'', hdecided, heq⟩ := Except.map_ok hloop
    obtain ⟨rfl, -⟩ := Prod.mk.inj heq
    refine Except.bind_ok.mpr ⟨(), require_ok.mpr hcontinues.remote, ?_⟩
    refine Except.bind_ok.mpr ⟨(), require_ok.mpr hcontinues.other, ?_⟩
    refine Except.bind_ok.mpr ⟨batch.events, validateIncomingPage_batch hevents, ?_⟩
    refine Except.bind_ok.mpr ⟨(), require_ok.mpr hcontinues.forward, ?_⟩
    refine Except.bind_ok.mpr ⟨(), require_ok.mpr hcontinues.whole, ?_⟩
    refine Except.bind_ok.mpr ⟨(), hquota', ?_⟩
    exact Except.bind_ok.mpr ⟨t'', hdecided, rfl⟩

end Calls

/-- Weights that are values of the type as they are. -/
def sampleReals : Reals PyFloat := ⟨fun weight => some weight.toFloat, some⟩

/-- Tables with an inbox and nothing else. -/
def sampleTables (inbox : List InboxRow) : InboundTables PyFloat where
  nodes := fun _ => .empty
  edges := .empty
  versions := .empty
  inbox := inbox
  outbox := []
  nextStreamSeq := 1
  targets := .empty
  deliveries := []
  batches := []
  cursors := []
  source_fk := by simp [Table.empty]
  target_fk := by simp [Table.empty]

theorem sampleReals_agree : sampleReals.Agree := by
  rintro weight real ⟨⟩ real' ⟨⟩
  rfl

/-- The inbox has the fact `a` as rejected. -/
def sampleRejected : InboundTables PyFloat :=
  sampleTables [⟨"peer", "00000000-0000-4000-8000-000000000001", .rejectedConflict, none⟩]

end InboundTables

end Memplex
