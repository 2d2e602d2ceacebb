import Memplex.Lib.Lww
import Memplex.Sync.Entries
import Memplex.Sync.Receive
import Memplex.Protocol.Ingress

/-!
# What a store has seen

A store that takes events is a last-writer-wins register: at every entity it holds the version and
the record of the newest event it was offered. `Follows` relates a store to the set of events it has
seen: those that were delivered to it, and those that it has captured itself, which its inbox does
not know. One round of the loop over a delivery keeps it (`applyEvent_follows`), since an event that
is not newer than its entity is rejected, and so does a capture whose event is not older.

An event is identified by its origin and its event id, which is what the inbox deduplicates by. A
repeated batch is recognised by its id and its digest; that it brings nothing new is where the
digest function must not collide.
-/

namespace Memplex

open Lib

/-! ## What an entity holds -/

/-- The part of a version row that does not depend on the local stream. -/
def VersionRow.stamp (r : VersionRow) : SyncVersion × Bool × String :=
  (r.version, r.deleted, r.eventId)

/-- The entity's entry of `entity_versions`. -/
def SyncState.stamp (s : SyncState) (k : Entity) : Option (SyncVersion × Bool × String) :=
  (s.entityVersions.get? k).map VersionRow.stamp

/-- The entry that an event leaves. -/
def SyncEvent.stamp (e : SyncEvent) : SyncVersion × Bool × String :=
  (e.version, e.change.isTombstone, e.eventId)

/-- The record of an entity is what the newest event there has left. -/
def LeftBy (env : Env) : Option SyncEvent → Option EntityRecord → Prop
  | none, r => r = none
  | some e, r => e.Leaves env r

/-- A store holds at every entity what the newest event of `seen` there left: its stamp, and its
record where records are followed. -/
def Registers (records : Prop) (env : Env) (s : LiteStore) (seen : Set SyncEvent) : Prop :=
  ∃ cur : Entity → Option SyncEvent,
    (∀ k, IsLatest SyncEvent.entity SyncEvent.version seen k (cur k)) ∧
    ∀ k, s.sync.stamp k = (cur k).map SyncEvent.stamp ∧
      (records → LeftBy env (cur k) (s.business.entry k))

/-- A store has seen exactly the events of `seen`, of which it has captured those of `own`. -/
structure Follows (records : Prop) (env : Env) (s : LiteStore) (own seen : Set SyncEvent) :
    Prop where
  register : Registers records env s seen
  /-- The inbox has identities of events that were seen. -/
  inbox : ∀ i ∈ s.sync.identities, ∃ e ∈ seen, e.identity = i
  /-- It has those of all that were delivered. -/
  known : ∀ e ∈ seen, e ∈ own ∨ e.identity ∈ s.sync.identities

/-- Origin and event id determine an event of the set. -/
def Identified (seen : Set SyncEvent) : Prop :=
  ∀ e ∈ seen, ∀ e' ∈ seen, e.identity = e'.identity → e = e'

/-- A version names its origin and its event. -/
theorem Identified.versionsDetermine {seen : Set SyncEvent} (h : Identified seen) :
    VersionsDetermine SyncEvent.entity SyncEvent.version seen := by
  intro e he e' he' _ hv
  have hid : e.identity = e'.identity := by
    simp only [SyncEvent.identity, SyncEvent.originNodeId, SyncEvent.eventId, hv]
  exact h e he e' he' hid

/-! ## One event -/

/-- An append leaves the stamp of its event, and no other stamp changes. -/
theorem SyncState.stamp_appended (s : SyncState) (e : SyncEvent) (k : Entity) :
    (s.appended e).stamp k = if e.entity = k then some e.stamp else s.stamp k := by
  have hkey : (SyncState.versionRow e s.nextStreamSeq).entity = e.entity := rfl
  rw [stamp, appended, Table.get?_set, hkey]
  split_ifs
  · rfl
  · rfl

section Steps

variable {records : Prop} {env : Env} {s s' : LiteStore} {own seen : Set SyncEvent}

/-- Following depends on the versions, the inbox and the records. -/
theorem Follows.congr (h : Follows records env s own seen)
    (hversions : s'.sync.entityVersions = s.sync.entityVersions)
    (hinbox : s'.sync.inbox = s.sync.inbox) (hbusiness : s'.business = s.business) :
    Follows records env s' own seen := by
  obtain ⟨⟨cur, hlatest, hholds⟩, hin, hknown⟩ := h
  have hids : s'.sync.identities = s.sync.identities := by
    rw [SyncState.identities, SyncState.identities, hinbox]
  refine ⟨⟨cur, hlatest, fun k => ?_⟩, by rwa [hids], by rwa [hids]⟩
  rw [SyncState.stamp, hversions, hbusiness]
  exact hholds k

/-- The version row of an entity is that of the newest event there. -/
theorem Registers.latest (h : Registers records env s seen) {k : Entity} {row : VersionRow}
    (hrow : s.sync.entityVersions.get? k = some row) :
    ∃ c ∈ seen, c.entity = k ∧ c.version = row.version ∧
      ∀ e ∈ seen, e.entity = k → e.version ≤ row.version := by
  obtain ⟨cur, hlatest, hholds⟩ := h
  have hstamp := (hholds k).1
  rw [SyncState.stamp, hrow] at hstamp
  obtain ⟨c, hc, hsame⟩ := Option.map_eq_some_iff.mp hstamp.symm
  have hnewest := hlatest k
  rw [hc] at hnewest
  have hversion : c.version = row.version := congrArg Prod.fst hsame
  exact ⟨c, hnewest.1, hnewest.2.1, hversion, fun e he hk => hversion ▸ hnewest.2.2 e he hk⟩

/-- An event that is not older than what its entity holds takes its place. -/
theorem Registers.write (h : Registers records env s seen) {e : SyncEvent}
    (hnewer : ∀ row, s.sync.entityVersions.get? e.entity = some row → row.version ≤ e.version)
    (hstamp : ∀ k, s'.sync.stamp k = if e.entity = k then some e.stamp else s.sync.stamp k)
    (hentry : records → e.Leaves env (s'.business.entry e.entity) ∧
      ∀ k, e.entity ≠ k → s'.business.entry k = s.business.entry k) :
    Registers records env s' (insert e seen) := by
  obtain ⟨cur, hlatest, hholds⟩ := h
  refine ⟨Function.update cur e.entity (some e), fun k => ?_, fun k => ?_⟩
  · by_cases hk : e.entity = k
    · subst hk
      rw [Function.update_self]
      refine (hlatest e.entity).insert_above rfl fun c hc => ?_
      have hhere := (hholds e.entity).1
      rw [hc] at hhere
      obtain ⟨row, hrow, hsame⟩ := Option.map_eq_some_iff.mp hhere
      have hversion : row.version = c.version := congrArg Prod.fst hsame
      exact hversion ▸ hnewer row hrow
    · rw [Function.update_of_ne (Ne.symm hk)]
      exact (hlatest k).insert_of_ne hk
  · rw [hstamp]
    by_cases hk : e.entity = k
    · subst hk
      rw [Function.update_self, if_pos rfl]
      exact ⟨rfl, fun hr => (hentry hr).1⟩
    · rw [Function.update_of_ne (Ne.symm hk), if_neg hk]
      refine ⟨(hholds k).1, fun hr => ?_⟩
      rw [(hentry hr).2 k hk]
      exact (hholds k).2 hr

/-- An event that is not newer than what its entity holds changes nothing. -/
theorem Registers.keep (h : Registers records env s seen) {e : SyncEvent} {row : VersionRow}
    (hrow : s.sync.entityVersions.get? e.entity = some row) (hle : e.version ≤ row.version) :
    Registers records env s (insert e seen) := by
  obtain ⟨cur, hlatest, hholds⟩ := h
  refine ⟨cur, fun k => ?_, hholds⟩
  by_cases hk : e.entity = k
  · subst hk
    have hstamp := (hholds e.entity).1
    rw [SyncState.stamp, hrow] at hstamp
    obtain ⟨c, hc, hsame⟩ := Option.map_eq_some_iff.mp hstamp.symm
    have hversion : c.version = row.version := congrArg Prod.fst hsame
    have hnewest := hlatest e.entity
    rw [hc] at hnewest ⊢
    exact hnewest.insert_of_le (hversion ▸ hle)
  · exact (hlatest k).insert_of_ne hk

/-- What is taken is seen. -/
theorem Follows.takes (h : Follows records env s own seen) {e : SyncEvent}
    (htakes : Takes s.sync s'.sync [e]) (hregister : Registers records env s' (insert e seen)) :
    Follows records env s' own (insert e seen) where
  register := hregister
  inbox i hi := by
    rcases (htakes.identities i).mp hi with hold | hnew
    · obtain ⟨x, hx, hxi⟩ := h.inbox i hold
      exact ⟨x, Set.mem_insert_of_mem _ hx, hxi⟩
    · exact ⟨e, Set.mem_insert _ _, (List.mem_singleton.mp hnew).symm⟩
  known x hx := by
    rcases Set.mem_insert_iff.mp hx with rfl | hx
    · exact .inr ((htakes.identities _).mpr (.inr (List.mem_singleton_self _)))
    · exact (h.known x hx).imp_right fun hi => (htakes.identities _).mpr (.inl hi)

/-- The step: one round of the loop over a delivery. -/
theorem applyEvent_follows {cfg : SyncConfig} {clock : SyncEvent → String} {st st' : ApplyState}
    {e : SyncEvent} (h : Follows records env st.store own seen) (hid : Identified (insert e seen))
    (hstep : st.applyEvent cfg env clock e = .ok st') :
    Follows records env st'.store own (insert e seen) := by
  have htakes := applyEvent_takes hstep
  have haccept : (∀ row, st.store.sync.entityVersions.get? e.entity = some row →
        row.version < e.version) →
      st.accept cfg env (clock e) e = .ok st' → Registers records env st'.store (insert e seen) := by
    intro hnewer hacc
    obtain ⟨⟨b', ts'⟩, hbusiness, hacc⟩ := Except.bind_ok.mp hacc
    obtain ⟨⟨sync', seq⟩, happend, heq⟩ := Except.bind_ok.mp hacc
    cases Except.ok.inj heq
    obtain ⟨rfl, -, -, -⟩ := SyncState.appendEvent_ok happend
    exact h.register.write (fun row hrow => (hnewer row hrow).le)
      (fun k => SyncState.stamp_appended st.store.sync e k)
      fun _ => applyBusinessEvent_leaves hbusiness
  unfold ApplyState.applyEvent at hstep
  split at hstep
  next row hrow =>
    -- The inbox knows the identity, so the event was seen before.
    cases Except.ok.inj hstep
    obtain ⟨hmem, hident⟩ := findRow_some hrow
    obtain ⟨x, hx, hxe⟩ := h.inbox e.identity (hident ▸ List.mem_map_of_mem hmem)
    have hsame : x = e := hid x (Set.mem_insert_of_mem _ hx) e (Set.mem_insert _ _) hxe
    rw [Set.insert_eq_of_mem (hsame ▸ hx)]
    exact h
  next =>
    split at hstep
    next current hcur =>
      split_ifs at hstep with hle
      · cases Except.ok.inj hstep
        exact h.takes htakes (h.register.keep hcur hle)
      · refine h.takes htakes (haccept (fun row hrow => ?_) hstep)
        cases Option.some.inj (hcur.symm.trans hrow)
        exact not_le.mp hle
    next hnone =>
      refine h.takes htakes (haccept (fun row hrow => ?_) hstep)
      exact absurd (hnone.symm.trans hrow) (by simp)

/-- The run over the events of one delivery. -/
theorem applyEvents_follows {cfg : SyncConfig} {clock : SyncEvent → String}
    {events : List SyncEvent} {t t' : ApplyState} (h : Follows records env t.store own seen)
    (hid : Identified (seen ∪ {e | e ∈ events}))
    (hrun : events.foldlM (ApplyState.applyEvent cfg env clock) t = .ok t') :
    Follows records env t'.store own (seen ∪ {e | e ∈ events}) := by
  induction events generalizing t seen with
  | nil =>
    cases Except.ok.inj hrun
    simpa using h
  | cons e events ih =>
    rw [List.foldlM_cons] at hrun
    obtain ⟨t₁, hstep, hrest⟩ := Except.bind_ok.mp hrun
    have hseen : seen ∪ {x | x ∈ e :: events} = insert e seen ∪ {x | x ∈ events} := by
      ext x
      simp only [Set.mem_union, Set.mem_ofPred_eq, List.mem_cons, Set.mem_insert_iff]
      tauto
    rw [hseen] at hid ⊢
    have hid₁ : Identified (insert e seen) := fun x hx y hy =>
      hid x (Set.mem_union_left _ hx) y (Set.mem_union_left _ hy)
    exact ih (applyEvent_follows h hid₁ hstep) hid hrest

/-- A captured event that is not older than what its entity holds is seen from then on. -/
theorem capture_follows {cfg : SyncConfig} {sync : SyncState} {business : BusinessState}
    {e : SyncEvent} (h : Follows records env s own seen) (hcfg : cfg.captureRequired = true)
    (hnewer : ∀ row, s.sync.entityVersions.get? e.entity = some row → row.version ≤ e.version)
    (hentry : records → e.Leaves env (business.entry e.entity) ∧
      ∀ k, e.entity ≠ k → business.entry k = s.business.entry k)
    (hrun : s.sync.captureLocalEvent cfg e = .ok sync) :
    Follows records env ⟨business, sync⟩ (insert e own) (insert e seen) := by
  cases SyncState.captureLocalEvent_ok hcfg hrun
  exact {
    register := h.register.write hnewer (fun k => SyncState.stamp_appended s.sync e k) hentry
    inbox := fun i hi => by
      obtain ⟨x, hx, hxi⟩ := h.inbox i hi
      exact ⟨x, Set.mem_insert_of_mem _ hx, hxi⟩
    known := fun x hx => by
      rcases Set.mem_insert_iff.mp hx with rfl | hx
      · exact .inl (Set.mem_insert _ _)
      · exact (h.known x hx).imp_left fun ho => Set.mem_insert_of_mem _ ho }

end Steps

/-! ## Deliveries -/

/-- What can be delivered to a repository. -/
inductive Content where
  | batch (b : SyncBatch)
  | page (remoteId : String) (p : SyncPage)

/-- A delivery, with the readings of the clock that it takes. -/
structure Delivery where
  content : Content
  now : Instant
  clock : SyncEvent → String

namespace Delivery

/-- The events of a delivery. -/
def events (d : Delivery) : List SyncEvent :=
  match d.content with
  | .batch b => b.events
  | .page _ p => p.events

/-- A page that ends where the confirmed position is: it is answered without being applied. -/
def skipped (cfg : SyncConfig) (store : LiteStore) (d : Delivery) : Prop :=
  match d.content with
  | .batch _ => False
  | .page remoteId p => p.nextAfterSeq ≤ store.sync.confirmed cfg remoteId

instance (cfg : SyncConfig) (store : LiteStore) (d : Delivery) : Decidable (d.skipped cfg store) := by
  unfold skipped
  split <;> infer_instance

/-- The events that a delivery offers to a store. -/
def offers (cfg : SyncConfig) (store : LiteStore) (d : Delivery) : List SyncEvent :=
  if d.skipped cfg store then [] else d.events

/-- The batches among deliveries. -/
def batches (ds : List Delivery) : Set SyncBatch := {b | ∃ d ∈ ds, d.content = .batch b}

end Delivery

section Run

variable (cfg : SyncConfig) (env : Env) (sha256 : ByteArray → String)

/-- One delivery. -/
def deliver (store : LiteStore) (d : Delivery) : Except PyError LiteStore :=
  match d.content with
  | .batch b => (syncApplyBatch cfg env sha256 d.now d.clock store b).map Prod.fst
  | .page remoteId p => (syncApplyPage cfg env d.now d.clock store remoteId p).map Prod.fst

/-- A run: the deliveries one after the other. -/
def deliverAll (store : LiteStore) (ds : List Delivery) : Except PyError LiteStore :=
  ds.foldlM (deliver cfg env sha256) store

/-- The events that a run offers to the store: those of its batches, and those of its pages that are
not skipped. -/
def offered (store : LiteStore) : List Delivery → List SyncEvent
  | [] => []
  | d :: ds => d.offers cfg store ++
      match deliver cfg env sha256 store d with
      | .ok store' => offered store' ds
      | .error _ => []

/-- No two of the batches that differ have one digest. -/
def CollisionFree (batches : Set SyncBatch) : Prop :=
  ∀ b ∈ batches, ∀ b' ∈ batches, b.requestDigest sha256 = b'.requestDigest sha256 →
    b.canonicalBytes = b'.canonicalBytes

end Run

/-- Batches with the same bytes have events with the same identities. -/
theorem identities_of_bytes {b b' : SyncBatch} (h : b.canonicalBytes = b'.canonicalBytes) :
    b.events.map SyncEvent.identity = b'.events.map SyncEvent.identity := by
  have hreceived : b.received = b'.received := by
    have hread := readIngress_canonicalBytes b
    rw [h, readIngress_canonicalBytes b'] at hread
    exact (Except.ok.inj hread).symm
  have hevents : b.events.map SyncEvent.received = b'.events.map SyncEvent.received :=
    congrArg SyncBatch.events hreceived
  have hid : ∀ es : List SyncEvent, es.map SyncEvent.identity =
      (es.map SyncEvent.received).map SyncEvent.identity := fun es => by
    rw [List.map_map]
    rfl
  rw [hid b.events, hid b'.events, hevents]

/-! ## One delivery -/

/-- An applied event leaves the batches that the store remembers. -/
theorem applyEvent_batches {cfg : SyncConfig} {env : Env} {clock : SyncEvent → String}
    {st st' : ApplyState} {e : SyncEvent} (h : st.applyEvent cfg env clock e = .ok st') :
    st'.store.sync.batches = st.store.sync.batches := by
  have haccept : st.accept cfg env (clock e) e = .ok st' →
      st'.store.sync.batches = st.store.sync.batches := by
    intro hacc
    simp only [ApplyState.accept, Except.bind_ok] at hacc
    obtain ⟨⟨b', ts'⟩, -, ⟨sync', seq⟩, happend, heq⟩ := hacc
    cases Except.ok.inj heq
    obtain ⟨rfl, -, -, -⟩ := SyncState.appendEvent_ok happend
    rfl
  unfold ApplyState.applyEvent at h
  split at h
  · cases Except.ok.inj h
    rfl
  · split at h
    · split_ifs at h
      · cases Except.ok.inj h
        rfl
      · exact haccept h
    · exact haccept h

theorem applyEvents_batches {cfg : SyncConfig} {env : Env} {clock : SyncEvent → String}
    {events : List SyncEvent} {st st' : ApplyState}
    (h : events.foldlM (ApplyState.applyEvent cfg env clock) st = .ok st') :
    st'.store.sync.batches = st.store.sync.batches := by
  induction events generalizing st with
  | nil =>
    cases Except.ok.inj h
    rfl
  | cons e events ih =>
    rw [List.foldlM_cons] at h
    obtain ⟨st₁, hstep, hrest⟩ := Except.bind_ok.mp h
    exact (ih hrest).trans (applyEvent_batches hstep)

/-- The batches that a store remembers are batches it was delivered, whose events it has seen. -/
def Remembers (sha256 : ByteArray → String) (s : LiteStore) (seen : Set SyncEvent)
    (batches : Set SyncBatch) : Prop :=
  ∀ row ∈ s.sync.batches, ∃ b ∈ batches, b.batchId = row.batchId ∧
    b.requestDigest sha256 = row.requestSha256 ∧ ∀ e ∈ b.events, e ∈ seen

theorem Remembers.mono {sha256 : ByteArray → String} {s t : LiteStore} {seen seen' : Set SyncEvent}
    {batches : Set SyncBatch} (h : Remembers sha256 s seen batches)
    (hbatches : t.sync.batches = s.sync.batches) (hseen : seen ⊆ seen') :
    Remembers sha256 t seen' batches := by
  intro row hrow
  rw [hbatches] at hrow
  obtain ⟨b, hb, hid, hdigest, hevents⟩ := h row hrow
  exact ⟨b, hb, hid, hdigest, fun e he => hseen (hevents e he)⟩

section Receiving

variable {records : Prop} {cfg : SyncConfig} {env : Env} {sha256 : ByteArray → String}
  {s s' : LiteStore} {own seen : Set SyncEvent} {batches : Set SyncBatch}

/-- What a batch does to a store that follows its events: the store has seen the events of the batch
too. -/
theorem syncApplyBatch_follows {now : Instant} {clock : SyncEvent → String} {b : SyncBatch}
    {result : SyncBatchResult} (h : Follows records env s own seen)
    (hrem : Remembers sha256 s seen batches) (hsha : CollisionFree sha256 batches)
    (hb : b ∈ batches) (hid : Identified (seen ∪ {e | e ∈ b.events}))
    (hrun : syncApplyBatch cfg env sha256 now clock s b = .ok (s', result)) :
    Follows records env s' own (seen ∪ {e | e ∈ b.events}) ∧
      Remembers sha256 s' (seen ∪ {e | e ∈ b.events}) batches := by
  obtain ⟨sync, hbind, hrest⟩ := Except.bind_ok.mp hrun
  obtain ⟨rfl, -⟩ := SyncState.bindTenant_ok hbind
  split at hrest
  next existing hfound =>
    -- A repetition: the digest says that the events were in an earlier batch.
    obtain ⟨_, hdigest, heq⟩ := Except.bind_ok.mp hrest
    cases Except.ok.inj heq
    rw [require_ok] at hdigest
    obtain ⟨hmem, hident⟩ := findRow_some hfound
    obtain ⟨b₀, hb₀, -, hdigest₀, hseen₀⟩ := hrem existing hmem
    have hbytes : b₀.canonicalBytes = b.canonicalBytes :=
      hsha b₀ hb₀ b hb (hdigest₀.trans hdigest)
    have hsub : {e | e ∈ b.events} ⊆ seen := by
      intro e he
      have hin : e.identity ∈ b₀.events.map SyncEvent.identity := by
        rw [identities_of_bytes hbytes]
        exact List.mem_map_of_mem he
      obtain ⟨e₀, he₀, hsame⟩ := List.mem_map.mp hin
      have heq₀ : e₀ = e :=
        hid e₀ (Set.mem_union_left _ (hseen₀ e₀ he₀)) e (Set.mem_union_right _ he) hsame
      exact heq₀ ▸ hseen₀ e₀ he₀
    rw [Set.union_eq_left.mpr hsub]
    exact ⟨h.congr rfl rfl rfl, hrem.mono rfl subset_rfl⟩
  next hnone =>
    obtain ⟨st, happly, heq⟩ := Except.bind_ok.mp hrest
    cases Except.ok.inj heq
    have hbound : Follows records env { s with sync := { s.sync with
      tenantBinding := some b.tenantId } } own seen := h.congr rfl rfl rfl
    have hfollows := applyEvents_follows (t := ⟨_, [], []⟩) hbound hid happly
    refine ⟨hfollows.congr rfl rfl rfl, fun row hrow => ?_⟩
    rw [applyEvents_batches happly] at hrow
    rcases List.mem_append.mp hrow with hold | hnew
    · exact hrem.mono (t := s) rfl Set.subset_union_left row hold
    · cases List.mem_singleton.mp hnew
      exact ⟨b, hb, rfl, rfl, fun e he => Set.mem_union_right _ he⟩

theorem bindPageTenant_congr {s s' : SyncState} {events : List SyncEvent}
    (h : s.bindPageTenant events = .ok s') :
    ∃ tenant, s' = { s with tenantBinding := tenant } := by
  cases events with
  | nil => exact ⟨s.tenantBinding, (Except.ok.inj h).symm⟩
  | cons e events => exact ⟨_, (SyncState.bindTenant_ok h).1⟩

theorem validateIncomingPage_ok {p : SyncPage} {tenantId : String} {events : List SyncEvent}
    (h : validateIncomingPage p tenantId = .ok events) : events = p.events := by
  obtain ⟨-, -, heq⟩ := Except.bind_ok.mp h
  exact (Except.ok.inj heq).symm

/-- What a page does to a store that follows its events: unless it is skipped, the store has seen the
events of the page too. -/
theorem syncApplyPage_follows {now : Instant} {clock : SyncEvent → String} {remoteId : String}
    {p : SyncPage} {result : SyncApplyResult} (h : Follows records env s own seen)
    (hrem : Remembers sha256 s seen batches)
    (hid : Identified (seen ∪ {e | e ∈ if p.nextAfterSeq ≤ s.sync.confirmed cfg remoteId then []
      else p.events}))
    (hrun : syncApplyPage cfg env now clock s remoteId p = .ok (s', result)) :
    Follows records env s' own (seen ∪ {e | e ∈ if p.nextAfterSeq ≤ s.sync.confirmed cfg remoteId
      then [] else p.events}) ∧
    Remembers sha256 s' (seen ∪ {e | e ∈ if p.nextAfterSeq ≤ s.sync.confirmed cfg remoteId then []
      else p.events}) batches := by
  obtain ⟨-, -, hrun⟩ := Except.bind_ok.mp hrun
  obtain ⟨-, -, hrun⟩ := Except.bind_ok.mp hrun
  obtain ⟨events, hvalid, hrun⟩ := Except.bind_ok.mp hrun
  cases validateIncomingPage_ok hvalid
  obtain ⟨sync, hbind, hrun⟩ := Except.bind_ok.mp hrun
  obtain ⟨tenant, rfl⟩ := bindPageTenant_congr hbind
  obtain ⟨-, -, hrun⟩ := Except.bind_ok.mp hrun
  obtain ⟨-, -, hrun⟩ := Except.bind_ok.mp hrun
  have hconfirmed : SyncState.confirmed { s.sync with tenantBinding := tenant } cfg remoteId =
      s.sync.confirmed cfg remoteId := rfl
  rw [hconfirmed] at hrun
  by_cases hskip : p.nextAfterSeq ≤ s.sync.confirmed cfg remoteId
  · have hnothing : seen ∪ {e | e ∈ ([] : List SyncEvent)} = seen := by simp
    rw [if_pos hskip] at hrun ⊢
    cases Except.ok.inj hrun
    rw [hnothing]
    exact ⟨h.congr rfl rfl rfl, hrem.mono rfl subset_rfl⟩
  · rw [if_neg hskip] at hrun hid ⊢
    obtain ⟨st, happly, heq⟩ := Except.bind_ok.mp hrun
    cases Except.ok.inj heq
    have hbound : Follows records env { s with sync := { s.sync with
      tenantBinding := tenant } } own seen := h.congr rfl rfl rfl
    have hfollows := applyEvents_follows (t := ⟨_, [], []⟩) hbound hid happly
    exact ⟨hfollows.congr rfl rfl rfl,
      hrem.mono (applyEvents_batches happly) Set.subset_union_left⟩

/-- The step of a run: one delivery. -/
theorem deliver_follows {d : Delivery} (h : Follows records env s own seen)
    (hrem : Remembers sha256 s seen batches) (hsha : CollisionFree sha256 batches)
    (hbatch : ∀ b, d.content = .batch b → b ∈ batches)
    (hid : Identified (seen ∪ {e | e ∈ d.offers cfg s}))
    (hrun : deliver cfg env sha256 s d = .ok s') :
    Follows records env s' own (seen ∪ {e | e ∈ d.offers cfg s}) ∧
      Remembers sha256 s' (seen ∪ {e | e ∈ d.offers cfg s}) batches := by
  obtain ⟨content, now, clock⟩ := d
  cases content with
  | batch b =>
    have hoffers : Delivery.offers cfg s ⟨.batch b, now, clock⟩ = b.events := if_neg id
    rw [hoffers] at hid ⊢
    obtain ⟨⟨s₁, result⟩, happly, rfl⟩ := Except.map_ok hrun
    exact syncApplyBatch_follows h hrem hsha (hbatch b rfl) hid happly
  | page remoteId p =>
    obtain ⟨⟨s₁, result⟩, happly, rfl⟩ := Except.map_ok hrun
    exact syncApplyPage_follows h hrem hid happly

/-- The run: a store that follows `seen` follows in the end what it was offered as well. -/
theorem deliverAll_follows {ds : List Delivery} (h : Follows records env s own seen)
    (hrem : Remembers sha256 s seen batches) (hsha : CollisionFree sha256 batches)
    (hbatches : Delivery.batches ds ⊆ batches)
    (hid : Identified (seen ∪ {e | e ∈ offered cfg env sha256 s ds}))
    (hrun : deliverAll cfg env sha256 s ds = .ok s') :
    Follows records env s' own (seen ∪ {e | e ∈ offered cfg env sha256 s ds}) := by
  induction ds generalizing s seen with
  | nil =>
    cases Except.ok.inj hrun
    simpa [offered] using h
  | cons d ds ih =>
    rw [deliverAll, List.foldlM_cons] at hrun
    obtain ⟨s₁, hstep, hrest⟩ := Except.bind_ok.mp hrun
    have hoffered : {e | e ∈ offered cfg env sha256 s (d :: ds)} =
        {e | e ∈ d.offers cfg s} ∪ {e | e ∈ offered cfg env sha256 s₁ ds} := by
      ext e
      rw [offered, hstep]
      exact List.mem_append
    rw [hoffered, ← Set.union_assoc] at hid ⊢
    obtain ⟨h₁, hrem₁⟩ := deliver_follows h hrem hsha
      (fun b hb => hbatches ⟨d, List.mem_cons_self .., hb⟩)
      (fun e he e' he' => hid e (Set.mem_union_left _ he) e' (Set.mem_union_left _ he')) hstep
    exact ih h₁ hrem₁ (fun b ⟨x, hx, hxb⟩ => hbatches ⟨x, List.mem_cons_of_mem _ hx, hxb⟩) hid hrest

end Receiving

/-- A store that nothing was written to has seen nothing. -/
theorem follows_empty (records : Prop) (env : Env) : Follows records env .empty ∅ ∅ where
  register := by
    refine ⟨fun _ => none, fun _ => isLatest_empty, fun k => ⟨rfl, fun _ => ?_⟩⟩
    show BusinessState.entry .empty k = none
    unfold BusinessState.entry
    split
    · cases k.1 <;> rfl
    · split_ifs
      · rfl
      · rfl
  inbox := by simp [SyncState.identities, LiteStore.empty, SyncState.empty]
  known := by simp

end Memplex
