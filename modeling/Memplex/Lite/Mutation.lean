import Memplex.Sync.Resume

/-!
# Mutations that are rolled back

A process of a Lite store works on the collections that it has in memory, and commits them as one
pair. A mutation that raises, in its body or in its commit, is rolled back: the process reads the
last committed pair again, and forgets whatever the body has left behind. That this reading may
fail too is left out here.

For the pages of a peer it follows that a call applies a page completely, together with its
position, or leaves the store as it was (`pages_once`), with one exception: a page that ends where
the store stands is skipped only after the tenant of its events was bound.
-/

namespace Memplex

open Lib

/-! ## One mutation -/

/-- A process: the collections in its memory, and the pair that is committed. -/
structure LiteProcess where
  resident : LiteStore
  durable : LiteStore

/-- How a mutation goes whose body does not raise by itself. -/
inductive MutationFate where
  | completes
  /-- Something raises in the middle of the body. -/
  | interrupted (e : PyError)
  /-- The commit raises before it has decided. -/
  | refused (e : PyError)
  /-- The commit raises after it has decided. -/
  | decided (e : PyError)

namespace LiteProcess

/-- A process that has just opened a store. -/
def opened (s : LiteStore) : LiteProcess := ⟨s, s⟩

/-- `_reload_for_mutation(force=True)`. -/
def reload (p : LiteProcess) : LiteProcess := { p with resident := p.durable }

/-- `_commit_current_state`, where it decides. -/
def commit (p : LiteProcess) : LiteProcess := { p with durable := p.resident }

/-- `_mutation`, around a body. A body that raises has left `half` in memory. -/
def mutation {α : Type} (p : LiteProcess) (body : LiteStore → Except PyError (LiteStore × α))
    (half : LiteStore) (fate : MutationFate) : LiteProcess × Except PyError α :=
  match body p.resident with
  | .error e => (reload { p with resident := half }, .error e)
  | .ok (s, a) =>
    match fate with
    | .completes => (commit { p with resident := s }, .ok a)
    | .interrupted e => (reload { p with resident := half }, .error e)
    | .refused e => (reload { p with resident := s }, .error e)
    | .decided e => (reload (commit { p with resident := s }), .error e)

/-- What is in memory is what is committed. -/
def Clean (p : LiteProcess) : Prop := p.resident = p.durable

theorem Clean.opened {p : LiteProcess} (h : p.Clean) : LiteProcess.opened p.durable = p := by
  obtain ⟨r, d⟩ := p
  obtain rfl : r = d := h
  rfl

/-- A mutation of a clean process leaves it clean: it keeps the pair and raises, or it commits what
the body has returned. -/
theorem mutation_cases {α : Type} {p : LiteProcess} (hp : p.Clean)
    (body : LiteStore → Except PyError (LiteStore × α)) (half : LiteStore) (fate : MutationFate) :
    ((p.mutation body half fate).1 = p ∧ ∃ e, (p.mutation body half fate).2 = .error e) ∨
      ∃ s a, body p.durable = .ok (s, a) ∧ (p.mutation body half fate).1 = opened s ∧
        ((p.mutation body half fate).2 = .ok a ∨ ∃ e, (p.mutation body half fate).2 = .error e) := by
  have hreload : ∀ s : LiteStore, reload { p with resident := s } = p := by
    intro s
    exact hp.opened
  unfold mutation
  rw [hp]
  cases hbody : body p.durable with
  | error e => exact .inl ⟨hreload half, e, rfl⟩
  | ok r =>
    obtain ⟨s, a⟩ := r
    cases fate with
    | completes => exact .inr ⟨s, a, rfl, rfl, .inl rfl⟩
    | interrupted e => exact .inl ⟨hreload half, e, rfl⟩
    | refused e => exact .inl ⟨hreload s, e, rfl⟩
    | decided e => exact .inr ⟨s, a, rfl, rfl, .inr ⟨e, rfl⟩⟩

end LiteProcess

/-! ## Pages of a peer -/

/-- A call of `sync_apply_page`, with the readings of the clock and its fate. -/
structure PageCall where
  page : SyncPage
  now : Instant
  clock : SyncEvent → String
  half : LiteStore
  fate : MutationFate

section Calls

variable (cfg : SyncConfig) (env : Env) (remoteId : String)

/-- The body of the call. -/
def PageCall.body (c : PageCall) (s : LiteStore) : Except PyError (LiteStore × SyncApplyResult) :=
  syncApplyPage cfg env c.now c.clock s remoteId c.page

/-- The call. -/
def PageCall.apply (c : PageCall) (p : LiteProcess) : LiteProcess × Except PyError SyncApplyResult :=
  p.mutation (c.body cfg env remoteId) c.half c.fate

/-- The process after some calls for one peer. -/
def LiteProcess.pages (p : LiteProcess) (calls : List PageCall) : LiteProcess :=
  calls.foldl (fun p c => (c.apply cfg env remoteId p).1) p

/-- The call has committed the page, and if so maybe raised all the same. -/
def PageCall.Commits (c : PageCall) (p : LiteProcess) : Prop :=
  (∃ r, c.body cfg env remoteId p.resident = .ok r) ∧
    (c.fate = .completes ∨ ∃ e, c.fate = .decided e)

/-- The page is applied completely, and its position is stored with it. -/
def AppliedWhole (c : PageCall) (s s' : LiteStore) : Prop :=
  s.sync.confirmed cfg remoteId < c.page.nextAfterSeq ∧
    ∃ sync st, s.sync.bindPageTenant c.page.events = .ok sync ∧
      applyEvents cfg env c.clock { s with sync := sync } c.page.events = .ok st ∧
      s' = { st.store with sync := { st.store.sync with
        inboundCursors := upsertRow CursorRow.key
          ⟨remoteId, cfg.localNodeId, c.page.nextAfterSeq, c.now⟩ st.store.sync.inboundCursors } }

/-- The page is skipped, and the tenant of its events is bound, which was not. -/
def BindsTenant (c : PageCall) (s s' : LiteStore) : Prop :=
  c.page.nextAfterSeq = s.sync.confirmed cfg remoteId ∧ s.sync.tenantBinding = none ∧
    ∃ e ∈ c.page.events.head?,
      s' = { s with sync := { s.sync with tenantBinding := some e.scope.tenantId } }

/-- Some of the page is confirmed already, and some is not. -/
def PartiallyOverlaps (c : PageCall) (s : LiteStore) : Prop :=
  (∃ item ∈ c.page.items, item.streamSeq ≤ s.sync.confirmed cfg remoteId) ∧
    s.sync.confirmed cfg remoteId < c.page.nextAfterSeq

end Calls

section Steps

variable {cfg : SyncConfig} {env : Env} {remoteId : String}

/-- The items of a page do not stand before the first. -/
theorem head_le_of_ordered {snapshotSeq : ℕ} {items : List SyncStreamItem} :
    ∀ {previousSeq : ℕ}, orderedItems snapshotSeq previousSeq items → ∀ item ∈ items,
      previousSeq < item.streamSeq ∧ ∃ first ∈ items.head?, first.streamSeq ≤ item.streamSeq := by
  induction items with
  | nil => exact fun _ _ hitem => absurd hitem List.not_mem_nil
  | cons first items ih =>
    intro previousSeq hordered item hitem
    obtain ⟨⟨hlt, -⟩, hrest⟩ := hordered
    rcases List.mem_cons.mp hitem with rfl | hitem
    · exact ⟨hlt, item, rfl, le_rfl⟩
    · have hitemlt := (ih hrest item hitem).1
      exact ⟨hlt.trans hitemlt, first, rfl, hitemlt.le⟩

/-- Binding the tenant of events changes nothing, or binds a tenant where there was none. -/
theorem bindPageTenant_cases {s sync : SyncState} {events : List SyncEvent}
    (h : s.bindPageTenant events = .ok sync) :
    sync = s ∨ (s.tenantBinding = none ∧ ∃ e ∈ events.head?,
      sync = { s with tenantBinding := some e.scope.tenantId }) := by
  cases events with
  | nil => exact .inl (Except.ok.inj h).symm
  | cons e events =>
    obtain ⟨hsync, htenant⟩ := SyncState.bindTenant_ok h
    cases hbound : s.tenantBinding with
    | none => exact .inr ⟨rfl, e, rfl, hsync⟩
    | some current =>
      refine .inl (hsync.trans ?_)
      rw [← htenant current hbound, ← hbound]

/-- What a call that returns leaves. -/
theorem body_ok {c : PageCall} {s s' : LiteStore} {r : SyncApplyResult}
    (h : c.body cfg env remoteId s = .ok (s', r)) :
    ¬ PartiallyOverlaps cfg remoteId c s ∧
      (AppliedWhole cfg env remoteId c s s' ∨ s' = s ∨ BindsTenant cfg remoteId c s s') := by
  obtain ⟨_, -, h⟩ := Except.bind_ok.mp h
  obtain ⟨_, -, h⟩ := Except.bind_ok.mp h
  obtain ⟨events, hvalid, h⟩ := Except.bind_ok.mp h
  cases validateIncomingPage_ok hvalid
  obtain ⟨sync, hbind, h⟩ := Except.bind_ok.mp h
  have hsame : sync.confirmed cfg remoteId = s.sync.confirmed cfg remoteId := by
    obtain ⟨tenant, rfl⟩ := bindPageTenant_congr hbind
    rfl
  obtain ⟨_, hregress, h⟩ := Except.bind_ok.mp h
  obtain ⟨_, hoverlap, h⟩ := Except.bind_ok.mp h
  rw [hsame] at hregress hoverlap h
  constructor
  · rintro ⟨⟨item, hitem, hle⟩, hlt⟩
    obtain ⟨-, first, hfirst, hfirstle⟩ := head_le_of_ordered c.page.ordered item hitem
    exact require_ok.mp hoverlap ⟨⟨first, hfirst, hfirstle.trans hle⟩, hlt⟩
  · split_ifs at h with hle
    · -- The page ends where the store stands.
      obtain rfl : { s with sync := sync } = s' := (Prod.mk.inj (Except.ok.inj h)).1
      rcases bindPageTenant_cases hbind with rfl | ⟨hnone, e, he, rfl⟩
      · exact .inr (.inl rfl)
      · exact .inr (.inr ⟨le_antisymm hle (require_ok.mp hregress), hnone, e, he, rfl⟩)
    · obtain ⟨st, happly, heq⟩ := Except.bind_ok.mp h
      exact .inl ⟨not_le.mp hle, sync, st, hbind, happly, (Prod.mk.inj (Except.ok.inj heq)).1.symm⟩

variable (cfg env remoteId)

/-- A call leaves a clean process clean, and keeps its pair or commits what the body returned. -/
theorem apply_cases (c : PageCall) {p : LiteProcess} (hp : p.Clean) :
    ((c.apply cfg env remoteId p).1 = p ∧ ∃ e, (c.apply cfg env remoteId p).2 = .error e) ∨
      ∃ s r, c.body cfg env remoteId p.durable = .ok (s, r) ∧
        (c.apply cfg env remoteId p).1 = .opened s :=
  (LiteProcess.mutation_cases hp (c.body cfg env remoteId) c.half c.fate).imp_right
    fun ⟨s, r, hbody, hs, _⟩ => ⟨s, r, hbody, hs⟩

/-- A call that commits leaves what its body returned. -/
theorem apply_of_commits {c : PageCall} {p : LiteProcess} (h : c.Commits cfg env remoteId p) :
    ∃ s r, c.body cfg env remoteId p.resident = .ok (s, r) ∧
      (c.apply cfg env remoteId p).1 = .opened s := by
  obtain ⟨⟨⟨s, r⟩, hbody⟩, hfate⟩ := h
  refine ⟨s, r, hbody, ?_⟩
  unfold PageCall.apply LiteProcess.mutation
  rw [hbody]
  rcases hfate with hfate | ⟨e, hfate⟩ <;> rw [hfate] <;> rfl

/-- Calls leave a clean process clean, move the position forward and keep a bound tenant. -/
theorem pages_keeps (calls : List PageCall) {p : LiteProcess} (hp : p.Clean) :
    (p.pages cfg env remoteId calls).Clean ∧
      p.durable.sync.confirmed cfg remoteId ≤
        (p.pages cfg env remoteId calls).durable.sync.confirmed cfg remoteId ∧
      ∀ t ∈ p.durable.sync.tenantBinding,
        (p.pages cfg env remoteId calls).durable.sync.tenantBinding = some t := by
  induction calls generalizing p with
  | nil => exact ⟨hp, le_rfl, fun _ ht => ht⟩
  | cons c calls ih =>
    have hunfold : p.pages cfg env remoteId (c :: calls) =
        ((c.apply cfg env remoteId p).1).pages cfg env remoteId calls := rfl
    rw [hunfold]
    rcases apply_cases cfg env remoteId c hp with ⟨hsame, -⟩ | ⟨s, r, hbody, hs⟩
    · rw [hsame]
      exact ih hp
    · rw [hs]
      obtain ⟨hconfirmed, -, htenant, -, -, hle⟩ := syncApplyPage_takes hbody
      obtain ⟨hclean, hmore, hkeep⟩ := ih (rfl : (LiteProcess.opened s).Clean)
      exact ⟨hclean, (hle.trans hconfirmed.ge).trans hmore, fun t ht => hkeep t (htenant t ht)⟩

/-- A page that is committed changes nothing when it comes again. -/
theorem body_again {c c' : PageCall} {s s₁ s₂ s' : LiteStore} {r r' : SyncApplyResult}
    (h : c.body cfg env remoteId s = .ok (s₁, r))
    (hconfirmed : s₁.sync.confirmed cfg remoteId ≤ s₂.sync.confirmed cfg remoteId)
    (htenant : ∀ t ∈ s₁.sync.tenantBinding, s₂.sync.tenantBinding = some t)
    (hpage : c'.page = c.page) (h' : c'.body cfg env remoteId s₂ = .ok (s', r')) : s' = s₂ := by
  obtain ⟨hat, -, -, -, hbound, -⟩ := syncApplyPage_takes h
  rcases (body_ok h').2 with ⟨hlt, -⟩ | heq | ⟨-, hnone, e, he, -⟩
  · rw [hpage, ← hat] at hlt
    exact absurd hlt (not_lt.mpr hconfirmed)
  · exact heq
  · -- The tenant of its events is bound since it was committed.
    rw [hpage] at he
    have hne : c.page.events ≠ [] := fun hnil => by
      rw [hnil] at he
      exact absurd he (by simp)
    exact absurd (hnone.symm.trans (htenant _ (hbound hne))) (Option.some_ne_none _).symm

/-- The events of a page that is applied are in the inbox. -/
theorem AppliedWhole.taken {c : PageCall} {s s' : LiteStore}
    (h : AppliedWhole cfg env remoteId c s s') :
    ∀ e ∈ c.page.events, e.identity ∈ s'.sync.identities := by
  obtain ⟨-, sync, st, -, happly, rfl⟩ := h
  intro e he
  exact ((applyEvents_takes happly).identities e.identity).mpr (.inr (List.mem_map_of_mem he))

/-- A page that was committed among some calls changes nothing after them. -/
theorem pages_replay {start : LiteProcess} (hstart : start.Clean) {earlier later : List PageCall}
    {c c' : PageCall} (hpage : c'.page = c.page)
    (hcommits : c'.Commits cfg env remoteId (start.pages cfg env remoteId earlier))
    {s' : LiteStore} {r : SyncApplyResult}
    (hbody : c.body cfg env remoteId
      (start.pages cfg env remoteId (earlier ++ c' :: later)).durable = .ok (s', r)) :
    s' = (start.pages cfg env remoteId (earlier ++ c' :: later)).durable := by
  obtain ⟨hclean, -⟩ := pages_keeps cfg env remoteId earlier hstart
  obtain ⟨s₁, r₁, hfirst, hs₁⟩ := apply_of_commits cfg env remoteId hcommits
  rw [hclean] at hfirst
  have hrun : start.pages cfg env remoteId (earlier ++ c' :: later) =
      (LiteProcess.opened s₁).pages cfg env remoteId later := by
    rw [LiteProcess.pages, List.foldl_append, List.foldl_cons, ← hs₁]
    rfl
  rw [hrun] at hbody ⊢
  have hopened : (LiteProcess.opened s₁).Clean := rfl
  obtain ⟨-, hmore, hkeep⟩ := pages_keeps cfg env remoteId later hopened
  exact body_again cfg env remoteId hfirst hmore hkeep hpage.symm hbody

end Steps

/-- What holds of one call after others: `p` is the process then, and `p'` after the call. -/
structure OnceStep (cfg : SyncConfig) (env : Env) (remoteId : String) (start : LiteProcess)
    (before : List PageCall) (c : PageCall) (p p' : LiteProcess) : Prop where
  clean : p'.resident = p'.durable
  monotone : p.durable.sync.confirmed cfg remoteId ≤ p'.durable.sync.confirmed cfg remoteId
  /-- The page is applied completely, or not at all. -/
  whole : AppliedWhole cfg env remoteId c p.durable p'.durable ∨ p'.durable = p.durable ∨
    BindsTenant cfg remoteId c p.durable p'.durable
  /-- What is applied completely is in the inbox. -/
  taken : AppliedWhole cfg env remoteId c p.durable p'.durable →
    ∀ e ∈ c.page.events, e.identity ∈ p'.durable.sync.identities
  overlap : PartiallyOverlaps cfg remoteId c p.durable →
    p' = p ∧ ∃ e, (c.apply cfg env remoteId p).2 = .error e
  replay : ∀ earlier c' later, before = earlier ++ c' :: later → c'.page = c.page →
    c'.Commits cfg env remoteId (start.pages cfg env remoteId earlier) → p' = p

/-- Pages of a peer are applied at most once, each completely or not at all, and the position does
not go back. -/
theorem pages_once (cfg : SyncConfig) (env : Env) (remoteId : String) (s : LiteStore)
    (before : List PageCall) (c : PageCall) :
    OnceStep cfg env remoteId (.opened s) before c
      ((LiteProcess.opened s).pages cfg env remoteId before)
      ((LiteProcess.opened s).pages cfg env remoteId (before ++ [c])) := by
  have hlast : (LiteProcess.opened s).pages cfg env remoteId (before ++ [c]) =
      (c.apply cfg env remoteId ((LiteProcess.opened s).pages cfg env remoteId before)).1 := by
    rw [LiteProcess.pages, List.foldl_append]
    rfl
  have hopened : (LiteProcess.opened s).Clean := rfl
  obtain ⟨hclean, -⟩ := pages_keeps cfg env remoteId before hopened
  rw [hlast]
  rcases apply_cases cfg env remoteId c hclean with ⟨hsame, herror⟩ | ⟨s', r, hbody, hs'⟩
  · -- The call raises and is rolled back.
    rw [hsame]
    exact ⟨hclean, le_rfl, .inr (.inl rfl), fun h => h.taken, fun _ => ⟨rfl, herror⟩,
      fun _ _ _ _ _ _ => rfl⟩
  · -- The call commits what its body has returned.
    rw [hs']
    obtain ⟨hconfirmed, -, -, -, -, hle⟩ := syncApplyPage_takes hbody
    obtain ⟨hnot, hwhole⟩ := body_ok hbody
    refine ⟨rfl, hle.trans hconfirmed.ge, hwhole, fun h => h.taken, fun h => absurd h hnot, ?_⟩
    rintro earlier c' later rfl hpage hcommits
    rw [pages_replay cfg env remoteId hopened hpage hcommits hbody]
    exact hclean.opened

/-- A page without events, and a page that ends at the same place with an event. -/
def sampleBehind : List PageCall :=
  [⟨sampleEmptyPage, 0, fun _ => "", .empty, .completes⟩]

/-- A page that is skipped binds a tenant. -/
theorem skipped_page_binds :
    ¬ ∀ (s : LiteStore) (before : List PageCall) (c : PageCall),
      AppliedWhole (sampleConfig "local") sampleEnv "p" c
          ((LiteProcess.opened s).pages (sampleConfig "local") sampleEnv "p" before).durable
          ((LiteProcess.opened s).pages (sampleConfig "local") sampleEnv "p"
            (before ++ [c])).durable ∨
        ((LiteProcess.opened s).pages (sampleConfig "local") sampleEnv "p"
            (before ++ [c])).durable =
          ((LiteProcess.opened s).pages (sampleConfig "local") sampleEnv "p" before).durable := by
  intro h
  rcases h .empty sampleBehind ⟨samplePage sampleFactA, 0, fun _ => "", .empty, .completes⟩ with
    ⟨hlt, -⟩ | hsame
  · have hat : ((LiteProcess.opened .empty).pages (sampleConfig "local") sampleEnv "p"
        sampleBehind).durable.sync.confirmed (sampleConfig "local") "p" = 1 := by decide +kernel
    rw [hat] at hlt
    exact absurd hlt (lt_irrefl 1)
  · have htenants := congrArg (fun s : LiteStore => s.sync.tenantBinding) hsame
    exact absurd htenants (by decide +kernel)

end Memplex
