import Memplex.Auth.Visible
import Memplex.Feedback.Stores

/-!
# Where the feedback stores agree

Under the same calls the two stores hold the same records, as long as each record that is accepted
is bound to a request: a bound record is visible in the one store to whom it is in the other. They
report it alike when its id has no colon while its review is due, which the lite store takes for
the end of the id, and when its source and its type are no empty texts, for which SQLite reads
others. Histories are compared up to the order of records with one timestamp, which SQLite leaves
open, and with times as `_to_naive` leaves them.
-/

namespace Memplex

open Lib

/-! ## Agreement -/

/-- Two calls that raise the same, or return what is related. -/
inductive SameOutcome {α β : Type} (R : α → β → Prop) : Except PyError α → Except PyError β → Prop
  | raised (e : PyError) : SameOutcome R (.error e) (.error e)
  | returned (a : α) (b : β) : R a b → SameOutcome R (.ok a) (.ok b)

/-- Two calls that go on alike after one first step. -/
theorem SameOutcome.bind {α β γ : Type} {R : α → β → Prop} {x : Except PyError γ}
    {f : γ → Except PyError α} {g : γ → Except PyError β}
    (h : ∀ c, x = .ok c → SameOutcome R (f c) (g c)) : SameOutcome R (x >>= f) (x >>= g) := by
  cases x with
  | error e => exact .raised e
  | ok c => exact h c rfl

/-- The conflict that a review is about. -/
def PendingReview.conflict (r : PendingReview) : String × String := (r.memoryId, r.fieldRole)

/-- A record with its times as `_to_naive` leaves them. -/
def MemoryFeedback.toNaive (fb : MemoryFeedback) : MemoryFeedback :=
  { fb with resolvedAt := fb.resolvedAt.map FeedbackTime.toNaive }

/-- Two histories of at most `limit` records that are the same. -/
structure FeedbackHistoriesAgree (limit : ℕ) (xs ys : List MemoryFeedback) : Prop where
  /-- They have the same times, in the same order. -/
  times : xs.map MemoryFeedback.timestamp = ys.map MemoryFeedback.timestamp
  /-- They have the same records of a time, unless it is the time at which the limit cut them. -/
  records : ∀ t, xs.length < limit ∨ (∃ fb ∈ xs, fb.timestamp < t) →
    ((xs.filter fun fb => fb.timestamp = t).map MemoryFeedback.toNaive).Perm
      (ys.filter fun fb => fb.timestamp = t)

/-- What two stores report is the same to every context. -/
structure FeedbackAgree (env : FeedbackEnv) (lite : LiteFeedbackStore)
    (sqlite : SqliteFeedbackStore) : Prop where
  /-- They report the same set of pending conflicts. -/
  pending : ∀ c, SameOutcome
    (fun xs ys => ∀ conflict,
      conflict ∈ xs.map PendingReview.conflict ↔ conflict ∈ ys.map PendingReview.conflict)
    (lite.getPending env c) (sqlite.getPending env c)
  /-- They report the same history of every memory. -/
  history : ∀ c memoryId limit, SameOutcome (FeedbackHistoriesAgree limit)
    (lite.getHistory env c memoryId limit) (sqlite.getHistory env c memoryId limit)

/-- A call that both stores take alike: what it records, if it is accepted, is bound to a request,
and is written and read alike. -/
def FeedbackCall.Portable (env : FeedbackEnv) (requireAuthorization : Bool) : FeedbackCall → Prop
  | .record c fb =>
    (∃ accepted, (do env.bound fb (← feedbackContext requireAuthorization c)) = .ok accepted) →
      c ≠ none ∧ (fb.isPending = true → ':' ∉ fb.memoryId.toList) ∧ fb.source ≠ "" ∧
        fb.feedbackType ≠ "" ∧ SqliteFeedbackStore.fits fb.valueIndex = true
  | _ => True

/-! ## Bound records -/

/-- A record with the identity of a request. -/
structure MemoryFeedback.Bound (fb : MemoryFeedback) : Prop where
  tenant : fb.tenantId ≠ none
  visibility : fb.visibility ∈ feedbackVisibilities
  agent : ∃ s, fb.provenance.getD "agent_id" .null = .str s
  session : ∃ s, fb.provenance.getD "session_id" .null = .str s

namespace FeedbackEnv

variable {env : FeedbackEnv}

theorem feedbackVisibility_ok {v w : String} (h : env.feedbackVisibility v = .ok w) :
    w ∈ feedbackVisibilities := by
  obtain ⟨_, hmem, h⟩ := Except.bind_ok.mp h
  rw [← Except.ok.inj h]
  exact require_ok.mp hmem

/-- A normalized visibility is read as it is. -/
theorem feedbackVisibility_of_mem {v : String} (h : v ∈ feedbackVisibilities) :
    env.feedbackVisibility v = .ok v := by
  have hne : v ≠ "" := fun he => absurd (he ▸ h) (by decide)
  unfold feedbackVisibility
  rw [if_neg hne, env.lower_strip v h]
  exact Except.bind_ok.mpr ⟨(), require_ok.mpr h, rfl⟩

/-- The trusted claims of a context name its agent and its session. -/
theorem mem_trustedProvenance (c : RequestContext) {key value : String}
    (h : (key, value) ∈ [("agent_id", c.agentId), ("session_id", c.sessionId)]) :
    (∃ claim ∈ trustedProvenance c, claim.1 = key) ∧
      ∀ claim ∈ trustedProvenance c, claim.1 = key → claim.2 = .str value := by
  simp only [List.mem_cons, Prod.mk.injEq, List.not_mem_nil, or_false] at h
  rcases h with ⟨rfl, rfl⟩ | ⟨rfl, rfl⟩
  · refine ⟨⟨("agent_id", .str c.agentId), ?_, rfl⟩, ?_⟩
    · simp [trustedProvenance, Members.set, mem_upsertRow]
    · simp only [trustedProvenance, Members.set, List.foldl_cons, List.foldl_nil, mem_upsertRow]
      rintro claim hclaim hkey
      aesop
  · refine ⟨⟨("session_id", .str c.sessionId), ?_, rfl⟩, ?_⟩
    · simp [trustedProvenance, Members.set, mem_upsertRow]
    · simp only [trustedProvenance, Members.set, List.foldl_cons, List.foldl_nil, mem_upsertRow]
      rintro claim hclaim hkey
      aesop

/-- What a dictionary has after an update with another one. -/
theorem get?_update (d other : Members) (key : String) {v : Value}
    (h : ∀ claim ∈ other, claim.1 = key → claim.2 = v) (hmem : ∃ claim ∈ other, claim.1 = key) :
    (other.foldl (fun d claim => d.set claim.1 claim.2) d).get? key = some v := by
  induction other using List.reverseRecOn with
  | nil => obtain ⟨_, hmem, -⟩ := hmem; exact absurd hmem List.not_mem_nil
  | append_singleton rest claim ih =>
    rw [List.foldl_append, List.foldl_cons, List.foldl_nil, Members.get?_set]
    by_cases hk : claim.1 = key
    · rw [if_pos hk, h claim (List.mem_append_right _ (List.mem_singleton_self _)) hk]
    · rw [if_neg hk]
      refine ih (fun c hc => h c (List.mem_append_left _ hc)) ?_
      obtain ⟨c, hc, hck⟩ := hmem
      rcases List.mem_append.mp hc with hc | hc
      · exact ⟨c, hc, hck⟩
      · exact absurd (List.mem_singleton.mp hc ▸ hck) hk

/-- What is bound has the identity of the request, and is otherwise what was given. -/
theorem bindFeedbackIdentity_ok {fb fb' : MemoryFeedback} {c : RequestContext}
    (h : env.bindFeedbackIdentity fb c = .ok fb') :
    fb'.Bound ∧ fb'.memoryId = fb.memoryId ∧ fb'.isPending = fb.isPending ∧
      fb'.source = fb.source ∧ fb'.feedbackType = fb.feedbackType ∧
      fb'.valueIndex = fb.valueIndex := by
  obtain ⟨visibility, hvisibility, h⟩ := Except.bind_ok.mp h
  obtain ⟨_, -, h⟩ := Except.bind_ok.mp h
  obtain ⟨_, -, h⟩ := Except.bind_ok.mp h
  rw [← Except.ok.inj h]
  have hget : ∀ key value, (key, value) ∈ [("agent_id", c.agentId), ("session_id", c.sessionId)] →
      Members.getD ((trustedProvenance c).foldl (fun d claim => d.set claim.1 claim.2)
        fb.provenance) key .null = .str value := by
    intro key value hmem
    obtain ⟨hsome, hall⟩ := mem_trustedProvenance c hmem
    rw [Members.getD, get?_update _ _ _ hall hsome]
    rfl
  exact ⟨⟨Option.some_ne_none _, feedbackVisibility_ok hvisibility,
    ⟨_, hget "agent_id" c.agentId (by simp)⟩, ⟨_, hget "session_id" c.sessionId (by simp)⟩⟩,
    rfl, rfl, rfl, rfl, rfl⟩

/-- A bound record is visible in both stores to the same requests. -/
theorem sqliteScope_eq {fb : MemoryFeedback} (h : fb.Bound) (c : RequestContext) :
    env.sqliteScope c fb = env.feedbackIsVisible fb c := by
  obtain ⟨agent, hagent⟩ := h.agent
  obtain ⟨session, hsession⟩ := h.session
  unfold sqliteScope feedbackIsVisible
  rw [feedbackVisibility_of_mem h.visibility, hagent, hsession]
  by_cases htenant : fb.tenantId = some c.principal.tenantId
  · have hv := h.visibility
    simp only [feedbackVisibilities, List.mem_cons, List.not_mem_nil, or_false] at hv
    rcases hv with hv | hv | hv
    · simp [hv, htenant]
    · simp [hv, htenant]
    · simp only [hv, htenant, env.extract_str, hagent, hsession, Value.truthy]
      simp
  · simp [htenant]

end FeedbackEnv

/-! ## A sample -/

/-- The lite store's order of a history is descending. -/
theorem descending_mergeSort (fbs : List MemoryFeedback) :
    (fbs.mergeSort fun a b => b.timestamp ≤ a.timestamp).Pairwise
      fun a b => b.timestamp ≤ a.timestamp := by
  have htrans : ∀ a b c : MemoryFeedback, decide (b.timestamp ≤ a.timestamp) = true →
      decide (c.timestamp ≤ b.timestamp) = true → decide (c.timestamp ≤ a.timestamp) = true := by
    intro a b c hab hbc
    exact decide_eq_true ((of_decide_eq_true hbc).trans (of_decide_eq_true hab))
  have htotal : ∀ a b : MemoryFeedback,
      (decide (b.timestamp ≤ a.timestamp) || decide (a.timestamp ≤ b.timestamp)) = true := by
    intro a b
    rw [Bool.or_eq_true, decide_eq_true_eq, decide_eq_true_eq]
    exact le_total _ _
  exact (List.pairwise_mergeSort htrans htotal fbs).imp of_decide_eq_true

/-- Rows of one timestamp come in the order in which they were inserted. -/
def sampleFeedbackEnv : FeedbackEnv where
  toText := sampleText
  lower_strip := fun _ _ => rfl
  extract := id
  extract_str := fun _ => rfl
  orderByTimestamp := fun rows => rows.mergeSort fun a b => b.timestamp ≤ a.timestamp
  order_perm := fun _ => List.mergeSort_perm _ _
  order_sorted := descending_mergeSort

/-- A request of a session. -/
def sampleRequest : RequestContext where
  principal := ⟨"t", "u", []⟩
  workspaceId := "w"
  agentId := "g"
  sessionId := "s"
  provenance := []
  authenticationId := none
  requestId := "r"

theorem feedbackTime_valid : validTime 2026 1 1 0 0 0 0 := by decide

/-- The time of the sample. -/
def feedbackTime : Timestamp := ⟨2026, 1, 1, 0, 0, 0, 0, feedbackTime_valid⟩

/-- A report of a wrong value, that is to be reviewed. -/
def sampleFeedback (memoryId : String) : MemoryFeedback where
  memoryId := memoryId
  fieldRole := "c"
  valueIndex := 0
  verdict := .wrong
  reason := none
  source := "user"
  timestamp := feedbackTime
  owner := none
  feedbackType := "field_value"
  oldValue := none
  newValue := none
  needsReview := true
  needsReviewUntil := none
  resolvedAt := none
  resolution := none
  tenantId := none
  ownerSubjectId := none
  workspaceId := none
  visibility := "workspace"
  provenance := []

/-! ## The relation of the stores -/

/-- What the lite store holds when all calls were portable. -/
structure MemoryFeedback.Kept (fb : MemoryFeedback) : Prop where
  bound : fb.Bound
  colon : fb.isPending = true → ':' ∉ fb.memoryId.toList
  source : fb.source ≠ ""
  feedbackType : fb.feedbackType ≠ ""

/-- Stores that hold the same. -/
structure FeedbackPaired (lite : LiteFeedbackStore) (sqlite : SqliteFeedbackStore) : Prop where
  strict : sqlite.requireAuthorization = lite.requireAuthorization
  rows : sqlite.rows = lite.records
  kept : ∀ fb ∈ lite.records, fb.Kept

section Paired

variable {env : FeedbackEnv} {lite : LiteFeedbackStore} {sqlite : SqliteFeedbackStore}

/-- What is kept is visible in both stores alike. -/
theorem MemoryFeedback.Kept.visible {fb : MemoryFeedback} (h : fb.Kept) (lite : LiteFeedbackStore)
    (c : Option RequestContext) :
    SqliteFeedbackStore.inScope env c fb = lite.visible env c fb := by
  cases c with
  | none => rfl
  | some c =>
    simp only [SqliteFeedbackStore.inScope, LiteFeedbackStore.visible]
    rw [if_neg h.bound.tenant]
    exact FeedbackEnv.sqliteScope_eq h.bound c

/-- What a resolution leaves of a kept record is kept. -/
theorem MemoryFeedback.Kept.resolved {fb : MemoryFeedback} (h : fb.Kept) (resolution : String)
    (now : Timestamp) : (fb.resolved resolution now).Kept :=
  ⟨⟨h.bound.tenant, h.bound.visibility, h.bound.agent, h.bound.session⟩,
    fun hpending => Bool.noConfusion hpending, h.source, h.feedbackType⟩

/-- A portable record is kept in both stores or in none. -/
theorem FeedbackPaired.record (h : FeedbackPaired lite sqlite) {c : Option RequestContext}
    {fb : MemoryFeedback}
    (hcall : (FeedbackCall.record c fb).Portable env lite.requireAuthorization) :
    SameOutcome FeedbackPaired (lite.record env c fb) (sqlite.record env c fb) := by
  unfold LiteFeedbackStore.record SqliteFeedbackStore.record
  rw [h.strict]
  refine .bind fun c' hc' => .bind fun fb' hfb' => ?_
  obtain ⟨hsome, hcolon, hsource, htype, hfits⟩ := hcall ⟨fb', Except.bind_ok.mpr ⟨c', hc', hfb'⟩⟩
  -- The record is bound, as there is a context.
  cases c with
  | none => exact absurd rfl hsome
  | some c =>
    obtain rfl := Except.ok.inj hc'
    obtain ⟨hbound, hid, hpending, hsource', htype', hindex⟩ :=
      FeedbackEnv.bindFeedbackIdentity_ok hfb'
    rw [hindex, hfits]
    refine .returned _ _ ⟨rfl, by rw [h.rows], fun x hx => ?_⟩
    rcases List.mem_append.mp hx with hx | hx
    · exact h.kept x hx
    · rw [List.mem_singleton.mp hx]
      exact ⟨hbound, fun hp => hid ▸ hcolon (hpending ▸ hp), hsource' ▸ hsource, htype' ▸ htype⟩

/-- A resolution resolves the same in both stores. -/
theorem FeedbackPaired.resolve (h : FeedbackPaired lite sqlite) (c : Option RequestContext)
    (memoryId fieldRole resolution : String) (now : Timestamp) :
    SameOutcome FeedbackPaired (lite.resolve env c memoryId fieldRole resolution now)
      (sqlite.resolve env c memoryId fieldRole resolution now) := by
  unfold LiteFeedbackStore.resolve SqliteFeedbackStore.resolve
  rw [h.strict]
  refine .bind fun c' _ => .returned _ _ ⟨rfl, ?_, fun x hx => ?_⟩
  · show List.map _ sqlite.rows = List.map _ lite.records
    rw [h.rows]
    refine List.map_congr_left fun fb hfb => ?_
    simp only [(h.kept fb hfb).visible lite c', Bool.and_right_comm]
  · obtain ⟨fb, hfb, rfl⟩ := List.mem_map.mp hx
    split_ifs
    · exact (h.kept fb hfb).resolved resolution now
    · exact h.kept fb hfb

/-- A clearing takes the same out of both stores. -/
theorem FeedbackPaired.clear (h : FeedbackPaired lite sqlite) (c : Option RequestContext) :
    SameOutcome FeedbackPaired (lite.clear env c) (sqlite.clear env c) := by
  unfold LiteFeedbackStore.clear SqliteFeedbackStore.clear
  rw [h.strict]
  refine .bind fun c' _ => .returned _ _ ⟨rfl, ?_, fun x hx => h.kept x (List.mem_of_mem_filter hx)⟩
  show List.filter _ sqlite.rows = List.filter _ lite.records
  rw [h.rows]
  refine List.filter_congr fun fb hfb => ?_
  rw [(h.kept fb hfb).visible lite]

/-- A portable call leaves the stores holding the same. -/
theorem FeedbackPaired.after (h : FeedbackPaired lite sqlite) {call : FeedbackCall}
    (hcall : call.Portable env lite.requireAuthorization) :
    FeedbackPaired (lite.after env call) (sqlite.after env call) := by
  have hstores : ∀ {x : Except PyError LiteFeedbackStore} {y : Except PyError SqliteFeedbackStore},
      SameOutcome FeedbackPaired x y →
      FeedbackPaired (x.toOption.getD lite) (y.toOption.getD sqlite) := by
    intro x y hxy
    cases hxy with
    | raised e => exact h
    | returned a b hab => exact hab
  cases call with
  | record c fb => exact hstores (h.record hcall)
  | resolve c memoryId fieldRole resolution now => exact hstores (h.resolve c _ _ _ _)
  | clear c => exact hstores (h.clear c)

/-- A call leaves a lite store as strict as it was. -/
theorem LiteFeedbackStore.after_strict (call : FeedbackCall) :
    (lite.after env call).requireAuthorization = lite.requireAuthorization := by
  have hkeep : ∀ {γ : Type} {x : Except PyError γ} {f : γ → Except PyError LiteFeedbackStore},
      (∀ c s, f c = .ok s → s.requireAuthorization = lite.requireAuthorization) →
      ((x >>= f).toOption.getD lite).requireAuthorization = lite.requireAuthorization := by
    intro γ x f hf
    cases hx : x >>= f with
    | error e => rfl
    | ok s =>
      obtain ⟨c, -, hs⟩ := Except.bind_ok.mp hx
      exact hf c s hs
  cases call with
  | record c fb =>
    refine hkeep fun c' s hs => ?_
    obtain ⟨_, -, hs⟩ := Except.bind_ok.mp hs
    exact Except.ok.inj hs ▸ rfl
  | resolve c memoryId fieldRole resolution now =>
    exact hkeep fun c' s hs => Except.ok.inj hs ▸ rfl
  | clear c => exact hkeep fun c' s hs => Except.ok.inj hs ▸ rfl

/-! ## What they report -/

/-- The key of a record whose id has no colon is cut into its id and its role. -/
theorem splitKey_pendingKey {fb : MemoryFeedback} (h : ':' ∉ fb.memoryId.toList) :
    LiteFeedbackStore.splitKey (LiteFeedbackStore.pendingKey fb) = (fb.memoryId, fb.fieldRole) := by
  have hkey : (LiteFeedbackStore.pendingKey fb).toList =
      fb.memoryId.toList ++ ':' :: fb.fieldRole.toList := by
    have hcolon : ":".toList = [':'] := by decide
    rw [LiteFeedbackStore.pendingKey, String.toList_append, String.toList_append, hcolon]
    simp
  have hpass : ∀ c ∈ fb.memoryId.toList, decide (c ≠ ':') = true := fun c hc =>
    decide_eq_true fun he => h (he ▸ hc)
  unfold LiteFeedbackStore.splitKey
  rw [hkey, List.takeWhile_append_of_pos hpass, List.dropWhile_append_of_pos hpass,
    List.takeWhile_cons_of_neg (by simp), List.dropWhile_cons_of_neg (by simp), List.append_nil,
    List.drop_one, List.tail_cons, String.ofList_toList, String.ofList_toList]

/-- The conflicts that the lite store reports are the keys of its records, cut. -/
theorem conflict_mem_lite {fbs : List MemoryFeedback} {conflict : String × String} :
    conflict ∈ (LiteFeedbackStore.reviews (Groups.ofList LiteFeedbackStore.pendingKey fbs)).map
        PendingReview.conflict ↔
      ∃ fb ∈ fbs, LiteFeedbackStore.splitKey (LiteFeedbackStore.pendingKey fb) = conflict := by
  simp only [LiteFeedbackStore.reviews, List.mem_map, List.mem_filterMap, Prod.exists]
  constructor
  · rintro ⟨review, ⟨key, group, hgroup, hreview⟩, rfl⟩
    obtain ⟨rfl, -⟩ := (Groups.mem_ofList _).mp hgroup
    obtain ⟨first, hfirst, rfl⟩ := Option.map_eq_some_iff.mp hreview
    obtain ⟨hmem, hkey⟩ := List.mem_filter.mp (List.mem_of_mem_head? hfirst)
    exact ⟨first, hmem, by rw [of_decide_eq_true hkey]; rfl⟩
  · rintro ⟨fb, hfb, rfl⟩
    have hmem : fb ∈ fbs.filter fun x =>
        LiteFeedbackStore.pendingKey x = LiteFeedbackStore.pendingKey fb :=
      List.mem_filter.mpr ⟨hfb, decide_eq_true rfl⟩
    obtain ⟨first, hfirst⟩ := Option.ne_none_iff_exists'.mp fun hn =>
      List.ne_nil_of_mem hmem (List.head?_eq_none_iff.mp hn)
    exact ⟨_, ⟨LiteFeedbackStore.pendingKey fb, _,
      (Groups.mem_ofList _).mpr ⟨rfl, List.ne_nil_of_mem hmem⟩,
      Option.map_eq_some_iff.mpr ⟨first, hfirst, rfl⟩⟩, rfl⟩

/-- The conflicts that the SQLite store reports are the columns of its rows. -/
theorem conflict_mem_sqlite {fbs : List MemoryFeedback} {conflict : String × String} :
    conflict ∈ (SqliteFeedbackStore.reviews (Groups.ofList
        (fun fb => (fb.memoryId, fb.fieldRole, fb.source)) fbs)).map PendingReview.conflict ↔
      ∃ fb ∈ fbs, (fb.memoryId, fb.fieldRole) = conflict := by
  simp only [SqliteFeedbackStore.reviews, List.mem_map, List.mem_filterMap, Prod.exists]
  constructor
  · rintro ⟨review, ⟨id, role, source, group, hgroup, hreview⟩, rfl⟩
    obtain ⟨rfl, hne⟩ := (Groups.mem_ofList _).mp hgroup
    obtain ⟨first, -, rfl⟩ := Option.map_eq_some_iff.mp hreview
    obtain ⟨fb, hfb⟩ := List.exists_mem_of_ne_nil _ hne
    obtain ⟨hmem, hkey⟩ := List.mem_filter.mp hfb
    have hkey := of_decide_eq_true hkey
    exact ⟨fb, hmem, by rw [(Prod.mk.inj hkey).1, (Prod.mk.inj (Prod.mk.inj hkey).2).1]; rfl⟩
  · rintro ⟨fb, hfb, rfl⟩
    have hmem : fb ∈ fbs.filter fun x =>
        (x.memoryId, x.fieldRole, x.source) = (fb.memoryId, fb.fieldRole, fb.source) :=
      List.mem_filter.mpr ⟨hfb, decide_eq_true rfl⟩
    have hne := List.ne_nil_of_mem (List.mem_map_of_mem (f := MemoryFeedback.timestamp) hmem)
    obtain ⟨first, hfirst⟩ := Option.ne_none_iff_exists'.mp fun hn =>
      hne (List.min?_eq_none_iff.mp hn)
    exact ⟨_, ⟨fb.memoryId, fb.fieldRole, fb.source, _,
      (Groups.mem_ofList _).mpr ⟨rfl, List.ne_nil_of_mem hmem⟩,
      Option.map_eq_some_iff.mpr ⟨first, hfirst, rfl⟩⟩, rfl⟩

/-- Stores that hold the same report the same conflicts. -/
theorem FeedbackPaired.pending (h : FeedbackPaired lite sqlite) (c : Option RequestContext) :
    SameOutcome
      (fun xs ys => ∀ conflict,
        conflict ∈ xs.map PendingReview.conflict ↔ conflict ∈ ys.map PendingReview.conflict)
      (lite.getPending env c) (sqlite.getPending env c) := by
  unfold LiteFeedbackStore.getPending SqliteFeedbackStore.getPending
  rw [h.strict]
  refine .bind fun c' _ => .returned _ _ fun conflict => ?_
  rw [conflict_mem_lite, conflict_mem_sqlite, h.rows]
  refine exists_congr fun fb => ?_
  rw [List.mem_filter, List.mem_filter, and_assoc, and_assoc]
  refine and_congr_right fun hfb => ?_
  have hkept := h.kept fb hfb
  rw [hkept.visible lite, Bool.and_comm]
  refine and_congr_right fun hboth => ?_
  rw [splitKey_pendingKey (hkept.colon (Bool.and_eq_true_iff.mp hboth).1)]

/-- A kept row is read as its record, with the zone taken from its times. -/
theorem MemoryFeedback.Kept.rowToFeedback {fb : MemoryFeedback} (h : fb.Kept) :
    SqliteFeedbackStore.rowToFeedback fb = fb.toNaive := by
  have hvisibility : fb.visibility ≠ "" := fun he =>
    absurd (he ▸ h.bound.visibility) (by decide)
  unfold SqliteFeedbackStore.rowToFeedback MemoryFeedback.toNaive
  rw [if_neg h.source, if_neg h.feedbackType, if_neg hvisibility]

end Paired

/-! ## Histories -/

/-- The records of a time that a cut leaves whole. -/
theorem filter_take_of_later {xs : List MemoryFeedback}
    (hsorted : xs.Pairwise fun a b => b.timestamp ≤ a.timestamp) {limit : ℕ} {t : Timestamp}
    (h : (xs.take limit).length < limit ∨ ∃ fb ∈ xs.take limit, fb.timestamp < t) :
    (xs.take limit).filter (fun fb => fb.timestamp = t) = xs.filter fun fb => fb.timestamp = t := by
  rcases h with hshort | ⟨fb, hfb, hlt⟩
  · rw [List.take_of_length_le]
    rw [List.length_take] at hshort
    omega
  · -- What the cut removes is not later than a shown record, and so earlier than the time.
    have hrest : (xs.drop limit).filter (fun x => x.timestamp = t) = [] := by
      refine List.filter_eq_nil_iff.mpr fun x hx => ?_
      have hcut := List.pairwise_append.mp (List.take_append_drop limit xs ▸ hsorted)
      have hle := hcut.2.2 fb hfb x hx
      simp only [decide_eq_true_eq]
      exact fun he => absurd (he ▸ hle) (not_le.mpr hlt)
    conv_rhs => rw [← List.take_append_drop limit xs, List.filter_append, hrest, List.append_nil]

/-- Two descending orders of the same records, cut alike, are the same history. -/
theorem feedbackHistoriesAgree_take {xs ys : List MemoryFeedback} (hperm : xs.Perm ys)
    (hxs : xs.Pairwise fun a b => b.timestamp ≤ a.timestamp)
    (hys : ys.Pairwise fun a b => b.timestamp ≤ a.timestamp) (limit : ℕ) :
    FeedbackHistoriesAgree limit (xs.take limit)
      ((ys.take limit).map MemoryFeedback.toNaive) := by
  have htimes : xs.map MemoryFeedback.timestamp = ys.map MemoryFeedback.timestamp := by
    have hxs' : (xs.map MemoryFeedback.timestamp).Pairwise fun a b => b ≤ a :=
      List.pairwise_map.mpr hxs
    have hys' : (ys.map MemoryFeedback.timestamp).Pairwise fun a b => b ≤ a :=
      List.pairwise_map.mpr hys
    exact List.Perm.eq_of_pairwise (fun a b _ _ hab hba => le_antisymm hba hab) hxs' hys'
      (hperm.map _)
  have hcut : (xs.take limit).map MemoryFeedback.timestamp =
      (ys.take limit).map MemoryFeedback.timestamp := by
    rw [List.map_take, List.map_take, htimes]
  refine ⟨?_, fun t ht => ?_⟩
  · rw [hcut, List.map_map]
    rfl
  · have hlater : (ys.take limit).length < limit ∨ ∃ fb ∈ ys.take limit, fb.timestamp < t := by
      refine ht.imp (fun hlen => ?_) fun ⟨fb, hfb, hlt⟩ => ?_
      · have hlength := congrArg List.length hcut
        rw [List.length_map, List.length_map] at hlength
        omega
      · have hmem : fb.timestamp ∈ (ys.take limit).map MemoryFeedback.timestamp :=
          hcut ▸ List.mem_map_of_mem hfb
        obtain ⟨fb', hfb', he⟩ := List.mem_map.mp hmem
        exact ⟨fb', hfb', he ▸ hlt⟩
    have hfilter : ((ys.take limit).map MemoryFeedback.toNaive).filter
        (fun fb => fb.timestamp = t) =
          ((ys.take limit).filter fun fb => fb.timestamp = t).map MemoryFeedback.toNaive := by
      rw [List.filter_map]
      rfl
    rw [hfilter, filter_take_of_later hxs ht, filter_take_of_later hys hlater]
    exact (hperm.filter _).map _

section Paired

variable {env : FeedbackEnv} {lite : LiteFeedbackStore} {sqlite : SqliteFeedbackStore}

/-- Stores that hold the same report the same histories. -/
theorem FeedbackPaired.history (h : FeedbackPaired lite sqlite) (c : Option RequestContext)
    (memoryId : String) (limit : ℕ) :
    SameOutcome (FeedbackHistoriesAgree limit) (lite.getHistory env c memoryId limit)
      (sqlite.getHistory env c memoryId limit) := by
  unfold LiteFeedbackStore.getHistory SqliteFeedbackStore.getHistory
  rw [h.strict]
  refine .bind fun c' _ => .returned _ _ ?_
  have hmatching : (sqlite.rows.filter fun fb =>
      fb.memoryId = memoryId && SqliteFeedbackStore.inScope env c' fb) =
        lite.records.filter fun fb => fb.memoryId = memoryId && lite.visible env c' fb := by
    rw [h.rows]
    refine List.filter_congr fun fb hfb => ?_
    rw [(h.kept fb hfb).visible lite]
  rw [hmatching]
  generalize hm : (lite.records.filter fun fb =>
    fb.memoryId = memoryId && lite.visible env c' fb) = matching
  have hkept : ∀ fb ∈ matching, fb.Kept := fun fb hfb =>
    h.kept fb (List.mem_of_mem_filter (hm ▸ hfb))
  have hread : ((env.orderByTimestamp matching).take limit).map
      SqliteFeedbackStore.rowToFeedback =
        ((env.orderByTimestamp matching).take limit).map MemoryFeedback.toNaive :=
    List.map_congr_left fun fb hfb =>
      (hkept fb ((env.order_perm matching).mem_iff.mp (List.mem_of_mem_take hfb))).rowToFeedback
  rw [hread]
  refine feedbackHistoriesAgree_take ?_ ?_ (env.order_sorted matching) limit
  · exact (List.mergeSort_perm _ _).trans (env.order_perm matching).symm
  · exact descending_mergeSort matching

/-- Stores that hold the same report the same. -/
theorem FeedbackPaired.agree (h : FeedbackPaired lite sqlite) : FeedbackAgree env lite sqlite :=
  ⟨h.pending, h.history⟩

end Paired

/-- **The feedback stores agree**: after any run of portable calls on new stores, the two report the
same conflicts and the same histories to every context. -/
theorem feedbackStores_agree (env : FeedbackEnv) (requireAuthorization : Bool)
    (calls : List FeedbackCall) (h : ∀ call ∈ calls, call.Portable env requireAuthorization) :
    FeedbackAgree env
      (calls.foldl (LiteFeedbackStore.after env) ⟨requireAuthorization, []⟩)
      (calls.foldl (SqliteFeedbackStore.after env) ⟨requireAuthorization, []⟩) := by
  have hrun : ∀ (calls : List FeedbackCall) (lite : LiteFeedbackStore)
      (sqlite : SqliteFeedbackStore),
      (∀ call ∈ calls, call.Portable env lite.requireAuthorization) →
      FeedbackPaired lite sqlite →
      FeedbackPaired (calls.foldl (LiteFeedbackStore.after env) lite)
        (calls.foldl (SqliteFeedbackStore.after env) sqlite) := by
    intro calls
    induction calls with
    | nil => exact fun _ _ _ hpaired => hpaired
    | cons call rest ih =>
      intro lite sqlite hcalls hpaired
      obtain ⟨hcall, hrest⟩ := List.forall_mem_cons.mp hcalls
      have hafter := hpaired.after hcall
      rw [← @LiteFeedbackStore.after_strict env lite call] at hrest
      exact ih _ _ hrest hafter
  exact (hrun calls _ _ h ⟨rfl, rfl, fun fb hfb => absurd hfb List.not_mem_nil⟩).agree

/-- What is recorded of an id without a colon is reported alike. -/
theorem feedbackStores_agree_sample :
    FeedbackAgree sampleFeedbackEnv
      ([FeedbackCall.record (some sampleRequest) (sampleFeedback "a")].foldl
        (LiteFeedbackStore.after sampleFeedbackEnv) ⟨true, []⟩)
      ([FeedbackCall.record (some sampleRequest) (sampleFeedback "a")].foldl
        (SqliteFeedbackStore.after sampleFeedbackEnv) ⟨true, []⟩) := by
  refine feedbackStores_agree sampleFeedbackEnv true _ fun call hcall => ?_
  rw [List.mem_singleton.mp hcall]
  exact fun _ => ⟨Option.some_ne_none _, fun _ => by decide, by decide, by decide, by decide⟩

/-- An id with a colon is cut there by the lite store. -/
theorem feedbackStores_disagree :
    ¬ FeedbackAgree sampleFeedbackEnv
      ([FeedbackCall.record (some sampleRequest) (sampleFeedback "a:b")].foldl
        (LiteFeedbackStore.after sampleFeedbackEnv) ⟨true, []⟩)
      ([FeedbackCall.record (some sampleRequest) (sampleFeedback "a:b")].foldl
        (SqliteFeedbackStore.after sampleFeedbackEnv) ⟨true, []⟩) := by
  intro h
  have hpending := h.pending (some sampleRequest)
  have hlite : LiteFeedbackStore.getPending sampleFeedbackEnv
      ([FeedbackCall.record (some sampleRequest) (sampleFeedback "a:b")].foldl
        (LiteFeedbackStore.after sampleFeedbackEnv) ⟨true, []⟩) (some sampleRequest) =
      .ok [⟨"a", "b:c", feedbackTime, "user"⟩] := by
    decide +kernel
  have hsqlite : SqliteFeedbackStore.getPending sampleFeedbackEnv
      ([FeedbackCall.record (some sampleRequest) (sampleFeedback "a:b")].foldl
        (SqliteFeedbackStore.after sampleFeedbackEnv) ⟨true, []⟩) (some sampleRequest) =
      .ok [⟨"a:b", "c", feedbackTime, "user"⟩] := by
    decide +kernel
  rw [hlite, hsqlite] at hpending
  cases hpending with
  | returned _ _ hsame => exact absurd ((hsame ("a", "b:c")).mp (by decide)) (by decide)

end Memplex
