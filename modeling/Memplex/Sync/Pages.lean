import Memplex.Sync.Stream

/-!
# Reading the stream in pages

A consumer reads the stream of a repository page by page: it asks for the next page with the cursor
of the last one, while events are captured, applied and compacted in between. A page is a window of
the stream without the consumer's own events (`page_window`): it begins at the position of the
cursor, and its cursor is where it ends. So the pages of a run are neighbouring windows, and
together they are one window (`pages_exactly_once`): from the position of the first request to the
cursor of the last page, every event once and in order. What has been compacted does not matter:
a page is refused when the retention floor has passed its cursor.
-/

namespace Memplex

open Lib

/-- The stream as a consumer is served it: without the events that come from the consumer. -/
def foreign (remoteId : String) (stream : List OutboxRow) : List OutboxRow :=
  stream.filter fun r => r.event.originNodeId ≠ remoteId

/-- A row as an item of a page. -/
def OutboxRow.item (r : OutboxRow) : SyncStreamItem := ⟨r.streamSeq, r.event⟩

namespace SyncState

/-- The position that a page begins after. -/
def position (s : SyncState) (remoteId consumerId : String) :
    Option SyncCursorClaims → ℕ
  | none => s.served remoteId consumerId
  | some c => c.afterSeq

/-- The end of the stream that a page reads to. -/
def horizon (s : SyncState) (after : ℕ) : Option SyncCursorClaims → ℕ
  | none => s.streamEnd after
  | some c => if c.afterSeq = c.snapshotSeq then s.streamEnd after else c.snapshotSeq

end SyncState

theorem SyncPage.create_ok {items : List SyncStreamItem} {snapshotSeq nextAfterSeq : ℕ}
    {hasMore : Bool} {p : SyncPage}
    (h : SyncPage.create items snapshotSeq nextAfterSeq hasMore = .ok p) :
    p.items = items ∧ p.snapshotSeq = snapshotSeq ∧ p.nextAfterSeq = nextAfterSeq ∧
      p.hasMore = hasMore := by
  unfold SyncPage.create at h
  split_ifs at h
  cases Except.ok.inj h
  exact ⟨rfl, rfl, rfl, rfl⟩

/-- What a successful page holds: the first rows of its part of the stream. -/
theorem page_ok {s s' : SyncState} {now : Instant} {remoteId consumerId : String}
    {cursor : Option SyncCursorClaims} {limit : ℕ} {p : SyncPage}
    (h : s.page now remoteId consumerId cursor limit = .ok (s', p)) :
    1 ≤ limit ∧ s.retentionFloor ≤ s.position remoteId consumerId cursor ∧
      SyncState.pageOf (s.pageRows remoteId (s.position remoteId consumerId cursor)
          (s.horizon (s.position remoteId consumerId cursor) cursor))
        (s.horizon (s.position remoteId consumerId cursor) cursor) limit = .ok p := by
  obtain ⟨_, -, h⟩ := Except.bind_ok.mp h
  obtain ⟨_, -, h⟩ := Except.bind_ok.mp h
  obtain ⟨_, hlimit, h⟩ := Except.bind_ok.mp h
  obtain ⟨_, hfloor, h⟩ := Except.bind_ok.mp h
  obtain ⟨_, -, h⟩ := Except.bind_ok.mp h
  obtain ⟨p', hpage, heq⟩ := Except.bind_ok.mp h
  cases Except.ok.inj heq
  refine ⟨require_ok.mp hlimit, require_ok.mp hfloor, ?_⟩
  -- Acknowledgements and the recorded position do not touch the outbox.
  cases cursor with
  | none => exact hpage
  | some c => exact hpage

section Window

variable {s : SyncState} {stream : List OutboxRow}

/-- The end of the stream is the last sequence that was taken. -/
theorem Recorded.streamEnd_eq (h : Recorded s stream) {after : ℕ} (hfloor : s.retentionFloor ≤ after)
    (hafter : after < s.nextStreamSeq) : s.streamEnd after = s.nextStreamSeq - 1 := by
  -- The last sequence is retained, unless all have been compacted.
  have hlast : s.retentionFloor < s.nextStreamSeq - 1 →
      s.nextStreamSeq - 1 ∈ s.outbox.map OutboxRow.streamSeq := by
    intro hlt
    obtain ⟨r, hr, hrq⟩ := h.exists_seq (q := s.nextStreamSeq - 1) (by omega) (by omega)
    rw [← hrq]
    exact List.mem_map_of_mem (h.mem_outbox.mpr ⟨hr, by omega⟩)
  unfold SyncState.streamEnd
  cases hmax : (s.outbox.map OutboxRow.streamSeq).max? with
  | none =>
    have hnil : s.outbox.map OutboxRow.streamSeq = [] := List.max?_eq_none_iff.mp hmax
    have hend : ¬ s.retentionFloor < s.nextStreamSeq - 1 := fun hlt => by
      have hmem := hlast hlt
      rw [hnil] at hmem
      exact absurd hmem (by simp)
    rw [Option.getD_none]
    omega
  | some m =>
    obtain ⟨hm, hle⟩ := List.max?_eq_some_iff.mp hmax
    obtain ⟨r, hr, rfl⟩ := List.mem_map.mp hm
    have hr' := h.mem_outbox.mp hr
    have hlt := h.seq_lt hr'.1
    have hge := hle _ (hlast (by omega))
    rw [Option.getD_some]
    omega

/-- The rows of a page are a window of the stream. -/
theorem Recorded.pageRows_eq (h : Recorded s stream) {remoteId : String} {after snapshot : ℕ}
    (hfloor : s.retentionFloor ≤ after) :
    s.pageRows remoteId after snapshot =
      window OutboxRow.streamSeq after snapshot (foreign remoteId stream) := by
  rw [SyncState.pageRows, h.retained, window, foreign, List.filter_filter, List.filter_filter]
  refine List.filter_congr fun r _ => ?_
  rw [Bool.eq_iff_iff]
  simp only [Bool.and_eq_true, decide_eq_true_eq]
  exact ⟨fun hr => ⟨⟨hr.1.1, hr.1.2.1⟩, hr.1.2.2⟩,
    fun hr => ⟨⟨hr.1.1, hr.1.2, hr.2⟩, hfloor.trans_lt hr.1.1⟩⟩

/-- A page is the window of the stream from the position of its request to its own cursor. -/
theorem page_window {s' : SyncState} {now : Instant} {remoteId consumerId : String}
    {cursor : Option SyncCursorClaims} {limit : ℕ} {p : SyncPage} (hrec : Recorded s stream)
    (hpos : s.position remoteId consumerId cursor < s.nextStreamSeq)
    (hsnap : ∀ c ∈ cursor, c.snapshotSeq < s.nextStreamSeq)
    (h : s.page now remoteId consumerId cursor limit = .ok (s', p)) :
    p.items = (window OutboxRow.streamSeq (s.position remoteId consumerId cursor) p.nextAfterSeq
        (foreign remoteId stream)).map OutboxRow.item ∧
      s.position remoteId consumerId cursor ≤ p.nextAfterSeq ∧ p.nextAfterSeq ≤ p.snapshotSeq ∧
      p.snapshotSeq < s.nextStreamSeq := by
  obtain ⟨hlimit, hfloor, hpage⟩ := page_ok h
  generalize hafter : s.position remoteId consumerId cursor = after at *
  have hend := hrec.streamEnd_eq hfloor hpos
  have hhorizon : after ≤ s.horizon after cursor ∧ s.horizon after cursor < s.nextStreamSeq := by
    cases cursor with
    | none =>
      show after ≤ s.streamEnd after ∧ s.streamEnd after < _
      omega
    | some c =>
      have hc : c.afterSeq = after := hafter
      have hord := c.ordered
      have hc' := hsnap c rfl
      show after ≤ (if c.afterSeq = c.snapshotSeq then s.streamEnd after else c.snapshotSeq) ∧
        (if c.afterSeq = c.snapshotSeq then s.streamEnd after else c.snapshotSeq) < _
      split_ifs <;> omega
  generalize s.horizon after cursor = snapshot at *
  rw [hrec.pageRows_eq hfloor] at hpage
  have hasc : Ascending OutboxRow.streamSeq (foreign remoteId stream) := hrec.ascending.filter _
  generalize hrows : window OutboxRow.streamSeq after snapshot (foreign remoteId stream) = rows at *
  obtain ⟨hitems, hsnapshot, hnext, -⟩ := SyncPage.create_ok hpage
  by_cases hmore : limit < rows.length
  · -- More follows: the page ends at its last row.
    have hne : rows.take limit ≠ [] := by
      rw [ne_eq, List.take_eq_nil_iff]
      rintro (rfl | rfl)
      · exact absurd hlimit (by omega)
      · exact absurd hmore (by simp)
    obtain ⟨r, hlast⟩ : ∃ r, (rows.take limit).getLast? = some r :=
      ⟨_, List.getLast?_eq_some_getLast hne⟩
    have hnext' : p.nextAfterSeq = r.streamSeq := by
      rw [hnext, decide_eq_true hmore, if_pos rfl, hlast]
      rfl
    have hr : r ∈ rows := List.mem_of_mem_take (List.mem_of_getLast? hlast)
    rw [← hrows, mem_window] at hr
    have htake := take_eq_window hasc (hrows ▸ hlast)
    rw [hrows] at htake
    refine ⟨?_, by omega, by omega, by omega⟩
    rw [hitems, hnext', htake]
    rfl
  · -- The page reaches the end.
    have hnext' : p.nextAfterSeq = snapshot := by
      rw [hnext, decide_eq_false hmore, if_neg (by simp)]
    refine ⟨?_, by omega, by omega, by omega⟩
    rw [hitems, hnext', hrows, List.take_of_length_le (by omega)]
    rfl

end Window

/-! ## A consumer among other operations -/

/-- The items of a page lie within its snapshot. -/
theorem orderedItems_le {snapshotSeq previousSeq : ℕ} {items : List SyncStreamItem}
    (h : orderedItems snapshotSeq previousSeq items) :
    ∀ item ∈ items, item.streamSeq ≤ snapshotSeq := by
  induction items generalizing previousSeq with
  | nil => simp
  | cons i items ih =>
    intro item hitem
    rcases List.mem_cons.mp hitem with rfl | hitem
    · exact h.1.2
    · exact ih h.2 item hitem

/-- The cursor of a page lies within its snapshot. -/
theorem SyncPage.nextAfter_le (p : SyncPage) : p.nextAfterSeq ≤ p.snapshotSeq := by
  have hcont := p.continues
  unfold pageContinues at hcont
  split_ifs at hcont
  · cases hlast : p.items.getLast? with
    | none => rw [hlast] at hcont; exact absurd hcont (by simp)
    | some item =>
      rw [hlast] at hcont
      rw [← Option.some.inj hcont]
      exact orderedItems_le p.ordered item (List.mem_of_getLast? hlast)
  · exact hcont.le

/-- `_encode_stream_cursor`: the cursor that a page is answered with. -/
def SyncPage.cursor (p : SyncPage) (tenantId remoteId consumerId : String) (expiresAt : Instant) :
    SyncCursorClaims where
  tenantBinding := tenantId
  remoteBinding := remoteId
  consumerBinding := consumerId
  afterSeq := p.nextAfterSeq
  snapshotSeq := p.snapshotSeq
  snapshotId := none
  expiresAt := expiresAt
  ordered := p.nextAfter_le

/-- What happens at a repository while a consumer reads its stream: an operation of others, or the
request of the next page. The answer carries a cursor of the tenant that the request is
authenticated for. -/
inductive Turn where
  | other (op : RepoOp)
  | pull (now : Instant) (limit : ℕ) (tenantId : String) (expiresAt : Instant)

/-- A repository and a consumer that reads its stream. -/
structure PullRun where
  store : LiteStore
  /-- All rows that the stream has had. -/
  stream : List OutboxRow
  /-- The cursor of the last page. -/
  cursor : SyncCursorClaims
  /-- The pages that were served. -/
  pages : List SyncPage

section Turns

variable (cfg : SyncConfig) (env : Env) (sha256 : ByteArray → String)
  (remoteId consumerId : String)

/-- The first request, with the cursor that the consumer begins from, if it has one. -/
def PullRun.begin (store : LiteStore) (stream : List OutboxRow) (cursor : Option SyncCursorClaims)
    (now : Instant) (limit : ℕ) (tenantId : String) (expiresAt : Instant) :
    Except PyError PullRun := do
  let (sync, p) ← store.sync.page now remoteId consumerId cursor limit
  return ⟨{ store with sync := sync }, stream, p.cursor tenantId remoteId consumerId expiresAt, [p]⟩

/-- One turn: a request that raises changes nothing, and is repeated with the same cursor. -/
def PullRun.turn (run : PullRun) : Turn → PullRun
  | .other op =>
    let store := op.step cfg env sha256 run.store
    { run with store := store, stream := run.stream ++ grown run.store.sync store.sync }
  | .pull now limit tenantId expiresAt =>
    match run.store.sync.page now remoteId consumerId (some run.cursor) limit with
    | .error _ => run
    | .ok (sync, p) => { run with
        store := { run.store with sync := sync }
        cursor := p.cursor tenantId remoteId consumerId expiresAt
        pages := run.pages ++ [p] }

end Turns

/-- The pages are one window of the stream, from `start` to the cursor. -/
structure Reads (remoteId : String) (start : ℕ) (run : PullRun) : Prop where
  recorded : Recorded run.store.sync run.stream
  start_le : start ≤ run.cursor.afterSeq
  cursor_lt : run.cursor.snapshotSeq < run.store.sync.nextStreamSeq
  read : run.pages.flatMap SyncPage.items =
    (window OutboxRow.streamSeq start run.cursor.afterSeq
      (foreign remoteId run.stream)).map OutboxRow.item
  last : ∀ p ∈ run.pages.getLast?, p.nextAfterSeq = run.cursor.afterSeq

/-- A window below the next sequence does not grow with the stream. -/
theorem window_grown {s s' : SyncState} {stream : List OutboxRow} {remoteId : String} {lo hi : ℕ}
    (hhi : hi < s.nextStreamSeq) :
    window OutboxRow.streamSeq lo hi (foreign remoteId (stream ++ grown s s')) =
      window OutboxRow.streamSeq lo hi (foreign remoteId stream) := by
  have hnone : window OutboxRow.streamSeq lo hi (foreign remoteId (grown s s')) = [] := by
    apply window_eq_nil
    intro r hr
    have hge := (List.mem_filter.mp (List.mem_of_mem_filter hr)).2
    rw [decide_eq_true_eq] at hge
    omega
  rw [foreign, List.filter_append, window, List.filter_append]
  exact (congrArg (_ ++ ·) hnone).trans (List.append_nil _)

/-- No operation gives a sequence back. -/
theorem step_next_le (cfg : SyncConfig) (env : Env) (sha256 : ByteArray → String) {s : LiteStore}
    {stream : List OutboxRow} (h : Recorded s.sync stream) (op : RepoOp) :
    s.sync.nextStreamSeq ≤ (op.step cfg env sha256 s).sync.nextStreamSeq := by
  cases step_streamStep cfg env sha256 s op with
  | appends happ => exact happ.targets_next.2
  | register hreg => exact (registerTarget_stream hreg).2.1.ge
  | toggle htog => exact (setTargetEnabled_stream htog).2.1.ge
  | compact hcomp => exact (compact_ok h hcomp).2.2.1.ge

/-- The turn: what others do leaves the pages a window, and the next page prolongs it. -/
theorem turn_reads (cfg : SyncConfig) (env : Env) (sha256 : ByteArray → String)
    {remoteId consumerId : String} {start : ℕ} {run : PullRun} (h : Reads remoteId start run)
    (t : Turn) : Reads remoteId start (run.turn cfg env sha256 remoteId consumerId t) := by
  have hpos : run.cursor.afterSeq < run.store.sync.nextStreamSeq :=
    run.cursor.ordered.trans_lt h.cursor_lt
  cases t with
  | other op =>
    have hnext := step_next_le cfg env sha256 h.recorded op
    exact {
      recorded := step_recorded cfg env sha256 h.recorded op
      start_le := h.start_le
      cursor_lt := h.cursor_lt.trans_le hnext
      read := by
        rw [PullRun.turn, window_grown hpos]
        exact h.read
      last := h.last }
  | pull now limit tenantId expiresAt =>
    rw [PullRun.turn]
    split
    · exact h
    next sync p hpage =>
      have hpos' : run.store.sync.position remoteId consumerId (some run.cursor) <
          run.store.sync.nextStreamSeq := hpos
      obtain ⟨hitems, hle, hnext, hlt⟩ := page_window h.recorded hpos'
        (fun c hc => Option.some.inj hc ▸ h.cursor_lt) hpage
      have hquiet := page_quiet hpage
      have hitems : p.items = (window OutboxRow.streamSeq run.cursor.afterSeq p.nextAfterSeq
          (foreign remoteId run.stream)).map OutboxRow.item := hitems
      have hle : run.cursor.afterSeq ≤ p.nextAfterSeq := hle
      have hasc : Ascending OutboxRow.streamSeq (foreign remoteId run.stream) :=
        h.recorded.ascending.filter _
      exact {
        recorded := h.recorded.congr hquiet.outbox hquiet.next hquiet.floor
        start_le := h.start_le.trans hle
        cursor_lt := by
          show p.snapshotSeq < sync.nextStreamSeq
          rw [hquiet.next]
          exact hlt
        read := by
          show (run.pages ++ [p]).flatMap SyncPage.items = (window OutboxRow.streamSeq start
            p.nextAfterSeq (foreign remoteId run.stream)).map OutboxRow.item
          rw [List.flatMap_append, h.read, List.flatMap_singleton, hitems, ← List.map_append,
            window_append hasc h.start_le hle]
        last := by
          intro q hq
          rw [List.getLast?_concat] at hq
          rw [← Option.some.inj hq]
          rfl }

/-- The run. -/
theorem turns_reads (cfg : SyncConfig) (env : Env) (sha256 : ByteArray → String)
    {remoteId : String} (consumerId : String) {start : ℕ} (turns : List Turn) {run : PullRun}
    (h : Reads remoteId start run) :
    Reads remoteId start (turns.foldl (PullRun.turn cfg env sha256 remoteId consumerId) run) := by
  induction turns generalizing run with
  | nil => exact h
  | cons t turns ih => exact ih (turn_reads cfg env sha256 h t)

/-- The first page is a window. -/
theorem begin_reads {store : LiteStore} {stream : List OutboxRow} {remoteId consumerId : String}
    {cursor : Option SyncCursorClaims} {now expiresAt : Instant} {limit : ℕ} {tenantId : String}
    {run : PullRun} (hrec : Recorded store.sync stream)
    (hpos : store.sync.position remoteId consumerId cursor < store.sync.nextStreamSeq)
    (hsnap : ∀ c ∈ cursor, c.snapshotSeq < store.sync.nextStreamSeq)
    (h : PullRun.begin remoteId consumerId store stream cursor now limit tenantId expiresAt =
      .ok run) :
    Reads remoteId (store.sync.position remoteId consumerId cursor) run := by
  obtain ⟨⟨sync, p⟩, hpage, heq⟩ := Except.bind_ok.mp h
  obtain ⟨hitems, hle, hnext, hlt⟩ := page_window hrec hpos hsnap hpage
  have hquiet := page_quiet hpage
  cases Except.ok.inj heq
  exact {
    recorded := hrec.congr hquiet.outbox hquiet.next hquiet.floor
    start_le := hle
    cursor_lt := by
      show p.snapshotSeq < sync.nextStreamSeq
      rw [hquiet.next]
      exact hlt
    read := by
      rw [List.flatMap_singleton]
      exact hitems
    last := by
      intro q hq
      rw [← Option.some.inj hq]
      rfl }

/-- The pages that a consumer reads, each with the cursor of the one before, are the events of the
stream that are not its own, from the position of the first request to the cursor of the last page,
in order and each once: whatever happens to the stream in between. A cursor points into the stream
that it was issued for. -/
theorem pages_exactly_once (cfg : SyncConfig) (env : Env) (sha256 : ByteArray → String)
    (ops : List RepoOp) (remoteId consumerId : String) (cursor : Option SyncCursorClaims)
    (now expiresAt : Instant) (limit : ℕ) (tenantId : String) (turns : List Turn) (run : PullRun)
    (hpos : (runRepo cfg env sha256 .empty ops).sync.position remoteId consumerId cursor <
      (runRepo cfg env sha256 .empty ops).sync.nextStreamSeq)
    (hsnap : ∀ c ∈ cursor, c.snapshotSeq < (runRepo cfg env sha256 .empty ops).sync.nextStreamSeq)
    (hbegin : PullRun.begin remoteId consumerId (runRepo cfg env sha256 .empty ops)
      (streamOf cfg env sha256 .empty ops) cursor now limit tenantId expiresAt = .ok run) :
    let final := turns.foldl (PullRun.turn cfg env sha256 remoteId consumerId) run
    final.stream.map OutboxRow.streamSeq =
        List.range' 1 (final.store.sync.nextStreamSeq - 1) ∧
      ∀ p ∈ final.pages.getLast?, final.pages.flatMap SyncPage.items =
        (final.stream.filter fun r =>
          (runRepo cfg env sha256 .empty ops).sync.position remoteId consumerId cursor <
              r.streamSeq ∧ r.streamSeq ≤ p.nextAfterSeq ∧
            r.event.originNodeId ≠ remoteId).map OutboxRow.item := by
  have hrec := runRepo_recorded cfg env sha256 ops (s := .empty) recorded_empty
  rw [List.nil_append] at hrec
  have hreads := turns_reads cfg env sha256 consumerId turns (begin_reads hrec hpos hsnap hbegin)
  refine ⟨hreads.recorded.seqs, fun p hp => ?_⟩
  rw [hreads.read, ← hreads.last p hp, window, foreign, List.filter_filter]
  congr 1
  refine List.filter_congr fun r _ => ?_
  rw [Bool.eq_iff_iff]
  simp only [Bool.and_eq_true, decide_eq_true_eq]
  exact and_assoc

/-- Two events of a peer arrive, one before and one after a consumer asks for its first page. -/
theorem samplePull_exactly_once :
    ∃ run, PullRun.begin "r" "c" (runRepo (sampleConfig "local") sampleEnv (fun _ => "") .empty
          [.base (.deliver (samplePageDelivery "p" (samplePage sampleFactA) "2024"))])
        (streamOf (sampleConfig "local") sampleEnv (fun _ => "") .empty
          [.base (.deliver (samplePageDelivery "p" (samplePage sampleFactA) "2024"))])
        none 0 5 "t" 9 = .ok run ∧
      let final := [Turn.other (.base (.deliver
          (samplePageDelivery "q" (samplePage sampleFunction) "2024"))), .pull 1 5 "t" 9].foldl
        (PullRun.turn (sampleConfig "local") sampleEnv (fun _ => "") "r" "c") run
      ∀ p ∈ final.pages.getLast?, final.pages.flatMap SyncPage.items =
        (final.stream.filter fun r => 0 < r.streamSeq ∧ r.streamSeq ≤ p.nextAfterSeq ∧
          r.event.originNodeId ≠ "r").map OutboxRow.item := by
  obtain ⟨run, hrun⟩ := Except.exists_ok (x := PullRun.begin "r" "c"
    (runRepo (sampleConfig "local") sampleEnv (fun _ => "") .empty
      [.base (.deliver (samplePageDelivery "p" (samplePage sampleFactA) "2024"))])
    (streamOf (sampleConfig "local") sampleEnv (fun _ => "") .empty
      [.base (.deliver (samplePageDelivery "p" (samplePage sampleFactA) "2024"))])
    none 0 5 "t" 9) (by decide +kernel)
  refine ⟨run, hrun, ?_⟩
  have hstart : (runRepo (sampleConfig "local") sampleEnv (fun _ => "") .empty
      [.base (.deliver (samplePageDelivery "p" (samplePage sampleFactA) "2024"))]).sync.position
      "r" "c" none = 0 := by decide +kernel
  have hmain := (pages_exactly_once (sampleConfig "local") sampleEnv (fun _ => "")
    [.base (.deliver (samplePageDelivery "p" (samplePage sampleFactA) "2024"))] "r" "c" none 0 9 5
    "t" [.other (.base (.deliver (samplePageDelivery "q" (samplePage sampleFunction) "2024"))),
      .pull 1 5 "t" 9] run (by decide +kernel) (by simp) hrun).2
  rw [hstart] at hmain
  exact hmain

end Memplex
