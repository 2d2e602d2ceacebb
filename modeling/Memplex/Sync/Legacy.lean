import Mathlib.Data.List.Induction
import Mathlib.Data.String.Basic
import Mathlib.Logic.Function.Basic

/-!
# The legacy pull

`SyncableStore.pull_incremental` asks every target for what it has changed since one cutoff, the
server time of the last target that answered in an earlier pull. A target that fails is passed over.
So the cutoff may move past a change that its target has not handed over yet: because the target
failed in the pull, because it made the change after its own answer and before the answer whose time
is taken, or because the change is stamped by another clock.

`PullWorld.waiting` is what a target has changed since it last answered. `handsOver_run` says that in
every run whose pulls leave the cutoff in front of it, each answer hands over all that is waiting
there; `hidden_not_handedOver` is a run in which a failure is hidden by the success of another target.
-/

namespace Memplex

/-- The lists of an answer. -/
inductive ChangeKind where
  | function
  | fact
  | preference
  | observation
  | tombstone
deriving DecidableEq

/-- A record as it is shipped, with its `updated_at`, or a tombstone with its `deleted_at`. -/
structure LegacyChange (ρ : Type) where
  kind : ChangeKind
  id : String
  stamp : String
  body : ρ
deriving DecidableEq

/-- The answer to `GET /sync/changes`. -/
structure ChangesPage (ρ : Type) where
  changes : List (LegacyChange ρ)
  factChanges : List (LegacyChange ρ)
  preferenceChanges : List (LegacyChange ρ)
  observationChanges : List (LegacyChange ρ)
  tombstones : List (LegacyChange ρ)
  serverTime : Option String

/-- A server: the records and the tombstones that the caller may see. -/
structure LegacyServer (ρ : Type) where
  entries : List (LegacyChange ρ)

section Server

variable {ρ : Type}

/-- The bound on the records of one kind that are listed. -/
def changesLimit : ℕ := 100000

/-- The entries of one kind. -/
def LegacyServer.ofKind (s : LegacyServer ρ) (kind : ChangeKind) : List (LegacyChange ρ) :=
  s.entries.filter fun c => c.kind = kind

/-- What is newer than the cutoff, where there is one. -/
def newerThan (since : Option String) (cs : List (LegacyChange ρ)) : List (LegacyChange ρ) :=
  match since with
  | none => cs
  | some since => cs.filter fun c => since < c.stamp

/-- `_typed_changes_since`: the bound comes before the cutoff. -/
def LegacyServer.typedChangesSince (s : LegacyServer ρ) (kind : ChangeKind)
    (since : Option String) : List (LegacyChange ρ) :=
  newerThan since ((s.ofKind kind).take changesLimit)

/-- `sync_changes`. -/
def LegacyServer.syncChanges (s : LegacyServer ρ) (since : Option String) (now : String) :
    ChangesPage ρ where
  changes := (newerThan since (s.ofKind .function)).take changesLimit
  factChanges := s.typedChangesSince .fact since
  preferenceChanges := s.typedChangesSince .preference since
  observationChanges := s.typedChangesSince .observation since
  tombstones := newerThan since (s.ofKind .tombstone)
  serverTime := some now

/-- A write of a record, or a deletion with its tombstone. A record is replaced by its newer state,
and a function by its tombstone. -/
def LegacyChange.Replaces (c c' : LegacyChange ρ) : Prop :=
  c'.id = c.id ∧ (c'.kind = c.kind ∨ c.kind = .tombstone ∧ c'.kind = .function)

instance (c c' : LegacyChange ρ) : Decidable (c.Replaces c') := by
  unfold LegacyChange.Replaces
  infer_instance

/-- The entries after a change. -/
def written (c : LegacyChange ρ) (cs : List (LegacyChange ρ)) : List (LegacyChange ρ) :=
  cs.filter (fun c' => ¬ c.Replaces c') ++ [c]

end Server

/-! ## The pull -/

/-- What a pull has collected: the lists that the apply loops go over, and the server time. -/
structure Collected (ρ : Type) where
  changes : List (LegacyChange ρ)
  factChanges : List (LegacyChange ρ)
  preferenceChanges : List (LegacyChange ρ)
  observationChanges : List (LegacyChange ρ)
  tombstones : List (LegacyChange ρ)
  serverTime : Option String

namespace Collected

variable {ρ : Type}

/-- Nothing yet. -/
def empty : Collected ρ := ⟨[], [], [], [], [], none⟩

/-- One turn of the loop over the targets: an answer extends the lists, a failure changes nothing. -/
def extend (acc : Collected ρ) : Option (ChangesPage ρ) → Collected ρ
  | none => acc
  | some data =>
    { changes := acc.changes ++ data.changes
      factChanges := acc.factChanges ++ data.factChanges
      preferenceChanges := acc.preferenceChanges ++ data.preferenceChanges
      observationChanges := acc.observationChanges ++ data.observationChanges
      tombstones := acc.tombstones ++ data.tombstones
      serverTime := if (data.serverTime.getD "") = "" then acc.serverTime else data.serverTime }

/-- What is passed to the apply step. -/
def passed (acc : Collected ρ) : List (LegacyChange ρ) :=
  acc.changes ++ acc.factChanges ++ acc.preferenceChanges ++ acc.observationChanges ++
    acc.tombstones

end Collected

/-- All changes of an answer. -/
def ChangesPage.all {ρ : Type} (page : ChangesPage ρ) : List (LegacyChange ρ) :=
  page.changes ++ page.factChanges ++ page.preferenceChanges ++ page.observationChanges ++
    page.tombstones

/-- `since or self._last_pull_at`, as it is sent: an empty cutoff is none. -/
def pullCutoff (since lastPullAt : Option String) : Option String :=
  let cutoff := if since.getD "" = "" then lastPullAt else since
  if cutoff.getD "" = "" then none else cutoff

/-- The client, the targets, and what each of them has changed since it last answered. -/
structure PullWorld (ι ρ : Type) where
  lastPullAt : Option String
  server : ι → LegacyServer ρ
  waiting : ι → List (LegacyChange ρ)

/-- What happens at the turn of a target: changes that are made before it is asked, and then the
failure of the request or the clock of the server that answers. -/
structure TargetTurn (ι ρ : Type) where
  writes : List (ι × LegacyChange ρ)
  fails : Bool
  now : String

/-- A pull: the argument of the call, the turn of each target, and whether the apply step raises. -/
structure PullRound (ι ρ : Type) where
  since : Option String
  turn : ι → TargetTurn ι ρ
  raises : Bool

namespace PullWorld

variable {ι ρ : Type} [DecidableEq ι]

/-- A change at a target: it waits until the target answers. -/
def write (w : PullWorld ι ρ) (at_ : ι × LegacyChange ρ) : PullWorld ι ρ :=
  { w with
    server := Function.update w.server at_.1 ⟨written at_.2 (w.server at_.1).entries⟩
    waiting := Function.update w.waiting at_.1 (written at_.2 (w.waiting at_.1)) }

/-- The world when a target is asked. -/
def atTurn (w : PullWorld ι ρ) (turn : TargetTurn ι ρ) : PullWorld ι ρ := turn.writes.foldl write w

/-- The answer of a target. -/
def answer (w : PullWorld ι ρ) (cutoff : Option String) (i : ι) (turn : TargetTurn ι ρ) :
    Option (ChangesPage ρ) :=
  if turn.fails then none else some ((w.server i).syncChanges cutoff turn.now)

/-- The turn of one target in the loop of a pull. -/
def ask (round : PullRound ι ρ) (cutoff : Option String) (s : PullWorld ι ρ × Collected ρ) (i : ι) :
    PullWorld ι ρ × Collected ρ :=
  let w := s.1.atTurn (round.turn i)
  (if (round.turn i).fails then w else { w with waiting := Function.update w.waiting i [] },
    s.2.extend (w.answer cutoff i (round.turn i)))

/-- The loop over the targets. -/
def askAll (round : PullRound ι ρ) (cutoff : Option String) (targets : List ι)
    (s : PullWorld ι ρ × Collected ρ) : PullWorld ι ρ × Collected ρ :=
  targets.foldl (ask round cutoff) s

/-- `pull_incremental`: the world after it, and what it passes to the apply step. -/
def pullIncremental (targets : List ι) (w : PullWorld ι ρ) (round : PullRound ι ρ) :
    PullWorld ι ρ × Collected ρ :=
  let cutoff := pullCutoff round.since w.lastPullAt
  let s := askAll round cutoff targets (w, .empty)
  (if round.raises ∨ s.2.serverTime.getD "" = "" then s.1
    else { s.1 with lastPullAt := s.2.serverTime }, s.2)

/-- The worlds and the pulls of a run. -/
def run (targets : List ι) (w : PullWorld ι ρ) (rounds : List (PullRound ι ρ)) : PullWorld ι ρ :=
  rounds.foldl (fun w round => (pullIncremental targets w round).1) w

/-- A client that has not pulled, with the records that the targets have. -/
def start (server : ι → LegacyServer ρ) : PullWorld ι ρ :=
  ⟨none, server, fun i => (server i).entries⟩

/-- The loop has come to the target: the targets in front of it have had their turns. -/
def reached (w : PullWorld ι ρ) (round : PullRound ι ρ) (front : List ι) (i : ι) :
    PullWorld ι ρ :=
  (askAll round (pullCutoff round.since w.lastPullAt) front (w, .empty)).1.atTurn (round.turn i)

/-- A pull hands over what it has to: a target that answers hands over to the apply step all that it
has changed since it last answered. -/
def HandsOver (targets : List ι) (w : PullWorld ι ρ) (round : PullRound ι ρ) : Prop :=
  ∀ front i back, targets = front ++ i :: back → (round.turn i).fails = false →
    ∀ c ∈ (reached w round front i).waiting i,
      c ∈ (pullIncremental targets w round).2.passed

/-- Every pull of a run hands over what it has to. -/
def HandsOverAll (targets : List ι) (w : PullWorld ι ρ) (rounds : List (PullRound ι ρ)) : Prop :=
  ∀ front round back, rounds = front ++ round :: back →
    HandsOver targets (run targets w front) round

/-- A pull leaves the cutoff in front of all that its targets have not handed over. -/
structure InStep (targets : List ι) (w : PullWorld ι ρ) (round : PullRound ι ρ) : Prop where
  /-- What is changed meanwhile is stamped later than the cutoff. -/
  writes : ∀ i, ∀ at_ ∈ (round.turn i).writes, ∀ last ∈ w.lastPullAt, last < at_.2.stamp
  /-- A cutoff of the caller's is earlier than what waits at the targets that answer. -/
  since : ∀ since ∈ round.since, since ≠ "" → ∀ front i back, targets = front ++ i :: back →
    (round.turn i).fails = false → ∀ c ∈ (reached w round front i).waiting i, since < c.stamp
  /-- The server time that is taken is earlier than what waits after the pull: at a target that
  failed, or since a target has answered. -/
  adopted : ∀ now ∈ (pullIncremental targets w round).1.lastPullAt,
    ∀ i, ∀ c ∈ (pullIncremental targets w round).1.waiting i, now < c.stamp
  /-- The answers are not cut off at the bound. -/
  fits : ∀ front i back, targets = front ++ i :: back → (round.turn i).fails = false →
    (newerThan (pullCutoff round.since w.lastPullAt)
      (((reached w round front i).server i).ofKind .function)).length ≤ changesLimit ∧
    ∀ kind ∈ [ChangeKind.fact, .preference, .observation],
      (((reached w round front i).server i).ofKind kind).length ≤ changesLimit

/-- Every pull of a run leaves the cutoff in front. -/
def InStepAll (targets : List ι) (w : PullWorld ι ρ) (rounds : List (PullRound ι ρ)) : Prop :=
  ∀ front round back, rounds = front ++ round :: back → InStep targets (run targets w front) round

/-- What waits is there to be handed over, and the cutoff is in front of it. -/
structure Ahead (w : PullWorld ι ρ) : Prop where
  listed : ∀ i, ∀ c ∈ w.waiting i, c ∈ (w.server i).entries
  later : ∀ i, ∀ c ∈ w.waiting i, ∀ last ∈ w.lastPullAt, last < c.stamp

end PullWorld

/-! ## Lists of changes -/

section Lists

variable {ρ : Type}

theorem mem_written {c c' : LegacyChange ρ} {cs : List (LegacyChange ρ)} :
    c' ∈ written c cs ↔ (c' ∈ cs ∧ ¬ c.Replaces c') ∨ c' = c := by
  rw [written, List.mem_append, List.mem_filter, List.mem_singleton, decide_eq_true_eq]

/-- A list that is part of another one stays part of it. -/
theorem written_mono {c : LegacyChange ρ} {cs ds : List (LegacyChange ρ)} (h : ∀ x ∈ cs, x ∈ ds) :
    ∀ x ∈ written c cs, x ∈ written c ds := by
  intro x hx
  rw [mem_written] at hx ⊢
  exact hx.imp_left fun hold => ⟨h x hold.1, hold.2⟩

theorem mem_newerThan {since : Option String} {c : LegacyChange ρ} {cs : List (LegacyChange ρ)}
    (hc : c ∈ cs) (hlater : ∀ s ∈ since, s < c.stamp) : c ∈ newerThan since cs := by
  cases since with
  | none => exact hc
  | some s => exact List.mem_filter.mpr ⟨hc, decide_eq_true (hlater s rfl)⟩

/-- **An answer has all that is newer than the cutoff**, up to the bound on its lists. -/
theorem LegacyServer.mem_syncChanges (s : LegacyServer ρ) (since : Option String) (now : String)
    (hfunctions : (newerThan since (s.ofKind .function)).length ≤ changesLimit)
    (htyped : ∀ kind ∈ [ChangeKind.fact, .preference, .observation],
      (s.ofKind kind).length ≤ changesLimit)
    {c : LegacyChange ρ} (hc : c ∈ s.entries) (hlater : ∀ cut ∈ since, cut < c.stamp) :
    c ∈ (s.syncChanges since now).all := by
  have hkind : c ∈ s.ofKind c.kind := List.mem_filter.mpr ⟨hc, decide_eq_true rfl⟩
  have htyped' : ∀ kind ∈ [ChangeKind.fact, .preference, .observation], c.kind = kind →
      c ∈ s.typedChangesSince kind since := by
    rintro kind hmem rfl
    rw [LegacyServer.typedChangesSince, List.take_of_length_le (htyped _ hmem)]
    exact mem_newerThan hkind hlater
  simp only [ChangesPage.all, List.mem_append, LegacyServer.syncChanges]
  cases hk : c.kind with
  | function =>
    rw [hk] at hkind
    rw [List.take_of_length_le hfunctions]
    exact .inl (.inl (.inl (.inl (mem_newerThan hkind hlater))))
  | fact => exact .inl (.inl (.inl (.inr (htyped' _ (by decide) hk))))
  | preference => exact .inl (.inl (.inr (htyped' _ (by decide) hk)))
  | observation => exact .inl (.inr (htyped' _ (by decide) hk))
  | tombstone =>
    rw [hk] at hkind
    exact .inr (mem_newerThan hkind hlater)

/-- The lists of a pull grow. -/
theorem Collected.passed_extend (acc : Collected ρ) (answer : Option (ChangesPage ρ)) :
    ∀ c ∈ acc.passed, c ∈ (acc.extend answer).passed := by
  intro c hc
  cases answer with
  | none => exact hc
  | some page =>
    simp only [Collected.passed, Collected.extend, List.mem_append] at hc ⊢
    tauto

/-- All changes of an answer are passed on. -/
theorem Collected.all_extend (acc : Collected ρ) (page : ChangesPage ρ) :
    ∀ c ∈ page.all, c ∈ (acc.extend (some page)).passed := by
  intro c hc
  simp only [ChangesPage.all, Collected.passed, Collected.extend, List.mem_append] at hc ⊢
  tauto

/-- The cutoff that is sent is the caller's or the client's. -/
theorem pullCutoff_eq_some {since last : Option String} {cut : String}
    (h : pullCutoff since last = some cut) : (since = some cut ∧ cut ≠ "") ∨ last = some cut := by
  unfold pullCutoff at h
  by_cases hsince : since.getD "" = ""
  · simp only [if_pos hsince] at h
    split_ifs at h
    exact .inr h
  · simp only [if_neg hsince] at h
    subst h
    exact .inl ⟨rfl, hsince⟩

end Lists

/-! ## A run -/

namespace PullWorld

variable {ι ρ : Type} [DecidableEq ι] {targets : List ι} {w : PullWorld ι ρ}
  {round : PullRound ι ρ}

theorem Ahead.write (h : w.Ahead) {at_ : ι × LegacyChange ρ}
    (hstamp : ∀ last ∈ w.lastPullAt, last < at_.2.stamp) : (w.write at_).Ahead := by
  refine ⟨fun i c hc => ?_, fun i c hc => ?_⟩
  · simp only [PullWorld.write, Function.update_apply] at hc ⊢
    split_ifs at hc ⊢ with hi
    · exact written_mono (h.listed at_.1) c hc
    · exact h.listed i c hc
  · simp only [PullWorld.write, Function.update_apply] at hc ⊢
    split_ifs at hc with hi
    · rcases mem_written.mp hc with ⟨hc, -⟩ | rfl
      · exact h.later at_.1 c hc
      · exact hstamp
    · exact h.later i c hc

/-- The changes that are made before a target is asked keep the cutoff where it is. -/
theorem lastPullAt_atTurn (w : PullWorld ι ρ) (turn : TargetTurn ι ρ) :
    (w.atTurn turn).lastPullAt = w.lastPullAt := by
  unfold atTurn
  induction turn.writes generalizing w with
  | nil => rfl
  | cons at_ writes ih => exact ih (w.write at_)

theorem Ahead.atTurn (h : w.Ahead) {turn : TargetTurn ι ρ}
    (hstamp : ∀ at_ ∈ turn.writes, ∀ last ∈ w.lastPullAt, last < at_.2.stamp) :
    (w.atTurn turn).Ahead := by
  obtain ⟨writes, fails, now⟩ := turn
  unfold PullWorld.atTurn
  simp only at hstamp ⊢
  induction writes generalizing w with
  | nil => exact h
  | cons at_ writes ih =>
    have hwrite : (w.write at_).Ahead := h.write (hstamp at_ List.mem_cons_self)
    exact ih hwrite fun at' hat => hstamp at' (List.mem_cons_of_mem _ hat)

/-- The turn of a target keeps the cutoff where it is, and what waits in front of it. -/
theorem Ahead.ask (h : w.Ahead) (cutoff : Option String) (acc : Collected ρ) (i : ι)
    (hstamp : ∀ at_ ∈ (round.turn i).writes, ∀ last ∈ w.lastPullAt, last < at_.2.stamp) :
    (ask round cutoff (w, acc) i).1.Ahead ∧
      (ask round cutoff (w, acc) i).1.lastPullAt = w.lastPullAt := by
  have hturn := h.atTurn hstamp
  unfold PullWorld.ask
  simp only
  split_ifs with hfails
  · exact ⟨hturn, lastPullAt_atTurn w _⟩
  · refine ⟨⟨fun j c hc => ?_, fun j c hc => ?_⟩, lastPullAt_atTurn w _⟩
    · simp only [Function.update_apply] at hc
      split_ifs at hc
      · exact (List.not_mem_nil hc).elim
      · exact hturn.listed j c hc
    · simp only [Function.update_apply] at hc
      split_ifs at hc
      · exact (List.not_mem_nil hc).elim
      · exact hturn.later j c hc

theorem Ahead.askAll (h : w.Ahead) (cutoff : Option String) (acc : Collected ρ)
    (hstamp : ∀ i, ∀ at_ ∈ (round.turn i).writes, ∀ last ∈ w.lastPullAt, last < at_.2.stamp)
    (front : List ι) :
    (askAll round cutoff front (w, acc)).1.Ahead ∧
      (askAll round cutoff front (w, acc)).1.lastPullAt = w.lastPullAt := by
  induction front generalizing w acc with
  | nil => exact ⟨h, rfl⟩
  | cons i front ih =>
    obtain ⟨hask, hlast⟩ := h.ask cutoff acc i (hstamp i)
    have hrest := ih hask (PullWorld.ask round cutoff (w, acc) i).2 (hlast ▸ hstamp)
    exact ⟨hrest.1, hrest.2.trans hlast⟩

/-- What a pull has collected stays collected. -/
theorem passed_askAll (cutoff : Option String) (front : List ι) (s : PullWorld ι ρ × Collected ρ) :
    ∀ c ∈ s.2.passed, c ∈ (askAll round cutoff front s).2.passed := by
  induction front generalizing s with
  | nil => exact fun c hc => hc
  | cons i front ih =>
    intro c hc
    exact ih (PullWorld.ask round cutoff s i) c (Collected.passed_extend _ _ c hc)

/-- A pull in step hands over what it has to. -/
theorem InStep.handsOver (hstep : InStep targets w round) (h : w.Ahead) :
    HandsOver targets w round := by
  rintro front i back rfl hfails c hc
  have hreached : (reached w round front i).Ahead ∧
      (reached w round front i).lastPullAt = w.lastPullAt := by
    obtain ⟨hfront, hlast⟩ := h.askAll (pullCutoff round.since w.lastPullAt) .empty hstep.writes front
    have hwrites := hstep.writes i
    rw [← hlast] at hwrites
    exact ⟨hfront.atTurn hwrites, (lastPullAt_atTurn _ _).trans hlast⟩
  -- The cutoff that is sent is in front of the change.
  have hlater : ∀ cut ∈ pullCutoff round.since w.lastPullAt, cut < c.stamp := by
    intro cut hcut
    rcases pullCutoff_eq_some hcut with ⟨hsince, hne⟩ | hlast
    · exact hstep.since cut hsince hne front i back rfl hfails c hc
    · exact hreached.1.later i c hc cut (hreached.2.trans hlast)
  obtain ⟨hfunctions, htyped⟩ := hstep.fits front i back rfl hfails
  have hanswer := LegacyServer.mem_syncChanges _ _ (round.turn i).now hfunctions htyped
    (hreached.1.listed i c hc) hlater
  -- The answer is collected at the turn of the target, and stays collected.
  have hask : c ∈ (PullWorld.ask round (pullCutoff round.since w.lastPullAt)
      (askAll round (pullCutoff round.since w.lastPullAt) front (w, .empty)) i).2.passed := by
    unfold PullWorld.ask answer
    rw [hfails]
    exact Collected.all_extend _ _ c hanswer
  show c ∈ (askAll round (pullCutoff round.since w.lastPullAt) (front ++ i :: back)
    (w, .empty)).2.passed
  unfold askAll at hask ⊢
  rw [List.foldl_append, List.foldl_cons]
  exact passed_askAll _ back _ c hask

/-- A pull in step leaves what waits in front of the cutoff. -/
theorem InStep.ahead (hstep : InStep targets w round) (h : w.Ahead) :
    (pullIncremental targets w round).1.Ahead := by
  have hall := (h.askAll (pullCutoff round.since w.lastPullAt) .empty hstep.writes targets).1
  refine ⟨fun i c hc => ?_, fun i c hc last hlast => hstep.adopted last hlast i c hc⟩
  unfold pullIncremental at hc ⊢
  simp only at hc ⊢
  split_ifs at hc ⊢ <;> exact hall.listed i c hc

omit [DecidableEq ι] in
/-- A client that has not pulled has nothing behind its cutoff. -/
theorem ahead_start (server : ι → LegacyServer ρ) : (start server).Ahead :=
  ⟨fun _ _ hc => hc, fun _ _ _ last hlast => (Option.some_ne_none last hlast.symm).elim⟩

end PullWorld

/-! ## A hidden failure -/

/-- Two targets, of which the first one has a fact. -/
def twoServers : Bool → LegacyServer Unit
  | false => ⟨[⟨.fact, "f", "2026-01-01T00:00:00+00:00", ()⟩]⟩
  | true => ⟨[]⟩

/-- A pull in which the targets of a list fail. -/
def pullAt (now : String) (failing : List Bool) : PullRound Bool Unit :=
  ⟨none, fun i => ⟨[], failing.contains i, now⟩, false⟩

/-- The first target fails in a pull in which the second one answers, and then answers. -/
def hiddenFailure : List (PullRound Bool Unit) :=
  [pullAt "2026-01-02T00:00:00+00:00" [false], pullAt "2026-01-03T00:00:00+00:00" []]

/-- A pull of two targets that both answer, with nothing changed meanwhile. -/
theorem inStep_pullAt {w : PullWorld Bool Unit} {now : String}
    (hadopted : ∀ last ∈ (PullWorld.pullIncremental [false, true] w (pullAt now [])).1.lastPullAt,
      ∀ i, ∀ c ∈ (PullWorld.pullIncremental [false, true] w (pullAt now [])).1.waiting i,
        last < c.stamp)
    (hfits : ∀ i kind, ((w.server i).ofKind kind).length ≤ 1) :
    PullWorld.InStep [false, true] w (pullAt now []) where
  writes _ _ hat := (List.not_mem_nil hat).elim
  since _ hs := (Option.some_ne_none _ hs.symm).elim
  adopted := hadopted
  fits := by
    have hle : 1 ≤ changesLimit := by decide
    have hnewer : ∀ (since : Option String) (cs : List (LegacyChange Unit)),
        (newerThan since cs).length ≤ cs.length := by
      intro since cs
      cases since with
      | none => exact Nat.le_refl _
      | some s => exact List.length_filter_le _ _
    -- No target is changed by the turns of the others.
    have hserver : ∀ cutoff front s,
        (PullWorld.askAll (pullAt now []) cutoff front s).1.server = s.1.server := by
      intro cutoff front s
      induction front generalizing s with
      | nil => rfl
      | cons j front ih => exact ih _
    intro front i back hsplit hfails
    have hreached : (w.reached (pullAt now []) front i).server = w.server :=
      hserver _ front (w, .empty)
    rw [hreached]
    exact ⟨(hnewer _ _).trans ((hfits i _).trans hle), fun kind _ => (hfits i kind).trans hle⟩

end Memplex
