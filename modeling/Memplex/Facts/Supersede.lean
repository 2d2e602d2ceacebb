import Memplex.Facts.Improve

/-!
# Writing facts that supersede others

The service writes a batch of facts in three steps. It lists the facts of the store once, up to a
limit. For each new fact it stamps those listed ones that hold now and are in the same slot as
invalid, and writes them back. At the end it adds the new facts, each under its id.

The stamp is a reading of the clock, while the new fact begins at its own `valid_from`. So the
history of a slot stays well formed only if the two agree wherever a fact is superseded
(`historyWellFormed_iff`): an earlier `valid_from` makes the intervals overlap, a later one leaves a
gap in which nothing holds. A fact that the listing does not reach, that was not written back, or
whose id the new one has, is the rest of the condition.
-/

namespace Memplex

open Lib

/-- A reading of the clock, with the text that it is stored as. -/
structure Reading (te : TemporalEnv) where
  text : String
  time : Instant
  parses : te.instant text = some time
  ne_empty : text ≠ ""

/-- A new fact, with the readings of the clock and the outcomes of the writes while it is its
turn. -/
structure FactWrite (te : TemporalEnv) where
  fact : Fact
  /-- The reading that a fact without `valid_from` gets. -/
  opened : Reading te
  /-- The reading that superseded facts are stamped with. -/
  stamped : Reading te
  /-- The reading at which the fact of an id is tested. -/
  checked : String → Instant
  /-- Whether the superseded fact of an id can be written back. -/
  persists : String → Bool
  /-- Whether the new fact can be added. -/
  adds : Bool

/-- A batch of new facts. -/
structure FactBatch (te : TemporalEnv) where
  /-- Whether the facts of the store can be listed. -/
  listed : Bool
  writes : List (FactWrite te)
  moment : WriteMoment

/-- The limit of `list_facts`. -/
def listLimit : ℕ := 1000

section Write

variable {te : TemporalEnv}

namespace FactWrite

variable (b : FactWrite te)

/-- The new fact with the time at which it begins. -/
def newFact : Fact :=
  if b.fact.validFrom.truthy then b.fact else { b.fact with validFrom := .str b.opened.text }

/-- Whether the new fact supersedes a fact: the test of the service, and that of
`supersede_contradicted`. -/
def supersedes (f : Fact) : Bool :=
  captureScopesMatch te.toEnv b.newFact.toMemoryNode f.toMemoryNode &&
    !(b.newFact.provenance.getStr "capture_input" = .str "factual_capture_v1" &&
      b.newFact.object_ = f.object_) &&
    f.id ≠ b.newFact.id && factSlot te.toEnv f = factSlot te.toEnv b.newFact &&
    f.invalidAt = .null && te.isValidAt f (b.checked f.id)

/-- A listed fact after the turn of a new one. -/
def mark (f : Fact) : Fact := if b.supersedes f then f.retire b.stamped.text else f

/-- The turn of a new fact: the listed facts that it supersedes are stamped and written back. -/
def supersede (moment : WriteMoment) (s : List Fact × Facts) : List Fact × Facts :=
  let superseded := (s.1.filter b.supersedes).map (Fact.retire b.stamped.text)
  (s.1.map b.mark, (superseded.filter fun f => b.persists f.id).foldl (persistFact moment) s.2)

end FactWrite

namespace FactBatch

variable (batch : FactBatch te) (facts : Facts)

/-- `_supersede_contradicted_facts_batch`, on the facts of the store. -/
def supersedeContradicted : Facts :=
  if batch.listed then
    (batch.writes.foldl (fun s b => b.supersede batch.moment s)
      (facts.rows.take listLimit, facts)).2
  else facts

/-- The new facts that are added, in order. -/
def added : List Fact :=
  (batch.writes.filter fun b => b.adds).map fun b => if batch.listed then b.newFact else b.fact

/-- `_persist_typed_nodes`, as far as the facts go. -/
def persist : Facts :=
  batch.added.foldl (persistFact batch.moment) (batch.supersedeContradicted facts)

/-- The new facts by their ids: the last one of an id is the one that is stored. -/
def finals : Facts := batch.added.foldl (persistFact batch.moment) .empty

/-- The reading that a fact of the store is stamped with, if any. -/
def stampOf (f : Fact) : Option (Reading te) :=
  if batch.listed = true ∧ f ∈ facts.rows.take listLimit then
    (batch.writes.find? fun b => b.supersedes f).bind fun b =>
      if b.persists f.id then some b.stamped else none
  else none

/-- A fact of the store before the new ones are added. -/
def settle (f : Fact) : Fact :=
  match batch.stampOf facts f with
  | some r => (f.retire r.text).filled batch.moment
  | none => f

end FactBatch

/-! ## What a batch does to each fact -/

theorem foldl_persistFact (moment : WriteMoment) (fs : List Fact) (facts : Facts) :
    fs.foldl (persistFact moment) facts = (fs.map (Fact.filled moment)).foldl Table.set facts := by
  rw [List.foldl_map]
  rfl

/-- No new fact supersedes a fact that is stamped already. -/
theorem supersedes_retire (b : FactWrite te) (stamp : String) (f : Fact) :
    b.supersedes (f.retire stamp) = false := by
  have hstamped : (f.retire stamp).invalidAt ≠ .null := fun h => nomatch h
  simp [FactWrite.supersedes, hstamped]

theorem mark_id (b : FactWrite te) (f : Fact) : (b.mark f).id = f.id := by
  unfold FactWrite.mark
  split_ifs <;> rfl

/-- The turn of a new fact, seen from one id. -/
theorem get?_supersede (b : FactWrite te) (moment : WriteMoment) {listing : List Fact}
    (hd : (listing.map fun f => f.id).Nodup) (facts : Facts) (k : String) :
    (b.supersede moment (listing, facts)).2.get? k =
      ((findRow (fun f : Fact => f.id) k listing).bind fun f =>
        if b.supersedes f = true ∧ b.persists k = true then
          some ((f.retire b.stamped.text).filled moment)
        else none).or (facts.get? k) := by
  -- What is written back under the id comes from the listed fact of the id.
  have hwritten : ∀ r ∈ (((listing.filter b.supersedes).map (Fact.retire b.stamped.text)).filter
      fun f => b.persists f.id).map (Fact.filled moment), r.id = k →
      ∃ f, findRow (fun f : Fact => f.id) k listing = some f ∧ b.supersedes f = true ∧
        b.persists k = true ∧ r = (f.retire b.stamped.text).filled moment := by
    intro r hr hid
    obtain ⟨g, hg, rfl⟩ := List.mem_map.mp hr
    obtain ⟨hg, hpersists⟩ := List.mem_filter.mp hg
    obtain ⟨f, hf, rfl⟩ := List.mem_map.mp hg
    obtain ⟨hmem, hsup⟩ := List.mem_filter.mp hf
    have hfid : f.id = k := hid
    subst hfid
    exact ⟨f, findRow_of_mem hd hmem, hsup, hpersists, rfl⟩
  change (List.foldl (persistFact moment) facts _).get? k = _
  rw [foldl_persistFact]
  by_cases hex : ∃ r ∈ (((listing.filter b.supersedes).map (Fact.retire b.stamped.text)).filter
      fun f => b.persists f.id).map (Fact.filled moment), r.id = k
  · obtain ⟨r, hr, hid, hget⟩ := Table.get?_foldl_set_mem (t := facts) hex
    obtain ⟨f, hfind, hsup, hpersists, rfl⟩ := hwritten r hr hid
    rw [hget, hfind, Option.bind_some, if_pos ⟨hsup, hpersists⟩]
    rfl
  · have hne : ∀ r ∈ (((listing.filter b.supersedes).map (Fact.retire b.stamped.text)).filter
        fun f => b.persists f.id).map (Fact.filled moment), r.id ≠ k :=
      fun r hr hid => hex ⟨r, hr, hid⟩
    rw [Table.get?_foldl_set_ne hne]
    cases hfind : findRow (fun f : Fact => f.id) k listing with
    | none => rfl
    | some f =>
      obtain ⟨hmem, hfid⟩ := findRow_some hfind
      have hnot : ¬ (b.supersedes f = true ∧ b.persists k = true) := by
        rintro ⟨hsup, hpersists⟩
        refine hex ⟨(f.retire b.stamped.text).filled moment,
          List.mem_map_of_mem (List.mem_filter.mpr ⟨?_, hfid ▸ hpersists⟩), hfid⟩
        exact List.mem_map_of_mem (List.mem_filter.mpr ⟨hmem, hsup⟩)
      rw [Option.bind_some, if_neg hnot]
      rfl

/-- All turns, seen from one id: the first new fact that supersedes the listed fact stamps it. -/
theorem get?_foldl_supersede (writes : List (FactWrite te)) (moment : WriteMoment)
    {listing : List Fact} (hd : (listing.map fun f => f.id).Nodup) (facts : Facts) (k : String) :
    (writes.foldl (fun s b => b.supersede moment s) (listing, facts)).2.get? k =
      ((findRow (fun f : Fact => f.id) k listing).bind fun f =>
        (writes.find? fun b => b.supersedes f).bind fun b =>
          if b.persists k = true then some ((f.retire b.stamped.text).filled moment)
          else none).or (facts.get? k) := by
  induction writes generalizing listing facts with
  | nil => cases findRow (fun f : Fact => f.id) k listing <;> rfl
  | cons b writes ih =>
    have hids : (listing.map b.mark).map (fun f => f.id) = listing.map fun f => f.id := by
      rw [List.map_map]
      exact List.map_congr_left fun f _ => mark_id b f
    have hstep := get?_supersede b moment hd facts k
    have hfind : findRow (fun f : Fact => f.id) k (listing.map b.mark) =
        (findRow (fun f : Fact => f.id) k listing).map b.mark :=
      findRow_map (g := b.mark) (fun f => mark_id b f) k listing
    have hrest := ih (hids.symm ▸ hd) (b.supersede moment (listing, facts)).2
    rw [hfind, hstep] at hrest
    rw [List.foldl_cons]
    refine hrest.trans ?_
    cases findRow (fun f : Fact => f.id) k listing with
    | none => rfl
    | some f =>
      rw [Option.map_some, Option.bind_some, Option.bind_some, Option.bind_some]
      by_cases hsup : b.supersedes f = true
      · -- Once it is stamped, no other new fact supersedes it.
        have hmark : b.mark f = f.retire b.stamped.text := if_pos hsup
        have hnone : (writes.find? fun c => c.supersedes (f.retire b.stamped.text)) = none :=
          List.find?_eq_none.mpr fun c _ => by simp [supersedes_retire]
        have hfirst : ((b :: writes).find? fun c => c.supersedes f) = some b :=
          List.find?_cons_of_pos hsup
        rw [hmark, hnone, hfirst]
        simp [hsup]
      · have hmark : b.mark f = f := if_neg hsup
        have hlater : ((b :: writes).find? fun c => c.supersedes f) =
            writes.find? fun c => c.supersedes f := List.find?_cons_of_neg hsup
        rw [hmark, hlater]
        simp [hsup]

/-- What the store has under an id before the new facts are added. -/
theorem get?_supersedeContradicted (batch : FactBatch te) (facts : Facts) (k : String) :
    (batch.supersedeContradicted facts).get? k = (facts.get? k).map (batch.settle facts) := by
  unfold FactBatch.supersedeContradicted
  by_cases hlisted : batch.listed = true
  · rw [if_pos hlisted]
    have hd : ((facts.rows.take listLimit).map fun f => f.id).Nodup :=
      facts.nodup.sublist ((List.take_sublist listLimit facts.rows).map _)
    rw [get?_foldl_supersede batch.writes batch.moment hd]
    cases hget : facts.get? k with
    | none =>
      have hnone : findRow (fun f : Fact => f.id) k (facts.rows.take listLimit) = none :=
        findRow_eq_none.mpr fun f hf =>
          findRow_eq_none.mp hget f (List.mem_of_mem_take hf)
      rw [hnone]
      rfl
    | some f =>
      obtain ⟨hmem, hid⟩ := findRow_some hget
      rw [Option.map_some]
      unfold FactBatch.settle FactBatch.stampOf
      by_cases htake : f ∈ facts.rows.take listLimit
      · have hfind : findRow (fun f : Fact => f.id) k (facts.rows.take listLimit) = some f :=
          hid ▸ findRow_of_mem hd htake
        rw [hfind, if_pos ⟨hlisted, htake⟩, Option.bind_some]
        cases batch.writes.find? fun b => b.supersedes f with
        | none => rfl
        | some b =>
          rw [Option.bind_some, Option.bind_some, hid]
          by_cases hpersists : b.persists k = true
          · rw [if_pos hpersists, if_pos hpersists]
            rfl
          · rw [if_neg hpersists, if_neg hpersists]
            rfl
      · have hnone : findRow (fun f : Fact => f.id) k (facts.rows.take listLimit) = none := by
          refine findRow_eq_none.mpr fun g hg hgid => htake ?_
          have hgget := (facts.mem_rows_iff g).mp (List.mem_of_mem_take hg)
          rw [hgid, hget] at hgget
          exact Option.some.inj hgget ▸ hg
        rw [hnone, if_neg fun h => htake h.2]
        rfl
  · rw [if_neg hlisted]
    cases facts.get? k with
    | none => rfl
    | some f =>
      rw [Option.map_some]
      unfold FactBatch.settle FactBatch.stampOf
      rw [if_neg fun h => hlisted h.1]

/-- What the store has under an id after a batch: the new fact of the id, or the old one, stamped
where it was superseded. -/
theorem get?_persist (batch : FactBatch te) (facts : Facts) (k : String) :
    (batch.persist facts).get? k =
      (batch.finals.get? k).or ((facts.get? k).map (batch.settle facts)) := by
  unfold FactBatch.persist FactBatch.finals
  rw [foldl_persistFact, foldl_persistFact, Table.get?_foldl_set, get?_supersedeContradicted]

/-! ## Validity -/

theorem isValidAt_filled (moment : WriteMoment) (f : Fact) (t : Instant) :
    te.isValidAt (f.filled moment) t = te.isValidAt f t := rfl

/-- A stamp cuts the interval of a fact that had no end. -/
theorem isValidAt_retire {f : Fact} (h : f.invalidAt = .null) (r : Reading te) (t : Instant) :
    te.isValidAt (f.retire r.text) t = true ↔ te.isValidAt f t = true ∧ t < r.time := by
  have hstop : te.parse (f.retire r.text).invalidAt = some r.time := by
    have htrue : (f.retire r.text).invalidAt.truthy = true := decide_eq_true r.ne_empty
    exact (if_pos htrue).trans r.parses
  have hopen : te.parse f.invalidAt = none := by
    rw [h]
    rfl
  have hfrom : (f.retire r.text).validFrom = f.validFrom := rfl
  have huntil : (f.retire r.text).validUntil = f.validUntil := rfl
  unfold TemporalEnv.isValidAt
  rw [hstop, hopen, hfrom, huntil, Option.all_some, Option.all_none, Bool.and_true]
  simp only [Bool.and_eq_true, decide_eq_true_eq]
  tauto

/-- Only facts that are not stamped yet are superseded. -/
theorem stampOf_open {batch : FactBatch te} {facts : Facts} {f : Fact} {r : Reading te}
    (h : batch.stampOf facts f = some r) : f.invalidAt = .null := by
  unfold FactBatch.stampOf at h
  split_ifs at h with hlisted
  obtain ⟨b, hfind, -⟩ := Option.bind_eq_some_iff.mp h
  have hsup := List.find?_some hfind
  simp only [FactWrite.supersedes, Bool.and_eq_true, decide_eq_true_eq] at hsup
  exact hsup.1.2

/-- When a fact of the store holds after a batch. -/
theorem isValidAt_settle (batch : FactBatch te) (facts : Facts) (f : Fact) (t : Instant) :
    te.isValidAt (batch.settle facts f) t = true ↔
      te.isValidAt f t = true ∧ ∀ r, batch.stampOf facts f = some r → t < r.time := by
  unfold FactBatch.settle
  cases hstamp : batch.stampOf facts f with
  | none => simp
  | some r =>
    dsimp only
    rw [isValidAt_filled, isValidAt_retire (stampOf_open hstamp)]
    simp

/-! ## Well-formed histories -/

variable (te)

/-- Two facts of one history: of the same tenant and slot, in capture scopes that match. -/
def SameHistory (f g : Fact) : Prop :=
  f.tenantId = g.tenantId ∧ factSlot te.toEnv f = factSlot te.toEnv g ∧
    captureScopesMatch te.toEnv f.toMemoryNode g.toMemoryNode = true

variable {te}

theorem SameHistory.symm {f g : Fact} (h : SameHistory te f g) : SameHistory te g f :=
  ⟨h.1.symm, h.2.1.symm, captureScopesMatch_comm te.toEnv _ _ ▸ h.2.2⟩

/-- A record of the same claim: the fact of an id, about the same subject, predicate and object. -/
def SameClaim (f g : Fact) : Prop :=
  f.id = g.id ∧ f.tenantId = g.tenantId ∧ f.subject = g.subject ∧ f.predicate = g.predicate ∧
    f.object_ = g.object_

variable (te)

/-- The interval of a fact does not end before it begins. -/
def Ordered (f : Fact) : Prop :=
  ∀ a b, te.parse f.validFrom = some a → te.parse f.invalidAt = some b → a ≤ b

/-- The facts of each history have ordered intervals, which are disjoint: at no time two of them
hold, and so at most one is current. -/
structure WellFormed (facts : Facts) : Prop where
  ordered : ∀ f ∈ facts.rows, Ordered te f
  disjoint : ∀ f ∈ facts.rows, ∀ g ∈ facts.rows, SameHistory te f g → ∀ t,
    te.isValidAt f t = true → te.isValidAt g t = true → f = g

/-- A write answers about a time as before, unless a new fact of the history holds then. -/
structure AnswersKept (facts facts' news : Facts) : Prop where
  /-- A fact that held holds. -/
  kept : ∀ f ∈ facts.rows, ∀ t, te.isValidAt f t = true →
    (∀ w ∈ news.rows, SameHistory te f w → te.isValidAt w t = false) →
    ∃ g ∈ facts'.rows, SameClaim g f ∧ te.isValidAt g t = true
  /-- A fact that holds held, or is new. -/
  nothingElse : ∀ g ∈ facts'.rows, ∀ t, te.isValidAt g t = true →
    g ∈ news.rows ∨ ∃ f ∈ facts.rows, SameClaim g f ∧ te.isValidAt f t = true

/-- Every state of a run is well formed, and every write of it keeps the answers. -/
def WellFormedAlong : Facts → List (FactBatch te) → Prop
  | facts, [] => WellFormed te facts
  | facts, batch :: run =>
    WellFormed te facts ∧ AnswersKept te facts (batch.persist facts) batch.finals ∧
      WellFormedAlong (batch.persist facts) run

/-- What a batch has to meet, of its new facts, of the facts of the store and of the stamps. -/
structure Continues (facts : Facts) (batch : FactBatch te) : Prop where
  ordered : ∀ w ∈ batch.finals.rows, Ordered te w
  /-- New facts of one history do not hold at the same time. -/
  siblings : ∀ w ∈ batch.finals.rows, ∀ w' ∈ batch.finals.rows, SameHistory te w w' → ∀ t,
    te.isValidAt w t = true → te.isValidAt w' t = true → w = w'
  /-- A fact that stays does not begin after its stamp. -/
  begun : ∀ f ∈ facts.rows, batch.finals.get? f.id = none → ∀ r, batch.stampOf facts f = some r →
    ∀ a, te.parse f.validFrom = some a → a ≤ r.time
  /-- Where a new fact holds at the same time as one that stays, the latter is stamped, and the time
  is not before the stamp. -/
  cut : ∀ f ∈ facts.rows, batch.finals.get? f.id = none → ∀ w ∈ batch.finals.rows,
    SameHistory te f w → ∀ t, te.isValidAt f t = true → te.isValidAt w t = true →
      ∃ r, batch.stampOf facts f = some r ∧ r.time ≤ t
  /-- From its stamp on, a new fact of its history holds in the place of a fact. -/
  covered : ∀ f ∈ facts.rows, batch.finals.get? f.id = none → ∀ r,
    batch.stampOf facts f = some r → ∀ t, te.isValidAt f t = true → r.time ≤ t →
      ∃ w ∈ batch.finals.rows, SameHistory te f w ∧ te.isValidAt w t = true
  /-- A new fact that takes the place of one of its id makes the same claim at all its times, or
  another new fact of the history does. -/
  replaced : ∀ f ∈ facts.rows, ∀ w, batch.finals.get? f.id = some w → ∀ t,
    te.isValidAt f t = true → (∃ w' ∈ batch.finals.rows, SameHistory te f w' ∧
      te.isValidAt w' t = true) ∨ (SameClaim w f ∧ te.isValidAt w t = true)

/-- Every batch of a run continues the history that it finds. -/
def ContinuesAlong : Facts → List (FactBatch te) → Prop
  | _, [] => True
  | facts, batch :: run => Continues te facts batch ∧ ContinuesAlong (batch.persist facts) run

variable {te}

theorem settle_same (batch : FactBatch te) (facts : Facts) (f : Fact) :
    SameClaim (batch.settle facts f) f := by
  unfold FactBatch.settle
  cases batch.stampOf facts f <;> exact ⟨rfl, rfl, rfl, rfl, rfl⟩

/-- The rows after a batch: the new facts, and those of the store that none of them replaces. -/
theorem mem_persist {batch : FactBatch te} {facts : Facts} {g : Fact} :
    g ∈ (batch.persist facts).rows ↔ g ∈ batch.finals.rows ∨
      ∃ f ∈ facts.rows, batch.finals.get? f.id = none ∧ g = batch.settle facts f := by
  rw [Table.mem_rows_iff, get?_persist, Table.mem_rows_iff]
  constructor
  · intro h
    rcases Option.or_eq_some_iff.mp h with hnew | ⟨hnone, hold⟩
    · exact .inl hnew
    · obtain ⟨f, hf, rfl⟩ := Option.map_eq_some_iff.mp hold
      have hid : (batch.settle facts f).id = f.id := (settle_same batch facts f).1
      exact .inr ⟨f, Table.mem_of_get? hf, hid ▸ hnone, rfl⟩
  · rintro (hnew | ⟨f, hf, hnone, rfl⟩)
    · rw [hnew]
      rfl
    · rw [(settle_same batch facts f).1, hnone, (facts.mem_rows_iff f).mp hf]
      rfl

theorem settle_history (batch : FactBatch te) (facts : Facts) (f g : Fact) :
    SameHistory te (batch.settle facts f) g ↔ SameHistory te f g := by
  unfold FactBatch.settle
  cases batch.stampOf facts f <;> exact Iff.rfl

/-- A stamped fact is ordered if it does not begin after the stamp. -/
theorem ordered_settle (batch : FactBatch te) (facts : Facts) {f : Fact} {r : Reading te}
    (h : batch.stampOf facts f = some r) :
    Ordered te (batch.settle facts f) ↔ ∀ a, te.parse f.validFrom = some a → a ≤ r.time := by
  have hsettle : batch.settle facts f = (f.retire r.text).filled batch.moment := by
    unfold FactBatch.settle
    rw [h]
  have hstop : te.parse (batch.settle facts f).invalidAt = some r.time := by
    rw [hsettle]
    have htrue : (f.retire r.text).invalidAt.truthy = true := decide_eq_true r.ne_empty
    exact (if_pos htrue).trans r.parses
  have hfrom : (batch.settle facts f).validFrom = f.validFrom := by
    rw [hsettle]
    rfl
  unfold Ordered
  rw [hstop, hfrom]
  constructor
  · exact fun hle a ha => hle a r.time ha rfl
  · rintro hle a b ha ⟨⟩
    exact hle a ha

theorem settle_of_none {batch : FactBatch te} {facts : Facts} {f : Fact}
    (h : batch.stampOf facts f = none) : batch.settle facts f = f := by
  unfold FactBatch.settle
  rw [h]

section Step

variable {facts : Facts} {batch : FactBatch te}

/-- A fact that no new one replaces is in the store after the batch. -/
theorem settle_mem {f : Fact} (hf : f ∈ facts.rows) (hnone : batch.finals.get? f.id = none) :
    batch.settle facts f ∈ (batch.persist facts).rows :=
  mem_persist.mpr (.inr ⟨f, hf, hnone, rfl⟩)

theorem finals_ne_of_none {f w : Fact} (hnone : batch.finals.get? f.id = none)
    (hw : w ∈ batch.finals.rows) : w.id ≠ f.id := by
  intro hid
  have hget := (batch.finals.mem_rows_iff w).mp hw
  rw [hid, hnone] at hget
  cases hget

/-- A batch that leaves a well-formed history and keeps the answers continues the history. -/
theorem Continues.of_wellFormed (h : WellFormed te (batch.persist facts))
    (hkept : AnswersKept te facts (batch.persist facts) batch.finals) :
    Continues te facts batch where
  ordered w hw := h.ordered w (mem_persist.mpr (.inl hw))
  siblings w hw w' hw' := h.disjoint w (mem_persist.mpr (.inl hw)) w' (mem_persist.mpr (.inl hw'))
  begun f hf hnone r hr :=
    (ordered_settle batch facts hr).mp (h.ordered _ (settle_mem hf hnone))
  cut f hf hnone w hw hsame t hft hwt := by
    by_contra hnot
    -- Else the fact would hold at the time with the new one.
    have hholds : te.isValidAt (batch.settle facts f) t = true :=
      (isValidAt_settle batch facts f t).mpr
        ⟨hft, fun r hr => not_le.mp fun hle => hnot ⟨r, hr, hle⟩⟩
    have heq := h.disjoint _ (settle_mem hf hnone) w (mem_persist.mpr (.inl hw))
      ((settle_history batch facts f w).mpr hsame) t hholds hwt
    exact finals_ne_of_none hnone hw (heq ▸ (settle_same batch facts f).1)
  covered f hf hnone r hr t hft hle := by
    by_contra hnot
    obtain ⟨g, hg, hclaim, hgt⟩ := hkept.kept f hf t hft fun w hw hsame =>
      Bool.eq_false_iff.mpr fun hwt => hnot ⟨w, hw, hsame, hwt⟩
    rcases mem_persist.mp hg with hnew | ⟨f', hf', -, rfl⟩
    · exact finals_ne_of_none hnone hnew hclaim.1
    · have hid : f'.id = f.id := (settle_same batch facts f').1.symm.trans hclaim.1
      obtain rfl := List.inj_on_of_nodup_map facts.nodup hf' hf hid
      exact absurd (((isValidAt_settle batch facts f' t).mp hgt).2 r hr) (not_lt.mpr hle)
  replaced f hf w hw t hft := by
    by_cases hcovered : ∃ w' ∈ batch.finals.rows, SameHistory te f w' ∧ te.isValidAt w' t = true
    · exact .inl hcovered
    · obtain ⟨g, hg, hclaim, hgt⟩ := hkept.kept f hf t hft fun w' hw' hsame =>
        Bool.eq_false_iff.mpr fun hwt => hcovered ⟨w', hw', hsame, hwt⟩
      rcases mem_persist.mp hg with hnew | ⟨f', -, hnone, rfl⟩
      · have hget := (batch.finals.mem_rows_iff g).mp hnew
        rw [hclaim.1, hw] at hget
        obtain rfl := Option.some.inj hget
        exact .inr ⟨hclaim, hgt⟩
      · have hid : f'.id = f.id := (settle_same batch facts f').1.symm.trans hclaim.1
        rw [hid, hw] at hnone
        cases hnone

/-- A batch that continues a well-formed history leaves one. -/
theorem Continues.wellFormed (h : Continues te facts batch) (hw : WellFormed te facts) :
    WellFormed te (batch.persist facts) := by
  -- A new fact and one that stays do not hold at the same time.
  have hcut : ∀ w ∈ batch.finals.rows, ∀ f ∈ facts.rows, batch.finals.get? f.id = none →
      SameHistory te f w → ∀ t, te.isValidAt w t = true →
        ¬ te.isValidAt (batch.settle facts f) t = true := by
    intro w hwmem f hf hnone hsame t hwt hft
    obtain ⟨hft, hbefore⟩ := (isValidAt_settle batch facts f t).mp hft
    obtain ⟨r, hr, hle⟩ := h.cut f hf hnone w hwmem hsame t hft hwt
    exact absurd (hbefore r hr) (not_lt.mpr hle)
  refine ⟨fun g hg => ?_, fun g hg g' hg' hsame t hgt hgt' => ?_⟩
  · rcases mem_persist.mp hg with hnew | ⟨f, hf, hnone, rfl⟩
    · exact h.ordered g hnew
    · cases hstamp : batch.stampOf facts f with
      | none =>
        rw [settle_of_none hstamp]
        exact hw.ordered f hf
      | some r => exact (ordered_settle batch facts hstamp).mpr (h.begun f hf hnone r hstamp)
  · rcases mem_persist.mp hg with hnew | ⟨f, hf, hnone, rfl⟩ <;>
      rcases mem_persist.mp hg' with hnew' | ⟨f', hf', hnone', rfl⟩
    · exact h.siblings g hnew g' hnew' hsame t hgt hgt'
    · exact absurd hgt' (hcut g hnew f' hf' hnone'
        ((settle_history batch facts f' g).mp hsame.symm) t hgt)
    · exact absurd hgt
        (hcut g' hnew' f hf hnone ((settle_history batch facts f g').mp hsame) t hgt')
    · have hold := (settle_history batch facts f _).mp hsame
      have hold := ((settle_history batch facts f' f).mp hold.symm).symm
      rw [hw.disjoint f hf f' hf' hold t ((isValidAt_settle batch facts f t).mp hgt).1
        ((isValidAt_settle batch facts f' t).mp hgt').1]

/-- A batch that continues the history keeps the answers. -/
theorem Continues.answersKept (h : Continues te facts batch) :
    AnswersKept te facts (batch.persist facts) batch.finals where
  kept f hf t hft hfree := by
    have hnone : ¬ ∃ w ∈ batch.finals.rows, SameHistory te f w ∧ te.isValidAt w t = true := by
      rintro ⟨w, hw, hsame, hwt⟩
      exact Bool.noConfusion ((hfree w hw hsame).symm.trans hwt)
    cases hget : batch.finals.get? f.id with
    | some w =>
      obtain ⟨hclaim, hwt⟩ := (h.replaced f hf w hget t hft).resolve_left hnone
      exact ⟨w, mem_persist.mpr (.inl (Table.mem_of_get? hget)), hclaim, hwt⟩
    | none =>
      refine ⟨_, settle_mem hf hget, settle_same batch facts f, ?_⟩
      refine (isValidAt_settle batch facts f t).mpr ⟨hft, fun r hr => ?_⟩
      exact not_le.mp fun hle => hnone (h.covered f hf hget r hr t hft hle)
  nothingElse g hg t hgt := by
    rcases mem_persist.mp hg with hnew | ⟨f, hf, -, rfl⟩
    · exact .inl hnew
    · exact .inr ⟨f, hf, settle_same batch facts f, ((isValidAt_settle batch facts f t).mp hgt).1⟩

end Step

/-- From a well-formed state. -/
theorem wellFormedAlong_iff {facts : Facts} (h : WellFormed te facts)
    (run : List (FactBatch te)) :
    WellFormedAlong te facts run ↔ ContinuesAlong te facts run := by
  induction run generalizing facts with
  | nil => exact iff_of_true h trivial
  | cons batch run ih =>
    constructor
    · rintro ⟨-, hkept, hrest⟩
      have hnext : WellFormed te (batch.persist facts) := by
        cases run with
        | nil => exact hrest
        | cons next run => exact hrest.1
      exact ⟨.of_wellFormed hnext hkept, (ih hnext).mp hrest⟩
    · rintro ⟨hcontinues, hrest⟩
      exact ⟨h, hcontinues.answersKept, (ih (hcontinues.wellFormed h)).mpr hrest⟩

/-- In a run from the empty store every state is well formed and every write keeps the answers,
exactly if every batch continues the history that it finds. -/
theorem historyWellFormed_iff (run : List (FactBatch te)) :
    WellFormedAlong te .empty run ↔ ContinuesAlong te .empty run :=
  wellFormedAlong_iff ⟨fun _ h => (List.not_mem_nil h).elim,
    fun _ h => (List.not_mem_nil h).elim⟩ run

end Write

/-! ## A fact that is reported late -/

/-- An environment for texts in lower case without outer blanks, of which three are times: the first
instants of January, March and May 2026. -/
def springTimes : TemporalEnv where
  lower := id
  strip := id
  fromisoformat := fun _ => none
  instant := fun s =>
    if s = "2026-01-01T00:00:00+00:00" then some (739616 * 86400000000)
    else if s = "2026-03-01T00:00:00+00:00" then some (739675 * 86400000000)
    else if s = "2026-05-01T00:00:00+00:00" then some (739736 * 86400000000)
    else none

theorem may_parses :
    springTimes.instant "2026-05-01T00:00:00+00:00" = some (739736 * 86400000000) := by decide

/-- A write on the first of May: the city of an office, from a time on. -/
def writeCity (id city validFrom : String) : FactBatch springTimes :=
  let now : Reading springTimes :=
    ⟨"2026-05-01T00:00:00+00:00", 739736 * 86400000000, may_parses, by decide⟩
  { listed := true
    writes := [⟨{ Fact.make id "office" "city" city with validFrom := .str validFrom }, now, now,
      fun _ => 739736 * 86400000000, fun _ => true, true⟩]
    moment := plainRun.moment }

/-- The office is in Bonn from January on. -/
def earlyReport : FactBatch springTimes := writeCity "f1" "Bonn" "2026-01-01T00:00:00+00:00"

/-- The office is in Rome from March on. -/
def lateReport : FactBatch springTimes := writeCity "f2" "Rome" "2026-03-01T00:00:00+00:00"

/-- The move in March is reported in May: in between the office is in both cities. -/
theorem late_report_overlaps :
    ¬ WellFormedAlong springTimes .empty [earlyReport, lateReport] := by
  rintro ⟨-, -, -, -, h⟩
  have hfails : ¬ ∀ f ∈ (lateReport.persist (earlyReport.persist .empty)).rows,
      ∀ g ∈ (lateReport.persist (earlyReport.persist .empty)).rows,
      (f.tenantId = g.tenantId ∧ factSlot springTimes.toEnv f = factSlot springTimes.toEnv g ∧
        captureScopesMatch springTimes.toEnv f.toMemoryNode g.toMemoryNode = true) →
      springTimes.isValidAt f (739689 * 86400000000) = true →
      springTimes.isValidAt g (739689 * 86400000000) = true → f = g := by decide
  exact hfails fun f hf g hg hsame => h.disjoint f hf g hg hsame _

end Memplex
