import Memplex.Facts.Temporal
import Memplex.Lib.Groups
import Memplex.Lib.Newest

/-!
# The maintenance pass over facts

`improve_facts` lists the facts, stamps those past their shelf life as invalid, and of the others in
each slot all but the newest. A slot is a subject and a predicate: the pass looks neither at the
principal of a fact nor at its capture scope, and not at its `valid_from`. So a fact may be retired
by one of another principal, or by one that does not hold yet; `maintained_iff` says when neither
happens. Supersession in the service keeps the capture scopes apart and passes over facts that are
not valid.

What the pass does to a fact depends on the fact and the listing alone (`improveFacts_rows`): it
settles it or leaves it.
-/

namespace Memplex

open Lib

/-- What one pass reads beside the facts. -/
structure ImproveRun where
  /-- `datetime.now(UTC)`. -/
  now : Instant
  /-- `now or temporal.now_iso()`. -/
  stamp : String
  /-- The clock of the writes. -/
  moment : WriteMoment
  /-- Whether the store has a search index that is rebuilt. -/
  rebuilds : Bool

/-- The report of a pass. -/
structure ImproveReport where
  deduplicated : ℕ
  expired : ℕ
  indexRebuilt : Bool
deriving DecidableEq

/-- The facts of a store, by id. -/
abbrev Facts := Table fun f : Fact => f.id

/-- The limit of the listing. -/
def improveLimit : ℕ := 100000

/-- `_updated`. -/
def Fact.updated (f : Fact) : String := textOr f.updatedAt

/-- A fact that is stamped as invalid. -/
def Fact.retire (stamp : String) (f : Fact) : Fact := { f with invalidAt := .str stamp }

/-- A fact with the times that it came without. -/
def Fact.filled (moment : WriteMoment) (f : Fact) : Fact :=
  { f with toMemoryNode := LiteWriter.fillTimes moment f.toMemoryNode }

/-- `add_fact`, as far as the facts go. -/
def persistFact (moment : WriteMoment) (facts : Facts) (f : Fact) : Facts :=
  facts.set (f.filled moment)

section Pass

variable (te : TemporalEnv) (run : ImproveRun)

/-- Whether the shelf life of a fact is over. -/
def lapsed (f : Fact) : Bool := (te.parse f.validUntil).any fun shelf => shelf ≤ run.now

/-- One fact of the listing, entered in its slot or stamped as expired. -/
def triage (acc : Groups (String × String) Fact × List Fact) (f : Fact) :
    Groups (String × String) Fact × List Fact :=
  if f.invalidAt ≠ .null then acc
  else if lapsed te run f then (acc.1, acc.2 ++ [f.retire run.stamp])
  else (acc.1.enter (factSlot te.toEnv f) f, acc.2)

/-- The facts of a slot that are superseded. -/
def supersededIn (bucket : List Fact) : List Fact :=
  if bucket.length < 2 then []
  else (newestFirst Fact.updated bucket).tail.map (Fact.retire run.stamp)

/-- `improve_facts`. -/
def improveFacts (facts : Facts) : Facts × ImproveReport :=
  let sorted := (facts.rows.take improveLimit).foldl (triage te run) ([], [])
  let dedupUpdates := sorted.1.flatMap fun bucket => supersededIn run bucket.2
  ((dedupUpdates ++ sorted.2).foldl (persistFact run.moment) facts,
    ⟨dedupUpdates.length, sorted.2.length, run.rebuilds⟩)

/-! ## What the pass does to each fact -/

variable (facts : Facts)

/-- A listed fact that competes for its slot. -/
def Live (f : Fact) : Prop :=
  f ∈ facts.rows.take improveLimit ∧ f.invalidAt = .null ∧ lapsed te run f = false

instance (f : Fact) : Decidable (Live te run facts f) := by unfold Live; infer_instance

/-- The facts that compete for a slot. -/
def slotFacts (slot : String × String) : List Fact :=
  (facts.rows.take improveLimit).filter fun f =>
    f.invalidAt = .null ∧ lapsed te run f = false ∧ factSlot te.toEnv f = slot

/-- A fact that stays valid: if it is listed, it is the newest of its slot. -/
def Survives (f : Fact) : Prop :=
  f.invalidAt = .null ∧ (f ∈ facts.rows.take improveLimit →
    lapsed te run f = false ∧
      (slotFacts te run facts (factSlot te.toEnv f)).argmax Fact.updated = some f)

/-- A fact that the pass stamps. -/
def Retires (f : Fact) : Prop :=
  f ∈ facts.rows.take improveLimit ∧ f.invalidAt = .null ∧
    (lapsed te run f = true ∨
      (slotFacts te run facts (factSlot te.toEnv f)).argmax Fact.updated ≠ some f)

instance (f : Fact) : Decidable (Retires te run facts f) := by unfold Retires; infer_instance

/-- A fact after the pass. -/
def settled (f : Fact) : Fact :=
  if Retires te run facts f then (f.retire run.stamp).filled run.moment else f

end Pass

/-! ## The pass, fact by fact -/

section Settle

variable {te : TemporalEnv} {run : ImproveRun} {facts : Facts}

/-- The loop sorts the facts that are not invalid into slots and expired ones. -/
theorem foldl_triage (listed : List Fact)
    (acc : Groups (String × String) Fact × List Fact) :
    listed.foldl (triage te run) acc =
      ((listed.filter fun f => f.invalidAt = .null ∧ lapsed te run f = false).foldl
          (fun g f => g.enter (factSlot te.toEnv f) f) acc.1,
        acc.2 ++ (listed.filter fun f => f.invalidAt = .null ∧ lapsed te run f = true).map
          (Fact.retire run.stamp)) := by
  induction listed generalizing acc with
  | nil => simp
  | cons f listed ih =>
    rw [List.foldl_cons, ih]
    by_cases hinvalid : f.invalidAt = .null
    · cases hlapsed : lapsed te run f with
      | true => simp [triage, hinvalid, hlapsed]
      | false => simp [triage, hinvalid, hlapsed]
    · simp [triage, hinvalid]

/-- The facts of a slot that are superseded are all but the newest. -/
theorem mem_supersededIn {bucket : List Fact} (hd : bucket.Nodup) {g : Fact} :
    g ∈ supersededIn run bucket ↔
      ∃ l ∈ bucket, bucket.argmax Fact.updated ≠ some l ∧ g = l.retire run.stamp := by
  have htail : supersededIn run bucket =
      (newestFirst Fact.updated bucket).tail.map (Fact.retire run.stamp) := by
    unfold supersededIn
    split_ifs with hshort
    · have hlen := (perm_newestFirst Fact.updated bucket).length_eq
      have hnil : (newestFirst Fact.updated bucket).tail = [] :=
        List.length_eq_zero_iff.mp (by rw [List.length_tail]; omega)
      rw [hnil, List.map_nil]
    · rfl
  rw [htail, List.mem_map]
  constructor
  · rintro ⟨l, hl, rfl⟩
    obtain ⟨hmem, hne⟩ := (mem_tail_newestFirst Fact.updated hd).mp hl
    exact ⟨l, hmem, hne, rfl⟩
  · rintro ⟨l, hmem, hne, rfl⟩
    exact ⟨l, (mem_tail_newestFirst Fact.updated hd).mpr ⟨hmem, hne⟩, rfl⟩

/-- No fact is in the listing twice. -/
theorem nodup_listed (facts : Facts) : (facts.rows.take improveLimit).Nodup :=
  (List.Nodup.of_map _ facts.nodup).sublist (List.take_sublist _ _)

/-- What the pass writes are the facts that it retires. -/
theorem mem_updates {g : Fact} :
    g ∈ (((facts.rows.take improveLimit).foldl (triage te run) ([], [])).1.flatMap
        fun bucket => supersededIn run bucket.2) ++
      ((facts.rows.take improveLimit).foldl (triage te run) ([], [])).2 ↔
      ∃ f, Retires te run facts f ∧ g = f.retire run.stamp := by
  have hlive : ∀ slot, (((facts.rows.take improveLimit).filter fun f =>
      f.invalidAt = .null ∧ lapsed te run f = false).filter fun f => factSlot te.toEnv f = slot) =
      slotFacts te run facts slot := by
    intro slot
    rw [List.filter_filter]
    refine List.filter_congr fun f _ => ?_
    simp [and_comm, and_assoc]
  have hbucket : ∀ slot, (slotFacts te run facts slot).Nodup :=
    fun slot => (nodup_listed facts).filter _
  rw [foldl_triage, List.mem_append, List.mem_flatMap, List.nil_append]
  change (∃ row ∈ Groups.ofList (factSlot te.toEnv) _, g ∈ supersededIn run row.2) ∨ _ ↔ _
  constructor
  · rintro (⟨⟨slot, bucket⟩, hrow, hg⟩ | hg)
    · obtain ⟨hbucketEq, -⟩ := (Groups.mem_ofList _).mp hrow
      rw [hlive] at hbucketEq
      subst hbucketEq
      obtain ⟨l, hl, hne, rfl⟩ := (mem_supersededIn (hbucket slot)).mp hg
      obtain ⟨hlisted, hl⟩ := List.mem_filter.mp hl
      obtain ⟨hinvalid, -, rfl⟩ := of_decide_eq_true hl
      exact ⟨l, ⟨hlisted, hinvalid, .inr hne⟩, rfl⟩
    · obtain ⟨f, hf, rfl⟩ := List.mem_map.mp hg
      obtain ⟨hlisted, hf⟩ := List.mem_filter.mp hf
      obtain ⟨hinvalid, hlapsed⟩ := of_decide_eq_true hf
      exact ⟨f, ⟨hlisted, hinvalid, .inl hlapsed⟩, rfl⟩
  · rintro ⟨f, ⟨hlisted, hinvalid, hwhy⟩, rfl⟩
    cases hlapsed : lapsed te run f with
    | true =>
      refine .inr (List.mem_map.mpr ⟨f, List.mem_filter.mpr ⟨hlisted, ?_⟩, rfl⟩)
      exact decide_eq_true ⟨hinvalid, hlapsed⟩
    | false =>
      have hne := hwhy.resolve_left (by simp [hlapsed])
      have hmem : f ∈ slotFacts te run facts (factSlot te.toEnv f) :=
        List.mem_filter.mpr ⟨hlisted, decide_eq_true ⟨hinvalid, hlapsed, rfl⟩⟩
      refine .inl ⟨(factSlot te.toEnv f, slotFacts te run facts (factSlot te.toEnv f)),
        (Groups.mem_ofList _).mpr ⟨(hlive _).symm, List.ne_nil_of_mem hmem⟩, ?_⟩
      exact (mem_supersededIn (hbucket _)).mpr ⟨f, hmem, hne, rfl⟩

theorem settled_id (f : Fact) : (settled te run facts f).id = f.id := by
  unfold settled
  split_ifs
  · rfl
  · rfl

/-- A fact that is retired was listed, and so it is among the facts. -/
theorem Retires.mem {f : Fact} (h : Retires te run facts f) : f ∈ facts.rows :=
  List.mem_of_mem_take h.1

/-- The pass settles every fact in its place. -/
theorem improveFacts_rows (te : TemporalEnv) (run : ImproveRun) (facts : Facts) :
    (improveFacts te run facts).1.rows = facts.rows.map (settled te run facts) := by
  have hset : ∀ (gs : List Fact) (t : Facts), gs.foldl (persistFact run.moment) t =
      (gs.map (Fact.filled run.moment)).foldl Table.set t := by
    intro gs
    induction gs with
    | nil => exact fun _ => rfl
    | cons g gs ih => exact fun t => ih _
  change (List.foldl (persistFact run.moment) facts _).rows = _
  rw [hset, Table.rows_foldl_set]
  · refine List.map_congr_left fun f hf => ?_
    -- Every update under the id of `f` is one of `f`.
    have hsame : ∀ g, Retires te run facts g → g.id = f.id → g = f := fun g hg hid =>
      List.inj_on_of_nodup_map facts.nodup hg.mem hf hid
    rw [Table.foldl_replace (y := settled te run facts f) (settled_id f)]
    · by_cases hretires : Retires te run facts f
      · rw [if_pos]
        exact ⟨_, List.mem_map.mpr ⟨_, mem_updates.mpr ⟨f, hretires, rfl⟩, rfl⟩, rfl⟩
      · rw [if_neg, settled, if_neg hretires]
        rintro ⟨u, hu, hid⟩
        obtain ⟨_, hupdate, rfl⟩ := List.mem_map.mp hu
        obtain ⟨g, hg, rfl⟩ := mem_updates.mp hupdate
        exact hretires (hsame g hg hid ▸ hg)
    · intro u hu hid
      obtain ⟨_, hupdate, rfl⟩ := List.mem_map.mp hu
      obtain ⟨g, hg, rfl⟩ := mem_updates.mp hupdate
      obtain rfl := hsame g hg hid
      rw [settled, if_pos hg]
  · intro u hu
    obtain ⟨_, hupdate, rfl⟩ := List.mem_map.mp hu
    obtain ⟨g, hg, rfl⟩ := mem_updates.mp hupdate
    exact List.mem_map.mpr ⟨g, hg.mem, rfl⟩

/-- Whether a fact is invalid after the pass. -/
theorem settled_valid_iff {f : Fact} : (settled te run facts f).invalidAt = .null ↔
    f.invalidAt = .null ∧ ¬ Retires te run facts f := by
  unfold settled
  split_ifs with h
  · exact ⟨fun hno => (by cases hno), fun hno => absurd h hno.2⟩
  · exact ⟨fun hnull => ⟨hnull, h⟩, fun hnull => hnull.1⟩

/-- A fact that is not invalid is retired or survives. -/
theorem survives_iff {f : Fact} : Survives te run facts f ↔
    f.invalidAt = .null ∧ ¬ Retires te run facts f := by
  unfold Survives Retires
  refine and_congr_right fun hnull => ?_
  constructor
  · rintro h ⟨hlisted, -, hlapsed | hne⟩
    · rw [(h hlisted).1] at hlapsed
      cases hlapsed
    · exact hne (h hlisted).2
  · intro h hlisted
    constructor
    · by_contra hlapsed
      exact h ⟨hlisted, hnull, .inl (by simpa using hlapsed)⟩
    · by_contra hne
      exact h ⟨hlisted, hnull, .inr hne⟩

end Settle

/-! ## Maintenance within scopes -/

/-- The principal that a node belongs to. -/
def principalOf (n : MemoryNode) : Value × Value :=
  (n.tenantId, if n.ownerSubjectId = .null then n.owner else n.ownerSubjectId)

/-- Two facts of one principal whose capture scopes match. -/
def SameScope (env : Env) (f g : Fact) : Prop :=
  principalOf f.toMemoryNode = principalOf g.toMemoryNode ∧
    captureScopesMatch env f.toMemoryNode g.toMemoryNode = true

theorem SameScope.symm {env : Env} {f g : Fact} (h : SameScope env f g) : SameScope env g f :=
  ⟨h.1.symm, captureScopesMatch_comm env _ _ ▸ h.2⟩

section Maintain

variable (te : TemporalEnv) (run : ImproveRun) (facts : Facts)

/-- A pass maintains the facts, each within its scope and its time. -/
structure Maintained : Prop where
  /-- At most one fact of a slot and a scope is left that is not invalid. -/
  single : ∀ f ∈ (improveFacts te run facts).1.rows, ∀ g ∈ (improveFacts te run facts).1.rows,
    f.invalidAt = .null → g.invalidAt = .null →
    factSlot te.toEnv f = factSlot te.toEnv g → SameScope te.toEnv f g → f.id = g.id
  /-- No fact is deleted. -/
  kept : (improveFacts te run facts).1.rows.map (fun f => f.id) = facts.rows.map fun f => f.id
  /-- A fact that is retired before its time is over is retired for one of its scope that holds
  already: the one of its slot that is kept. -/
  caused : ∀ w l, Live te run facts w → Live te run facts l →
    factSlot te.toEnv l = factSlot te.toEnv w →
    (improveFacts te run facts).1.get? w.id = some w →
    (∀ l', (improveFacts te run facts).1.get? l.id = some l' → l'.invalidAt ≠ .null) →
    SameScope te.toEnv w l ∧ te.isValidAt w run.now = true
  /-- A second pass changes nothing. -/
  stable : improveFacts te run (improveFacts te run facts).1 =
    ((improveFacts te run facts).1, ⟨0, 0, run.rebuilds⟩)

/-- The facts of each slot agree with the newest. -/
structure SlotsAgree : Prop where
  /-- The newest fact of a slot holds already, and is of the scope of each other that competes. -/
  newest : ∀ w l, Live te run facts l → l ≠ w →
    (slotFacts te run facts (factSlot te.toEnv l)).argmax Fact.updated = some w →
    SameScope te.toEnv w l ∧ te.isValidAt w run.now = true
  /-- A fact beyond the listing is alone in its slot and its scope. -/
  beyond : ∀ f ∈ facts.rows, f ∉ facts.rows.take improveLimit → f.invalidAt = .null →
    ∀ g ∈ facts.rows, Survives te run facts g → g ≠ f →
      factSlot te.toEnv f = factSlot te.toEnv g → ¬ SameScope te.toEnv f g

variable {te run facts}

/-- The newest fact of a slot is one that competes for it. -/
theorem live_of_argmax {slot : String × String} {w : Fact}
    (h : (slotFacts te run facts slot).argmax Fact.updated = some w) :
    Live te run facts w ∧ factSlot te.toEnv w = slot := by
  obtain ⟨hlisted, hw⟩ := List.mem_filter.mp (List.argmax_mem h)
  obtain ⟨hnull, hlapsed, hslot⟩ := of_decide_eq_true hw
  exact ⟨⟨hlisted, hnull, hlapsed⟩, hslot⟩

/-- What the pass leaves under the id of a fact. -/
theorem get?_improve {f : Fact} (hf : f ∈ facts.rows) :
    (improveFacts te run facts).1.get? f.id = some (settled te run facts f) := by
  have hmem : settled te run facts f ∈ (improveFacts te run facts).1.rows := by
    rw [improveFacts_rows]
    exact List.mem_map_of_mem hf
  have hget := (Table.mem_rows_iff _ _).mp hmem
  rw [settled_id] at hget
  exact hget

/-- A fact that is not invalid after a pass is one that survives it. -/
theorem mem_improve_valid {f : Fact} (hf : f ∈ (improveFacts te run facts).1.rows)
    (hnull : f.invalidAt = .null) : f ∈ facts.rows ∧ Survives te run facts f := by
  rw [improveFacts_rows] at hf
  obtain ⟨g, hg, rfl⟩ := List.mem_map.mp hf
  have hvalid := settled_valid_iff.mp hnull
  have hsame : settled te run facts g = g := if_neg hvalid.2
  rw [hsame]
  exact ⟨hg, survives_iff.mpr hvalid⟩

/-- After a pass there is nothing to retire. -/
theorem not_retires_improve (f : Fact) : ¬ Retires te run (improveFacts te run facts).1 f := by
  rintro ⟨hlisted, hnull, hwhy⟩
  have htake : ∀ g, g ∈ (improveFacts te run facts).1.rows.take improveLimit →
      g.invalidAt = .null → g ∈ facts.rows.take improveLimit ∧ Survives te run facts g := by
    intro g hg hgnull
    refine ⟨?_, (mem_improve_valid (List.mem_of_mem_take hg) hgnull).2⟩
    rw [improveFacts_rows, ← List.map_take] at hg
    obtain ⟨g₀, hg₀, rfl⟩ := List.mem_map.mp hg
    have hsame : settled te run facts g₀ = g₀ := if_neg (settled_valid_iff.mp hgnull).2
    rwa [hsame]
  obtain ⟨hold, -, hsurvives⟩ := htake f hlisted hnull
  obtain ⟨hlapsed, hnewest⟩ := hsurvives hold
  -- The slot of `f` has no other fact that is not invalid.
  have halone : ∀ g ∈ slotFacts te run (improveFacts te run facts).1 (factSlot te.toEnv f),
      g = f := by
    intro g hg
    obtain ⟨hglisted, hg⟩ := List.mem_filter.mp hg
    obtain ⟨hgnull, -, hslot⟩ := of_decide_eq_true hg
    obtain ⟨hgold, -, hgsurvives⟩ := htake g hglisted hgnull
    have hgnewest := (hgsurvives hgold).2
    rw [hslot, hnewest] at hgnewest
    exact (Option.some.inj hgnewest).symm
  rcases hwhy with hwhy | hwhy
  · rw [hlapsed] at hwhy
    cases hwhy
  · refine hwhy ?_
    have hmem : f ∈ slotFacts te run (improveFacts te run facts).1 (factSlot te.toEnv f) :=
      List.mem_filter.mpr ⟨hlisted, decide_eq_true ⟨hnull, hlapsed, rfl⟩⟩
    cases hargmax : (slotFacts te run (improveFacts te run facts).1
        (factSlot te.toEnv f)).argmax Fact.updated with
    | none =>
      rw [List.argmax_eq_none.mp hargmax] at hmem
      exact (List.not_mem_nil hmem).elim
    | some g => rw [halone g (List.argmax_mem hargmax)]

/-- A second pass changes nothing. -/
theorem improve_stable (te : TemporalEnv) (run : ImproveRun) (facts : Facts) :
    improveFacts te run (improveFacts te run facts).1 =
      ((improveFacts te run facts).1, ⟨0, 0, run.rebuilds⟩) := by
  have hnone : ∀ t : Facts, (∀ f, ¬ Retires te run t f) →
      improveFacts te run t = (t, ⟨0, 0, run.rebuilds⟩) := by
    intro t ht
    have hupdates := List.eq_nil_iff_forall_not_mem.mpr fun g hg => by
      obtain ⟨f, hf, -⟩ := mem_updates.mp hg
      exact ht f hf
    obtain ⟨hdedup, hexpired⟩ := List.append_eq_nil_iff.mp hupdates
    unfold improveFacts
    dsimp only
    rw [hdedup, hexpired]
    rfl
  exact hnone _ not_retires_improve

/-- A pass maintains the facts within their scopes and times exactly when the newest fact of each
slot holds already and is of the scope of all that compete with it. -/
theorem maintained_iff (te : TemporalEnv) (run : ImproveRun) (facts : Facts) :
    Maintained te run facts ↔ SlotsAgree te run facts := by
  have hinvalid : ∀ {f : Fact}, f ∈ facts.rows → Retires te run facts f →
      ∀ f', (improveFacts te run facts).1.get? f.id = some f' → f'.invalidAt ≠ .null := by
    intro f hf hretires f' hf' hnull
    rw [get?_improve hf] at hf'
    rw [← Option.some.inj hf'] at hnull
    exact (settled_valid_iff.mp hnull).2 hretires
  have hstays : ∀ {f : Fact}, f ∈ facts.rows → Survives te run facts f →
      (improveFacts te run facts).1.get? f.id = some f := by
    intro f hf hsurvives
    rw [get?_improve hf, settled, if_neg (survives_iff.mp hsurvives).2]
  constructor
  · intro h
    refine ⟨fun w l hl hne hw => ?_, fun f hf hbeyond hnull g hg hsurvives hne hslot hscope => ?_⟩
    · obtain ⟨hwlive, hwslot⟩ := live_of_argmax hw
      have hwmem := List.mem_of_mem_take hwlive.1
      have hlmem := List.mem_of_mem_take hl.1
      have hsurvives : Survives te run facts w :=
        ⟨hwlive.2.1, fun _ => ⟨hwlive.2.2, by rw [hwslot]; exact hw⟩⟩
      have hretires : Retires te run facts l := by
        refine ⟨hl.1, hl.2.1, .inr ?_⟩
        rw [hw]
        exact fun hsame => hne (Option.some.inj hsame).symm
      exact h.caused w l hwlive hl hwslot.symm (hstays hwmem hsurvives) (hinvalid hlmem hretires)
    · have hfs : Survives te run facts f := ⟨hnull, fun hlisted => absurd hlisted hbeyond⟩
      have hid := h.single f (Table.mem_of_get? (hstays hf hfs)) g
        (Table.mem_of_get? (hstays hg hsurvives)) hnull hsurvives.1 hslot hscope
      exact hne (List.inj_on_of_nodup_map facts.nodup hg hf hid.symm)
  · intro h
    refine ⟨fun f hf g hg hfnull hgnull hslot hscope => ?_, ?_,
      fun w l hw hl hslot hwstays hlgone => ?_, improve_stable te run facts⟩
    · obtain ⟨hfmem, hfs⟩ := mem_improve_valid hf hfnull
      obtain ⟨hgmem, hgs⟩ := mem_improve_valid hg hgnull
      by_contra hne
      have hfg : f ≠ g := fun hsame => hne (congrArg (fun f : Fact => f.id) hsame)
      by_cases hflisted : f ∈ facts.rows.take improveLimit
      · by_cases hglisted : g ∈ facts.rows.take improveLimit
        · have hgnewest := (hgs.2 hglisted).2
          rw [← hslot, (hfs.2 hflisted).2] at hgnewest
          exact hfg (Option.some.inj hgnewest)
        · exact h.beyond g hgmem hglisted hgnull f hfmem hfs hfg hslot.symm hscope.symm
      · exact h.beyond f hfmem hflisted hfnull g hgmem hgs hfg.symm hslot hscope
    · rw [improveFacts_rows, List.map_map]
      exact List.map_congr_left fun f _ => settled_id f
    · have hlmem := List.mem_of_mem_take hl.1
      have hwmem := List.mem_of_mem_take hw.1
      have hwsurvives : Survives te run facts w := by
        rw [get?_improve hwmem] at hwstays
        have hnull := hw.2.1
        rw [← Option.some.inj hwstays] at hnull
        exact survives_iff.mpr (settled_valid_iff.mp hnull)
      have hwnewest := (hwsurvives.2 hw.1).2
      rw [← hslot] at hwnewest
      refine h.newest w l hl (fun hsame => ?_) hwnewest
      subst hsame
      exact hlgone l hwstays hl.2.1

end Maintain

/-! ## Two tenants -/

/-- An environment for texts in lower case without outer blanks, and for facts without times. -/
def plainTemporal : TemporalEnv where
  lower := id
  strip := id
  fromisoformat := fun _ => none
  instant := fun _ => none

theorem improveTime_valid : validTime 2026 1 1 0 0 0 0 := by decide

/-- One pass. -/
def plainRun : ImproveRun where
  now := 0
  stamp := "2026-01-01T00:00:00+00:00"
  moment :=
    let t : Timestamp := ⟨2026, 1, 1, 0, 0, 0, 0, improveTime_valid⟩
    ⟨t, t, t, ""⟩
  rebuilds := false

/-- What a tenant has stated about its city. -/
def cityOf (id tenant city updatedAt : String) : Fact :=
  { Fact.make id "user" "city" city with
    toMemoryNode := { MemoryNode.make id "fact" with
      tenantId := .str tenant
      ownerSubjectId := .str "user"
      updatedAt := .str updatedAt } }

/-- The facts of two tenants in one store. -/
def twoTenants : Facts :=
  (Table.empty.set (cityOf "f1" "acme" "Bonn" "2025-01-01T00:00:00+00:00")).set
    (cityOf "f2" "zeta" "Rome" "2025-02-01T00:00:00+00:00")

/-- The fact of one tenant is retired for that of the other. -/
theorem two_tenants_not_maintained : ¬ Maintained plainTemporal plainRun twoTenants := by
  intro h
  have hcaused := h.caused (cityOf "f2" "zeta" "Rome" "2025-02-01T00:00:00+00:00")
    (cityOf "f1" "acme" "Bonn" "2025-01-01T00:00:00+00:00") (by decide) (by decide) rfl
    (by decide)
  have hscope := (hcaused fun l' hl' hnull => ?_).1.1
  · exact absurd hscope (by decide)
  · have hget : ((improveFacts plainTemporal plainRun twoTenants).1.get? "f1").all
        (fun f => f.invalidAt ≠ .null) = true := by decide
    have hl'' : (improveFacts plainTemporal plainRun twoTenants).1.get? "f1" = some l' := hl'
    rw [hl''] at hget
    exact of_decide_eq_true hget hnull

end Memplex
