import Memplex.Lib.Newest
import Memplex.Lite.Belongs
import Memplex.Retrieval.Survivors

/-!
# The compaction pipeline

A compaction run takes the functions of the store through five stages, each on a snapshot of what
the one before has left: facts are extracted (which changes nothing), duplicates removed, oversized
roles marked, stale and doubtful functions pruned, and old functions that nobody has accessed moved
to the archive. Each stage reads the clock for itself. The effects that cannot be undone are
recorded in their order: the files that are written to the archive and the functions that leave the
store.

The confidence and the scores of role values are floats; how they compare is a parameter, as is the
outcome of each write to the archive. An access count is an integer, and the times of a stored
function are texts, or missing. The store is the JSON store, which applies the changes of a stage at
once: `applyCompaction_functions` connects the stages with its method.
-/

namespace Memplex

open Lib Lib.Mutator

/-- The settings of a compaction, apart from its two thresholds that are floats. -/
structure CompactionConfig where
  chunkThreshold : ℤ
  fieldMaxValues : ℤ
  needsReviewTtlDays : ℤ
  pruneMaxAgeDays : ℤ
  pruneMinAccessCount : ℤ
  dedupUseFaiss : Bool

/-- What a compaction uses besides the language. -/
structure CompactionEnv extends DedupEnv where
  /-- The instant of `datetime.fromisoformat(text)`, in UTC where the text names no zone; `none` is
  its error. -/
  instant : String → Option Instant
  /-- `datetime.isoformat` of a reading of the clock. -/
  isoformat : Instant → String
  /-- `str(datetime.fromisoformat(text))`. -/
  datetimeText : String → String
  /-- `weight * observation` of a role value, which counts as one where it has no observation. -/
  score : FieldValue → ℚ
  /-- `confidence < prune_confidence_threshold`. -/
  lowConfidence : Value → Bool

/-- What the archive directory does with the files of a run. -/
structure ArchiveDisk where
  /-- Whether the directory can be made and made durable. -/
  prepared : Bool
  /-- Whether a function can be serialized and its file written, renamed and made durable. -/
  takes : Function → Bool

/-- The readings of the clock: at the start of a run, and in the two stages that compare times. -/
structure CompactionClock where
  start : Instant
  prune : Instant
  archive : Instant

/-- What a run does beyond the fields of functions. -/
inductive CompactionEffect where
  /-- A file is written to the archive. -/
  | archived (file : String) (body : Members)
  /-- A function is removed from the store. -/
  | removed (id : String)
deriving DecidableEq

/-- The functions of the store, and what the run has done. -/
abbrev CompactionState := Functions × List CompactionEffect

/-! ## Ages -/

/-- The time of a field, where it is a text that parses. -/
def CompactionEnv.timeOf (env : CompactionEnv) (value : Value) : Option Instant :=
  (asString value).bind env.instant

/-- `(now - then).days`. -/
def ageDays (now then_ : Instant) : ℤ := (now - then_) / 86400000000

/-- `access_count`. -/
def accessCount (f : Function) : ℤ :=
  match f.accessCount with
  | .int n => n
  | _ => 0

variable (env : CompactionEnv) (cfg : CompactionConfig)

/-- Whether a function was last updated longer ago than the age threshold. -/
def isStale (now : Instant) (f : Function) : Bool :=
  (env.timeOf f.updatedAt).any fun updated => cfg.pruneMaxAgeDays < ageDays now updated

/-- Whether the review that a function needs is overdue. -/
def reviewExpired (now : Instant) (f : Function) : Bool :=
  f.needsReview.truthy &&
    match env.timeOf f.needsReviewUntil with
    | some reviewUntil => reviewUntil < now
    | none =>
      (env.timeOf f.createdAt).any fun created => cfg.needsReviewTtlDays < ageDays now created

/-! ## The stages -/

/-- What `apply_compaction` makes of the functions. -/
def compactTable (functions : Functions) (replacements : List Function) (deleteIds : List String) :
    Functions :=
  replacements.foldl Table.set (deleteIds.foldl Table.erase functions)

/-- The deduplicator of the pipeline. -/
def CompactionConfig.deduplicator (cfg : CompactionConfig) : MemoryDeduplicator :=
  ⟨.both, cfg.chunkThreshold, cfg.dedupUseFaiss⟩

/-- The functions that the deduplication leaves. -/
def dedupSurvivors (functions : Functions) : List Function :=
  (deduplicate cfg.deduplicator env.toDedupEnv functions.rows).deduplicated

/-- `_execute_dedup`. -/
def executeDedup (s : CompactionState) : CompactionState :=
  let survivors := dedupSurvivors env cfg s.1
  let deleteIds := (s.1.rows.map fun f => f.id).filter fun id => id ∉ survivors.map fun f => f.id
  (compactTable s.1 survivors deleteIds, s.2 ++ deleteIds.map .removed)

/-- The same change of the values of each role. -/
def Function.mapRoles (f : Function) (change : List FieldValue → List FieldValue) : Function :=
  { f with
    trigger := change f.trigger
    condition := change f.condition
    action := change f.action
    benefit := change f.benefit }

/-- `values[max_values:]` begins here. -/
def sliceStart (maxValues : ℤ) (values : List FieldValue) : ℕ :=
  if maxValues < 0 then (values.length + maxValues).toNat else maxValues.toNat

/-- The values of a role in descending order of their scores, those beyond the limit deprecated. -/
def summarizeRole (values : List FieldValue) : List FieldValue :=
  if values.length ≤ cfg.fieldMaxValues then values
  else
    let sorted := newestFirst env.score values
    let start := sliceStart cfg.fieldMaxValues values
    sorted.take start ++ (sorted.drop start).map fun fv => { fv with status := .str "deprecated" }

/-- The number of values of a role that become deprecated. -/
def trimmedCount (values : List FieldValue) : ℕ :=
  if values.length ≤ cfg.fieldMaxValues then 0
  else
    ((newestFirst env.score values).drop (sliceStart cfg.fieldMaxValues values)).countP
      fun fv => fv.status ≠ .str "deprecated"

/-- `_execute_summarize`: the functions are written where a value has become deprecated. -/
def executeSummarize (s : CompactionState) : CompactionState :=
  let trimmed := s.1.rows.any fun f =>
    Role.all.any fun role => trimmedCount env cfg (f.roleValues role) ≠ 0
  if trimmed then
    (compactTable s.1 (s.1.rows.map fun f => f.mapRoles (summarizeRole env cfg)) [], s.2)
  else s

/-- Whether the prune stage removes a function. -/
def shouldPrune (now : Instant) (f : Function) : Bool :=
  env.lowConfidence f.confidence ||
    (isStale env cfg now f && accessCount f < cfg.pruneMinAccessCount) ||
    reviewExpired env cfg now f

/-- A function without its deprecated values. -/
def Function.withoutDeprecated (f : Function) : Function :=
  f.mapRoles fun values => values.filter fun fv => fv.status ≠ .str "deprecated"

/-- `_execute_prune`: the functions are written where one is removed or has lost a value. -/
def executePrune (now : Instant) (s : CompactionState) : CompactionState :=
  let deleteIds := (s.1.rows.filter (shouldPrune env cfg now)).map fun f => f.id
  let kept := (s.1.rows.filter fun f => !shouldPrune env cfg now f).map Function.withoutDeprecated
  let fieldsTrimmed := s.1.rows.any fun f =>
    !shouldPrune env cfg now f && decide (f.withoutDeprecated ≠ f)
  if deleteIds ≠ [] ∨ fieldsTrimmed then
    (compactTable s.1 kept deleteIds, s.2 ++ deleteIds.map .removed)
  else s

/-- The name of a function's file. -/
def archiveFile (f : Function) : String := f.id ++ ".json"

/-- The body of a function's file. -/
def archiveBody (now : Instant) (f : Function) : Members :=
  f.toDict ++ [("archived_at", .str (env.isoformat now)),
    ("original_updated_at", .str (env.datetimeText (textOf f.updatedAt)))]

/-- The functions that the archive stage moves. -/
def archivable (disk : ArchiveDisk) (now : Instant) (functions : Functions) : List Function :=
  functions.rows.filter fun f =>
    isStale env cfg now f && accessCount f = 0 && disk.takes f

/-- `_execute_archive`: the functions that were written are removed, when all are. -/
def executeArchive (disk : ArchiveDisk) (now : Instant) (s : CompactionState) : CompactionState :=
  if disk.prepared then
    let old := archivable env cfg disk now s.1
    (compactTable s.1 [] (old.map fun f => f.id),
      s.2 ++ old.map (fun f => .archived (archiveFile f) (archiveBody env now f)) ++
        old.map fun f => .removed f.id)
  else s

/-- A complete run. The first stage changes nothing. -/
def runPipeline (disk : ArchiveDisk) (clock : CompactionClock) (functions : Functions) :
    CompactionState :=
  executeArchive env cfg disk clock.archive
    (executePrune env cfg clock.prune
      (executeSummarize env cfg (executeDedup env cfg (functions, []))))

/-! ## The store's method -/

/-- The replacements of a compaction are assigned one after the other. -/
theorem compactReplace_functions (W : LiteWriter) (replacements : List Function)
    (functions : Functions) :
    Leaves (fun m : LiteMemory => m.functions = functions)
      (replacements.forM W.compactReplace)
      (fun _ m => m.functions = replacements.foldl Table.set functions) fun _ => True := by
  induction replacements generalizing functions with
  | nil => exact leaves_pure fun _ h => h
  | cons f replacements ih =>
    refine leaves_bind (Q := fun _ m => m.functions = functions.set f) ?_ fun _ => ih _
    unfold LiteWriter.compactReplace
    refine leaves_bind (Q := fun _ m => m.functions = functions.set f)
      (leaves_modify fun m h => ?_) fun _ => ?_
    · exact congrArg (fun functions : Functions => functions.set f) h
    · refine leaves_bind (leaves_orRaise fun _ _ _ _ => trivial) fun norm =>
        leaves_modify fun m h => ?_
      rw [LiteMemory.indexName_functions]
      exact h.1

/-- When `apply_compaction` returns, the functions of the store are those of the stages here. -/
theorem applyCompaction_functions (W : LiteWriter) (generation : ℤ) (replacements : List Function)
    (deleteIds : List String) (expectedGeneration : Option ℤ) (functions : Functions) :
    Leaves (fun m : LiteMemory => m.functions = functions)
      (W.applyCompaction generation replacements deleteIds expectedGeneration)
      (fun _ m => m.functions = compactTable functions replacements deleteIds) fun _ => True := by
  unfold LiteWriter.applyCompaction
  refine leaves_bind leaves_get fun m => ?_
  refine leaves_bind (leaves_orRaise fun _ _ _ _ => trivial) fun _ => ?_
  refine leaves_bind (leaves_orRaise fun _ _ _ _ => trivial) fun _ => ?_
  refine leaves_bind (Q := fun _ m => m.functions = deleteIds.foldl Table.erase functions)
    (leaves_set fun m' h => ?_) fun _ => ?_
  · obtain ⟨⟨⟨hfunctions, rfl⟩, -⟩, -⟩ := h
    exact congrArg (fun functions : Functions => deleteIds.foldl Table.erase functions) hfunctions
  · refine leaves_bind (compactReplace_functions W replacements _) fun _ => ?_
    refine leaves_bind (Q := fun _ m => m.functions = compactTable functions replacements deleteIds)
      (leaves_modify fun _ h => h) fun _ => ?_
    exact Leaves.mono (leaves_orRaise fun _ _ _ _ => trivial) (fun _ h => h) (fun _ _ h => h.1)
      fun _ h => h

/-! ## What each stage keeps -/

section Node

variable {f g : Function} (h : g.SameNode f)

include h

theorem Function.SameNode.isStale_eq (now : Instant) :
    isStale env cfg now g = isStale env cfg now f := by
  have hupdated : g.updatedAt = f.updatedAt := by simpa using congrArg MemoryNode.updatedAt h
  unfold isStale
  rw [hupdated]

theorem Function.SameNode.accessCount_eq : accessCount g = accessCount f := by
  have haccess : g.accessCount = f.accessCount := by
    simpa using congrArg MemoryNode.accessCount h
  unfold accessCount
  rw [haccess]

theorem Function.SameNode.shouldPrune_eq (now : Instant) :
    shouldPrune env cfg now g = shouldPrune env cfg now f := by
  have hconfidence : g.confidence = f.confidence := by
    simpa using congrArg MemoryNode.confidence h
  have hreview : g.needsReview = f.needsReview := by
    simpa using congrArg MemoryNode.needsReview h
  have huntil : g.needsReviewUntil = f.needsReviewUntil := by
    simpa using congrArg MemoryNode.needsReviewUntil h
  have hcreated : g.createdAt = f.createdAt := by simpa using congrArg MemoryNode.createdAt h
  unfold shouldPrune reviewExpired
  rw [h.isStale_eq env cfg, h.accessCount_eq, hconfidence, hreview, huntil, hcreated]

end Node

/-- A function of the start is still in the store, perhaps with other values. -/
def Present (functions : Functions) (f : Function) : Prop :=
  ∃ g, functions.get? f.id = some g ∧ g.SameNode f

theorem present_of_mem {functions : Functions} {f : Function} (h : f ∈ functions.rows) :
    Present functions f :=
  ⟨f, (functions.mem_rows_iff f).mp h, .refl f⟩

/-- What a stage writes: a function that it does not delete stays, where all replacements are
functions of the store with other values. -/
theorem Present.compactTable {functions : Functions} {f : Function} (h : Present functions f)
    {replacements : List Function} {deleteIds : List String}
    (hreplaces : ∀ r ∈ replacements, ∃ old ∈ functions.rows, r.SameNode old)
    (hkept : f.id ∉ deleteIds) : Present (compactTable functions replacements deleteIds) f := by
  obtain ⟨g, hget, hnode⟩ := h
  by_cases hin : ∃ r ∈ replacements, r.id = f.id
  · obtain ⟨r, hr, hid, hgetr⟩ :=
      Table.get?_foldl_set_mem (t := deleteIds.foldl Table.erase functions) hin
    obtain ⟨old, hold, hsame⟩ := hreplaces r hr
    -- The function that it replaces is the present one, as ids are distinct.
    have holdget := (functions.mem_rows_iff old).mp hold
    rw [← hsame.id_eq, hid, hget] at holdget
    obtain rfl := Option.some.inj holdget
    exact ⟨r, hgetr, hsame.trans hnode⟩
  · have hout : ∀ r ∈ replacements, r.id ≠ f.id := fun r hr hid => hin ⟨r, hr, hid⟩
    refine ⟨g, ?_, hnode⟩
    unfold Memplex.compactTable
    rw [Table.get?_foldl_set_ne hout, Table.get?_foldl_erase, if_neg hkept]
    exact hget

theorem Function.sameNode_mapRoles (f : Function) (change : List FieldValue → List FieldValue) :
    (f.mapRoles change).SameNode f := rfl

/-- A function that the deduplication leaves is one of the store with other values. -/
theorem dedupSurvivors_sameNode {functions : Functions} {s : Function}
    (h : s ∈ dedupSurvivors env cfg functions) : ∃ old ∈ functions.rows, s.SameNode old :=
  deduplicated_sameNode _ _ h

theorem executeDedup_present {s : CompactionState} {f : Function} (h : Present s.1 f)
    (hkept : ∃ r ∈ dedupSurvivors env cfg s.1, r.id = f.id) :
    Present (executeDedup env cfg s).1 f ∧
      ∃ ids : List String, f.id ∉ ids ∧ (executeDedup env cfg s).2 = s.2 ++ ids.map .removed := by
  have hout : f.id ∉ (s.1.rows.map fun f => f.id).filter
      fun id => id ∉ (dedupSurvivors env cfg s.1).map fun f => f.id := by
    intro hin
    obtain ⟨r, hr, hid⟩ := hkept
    have hnot := of_decide_eq_true (List.mem_filter.mp hin).2
    exact hnot (hid ▸ List.mem_map_of_mem hr)
  exact ⟨h.compactTable (fun r hr => dedupSurvivors_sameNode env cfg hr) hout, _, hout, rfl⟩

theorem executeSummarize_present {s : CompactionState} {f : Function} (h : Present s.1 f) :
    Present (executeSummarize env cfg s).1 f ∧ (executeSummarize env cfg s).2 = s.2 := by
  unfold executeSummarize
  dsimp only
  split_ifs
  · refine ⟨h.compactTable (fun r hr => ?_) List.not_mem_nil, rfl⟩
    obtain ⟨old, hold, rfl⟩ := List.mem_map.mp hr
    exact ⟨old, hold, old.sameNode_mapRoles _⟩
  · exact ⟨h, rfl⟩

theorem executePrune_present {now : Instant} {s : CompactionState} {f : Function}
    (h : Present s.1 f) (hkept : shouldPrune env cfg now f = false) :
    Present (executePrune env cfg now s).1 f ∧
      ∃ ids : List String, f.id ∉ ids ∧
        (executePrune env cfg now s).2 = s.2 ++ ids.map .removed := by
  have hout : f.id ∉ (s.1.rows.filter (shouldPrune env cfg now)).map fun f => f.id := by
    intro hin
    obtain ⟨old, hold, hid⟩ := List.mem_map.mp hin
    obtain ⟨hmem, hprune⟩ := List.mem_filter.mp hold
    obtain ⟨g, hget, hnode⟩ := h
    have holdget := (s.1.mem_rows_iff old).mp hmem
    rw [hid, hget] at holdget
    obtain rfl := Option.some.inj holdget
    rw [hnode.shouldPrune_eq, hkept] at hprune
    exact Bool.noConfusion hprune
  unfold executePrune
  dsimp only
  split_ifs
  · refine ⟨h.compactTable (fun r hr => ?_) hout, _, hout, rfl⟩
    obtain ⟨old, hold, rfl⟩ := List.mem_map.mp hr
    exact ⟨old, (List.mem_filter.mp hold).1, old.sameNode_mapRoles _⟩
  · exact ⟨h, [], List.not_mem_nil, by rw [List.map_nil, List.append_nil]⟩

/-! ## The archive comes first -/

/-- A function that the archive stage is to take: stale at the start and never accessed, and neither
merged into another nor removed for its confidence or its review. -/
structure Archivable (clock : CompactionClock) (functions : Functions) (f : Function) : Prop where
  mem : f ∈ functions.rows
  stale : isStale env cfg clock.start f = true
  unaccessed : accessCount f = 0
  unmerged : ∃ r ∈ dedupSurvivors env cfg functions, r.id = f.id
  confident : env.lowConfidence f.confidence = false
  unexpired : reviewExpired env cfg clock.prune f = false

/-- The file of a function, perhaps with other values, is written to the archive. -/
def WritesArchive (clock : CompactionClock) (f : Function) (effects : List CompactionEffect) :
    Prop :=
  ∃ g : Function, g.SameNode f ∧
    .archived (archiveFile g) (archiveBody env clock.archive g) ∈ effects

/-- A run archives a function before it removes it. -/
structure ArchivesFirst (disk : ArchiveDisk) (clock : CompactionClock) (functions : Functions)
    (f : Function) : Prop where
  /-- Where the function is removed, its file has been written. -/
  before : ∀ pre post, (runPipeline env cfg disk clock functions).2 = pre ++ .removed f.id :: post →
    WritesArchive env clock f pre
  /-- It is written, unless the disk does not take it or the clock goes back. -/
  written : disk.prepared = true → (∀ g, g.id = f.id → disk.takes g = true) →
    clock.start ≤ clock.archive →
    WritesArchive env clock f (runPipeline env cfg disk clock functions).2

/-- What is stale stays so. -/
theorem isStale_mono {now later : Instant} (h : now ≤ later) {f : Function}
    (hs : isStale env cfg now f = true) : isStale env cfg later f = true := by
  unfold isStale at hs ⊢
  cases htime : env.timeOf f.updatedAt with
  | none =>
    rw [htime] at hs
    exact Bool.noConfusion hs
  | some updated =>
    rw [htime] at hs
    have hold : cfg.pruneMaxAgeDays < ageDays now updated := of_decide_eq_true hs
    have hage : ageDays now updated ≤ ageDays later updated :=
      Int.ediv_le_ediv (by norm_num) (Int.sub_le_sub_right h updated)
    exact decide_eq_true (hold.trans_le hage)

/-- What stands in front of an item that the first part of a list does not have. -/
theorem mem_front {α : Type} {xs ys pre post : List α} {x : α} (h : xs ++ ys = pre ++ x :: post)
    (hx : x ∉ xs) : ∀ a ∈ xs, a ∈ pre := by
  intro a ha
  rcases List.append_eq_append_iff.mp h with ⟨mid, rfl, -⟩ | ⟨mid, hxs, hmid⟩
  · exact List.mem_append_left _ ha
  · cases mid with
    | nil =>
      rw [List.append_nil] at hxs
      exact hxs ▸ ha
    | cons b mid =>
      obtain ⟨rfl, -⟩ := List.cons.inj hmid
      exact absurd (hxs ▸ List.mem_append_right _ List.mem_cons_self) hx

/-- The stages before the archive keep a function that the archive stage is to take, where the
prune stage spares functions that nobody has accessed. -/
theorem before_archive (disk : ArchiveDisk) {clock : CompactionClock} {functions : Functions}
    {f : Function} (hmin : cfg.pruneMinAccessCount ≤ 0)
    (h : Archivable env cfg clock functions f) :
    ∃ s, runPipeline env cfg disk clock functions = executeArchive env cfg disk clock.archive s ∧
      Present s.1 f ∧ CompactionEffect.removed f.id ∉ s.2 := by
  have hspared : shouldPrune env cfg clock.prune f = false := by
    unfold shouldPrune
    rw [h.confident, h.unexpired, h.unaccessed]
    simp [hmin]
  have hstart : Present (functions, ([] : List CompactionEffect)).1 f := present_of_mem h.mem
  obtain ⟨hdedup, merged, hmerged, heffects₁⟩ := executeDedup_present env cfg hstart h.unmerged
  obtain ⟨hsummarize, heffects₂⟩ := executeSummarize_present env cfg hdedup
  obtain ⟨hprune, pruned, hpruned, heffects₃⟩ := executePrune_present env cfg hsummarize hspared
  refine ⟨_, rfl, hprune, ?_⟩
  rw [heffects₃, heffects₂, heffects₁]
  simp [hmerged, hpruned]

/-- Where the prune stage spares functions that nobody has accessed, a function that the archive
stage is to take is written to the archive before it is removed. -/
theorem archives_first {disk : ArchiveDisk} {clock : CompactionClock} {functions : Functions}
    {f : Function} (hmin : cfg.pruneMinAccessCount ≤ 0)
    (h : Archivable env cfg clock functions f) :
    ArchivesFirst env cfg disk clock functions f := by
  obtain ⟨s, hrun, ⟨g, hget, hnode⟩, hothers⟩ := before_archive env cfg disk hmin h
  have hgmem := Table.mem_of_get? hget
  refine ⟨fun pre post heq => ?_, fun hprepared htakes hclock => ?_⟩
  · rw [hrun] at heq
    unfold executeArchive at heq
    split_ifs at heq with hprepared
    · -- The removals come last, and are those of the functions that were written.
      dsimp only at heq
      have hfiles : CompactionEffect.removed f.id ∉ s.2 ++
          (archivable env cfg disk clock.archive s.1).map fun f =>
            .archived (archiveFile f) (archiveBody env clock.archive f) := by
        simp [hothers]
      have hremoved : CompactionEffect.removed f.id ∈
          (archivable env cfg disk clock.archive s.1).map fun f => .removed f.id := by
        have hin : CompactionEffect.removed f.id ∈ pre ++ .removed f.id :: post :=
          List.mem_append_right _ List.mem_cons_self
        rw [← heq] at hin
        exact (List.mem_append.mp hin).resolve_left hfiles
      obtain ⟨old, hold, hid⟩ := List.mem_map.mp hremoved
      have holdget := (s.1.mem_rows_iff old).mp (List.mem_filter.mp hold).1
      rw [CompactionEffect.removed.inj hid, hget] at holdget
      obtain rfl := Option.some.inj holdget
      exact ⟨g, hnode, mem_front heq hfiles _
        (List.mem_append_right _ (List.mem_map.mpr ⟨g, hold, rfl⟩))⟩
    · have hin : CompactionEffect.removed f.id ∈ pre ++ .removed f.id :: post :=
        List.mem_append_right _ List.mem_cons_self
      exact absurd (heq ▸ hin) hothers
  · have hold : g ∈ archivable env cfg disk clock.archive s.1 := by
      refine List.mem_filter.mpr ⟨hgmem, ?_⟩
      rw [hnode.isStale_eq env cfg, isStale_mono env cfg hclock h.stale, hnode.accessCount_eq,
        h.unaccessed, htakes g hnode.id_eq]
      rfl
    refine ⟨g, hnode, ?_⟩
    rw [hrun]
    unfold executeArchive
    rw [if_pos hprepared]
    exact List.mem_append_left _ (List.mem_append_right _ (List.mem_map.mpr ⟨g, hold, rfl⟩))

/-- A positive count has the prune stage take every function that the archive stage is to take,
whatever the archive is. -/
theorem pruned_first {clock : CompactionClock} {functions : Functions} {f : Function}
    (hmin : 0 < cfg.pruneMinAccessCount) (hclock : clock.start ≤ clock.prune)
    (h : Archivable env cfg clock functions f) :
    .removed f.id ∈ (executePrune env cfg clock.prune
      (executeSummarize env cfg (executeDedup env cfg (functions, [])))).2 := by
  have hstart : Present (functions, ([] : List CompactionEffect)).1 f := present_of_mem h.mem
  obtain ⟨hdedup, -⟩ := executeDedup_present env cfg hstart h.unmerged
  obtain ⟨⟨g, hget, hnode⟩, -⟩ := executeSummarize_present env cfg hdedup
  generalize executeSummarize env cfg (executeDedup env cfg (functions, [])) = s at *
  have htaken : shouldPrune env cfg clock.prune g = true := by
    rw [hnode.shouldPrune_eq env cfg]
    unfold shouldPrune
    rw [isStale_mono env cfg hclock h.stale, h.unaccessed]
    simp [hmin]
  have hin : f.id ∈ (s.1.rows.filter (shouldPrune env cfg clock.prune)).map fun f => f.id :=
    List.mem_map.mpr ⟨g, List.mem_filter.mpr ⟨Table.mem_of_get? hget, htaken⟩, hnode.id_eq⟩
  unfold executePrune
  dsimp only
  rw [if_pos (.inl (List.ne_nil_of_mem hin))]
  exact List.mem_append_right _ (List.mem_map_of_mem hin)

/-! ## An old function -/

/-- An environment for texts in lower case, of which one is a time: the first instant of 2020. -/
def plainCompaction : CompactionEnv where
  toDedupEnv := plainDedup
  instant := fun s =>
    if s = "2020-01-01T00:00:00+00:00" then some (737424 * 86400000000) else none
  isoformat := fun _ => "2021-02-04T00:00:00+00:00"
  datetimeText := fun _ => "2020-01-01 00:00:00+00:00"
  score := fun _ => 1
  lowConfidence := fun _ => false

/-- The defaults of the settings, with a count below which stale functions are pruned. -/
def plainSettings (minAccessCount : ℤ) : CompactionConfig where
  chunkThreshold := 20000
  fieldMaxValues := 20
  needsReviewTtlDays := 30
  pruneMaxAgeDays := 180
  pruneMinAccessCount := minAccessCount
  dedupUseFaiss := true

/-- A run 400 days after the first instant of 2020. -/
def lateRun : CompactionClock :=
  let now : Instant := 737824 * 86400000000
  ⟨now, now, now⟩

/-- A disk that takes every file. -/
def readyDisk : ArchiveDisk := ⟨true, fun _ => true⟩

/-- A store with one function, which nobody has accessed since it was created. -/
def forgotten : Functions := Table.empty.set (.make "old1" "2020-01-01T00:00:00+00:00")

theorem forgotten_archivable {minAccessCount : ℤ} (h : minAccessCount = 0 ∨ minAccessCount = 1) :
    Archivable plainCompaction (plainSettings minAccessCount) lateRun forgotten
      (.make "old1" "2020-01-01T00:00:00+00:00") := by
  rcases h with rfl | rfl
  · exact ⟨by decide, by decide, by decide, by decide, by decide, by decide⟩
  · exact ⟨by decide, by decide, by decide, by decide, by decide, by decide⟩

/-- With the default settings it is archived. -/
theorem forgotten_archived :
    ArchivesFirst plainCompaction (plainSettings 0) readyDisk lateRun forgotten
      (.make "old1" "2020-01-01T00:00:00+00:00") :=
  archives_first plainCompaction (plainSettings 0) (by decide) (forgotten_archivable (.inl rfl))

/-- With a count of one the prune stage takes it. -/
theorem pruned_first_forgotten :
    .removed "old1" ∈ (executePrune plainCompaction (plainSettings 1) lateRun.prune
      (executeSummarize plainCompaction (plainSettings 1)
        (executeDedup plainCompaction (plainSettings 1) (forgotten, [])))).2 :=
  pruned_first _ _ (by decide) (by decide) (forgotten_archivable (.inr rfl))

/-- With a count of one it is removed and never archived. -/
theorem forgotten_pruned :
    ¬ ∀ (cfg : CompactionConfig) (f : Function),
      Archivable plainCompaction cfg lateRun forgotten f →
      ArchivesFirst plainCompaction cfg readyDisk lateRun forgotten f := by
  intro h
  have hrun : (runPipeline plainCompaction (plainSettings 1) readyDisk lateRun forgotten).2 =
      [.removed "old1"] := by decide
  obtain ⟨g, -, hg⟩ := (h (plainSettings 1) _ (forgotten_archivable (.inr rfl))).before [] [] hrun
  exact List.not_mem_nil hg

end Memplex
