import Memplex.Lib.Rows
import Memplex.Py.Dumps
import Mathlib.Data.List.Perm.Basic

/-!
# The search sidecar

The full-text tables of a store are a sidecar file that several store instances share. An instance
remembers the signature of every function that it has indexed, and `ensureIndex` writes the rows of
the functions whose signatures are new, removes those of the functions that are gone, and leaves the
others as they are. An instance that has indexed nothing yet clears the tables first.

So the tables are right after `ensureIndex` exactly when what it leaves as it is was right before
(`ensureIndex_mirrors_iff`): no peer took away or changed a row that the instance holds to be there,
and no peer left a row that the instance knows nothing of. `mirrored_iff_unspoiled` is the statement
about runs of any number of instances, and `peerRow_stays` a run in which the row of a removed
function stays.

The two tables are written and cleared together, so a row here is a row of each.
-/

namespace Memplex

open Lib

/-- What the index reads of a function. -/
structure IndexedFunction where
  id : String
  name : String
  domain : Option String
  version : ℤ
  updatedAt : Option String
  contentHash : Option String
  /-- The values of the four roles, in their order, with their status. -/
  values : List (String × String)
deriving DecidableEq

/-- The functions of a store, by id. -/
abbrev IndexedFunctions := Table IndexedFunction.id

/-- `_function_to_search_text`. -/
def searchText (f : IndexedFunction) : String :=
  " ".intercalate ([f.name, f.domain.getD ""] ++
    (f.values.filter fun v => v.2 = "active").map Prod.fst)

/-- The rows under one id. -/
structure SearchRow where
  funcId : String
  name : String
  domain : String
  body : String
  trigrams : String
deriving DecidableEq

/-- The state of a function as it was indexed: version, `updated_at`, hash, and hash of the text. -/
abbrev FunctionSignature := ℤ × String × String × String

/-- The text functions of the index. -/
structure SearchText where
  /-- `sha1(text.encode("utf-8")).hexdigest()`. -/
  sha1 : String → String
  /-- `" ".join(_encoded_trigram_tokens(text))`. -/
  trigrams : String → String

/-- What a store instance keeps for its index. -/
structure SearchIndex where
  /-- `_functions`: what the instance holds at present. -/
  functions : IndexedFunctions
  /-- The generation that was published last. -/
  generation : ℕ
  /-- `_indexed_sigs`. -/
  indexedSigs : List (String × FunctionSignature)
  /-- `_signature`. -/
  signature : Option (List (String × FunctionSignature))

section Index

variable (T : SearchText)

/-- The row that is inserted for a function. -/
def searchRow (f : IndexedFunction) : SearchRow :=
  ⟨f.id, f.name, f.domain.getD "", searchText f, T.trigrams (searchText f)⟩

/-- The signature of a function. -/
def signatureOf (f : IndexedFunction) : FunctionSignature :=
  (f.version, f.updatedAt.getD "", f.contentHash.getD "", T.sha1 (searchText f))

/-- `_per_func_signatures`. -/
def perFuncSignatures (fs : IndexedFunctions) : List (String × FunctionSignature) :=
  fs.rows.map fun f => (f.id, signatureOf T f)

/-- `_search_signature`. -/
def searchSignature (fs : IndexedFunctions) : List (String × FunctionSignature) :=
  sortMembers (perFuncSignatures T fs)

/-- `indexed.get(func_id)`. -/
def SearchIndex.indexed (s : SearchIndex) (id : String) : Option FunctionSignature :=
  (findRow Prod.fst id s.indexedSigs).map Prod.snd

/-- `DELETE … WHERE func_id = ?`. -/
def deleteRows (rows : List SearchRow) (id : String) : List SearchRow :=
  rows.filter fun r => r.funcId ≠ id

/-- A function's rows are replaced. -/
def writeRows (rows : List SearchRow) (f : IndexedFunction) : List SearchRow :=
  deleteRows rows f.id ++ [searchRow T f]

/-- `to_upsert`: the functions whose signatures are not those that were indexed. -/
def SearchIndex.toUpsert (s : SearchIndex) : List IndexedFunction :=
  s.functions.rows.filter fun f => s.indexed f.id ≠ some (signatureOf T f)

/-- `to_remove`: the ids that were indexed and are gone. -/
def SearchIndex.toRemove (s : SearchIndex) : List String :=
  (s.indexedSigs.map Prod.fst).filter fun id => !s.functions.contains id

/-- `_ensure_index`. -/
def ensureIndex (s : SearchIndex) (rows : List SearchRow) : SearchIndex × List SearchRow :=
  let signature := searchSignature T s.functions
  if s.signature = some signature then (s, rows)
  else
    let cleared := if s.indexedSigs = [] then [] else rows
    ({ s with indexedSigs := perFuncSignatures T s.functions, signature := some signature },
      s.toRemove.foldl deleteRows ((s.toUpsert T).foldl (writeRows T) cleared))

/-- `rebuild`. -/
def rebuildIndex (s : SearchIndex) (rows : List SearchRow) : SearchIndex × List SearchRow :=
  ensureIndex T { s with indexedSigs := [], signature := none } rows

/-! ## Instances -/

/-- The instances of a store, the pair that they share, and the sidecar. -/
structure SearchWorld (ι : Type) where
  /-- The functions of the committed pair. -/
  committed : IndexedFunctions
  /-- The generation of the pair. -/
  generation : ℕ
  instances : ι → SearchIndex
  sidecar : List SearchRow

/-- What an instance does. -/
inductive SearchOp (ι : Type) where
  /-- A commit: the instance and the pair hold these functions. -/
  | commit (i : ι) (functions : IndexedFunctions)
  /-- A change in memory, in a batch that is not committed yet. -/
  | hold (i : ι) (functions : IndexedFunctions)
  /-- A read of the pair. -/
  | refresh (i : ι)
  | ensure (i : ι)
  | rebuild (i : ι)

variable {ι : Type} [DecidableEq ι]

namespace SearchWorld

/-- The state of one instance, and the sidecar, are replaced. -/
def put (w : SearchWorld ι) (i : ι) (after : SearchIndex × List SearchRow) : SearchWorld ι :=
  { w with instances := Function.update w.instances i after.1, sidecar := after.2 }

/-- `_publish_pair`: the signature is dropped where the generation is another one. -/
def publish (s : SearchIndex) (functions : IndexedFunctions) (generation : ℕ) : SearchIndex :=
  { s with
    functions, generation
    signature := if generation = s.generation then s.signature else none }

/-- One operation. -/
def step (w : SearchWorld ι) : SearchOp ι → SearchWorld ι
  | .commit i fs =>
    { w.put i ({ w.instances i with
        functions := fs, generation := w.generation + 1, signature := none }, w.sidecar) with
      committed := fs, generation := w.generation + 1 }
  | .hold i fs => w.put i ({ w.instances i with functions := fs }, w.sidecar)
  | .refresh i => w.put i (publish (w.instances i) w.committed w.generation, w.sidecar)
  | .ensure i => w.put i (ensureIndex T (w.instances i) w.sidecar)
  | .rebuild i => w.put i (rebuildIndex T (w.instances i) w.sidecar)

/-- A run. -/
def run (w : SearchWorld ι) (ops : List (SearchOp ι)) : SearchWorld ι := ops.foldl (step T) w

end SearchWorld

/-- The rows under an id. -/
def rowsAt (id : String) (rows : List SearchRow) : List SearchRow :=
  rows.filter fun r => r.funcId = id

/-- There is exactly one row for each function, with its present text, and no other row. -/
structure Mirrors (fs : IndexedFunctions) (rows : List SearchRow) : Prop where
  one : ∀ f ∈ fs.rows, rowsAt f.id rows = [searchRow T f]
  noOther : ∀ r ∈ rows, fs.contains r.funcId = true

/-- What an instance leaves as it is in the sidecar is right: the row of each function that it holds
to be indexed is there, and the other rows are of functions that it holds or has indexed. -/
structure Unspoiled (s : SearchIndex) (rows : List SearchRow) : Prop where
  kept : ∀ f ∈ s.functions.rows, s.indexed f.id = some (signatureOf T f) →
    rowsAt f.id rows = [searchRow T f]
  known : ∀ r ∈ rows, s.functions.contains r.funcId = true ∨
    r.funcId ∈ s.indexedSigs.map Prod.fst

/-- The tables are cleared: the instance has indexed nothing, and its signature is not that of its
functions. -/
def Clears (s : SearchIndex) : Prop :=
  s.indexedSigs = [] ∧ s.signature ≠ some (searchSignature T s.functions)

/-- After the operation the sidecar mirrors the functions of the instance, if it was indexed. -/
def MirroredAfter (w : SearchWorld ι) (op : SearchOp ι) : Prop :=
  match op with
  | .ensure i | .rebuild i => Mirrors T ((w.step T op).instances i).functions (w.step T op).sidecar
  | _ => True

/-- Before an instance indexes, what it leaves as it is is right. -/
def UnspoiledBefore (w : SearchWorld ι) (op : SearchOp ι) : Prop :=
  match op with
  | .ensure i => Clears T (w.instances i) ∨ Unspoiled T (w.instances i) w.sidecar
  | _ => True

/-! ## One call -/

variable {T}

/-- What holds of the ids of rows, id by id. -/
theorem mem_iff_rowsAt (p : String → Prop) {rows : List SearchRow} :
    (∀ r ∈ rows, p r.funcId) ↔ ∀ id, ¬ p id → rowsAt id rows = [] := by
  constructor
  · intro h id hid
    refine List.filter_eq_nil_iff.mpr fun r hr heq => hid ?_
    rw [← of_decide_eq_true heq]
    exact h r hr
  · intro h r hr
    by_contra hp
    have hmem : r ∈ rowsAt r.funcId rows := List.mem_filter.mpr ⟨hr, by simp⟩
    rw [h r.funcId hp] at hmem
    exact List.not_mem_nil hmem

theorem rowsAt_deleteRows (k id : String) (rows : List SearchRow) :
    rowsAt k (deleteRows rows id) = if k = id then [] else rowsAt k rows := by
  unfold rowsAt deleteRows
  rw [List.filter_filter]
  split_ifs with h
  · refine List.filter_eq_nil_iff.mpr fun r _ => ?_
    simp [h]
  · refine List.filter_congr fun r _ => ?_
    by_cases hr : r.funcId = k
    · simp [hr, h]
    · simp [hr]

theorem rowsAt_writeRows (k : String) (f : IndexedFunction) (rows : List SearchRow) :
    rowsAt k (writeRows T rows f) = if k = f.id then [searchRow T f] else rowsAt k rows := by
  have happend : rowsAt k (writeRows T rows f) =
      rowsAt k (deleteRows rows f.id) ++ rowsAt k [searchRow T f] := List.filter_append ..
  rw [happend, rowsAt_deleteRows]
  split_ifs with h
  · simp [rowsAt, searchRow, h]
  · have hne : ¬ f.id = k := fun heq => h heq.symm
    simp [rowsAt, searchRow, hne]

theorem rowsAt_foldl_deleteRows (k : String) (ids : List String) (rows : List SearchRow) :
    rowsAt k (ids.foldl deleteRows rows) = if k ∈ ids then [] else rowsAt k rows := by
  induction ids generalizing rows with
  | nil => simp
  | cons id ids ih =>
    rw [List.foldl_cons, ih, rowsAt_deleteRows]
    by_cases hid : k = id
    · simp [hid]
    · simp [hid]

/-- Functions with different ids are written one under each id. -/
theorem rowsAt_foldl_writeRows (k : String) {fs : List IndexedFunction}
    (hnodup : (fs.map IndexedFunction.id).Nodup) (rows : List SearchRow) :
    rowsAt k (fs.foldl (writeRows T) rows) =
      (findRow IndexedFunction.id k fs).elim (rowsAt k rows) fun f => [searchRow T f] := by
  induction fs generalizing rows with
  | nil => rfl
  | cons f fs ih =>
    rw [List.map_cons, List.nodup_cons] at hnodup
    rw [List.foldl_cons, ih hnodup.2, rowsAt_writeRows, findRow_cons]
    by_cases hk : f.id = k
    · -- No later function has the id.
      have hnone : findRow IndexedFunction.id k fs = none :=
        findRow_eq_none.mpr fun g hg heq => hnodup.1 (List.mem_map.mpr ⟨g, hg, heq.trans hk.symm⟩)
      simp [hnone, hk]
    · have hk' : ¬ k = f.id := fun heq => hk heq.symm
      simp [hk, hk']

variable {s : SearchIndex} {rows : List SearchRow}

/-- A function is written, or it is held to be indexed. -/
theorem findRow_toUpsert {f : IndexedFunction} (hf : f ∈ s.functions.rows) :
    findRow IndexedFunction.id f.id (s.toUpsert T) =
      if s.indexed f.id = some (signatureOf T f) then none else some f := by
  have hnodup : ((s.toUpsert T).map IndexedFunction.id).Nodup :=
    s.functions.nodup.sublist (List.filter_sublist.map _)
  split_ifs with hindexed
  · refine findRow_eq_none.mpr fun g hg heq => ?_
    obtain ⟨hg, hne⟩ := List.mem_filter.mp hg
    have hsame : g = f := by
      have hget := (s.functions.mem_rows_iff g).mp hg
      rw [heq, (s.functions.mem_rows_iff f).mp hf] at hget
      exact (Option.some.inj hget).symm
    rw [hsame] at hne
    exact absurd hindexed (of_decide_eq_true hne)
  · exact findRow_of_mem hnodup (List.mem_filter.mpr ⟨hf, by simpa using hindexed⟩)

theorem findRow_toUpsert_of_gone {k : String} (hk : ¬ s.functions.contains k = true) :
    findRow IndexedFunction.id k (s.toUpsert T) = none := by
  refine findRow_eq_none.mpr fun g hg heq => hk ?_
  rw [Table.contains_iff]
  exact ⟨g, heq ▸ (s.functions.mem_rows_iff g).mp (List.mem_filter.mp hg).1⟩

/-- The tables are right after the differences are written exactly if what is left as it is was. -/
theorem mirrors_written_iff :
    Mirrors T s.functions (s.toRemove.foldl deleteRows ((s.toUpsert T).foldl (writeRows T) rows)) ↔
      Unspoiled T s rows := by
  have hnodup : ((s.toUpsert T).map IndexedFunction.id).Nodup :=
    s.functions.nodup.sublist (List.filter_sublist.map _)
  have hkept : ∀ f ∈ s.functions.rows,
      rowsAt f.id (s.toRemove.foldl deleteRows ((s.toUpsert T).foldl (writeRows T) rows)) =
        if s.indexed f.id = some (signatureOf T f) then rowsAt f.id rows else [searchRow T f] := by
    intro f hf
    have hcontains : s.functions.contains f.id = true :=
      Table.contains_iff.mpr ⟨f, (s.functions.mem_rows_iff f).mp hf⟩
    have hstays : f.id ∉ s.toRemove := by simp [SearchIndex.toRemove, hcontains]
    rw [rowsAt_foldl_deleteRows, if_neg hstays, rowsAt_foldl_writeRows _ hnodup,
      findRow_toUpsert hf]
    split_ifs <;> rfl
  have hgone : ∀ k, ¬ s.functions.contains k = true →
      rowsAt k (s.toRemove.foldl deleteRows ((s.toUpsert T).foldl (writeRows T) rows)) =
        if k ∈ s.indexedSigs.map Prod.fst then [] else rowsAt k rows := by
    intro k hk
    have hremove : k ∈ s.toRemove ↔ k ∈ s.indexedSigs.map Prod.fst := by
      simp only [SearchIndex.toRemove, List.mem_filter]
      simp [hk]
    rw [rowsAt_foldl_deleteRows, rowsAt_foldl_writeRows _ hnodup, findRow_toUpsert_of_gone hk]
    simp only [hremove, Option.elim_none]
  have hheld := @mem_iff_rowsAt fun k => s.functions.contains k = true
  have hknown := @mem_iff_rowsAt fun k =>
    s.functions.contains k = true ∨ k ∈ s.indexedSigs.map Prod.fst
  constructor
  · intro h
    refine ⟨fun f hf hindexed => ?_, hknown.mpr fun k hk => ?_⟩
    · have hone := h.one f hf
      rwa [hkept f hf, if_pos hindexed] at hone
    · have hnone := hheld.mp h.noOther k fun hc => hk (.inl hc)
      rwa [hgone k fun hc => hk (.inl hc), if_neg fun hc => hk (.inr hc)] at hnone
  · intro h
    refine ⟨fun f hf => ?_, hheld.mpr fun k hk => ?_⟩
    · rw [hkept f hf]
      split_ifs with hindexed
      · exact h.kept f hf hindexed
      · rfl
    · rw [hgone k hk]
      split_ifs with hindexed
      · rfl
      · exact hknown.mp h.known k fun hc => hc.elim hk hindexed

/-- The signature of an instance is that of what it has indexed. -/
def SearchIndex.Signed (s : SearchIndex) : Prop :=
  ∀ signature ∈ s.signature, signature = sortMembers s.indexedSigs

/-- What an instance has indexed under the signature of its functions is what it holds. -/
theorem indexed_of_signed (hsigned : s.Signed)
    (h : s.signature = some (searchSignature T s.functions)) :
    (∀ f ∈ s.functions.rows, s.indexed f.id = some (signatureOf T f)) ∧
      ∀ id, id ∈ s.indexedSigs.map Prod.fst ↔ s.functions.contains id = true := by
  have hsorted : searchSignature T s.functions = sortMembers s.indexedSigs := hsigned _ h
  have hperm : s.indexedSigs.Perm (perFuncSignatures T s.functions) :=
    (sortMembers_perm _).symm.trans (hsorted ▸ sortMembers_perm _)
  have hkeys : (perFuncSignatures T s.functions).map Prod.fst =
      s.functions.rows.map IndexedFunction.id := by
    simp [perFuncSignatures, Function.comp_def]
  have hnodup : (s.indexedSigs.map Prod.fst).Nodup := by
    rw [(hperm.map Prod.fst).nodup_iff, hkeys]
    exact s.functions.nodup
  constructor
  · intro f hf
    have hmem : (f.id, signatureOf T f) ∈ s.indexedSigs :=
      hperm.mem_iff.mpr (List.mem_map.mpr ⟨f, hf, rfl⟩)
    rw [SearchIndex.indexed, findRow_of_mem hnodup hmem]
    rfl
  · intro id
    rw [(hperm.map Prod.fst).mem_iff, hkeys, Table.contains_iff, List.mem_map]
    constructor
    · rintro ⟨f, hf, rfl⟩
      exact ⟨f, (s.functions.mem_rows_iff f).mp hf⟩
    · rintro ⟨f, hf⟩
      exact ⟨f, Table.mem_of_get? hf, Table.get?_key hf⟩

/-- A call leaves the sidecar right exactly when it clears it, or what it leaves as it is was
right. -/
theorem ensureIndex_mirrors_iff (hsigned : s.Signed) :
    Mirrors T s.functions (ensureIndex T s rows).2 ↔ Clears T s ∨ Unspoiled T s rows := by
  unfold ensureIndex Clears
  dsimp only
  split_ifs with hsignature hempty
  · -- Nothing is written: everything is held to be indexed.
    obtain ⟨hall, hids⟩ := indexed_of_signed hsigned hsignature
    rw [or_iff_right fun h => h.2 hsignature]
    constructor
    · intro h
      exact ⟨fun f hf _ => h.one f hf, fun r hr => .inl (h.noOther r hr)⟩
    · intro h
      exact ⟨fun f hf => h.kept f hf (hall f hf),
        fun r hr => (h.known r hr).elim id fun hmem => (hids _).mp hmem⟩
  · rw [mirrors_written_iff]
    refine iff_of_true ⟨fun f _ hindexed => ?_, fun r hr => absurd hr List.not_mem_nil⟩
      (.inl ⟨hempty, hsignature⟩)
    simp [SearchIndex.indexed, hempty] at hindexed
  · rw [mirrors_written_iff, or_iff_right fun h => hempty h.1]

/-! ## Runs -/

theorem ensureIndex_functions : (ensureIndex T s rows).1.functions = s.functions := by
  unfold ensureIndex
  dsimp only
  split_ifs <;> rfl

theorem ensureIndex_signed (hsigned : s.Signed) : (ensureIndex T s rows).1.Signed := by
  unfold ensureIndex
  dsimp only
  split_ifs with hsignature
  · exact hsigned
  all_goals exact fun signature hmem => (Option.some.inj hmem).symm

theorem signed_of_none (h : s.signature = none) : s.Signed :=
  fun signature hmem => absurd (h ▸ hmem) (by simp)

namespace SearchWorld

variable {w : SearchWorld ι}

/-- Every instance has the signature of what it has indexed. -/
def Signed (w : SearchWorld ι) : Prop := ∀ i, (w.instances i).Signed

theorem put_signed (hw : w.Signed) {i : ι} {after : SearchIndex × List SearchRow}
    (h : after.1.Signed) : (w.put i after).Signed := by
  intro j
  by_cases hj : j = i
  · subst hj
    simpa [put] using h
  · simpa [put, Function.update_of_ne hj] using hw j

theorem step_signed (hw : w.Signed) (op : SearchOp ι) : (w.step T op).Signed := by
  cases op with
  | commit i fs => exact put_signed hw (signed_of_none rfl)
  | hold i fs => exact put_signed hw (hw i)
  | refresh i =>
    refine put_signed hw fun signature hmem => ?_
    unfold publish at hmem
    dsimp only at hmem
    split_ifs at hmem
    · exact hw i signature hmem
    · exact absurd hmem (by simp)
  | ensure i => exact put_signed hw (ensureIndex_signed (hw i))
  | rebuild i => exact put_signed hw (ensureIndex_signed (signed_of_none rfl))

theorem run_signed (hw : w.Signed) (ops : List (SearchOp ι)) : (w.run T ops).Signed := by
  induction ops generalizing w with
  | nil => exact hw
  | cons op ops ih => exact ih (step_signed hw op)

/-- One operation: the sidecar is right after it exactly if what it leaves as it is was right. -/
theorem mirroredAfter_iff (hw : w.Signed) (op : SearchOp ι) :
    MirroredAfter T w op ↔ UnspoiledBefore T w op := by
  cases op with
  | commit i fs => exact Iff.rfl
  | hold i fs => exact Iff.rfl
  | refresh i => exact Iff.rfl
  | ensure i =>
    have hiff := @ensureIndex_mirrors_iff T _ w.sidecar (hw i)
    unfold MirroredAfter UnspoiledBefore
    simp only [step, put, Function.update_self]
    rw [ensureIndex_functions]
    exact hiff
  | rebuild i =>
    refine iff_of_true ?_ trivial
    have hclears : Clears T { w.instances i with indexedSigs := [], signature := none } :=
      ⟨rfl, by simp⟩
    unfold MirroredAfter
    simp only [step, put, Function.update_self, rebuildIndex]
    rw [ensureIndex_functions]
    exact (ensureIndex_mirrors_iff (signed_of_none rfl)).mpr (.inl hclears)

end SearchWorld

/-- Instances that have indexed nothing yet. -/
def SearchWorld.Fresh (w : SearchWorld ι) : Prop :=
  ∀ i, (w.instances i).indexedSigs = [] ∧ (w.instances i).signature = none

/-- In a run of instances the sidecar is right whenever one of them has indexed, exactly if each
time what the instance leaves as it is is right before. -/
theorem mirrored_iff_unspoiled (T : SearchText) (w : SearchWorld ι) (hw : w.Fresh)
    (ops : List (SearchOp ι)) :
    (∀ pre op post, ops = pre ++ op :: post → MirroredAfter T (w.run T pre) op) ↔
      ∀ pre op post, ops = pre ++ op :: post → UnspoiledBefore T (w.run T pre) op := by
  have hsigned : w.Signed := fun i => signed_of_none (hw i).2
  have hstep : ∀ pre op, MirroredAfter T (w.run T pre) op ↔ UnspoiledBefore T (w.run T pre) op :=
    fun pre op => SearchWorld.mirroredAfter_iff (SearchWorld.run_signed hsigned pre) op
  simp only [hstep]

end Index

/-! ## A row that stays -/

/-- A function with one active value. -/
def sampleIndexed (id : String) : IndexedFunction :=
  ⟨id, id, none, 1, none, none, [("runs", "active")]⟩

/-- Two instances before their first search. -/
def freshSearch : SearchWorld Bool where
  committed := Table.empty
  generation := 0
  instances _ := ⟨Table.empty, 0, [], none⟩
  sidecar := []

/-- One instance indexes alone, and the other after it. -/
theorem fresh_mirrored_iff :
    (∀ pre op post, [.commit true ⟨[sampleIndexed "f"], List.nodup_singleton _⟩, .ensure true,
        .refresh false, .ensure false] = pre ++ op :: post →
          MirroredAfter ⟨id, id⟩ (freshSearch.run ⟨id, id⟩ pre) op) ↔
      ∀ pre op post, [.commit true ⟨[sampleIndexed "f"], List.nodup_singleton _⟩, .ensure true,
        .refresh false, .ensure false] = pre ++ op :: post →
          UnspoiledBefore ⟨id, id⟩ (freshSearch.run ⟨id, id⟩ pre) op :=
  mirrored_iff_unspoiled ⟨id, id⟩ freshSearch (fun _ => ⟨rfl, rfl⟩) _

/-- Both instances index a function; one of them adds another, indexes it and removes it; the other
one indexes what is committed then. -/
theorem peerRow_stays : ∃ (T : SearchText) (w : SearchWorld Bool) (ops : List (SearchOp Bool)),
    w.Fresh ∧ ((w.run T ops).instances true).functions = (w.run T ops).committed ∧
      ¬ MirroredAfter T (w.run T ops) (.ensure true) := by
  let one : IndexedFunctions := ⟨[sampleIndexed "f"], by decide⟩
  let two : IndexedFunctions := ⟨[sampleIndexed "f", sampleIndexed "g"], by decide⟩
  refine ⟨⟨id, id⟩, freshSearch, [.commit true one, .ensure true, .refresh false, .ensure false,
    .commit false two, .ensure false, .commit false one, .refresh true], fun _ => ⟨rfl, rfl⟩, rfl,
    fun h => ?_⟩
  have hrow := h.noOther (searchRow ⟨id, id⟩ (sampleIndexed "g")) (by decide +kernel)
  exact absurd hrow (by decide +kernel)

end Memplex
