import Memplex.Premises.Resolution
import Memplex.Processing.Reuse

/-!
# A builder on a Lite store

A `LiteMemoryStore` under a builder. Outside a batch of deferred commits every mutator commits its
changes, and the fingerprint of the store is that of the files which it wrote. Inside one the
functions change and the fingerprint stays, until the outermost exit commits the whole batch; what a
peer commits changes the files, and the fingerprint only with the next reading. A call that raises
outside a batch leaves a store without a fingerprint, which the next call loads again.

A run of calls of one builder is compared with new builders (`reused_asNew`). Where the fingerprints
do not tell the functions apart, as in a batch, it serves a corpus that the store no longer has
(`batched_stale`).
-/

namespace Memplex

open Lib Lib.Mutator

/-! ## Batches -/

/-- A store with its files, between two calls. -/
structure BatchedStore where
  inst : LiteInstance
  disk : LiteDisk
  /-- `_commit_defer_depth`. -/
  depth : ℕ
  /-- What the next call meets. -/
  run : ClearRun × WriteMoment

/-- A step of a store. -/
inductive StoreStep where
  /-- Time goes on. -/
  | meet (run : ClearRun × WriteMoment)
  /-- A mutator, with its capture for the peers. -/
  | call (call : LiteWriter.GraphCall) (capture : LiteMemory → Except PyError SyncState)
  /-- A read. -/
  | read
  /-- `deferred_commit` is entered. -/
  | enter
  /-- `deferred_commit` is left. -/
  | leave
  /-- Another process commits. -/
  | peer (disk : LiteDisk)

namespace LiteWriter

variable (W : LiteWriter)

/-- The changes of a mutator, without its result. -/
def body : GraphCall → Mutator PyError LiteMemory Unit
  | .add moment func source => do
    let _ ← W.addResident moment func source
  | .delete funcId => do
    let _ ← W.delete funcId
  | .merge moment nodes edges => do
    let _ ← W.merge moment nodes edges
  | .clear => do
    let _ ← W.clear
  | .replaceFunction func => do
    let _ ← W.replaceFunction func
  | .updateFunctionRole memoryId edit => do
    let _ ← W.updateFunctionRole memoryId edit
  | .annotate ids attributes needsReview => do
    let _ ← annotate ids attributes needsReview
  | .annotateNodes ids attributes needsReview => do
    let _ ← W.annotateNodes ids attributes needsReview
  | .incrementAccess moment ids => do
    let _ ← W.incrementAccess moment ids
  | .applyCompaction generation replacements deleteIds expectedGeneration => do
    let _ ← W.applyCompaction generation replacements deleteIds expectedGeneration
  | .applyEvent now edgeTombstones event => do
    let _ ← W.applyEvent now edgeTombstones event

end LiteWriter

namespace BatchedStore

variable (W : LiteWriter)

/-- A call has raised. Inside a batch what is resident is kept. -/
def raised (s : BatchedStore) : BatchedStore :=
  if s.depth = 0 then { s with inst := s.inst.abandoned } else s

/-- `list_functions`. -/
def listFunctions (limit : ℕ) (s : BatchedStore) : Except PyError (List Function) × BatchedStore :=
  match s.inst.refreshForRead W s.run s.disk with
  | .ok inst => (.ok (inst.memory.functions.rows.take limit), { s with inst := inst })
  | .error e => (.error e, s.raised)

/-- `_commit_current_state`. -/
def commit (s : BatchedStore) : BatchedStore :=
  if s.depth = 0 then
    match s.inst.commitCurrentState W s.run.1 s.disk with
    | .ok out => { s with inst := out.1, disk := out.2 }
    | .error _ => s.raised
  else
    match W.validateResidentGraph s.inst.memory with
    | .ok m => { s with inst := { s.inst with memory := m } }
    | .error _ => s.raised

/-- A mutator: it works on the files as they are, changes the resident state, and has the changes
captured and committed. -/
def mutate (call : LiteWriter.GraphCall) (capture : LiteMemory → Except PyError SyncState)
    (s : BatchedStore) : BatchedStore :=
  match s.inst.reloadForMutation W s.run.1 s.disk with
  | .error _ => s.raised
  | .ok inst =>
    match W.body call inst.memory with
    | .error _ m => { s with inst := { inst with memory := m } }.raised
    | .ok _ m =>
      match capture m with
      | .error _ => { s with inst := { inst with memory := m } }.raised
      | .ok sync =>
        { s with inst := { inst with memory := { m with store := { m.store with sync := sync } } } }
          |>.commit W

/-- The end of `deferred_commit`: the outermost one commits. -/
def leave (s : BatchedStore) : BatchedStore :=
  if s.depth = 1 then { s with depth := 0 }.commit W else { s with depth := s.depth - 1 }

/-- The store after a step. -/
def after : StoreStep → BatchedStore → BatchedStore
  | .meet run, s => { s with run := run }
  | .call call capture, s => s.mutate W call capture
  | .read, s => (s.listFunctions W 0).2
  | .enter, s => { s with depth := s.depth + 1 }
  | .leave, s => s.leave W
  | .peer disk, s => { s with disk := disk }

/-- A store that was read has the files as they are, and reads them no more. -/
theorem refreshForRead_again {run : ClearRun × WriteMoment} {inst inst' : LiteInstance}
    {disk : LiteDisk} (h : inst.refreshForRead W run disk = .ok inst') :
    inst'.refreshForRead W run disk = .ok inst' := by
  have hfresh : inst'.pairFilesUnchanged disk = true := by
    unfold LiteInstance.refreshForRead at h
    split_ifs at h with hsame
    · rw [← Except.ok.inj h]
      exact hsame
    · obtain ⟨m, -, hinst⟩ := Except.bind_ok.mp h
      rw [← Except.ok.inj hinst]
      exact decide_eq_true rfl
  unfold LiteInstance.refreshForRead
  rw [if_pos hfresh]
  rfl

/-- Files that could not be read cannot be read by a store without a fingerprint either. -/
theorem refreshForRead_abandoned {run : ClearRun × WriteMoment} {inst : LiteInstance}
    {disk : LiteDisk} {e : PyError} (h : inst.refreshForRead W run disk = .error e) :
    inst.abandoned.refreshForRead W run disk = .error e := by
  unfold LiteInstance.refreshForRead at h ⊢
  have hlost : ¬ inst.abandoned.pairFilesUnchanged disk = true := fun hsame =>
    Option.some_ne_none _ (of_decide_eq_true hsame).symm
  rw [if_neg hlost]
  split_ifs at h with hsame
  · cases h
  · exact h

end BatchedStore

/-- A Lite store as a builder sees it. -/
def FunctionStore.lite (W : LiteWriter) : FunctionStore BatchedStore (Option ℕ) where
  pairFingerprint s := s.inst.fingerprint
  listFunctions := BatchedStore.listFunctions W

namespace BatchedStore

variable (W : LiteWriter)

/-- A second listing ends as the first one did. -/
theorem settles : (FunctionStore.lite W).Settles := by
  intro s
  change listFunctions W 100000 (listFunctions W 100000 s).2 = listFunctions W 100000 s
  unfold listFunctions
  cases hread : s.inst.refreshForRead W s.run s.disk with
  | ok inst =>
    dsimp only
    rw [refreshForRead_again W hread]
  | error e =>
    unfold raised
    by_cases hdepth : s.depth = 0
    · rw [if_pos hdepth]
      dsimp only
      rw [refreshForRead_abandoned W hread]
      dsimp only
      rw [if_pos hdepth]
      rfl
    · rw [if_neg hdepth]
      dsimp only
      rw [hread]
      dsimp only
      rw [if_neg hdepth]

end BatchedStore

/-! ## Runs of a builder -/

/-- In a run on a Lite store whose calls find fingerprints that tell the functions apart, and the
vectors of the texts as they are, every call ends as that of a new builder. -/
theorem reused_asNew {ν : Type} (W : LiteWriter) (T : GraphTools ν) (start : BatchedStore)
    (events : List (BuilderEvent StoreStep)) (version : Option ℕ → List Function)
    (hmeets : BuilderState.Along T (.lite W) (BatchedStore.after W)
      (fun s e => e.Meets T (.lite W) version s) ⟨.new, start⟩ events) :
    BuilderState.Along T (.lite W) (BatchedStore.after W)
      (fun s e => e.AsNew T (.lite W) s) ⟨.new, start⟩ events :=
  along_asNew (BatchedStore.settles W) (GraphBuilder.coherent_new _ _) hmeets

/-! ## Two runs -/

/-- Tools without an embedding service. -/
def sampleTools : GraphTools Unit where
  env := graphWriter.env
  format := textOf
  config := none
  embeddingService := none
  cosineSimilarity _ _ := .nan
  atLeast _ _ := false
  fixed3 _ := ""
  defaultThreshold := .nan

/-- A call at the time of the samples that writes files of a stamp. -/
def stamped (n : ℕ) : ClearRun × WriteMoment :=
  (⟨graphTime, fun _ => (graphTime, ""), false, .ok n⟩, graphMoment)

/-- A store with empty files. -/
def batchedStart : BatchedStore :=
  ⟨⟨graphStart, true, some 0⟩, ⟨graphStart.rawPair, 0⟩, 0, stamped 1⟩

/-- The function that is built. -/
def loginFunction : Function := graphFunction "login" "auth"

/-- A function of the same domain. -/
def logoutFunction : Function := { graphFunction "logout" "auth" with id := "logout" }

/-- The other function is added. -/
def addLogout : StoreStep :=
  .call (.add graphMoment logoutFunction ⟨"text", none, none, .wiki⟩) fun m => .ok m.store.sync

/-- A call for the function. -/
def buildLogin : BuilderEvent StoreStep := .build (fun _ => .ofUtc graphTime) [loginFunction]

/-- The functions under the two stamps. -/
def sampleVersion : Option ℕ → List Function
  | some 1 => [logoutFunction]
  | _ => []

/-- Two calls, with an addition between them. -/
theorem committedRun_asNew :
    BuilderState.Along sampleTools (.lite graphWriter) (BatchedStore.after graphWriter)
      (fun s e => e.AsNew sampleTools (.lite graphWriter) s) ⟨.new, batchedStart⟩
      [buildLogin, .store addLogout, buildLogin] := by
  refine reused_asNew graphWriter sampleTools batchedStart _ sampleVersion
    ⟨⟨⟨?_, ?_⟩, ?_⟩, trivial, ⟨⟨?_, ?_⟩, ?_⟩, trivial⟩
  · decide +kernel
  · decide +kernel
  · intro service h
    cases h
  · decide +kernel
  · decide +kernel
  · intro service h
    cases h

/-- In a batch the second call does not see what was added. -/
theorem batched_stale :
    ¬ BuilderState.Along sampleTools (.lite graphWriter) (BatchedStore.after graphWriter)
      (fun s e => e.AsNew sampleTools (.lite graphWriter) s) ⟨.new, batchedStart⟩
      [buildLogin, .store .enter, .store addLogout, buildLogin] := by
  rintro ⟨-, -, -, hnew, -⟩
  have hdiffer : ∀ {x y : Except PyError (List GraphEdge)}, SameOutcomes x y →
      (x.toOption.getD []).length = (y.toOption.getD []).length := by
    intro x y h
    have hlength : ∀ z : Except PyError (List GraphEdge), (z.toOption.getD []).length =
        ((z.map (List.map GraphEdge.undated)).toOption.getD []).length := by
      intro z
      cases z with
      | error e => rfl
      | ok es => exact (List.length_map _).symm
    rw [hlength x, hlength y, h]
  exact absurd (hdiffer (hnew fun _ => .ofUtc graphTime)) (by decide +kernel)

end Memplex
