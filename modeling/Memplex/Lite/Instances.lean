import Memplex.Lib.Runs
import Memplex.Lite.Erasure

/-!
# Several instances of one store

Any number of instances work on the files of one store. Each keeps what it has read or written in
memory, and takes it for the files as long as their sizes and times are those of its last reading.
A mutator holds the lock of the writers from its reload to its commit; where it raises, the instance
forgets what its memory stands for, as that may be half of a mutation.

`instances_serial` says that this is a serial use of the files. Every mutator that returns has
worked on a view of the files as they were committed last, by whichever instance, and has replaced
them by what it made of them; so none of them is lost, and the fold of a commit that finds other
files than it was made for is never used. A mutator that raises has written nothing, or all of it
where the write had already decided. Every reader returns a view of the files as they are.

The sizes and times of a version of the files are its stamp, and no stamp is given twice. Batches of
deferred commits are left out.
-/

namespace Memplex

open Lib

/-! ## Calls under the lock -/

/-- A call of a mutator: what its body makes of the memory, its captures included, what is left in
memory where the body raises, and how the commit goes. -/
structure StoreCall where
  body : LiteMemory → Except PyError LiteMemory
  half : LiteMemory → LiteMemory
  run : ClearRun
  /-- Where the durable write raises after its decision: the stamp of the files. -/
  decided : Option ℕ

/-- The stamps that a call may give. -/
def StoreCall.Stamps (c : StoreCall) (stamp : ℕ) : Prop :=
  c.run.write = .ok stamp ∨ c.decided = some stamp

/-- What a call leaves: the instance, the files, and, where the files were written, the memory that
the body was given and what it made of it. -/
structure CallEnd where
  inst : LiteInstance
  disk : LiteDisk
  outcome : Except PyError Unit
  wrote : Option (LiteMemory × LiteMemory)

namespace LiteInstance

variable (W : LiteWriter)

/-- What the lock leaves of an instance after an error. -/
def invalidated (inst : LiteInstance) : LiteInstance := ⟨inst.memory, false, none⟩

/-- `_commit_current_state`, up to its durable write. -/
def commitTarget (run : ClearRun) (inst : LiteInstance) (disk : LiteDisk) :
    Except PyError (LiteMemory × StoreFiles) := do
  let m ← W.validateResidentGraph inst.memory
  let m ← inst.foldBase W run disk m
  auditTarget W run m.rawPair
  m.rawPair.validateMemoryPayload
  return (m, m.rawPair)

/-- The files after a commit that raises. -/
def failedDisk (c : StoreCall) (inst : LiteInstance) (disk : LiteDisk) : LiteDisk :=
  match inst.commitTarget W c.run disk, c.decided with
  | .ok (_, target), some stamp => ⟨target, stamp⟩
  | _, _ => disk

/-- A mutator in the lock of the writers: `_with_writer_lock`. -/
def callStore (c : StoreCall) (inst : LiteInstance) (disk : LiteDisk) : CallEnd :=
  match inst.reloadForMutation W c.run disk with
  | .error e => ⟨inst.invalidated, disk, .error e, none⟩
  | .ok inst =>
    match c.body inst.memory with
    | .error e => ⟨invalidated { inst with memory := c.half inst.memory }, disk, .error e, none⟩
    | .ok m =>
      match commitCurrentState W c.run { inst with memory := m } disk with
      | .ok (inst', disk') => ⟨inst', disk', .ok (), some (inst.memory, m)⟩
      | .error e =>
        let failed := failedDisk W c { inst with memory := m } disk
        ⟨invalidated { inst with memory := m }, failed, .error e,
          if failed.stamp = disk.stamp then none else some (inst.memory, m)⟩

/-- `_refresh_for_read` in a reader: the instance, and the memory that is read from. -/
def readStore (now : Timestamp) (inst : LiteInstance) (disk : LiteDisk) :
    LiteInstance × Except PyError LiteMemory :=
  if inst.pairFilesUnchanged disk then (inst, .ok inst.memory)
  else
    match publishPair W.env now disk.files with
    | .ok m => (⟨m, true, some disk.stamp⟩, .ok m)
    | .error e => (inst.invalidated, .error e)

end LiteInstance

/-! ## The shared store -/

/-- What one turn did. -/
inductive StoreTurn where
  | wrote (i : ℕ) (c : StoreCall) (view made : LiteMemory)
  | read (i : ℕ) (view : LiteMemory)

/-- The instances and their files, with the stamps that were given and the turns that were taken. -/
structure SharedStore where
  instances : ℕ → LiteInstance
  disk : LiteDisk
  stamps : List ℕ
  turns : List StoreTurn

namespace SharedStore

variable (W : LiteWriter)

/-- A mutator of one instance. -/
def mutate (s : SharedStore) (i : ℕ) (c : StoreCall) : SharedStore :=
  let result := (s.instances i).callStore W c s.disk
  { instances := Function.update s.instances i result.inst
    disk := result.disk
    stamps := s.stamps ++ [result.disk.stamp]
    turns := s.turns ++ (result.wrote.map fun w => StoreTurn.wrote i c w.1 w.2).toList }

theorem mutate_turns (s : SharedStore) (i : ℕ) (c : StoreCall) : (s.mutate W i c).turns =
    s.turns ++ (((s.instances i).callStore W c s.disk).wrote.map
      fun w => StoreTurn.wrote i c w.1 w.2).toList := rfl

/-- A reader of one instance. -/
def read (s : SharedStore) (i : ℕ) (now : Timestamp) : SharedStore :=
  let result := (s.instances i).readStore W now s.disk
  { s with
    instances := Function.update s.instances i result.1
    turns := s.turns ++ (result.2.toOption.map (StoreTurn.read i)).toList }

/-- One turn of an instance: a mutator, a reader, or its end and a new instance in its place. -/
inductive Step (s : SharedStore) : SharedStore → Prop where
  | mutate (i : ℕ) (c : StoreCall) (hfresh : ∀ stamp, c.Stamps stamp → stamp ∉ s.stamps) :
    Step s (s.mutate W i c)
  | read (i : ℕ) (now : Timestamp) : Step s (s.read W i now)
  | reopen (i : ℕ) (inst : LiteInstance) :
    Step s { s with instances := Function.update s.instances i inst.invalidated }

/-- The runs that begin with some files, which no instance has read yet. -/
def system (files : StoreFiles) : System SharedStore where
  start s := s.disk.files = files ∧ s.stamps = [s.disk.stamp] ∧ s.turns = [] ∧
    ∀ i, (s.instances i).fingerprint = none
  step := Step W

end SharedStore

/-! ## One call -/

/-- A memory that stands for files: it was read from them, or they were written from it. -/
def LiteMemory.Views (env : Env) (m : LiteMemory) (files : StoreFiles) : Prop :=
  m.rawPair = files ∨ ∃ now, publishPair env now files = .ok m

/-- An instance that takes its memory for the files is right. -/
def LiteInstance.Coherent (env : Env) (inst : LiteInstance) (disk : LiteDisk) : Prop :=
  inst.fingerprint = some disk.stamp → inst.memory.Views env disk.files

namespace LiteInstance

variable {W : LiteWriter} {run : ClearRun} {inst inst' : LiteInstance} {disk disk' : LiteDisk}

theorem coherent_invalidated (env : Env) (inst : LiteInstance) (disk : LiteDisk) :
    inst.invalidated.Coherent env disk := fun h => absurd h (by simp [invalidated])

/-- A reload gives a view of the files. -/
theorem Coherent.reload (h : inst.Coherent W.env disk)
    (hreload : inst.reloadForMutation W run disk = .ok inst') :
    inst'.memory.Views W.env disk.files := by
  unfold reloadForMutation at hreload
  split_ifs at hreload with hfresh
  · cases Except.ok.inj hreload
    exact h (of_decide_eq_true (Bool.and_eq_true_iff.mp hfresh).2)
  · obtain ⟨m, hm, heq⟩ := Except.bind_ok.mp hreload
    cases Except.ok.inj heq
    exact .inr ⟨_, hm⟩

/-- What is written is the memory as it was made: nothing is folded in. -/
theorem commitTarget_ok (hfresh : (inst.committed && inst.pairFilesUnchanged disk) = true)
    {m : LiteMemory} {target : StoreFiles}
    (h : inst.commitTarget W run disk = .ok (m, target)) :
    target = inst.memory.rawPair ∧ m.rawPair = target := by
  obtain ⟨m, hchecked, h⟩ := Except.bind_ok.mp h
  obtain ⟨pending, rfl⟩ := LiteWriter.validateResidentGraph_ok hchecked
  obtain ⟨m, hfolded, h⟩ := Except.bind_ok.mp h
  rw [foldBase, if_pos hfresh] at hfolded
  obtain rfl := (Except.ok.inj hfolded).symm
  obtain ⟨_, -, h⟩ := Except.bind_ok.mp h
  obtain ⟨_, -, heq⟩ := Except.bind_ok.mp h
  obtain ⟨rfl, rfl⟩ := Prod.mk.inj (Except.ok.inj heq)
  exact ⟨rfl, rfl⟩

/-- A commit is its target and the durable write. -/
theorem commitCurrentState_target (h : inst.commitCurrentState W run disk = .ok (inst', disk')) :
    ∃ m target stamp, inst.commitTarget W run disk = .ok (m, target) ∧ run.write = .ok stamp ∧
      inst' = ⟨m.rebuildEdgeIndex, true, some stamp⟩ ∧ disk' = ⟨target, stamp⟩ := by
  obtain ⟨m₁, hchecked, h⟩ := Except.bind_ok.mp h
  obtain ⟨m, hfolded, h⟩ := Except.bind_ok.mp h
  obtain ⟨_, haudit, h⟩ := Except.bind_ok.mp h
  obtain ⟨_, hvalid, h⟩ := Except.bind_ok.mp h
  obtain ⟨stamp, hwrite, heq⟩ := Except.bind_ok.mp h
  obtain ⟨rfl, rfl⟩ := Prod.mk.inj (Except.ok.inj heq)
  refine ⟨m, _, stamp, ?_, hwrite, rfl, rfl⟩
  exact Except.bind_ok.mpr ⟨m₁, hchecked, Except.bind_ok.mpr ⟨m, hfolded,
    Except.bind_ok.mpr ⟨_, haudit, Except.bind_ok.mpr ⟨_, hvalid, rfl⟩⟩⟩⟩

end LiteInstance

/-- What a call may leave: the files as they were, or what its body has made of a view of them. -/
structure CallEnd.Spec (W : LiteWriter) (c : StoreCall) (disk : LiteDisk) (r : CallEnd) : Prop where
  coherent : r.inst.Coherent W.env r.disk
  known : ∀ stamp ∈ r.inst.fingerprint, stamp = r.disk.stamp
  unchanged : r.wrote = none → r.disk = disk
  written : ∀ w, r.wrote = some w → w.1.Views W.env disk.files ∧ c.body w.1 = .ok w.2 ∧
    r.disk.files = w.2.rawPair ∧ c.Stamps r.disk.stamp
  returned : r.outcome = .ok () → ∃ w, r.wrote = some w
  raised : r.wrote ≠ none → r.outcome = .ok () ∨ c.decided = some r.disk.stamp

/-- A call that raises before it has written. -/
theorem CallEnd.spec_raised (W : LiteWriter) (c : StoreCall) (disk : LiteDisk)
    (inst : LiteInstance) (e : PyError) :
    CallEnd.Spec W c disk ⟨inst.invalidated, disk, .error e, none⟩ where
  coherent := inst.coherent_invalidated _ _
  known stamp h := absurd h (by simp [LiteInstance.invalidated])
  unchanged _ := rfl
  written w h := absurd h (by simp)
  returned h := absurd h (by simp)
  raised h := absurd rfl h

/-- Step lemma for a mutator. -/
theorem callStore_spec {W : LiteWriter} {c : StoreCall} {inst : LiteInstance} {disk : LiteDisk}
    (h : inst.Coherent W.env disk) (hfresh : ∀ stamp, c.Stamps stamp → stamp ≠ disk.stamp) :
    CallEnd.Spec W c disk (inst.callStore W c disk) := by
  unfold LiteInstance.callStore
  cases hreload : inst.reloadForMutation W c.run disk with
  | error e => exact CallEnd.spec_raised W c disk inst e
  | ok inst₁ =>
    have hview := h.reload hreload
    have hsame := LiteInstance.reloadForMutation_ok hreload
    dsimp only
    cases hbody : c.body inst₁.memory with
    | error e => exact CallEnd.spec_raised W c disk _ e
    | ok m =>
      have hmade : ({ inst₁ with memory := m } : LiteInstance).committed &&
          ({ inst₁ with memory := m } : LiteInstance).pairFilesUnchanged disk := hsame
      dsimp only
      cases hcommit : LiteInstance.commitCurrentState W c.run { inst₁ with memory := m } disk with
      | ok r =>
        obtain ⟨inst', disk'⟩ := r
        obtain ⟨m', target, stamp, htarget, hwrite, rfl, rfl⟩ :=
          LiteInstance.commitCurrentState_target hcommit
        obtain ⟨hfiles, hraw⟩ := LiteInstance.commitTarget_ok hmade htarget
        exact {
          coherent := fun _ => .inl hraw
          known := fun x hx => (Option.mem_some_iff.mp hx).symm
          unchanged := fun hnone => absurd hnone (by simp)
          written := fun w hw => by
            cases hw
            exact ⟨hview, hbody, hfiles, .inl hwrite⟩
          returned := fun _ => ⟨_, rfl⟩
          raised := fun _ => .inl rfl }
      | error e =>
        dsimp only
        unfold LiteInstance.failedDisk
        split
        next m' target stamp htarget hdecided =>
          obtain ⟨hfiles, hraw⟩ := LiteInstance.commitTarget_ok hmade htarget
          -- The write had decided: the files are the target, under a stamp that is new.
          have hne : stamp ≠ disk.stamp := hfresh stamp (.inr hdecided)
          rw [if_neg hne]
          exact {
            coherent := LiteInstance.coherent_invalidated _ _ _
            known := fun x hx => absurd hx (by simp [LiteInstance.invalidated])
            unchanged := fun hnone => absurd hnone (by simp)
            written := fun w hw => by
              cases hw
              exact ⟨hview, hbody, hfiles, .inr hdecided⟩
            returned := fun hok => absurd hok (by simp)
            raised := fun _ => .inr hdecided }
        · rw [if_pos rfl]
          exact CallEnd.spec_raised W c disk _ e

/-! ## Serial turns -/

/-- Turns one after the other, from some files to others. -/
inductive Serial (env : Env) (start : StoreFiles) : List StoreTurn → StoreFiles → Prop where
  | nil : Serial env start [] start
  | read {turns : List StoreTurn} {files : StoreFiles} (i : ℕ) {view : LiteMemory} :
    Serial env start turns files → view.Views env files →
    Serial env start (turns ++ [.read i view]) files
  | wrote {turns : List StoreTurn} {files : StoreFiles} (i : ℕ) (c : StoreCall)
    {view made : LiteMemory} : Serial env start turns files → view.Views env files →
    c.body view = .ok made → Serial env start (turns ++ [.wrote i c view made]) made.rawPair

namespace SharedStore

variable {W : LiteWriter} {files : StoreFiles}

/-- What is true in every state of a run. -/
structure Sound (W : LiteWriter) (files : StoreFiles) (s : SharedStore) : Prop where
  serial : Serial W.env files s.turns s.disk.files
  coherent : ∀ i, (s.instances i).Coherent W.env s.disk
  given : s.disk.stamp ∈ s.stamps
  known : ∀ i, ∀ stamp ∈ (s.instances i).fingerprint, stamp ∈ s.stamps

/-- The stamps of a call are not those of the files. -/
theorem Sound.fresh {s : SharedStore} (h : s.Sound W files) {c : StoreCall}
    (hfresh : ∀ stamp, c.Stamps stamp → stamp ∉ s.stamps) (stamp : ℕ) (hstamp : c.Stamps stamp) :
    stamp ≠ s.disk.stamp := fun heq => hfresh stamp hstamp (heq ▸ h.given)

/-- A mutator of an instance. -/
theorem Sound.mutate {s : SharedStore} (h : s.Sound W files) (i : ℕ) {c : StoreCall}
    (hfresh : ∀ stamp, c.Stamps stamp → stamp ∉ s.stamps) : (s.mutate W i c).Sound W files := by
  have hcall := callStore_spec (h.coherent i) (h.fresh hfresh)
  refine ⟨?_, fun j => ?_, by simp [SharedStore.mutate], fun j stamp hstamp => ?_⟩
  · unfold SharedStore.mutate
    dsimp only
    cases hwrote : ((s.instances i).callStore W c s.disk).wrote with
    | none =>
      rw [hcall.unchanged hwrote]
      simpa using h.serial
    | some w =>
      obtain ⟨hview, hbody, hwritten, -⟩ := hcall.written w hwrote
      rw [hwritten]
      exact h.serial.wrote i c hview hbody
  · show (Function.update s.instances i ((s.instances i).callStore W c s.disk).inst j).Coherent _ _
    rw [Function.update_apply]
    split_ifs with hj
    · exact hcall.coherent
    · cases hwrote : ((s.instances i).callStore W c s.disk).wrote with
      | none =>
        show (s.instances j).Coherent W.env ((s.instances i).callStore W c s.disk).disk
        rw [hcall.unchanged hwrote]
        exact h.coherent j
      | some w =>
        -- The new files have a stamp that no instance knows.
        intro hsame
        exact absurd (h.known j _ hsame) (hfresh _ (hcall.written w hwrote).2.2.2)
  · show stamp ∈ s.stamps ++ [((s.instances i).callStore W c s.disk).disk.stamp]
    have hstamp : stamp ∈ (Function.update s.instances i
        ((s.instances i).callStore W c s.disk).inst j).fingerprint := hstamp
    rw [Function.update_apply] at hstamp
    split_ifs at hstamp with hj
    · exact List.mem_append_right _ (List.mem_singleton.mpr (hcall.known stamp hstamp))
    · exact List.mem_append_left _ (h.known j stamp hstamp)

/-- A reader of an instance. -/
theorem Sound.read {s : SharedStore} (h : s.Sound W files) (i : ℕ) (now : Timestamp) :
    (s.read W i now).Sound W files := by
  have hread : ∀ r, (s.instances i).readStore W now s.disk = r →
      r.1.Coherent W.env s.disk ∧ (∀ stamp ∈ r.1.fingerprint, stamp ∈ s.stamps) ∧
        ∀ view, r.2 = .ok view → view.Views W.env s.disk.files := by
    rintro r rfl
    unfold LiteInstance.readStore
    split_ifs with hsame
    · refine ⟨h.coherent i, h.known i, fun view hview => ?_⟩
      cases Except.ok.inj hview
      exact h.coherent i (of_decide_eq_true hsame)
    · split
      next m hm =>
        refine ⟨fun _ => .inr ⟨now, hm⟩, fun stamp hstamp => ?_, fun view hview => ?_⟩
        · rw [← Option.mem_some_iff.mp hstamp]
          exact h.given
        · cases Except.ok.inj hview
          exact .inr ⟨now, hm⟩
      next e he =>
        exact ⟨LiteInstance.coherent_invalidated _ _ _,
          fun stamp hstamp => absurd hstamp (by simp [LiteInstance.invalidated]),
          fun view hview => absurd hview (by simp)⟩
  obtain ⟨hcoherent, hknown, hview⟩ := hread _ rfl
  refine ⟨?_, fun j => ?_, h.given, fun j stamp hstamp => ?_⟩
  · unfold SharedStore.read
    dsimp only
    cases houtcome : ((s.instances i).readStore W now s.disk).2 with
    | error e => simpa [Except.toOption] using h.serial
    | ok view => exact h.serial.read i (hview view houtcome)
  · show (Function.update s.instances i ((s.instances i).readStore W now s.disk).1 j).Coherent _ _
    rw [Function.update_apply]
    split_ifs with hj
    · exact hcoherent
    · exact h.coherent j
  · have hstamp : stamp ∈ (Function.update s.instances i
        ((s.instances i).readStore W now s.disk).1 j).fingerprint := hstamp
    rw [Function.update_apply] at hstamp
    split_ifs at hstamp with hj
    · exact hknown stamp hstamp
    · exact h.known j stamp hstamp

/-- Run lemma: every state of a run is sound. -/
theorem sound (W : LiteWriter) (files : StoreFiles) :
    (system W files).Inductive (Sound W files) where
  start s h := by
    obtain ⟨rfl, hstamps, hturns, hnone⟩ := h
    refine ⟨hturns ▸ .nil, fun i hsame => ?_, by simp [hstamps], fun i stamp hstamp => ?_⟩
    · exact absurd hsame (by simp [hnone i])
    · exact absurd hstamp (by simp [hnone i])
  step s s' h hstep := by
    cases hstep with
    | mutate i c hfresh => exact h.mutate i hfresh
    | read i now => exact h.read i now
    | reopen i inst =>
      -- A new process takes nothing for the files.
      refine ⟨h.serial, fun j => ?_, h.given, fun j stamp hstamp => ?_⟩
      · show (Function.update s.instances i inst.invalidated j).Coherent _ _
        rw [Function.update_apply]
        split_ifs with hj
        · exact LiteInstance.coherent_invalidated _ _ _
        · exact h.coherent j
      · have hstamp : stamp ∈ (Function.update s.instances i inst.invalidated j).fingerprint :=
          hstamp
        rw [Function.update_apply] at hstamp
        split_ifs at hstamp with hj
        · exact absurd hstamp (by simp [LiteInstance.invalidated])
        · exact h.known j stamp hstamp

end SharedStore

/-- Any interleaving of the instances of a store is a serial use of its files: each turn works on a
view of the files as they were committed last, and what a mutator makes of it replaces them. A
mutator that returns has taken its turn; one that raises has left the files, or has taken its turn
with a write that had decided. -/
theorem instances_serial (W : LiteWriter) {files : StoreFiles} {s : SharedStore}
    (h : (SharedStore.system W files).Reachable s) :
    Serial W.env files s.turns s.disk.files ∧
    ∀ (i : ℕ) (c : StoreCall), (∀ stamp, c.Stamps stamp → stamp ∉ s.stamps) →
      (((s.instances i).callStore W c s.disk).outcome = .ok () →
        ∃ view made, (s.mutate W i c).turns = s.turns ++ [.wrote i c view made]) ∧
      (((s.instances i).callStore W c s.disk).outcome ≠ .ok () →
        ((s.mutate W i c).turns = s.turns ∧ (s.mutate W i c).disk = s.disk) ∨
        ∃ view made, (s.mutate W i c).turns = s.turns ++ [.wrote i c view made] ∧
          c.decided = some (s.mutate W i c).disk.stamp) := by
  have hsound := (SharedStore.sound W files).holds h
  refine ⟨hsound.serial, fun i c hfresh => ?_⟩
  have hcall := callStore_spec (hsound.coherent i) (hsound.fresh hfresh)
  have hturns : ∀ w, ((s.instances i).callStore W c s.disk).wrote = some w →
      (s.mutate W i c).turns = s.turns ++ [.wrote i c w.1 w.2] := fun w hw => by
    rw [SharedStore.mutate_turns, hw]
    rfl
  constructor
  · intro hreturned
    obtain ⟨w, hw⟩ := hcall.returned hreturned
    exact ⟨w.1, w.2, hturns w hw⟩
  · intro hraised
    cases hw : ((s.instances i).callStore W c s.disk).wrote with
    | none =>
      refine .inl ⟨?_, hcall.unchanged hw⟩
      rw [SharedStore.mutate_turns, hw]
      simp
    | some w =>
      refine .inr ⟨w.1, w.2, hturns w hw, ?_⟩
      exact (hcall.raised (by simp [hw])).resolve_left hraised

/-- A call that commits the memory as it is. -/
def sampleCommit : StoreCall where
  body := .ok
  half m := m
  run :=
    ⟨sampleFactB.version.occurredAt, fun _ => (sampleFactB.version.occurredAt, ""), true, .ok 1⟩
  decided := none

/-- Instances that have read nothing, of a store without records. -/
def sampleInstances : SharedStore :=
  let m : LiteMemory := ⟨.empty, [], [], .empty, []⟩
  ⟨fun _ => LiteInstance.invalidated ⟨m, false, none⟩, ⟨m.rawPair, 0⟩, [0], []⟩

/-- One instance commits, and another one reads. -/
theorem instances_serial_two :
    Serial sampleWriter.env sampleInstances.disk.files
      ((sampleInstances.mutate sampleWriter 0 sampleCommit).read sampleWriter 1
        sampleFactB.version.occurredAt).turns
      ((sampleInstances.mutate sampleWriter 0 sampleCommit).read sampleWriter 1
        sampleFactB.version.occurredAt).disk.files ∧
    ((sampleInstances.mutate sampleWriter 0 sampleCommit).read sampleWriter 1
        sampleFactB.version.occurredAt).turns.length = 2 := by
  have hstart : (SharedStore.system sampleWriter sampleInstances.disk.files).Reachable
      sampleInstances := .of_start ⟨rfl, rfl, rfl, fun _ => rfl⟩
  have hmutate := hstart.next (.mutate 0 sampleCommit fun stamp hstamp => by
    rcases hstamp with hstamp | hstamp
    · cases hstamp
      decide
    · exact absurd hstamp (by simp [sampleCommit]))
  have hread := hmutate.next (.read 1 sampleFactB.version.occurredAt)
  exact ⟨(instances_serial sampleWriter hread).1, by decide +kernel⟩

end Memplex
