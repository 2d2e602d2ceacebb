import Memplex.Backup.Artifact

/-!
# A published backup verifies

`publish` writes in the temporary directory only, until it renames it: then the two files are
complete (`leaves_body`), so a call that fails has left the final path as it was, or has put both
files there (`publish_cases`). The writer and the reader go through one `fromDict`, but the reader
also wants the name of the payload file in the manifest, and a limit on its size:
`publish_sound_iff` says that these two are all that stands between a published backup and one that
verifies.
-/

namespace Memplex

open Lib Lib.Json Mutator

namespace PublishRun

variable {R : PublishRun} {root : BackupRoot} {files : ArtifactFiles}

/-- Nothing has changed but in the temporary directory. -/
structure Untouched (R : PublishRun) (root : BackupRoot) (s : PublishState) : Prop where
  frame : ∀ name, name ≠ R.temporaryName → s.root name = root name
  renamed : s.renamed = false
  descriptor : s.descriptor = none ∨ s.descriptor = some R.temporaryName

/-- And the temporary directory has these files. -/
def Draft (R : PublishRun) (root : BackupRoot) (files : ArtifactFiles) (s : PublishState) : Prop :=
  R.Untouched root s ∧ s.root R.temporaryName = some (.directory files)

/-- The temporary directory stands under the id of the backup. -/
structure Renamed (R : PublishRun) (backupId : String) (files : ArtifactFiles)
    (s : PublishState) : Prop where
  artifact : s.root backupId = some (.directory files)
  temporary : s.root R.temporaryName = none
  renamed : s.renamed = true
  descriptor : s.descriptor = none

/-- A call to the system changes nothing here. -/
theorem leaves_call {P Q : PublishState → Prop} (c : PublishCall) (h : ∀ s, P s → Q s) :
    Leaves P (R.call c) (fun _ => P) Q :=
  (leaves_orRaise fun _ _ s hs => h s hs).mono (fun _ hs => hs) (fun _ _ hs => hs.1)
    fun _ hs => hs

theorem leaves_inTemporary (f : ArtifactFiles → Except PyError ArtifactFiles) :
    Leaves (R.Draft root files) (R.inTemporary f)
      (fun _ s => ∃ files', f files = .ok files' ∧ R.Draft root files' s) (R.Untouched root) := by
  refine leaves_ofStep (fun s s' hs hstep => ?_) fun s hs => hs.1
  obtain ⟨huntouched, hfiles⟩ := hs
  rw [hfiles] at hstep
  obtain ⟨files', hf, rfl⟩ := Except.map_ok hstep
  refine ⟨files', hf, ⟨fun name hname => ?_, huntouched.renamed, huntouched.descriptor⟩, ?_⟩
  · rw [PublishState.withEntry_of_ne hname]
    exact huntouched.frame name hname
  · exact PublishState.withEntry_self

/-- A file that is created is empty. -/
theorem leaves_createFile (name : String) :
    Leaves (R.Draft root files) (R.createFile name)
      (fun _ => R.Draft root (files ++ [(name, .file .empty)])) (R.Untouched root) := by
  have hchmod : Leaves (R.Draft root (files ++ [(name, .file .empty)])) (R.call (.chmod name))
      (fun _ => R.Draft root (files ++ [(name, .file .empty)])) (R.Untouched root) :=
    leaves_call _ fun _ hs => hs.1
  refine leaves_bind (leaves_call _ fun _ hs => hs.1) fun _ => ?_
  refine leaves_bind (leaves_inTemporary _) fun _ => ?_
  refine hchmod.mono ?_ (fun _ _ hs => hs) fun _ hs => hs
  rintro s ⟨files', hf, hs⟩
  obtain ⟨_, -, heq⟩ := Except.bind_ok.mp hf
  rw [← Except.ok.inj heq] at hs
  exact hs

/-- The last file has more bytes at its end. -/
theorem appendTo_last {name : String} (h : name ∉ files.map Prod.fst) (bytes data : ByteArray) :
    appendTo name data (files ++ [(name, .file bytes)]) =
      files ++ [(name, .file (bytes ++ data))] := by
  have hother : appendTo name data files = files := by
    refine (List.map_congr_left fun f hf => ?_).trans (List.map_id files)
    obtain ⟨name', entry⟩ := f
    have hne : name' ≠ name := fun heq => h (heq ▸ List.mem_map_of_mem hf)
    cases entry with
    | file b => simp only [hne, if_false, id]
    | other => rfl
  have hlast : appendTo name data [(name, .file bytes)] = [(name, .file (bytes ++ data))] := by
    simp [appendTo]
  calc appendTo name data (files ++ [(name, .file bytes)])
      = appendTo name data files ++ appendTo name data [(name, .file bytes)] := by
        simp only [appendTo, List.map_append]
    _ = files ++ [(name, .file (bytes ++ data))] := by rw [hother, hlast]

/-- Pieces are written one behind the other. -/
theorem leaves_writePieces {name : String} (h : name ∉ files.map Prod.fst) (chunk i : ℕ)
    (pieces : List ByteArray) (bytes : ByteArray) :
    Leaves (R.Draft root (files ++ [(name, .file bytes)])) (R.writePieces name chunk i pieces)
      (fun _ => R.Draft root (files ++ [(name, .file (pieces.foldl (· ++ ·) bytes))]))
      (R.Untouched root) := by
  induction pieces generalizing i bytes with
  | nil => exact leaves_pure fun s hs => hs
  | cons piece pieces ih =>
    refine leaves_bind (leaves_call _ fun s hs => hs.1) fun _ => ?_
    refine leaves_bind (leaves_inTemporary _) fun _ => ?_
    refine (ih (i + 1) (bytes ++ piece)).mono ?_ (fun _ _ hs => hs) fun _ hs => hs
    rintro s ⟨files', hf, hs⟩
    rw [← Except.ok.inj hf, appendTo_last h] at hs
    exact hs

/-- The payload is copied chunk by chunk. -/
theorem leaves_copyPayload (maxBytes i size : ℕ) (chunks : List (List ByteArray))
    (bytes : ByteArray) :
    Leaves (R.Draft root [(publishedPayloadName, .file bytes)])
      (R.copyPayload maxBytes i size chunks)
      (fun _ => R.Draft root [(publishedPayloadName,
        .file (chunks.flatten.foldl (· ++ ·) bytes))]) (R.Untouched root) := by
  induction chunks generalizing i size bytes with
  | nil => exact leaves_call _ fun s hs => hs.1
  | cons chunk chunks ih =>
    refine leaves_bind (leaves_call _ fun s hs => hs.1) fun _ => ?_
    refine leaves_bind (leaves_orRaise fun _ _ s hs => hs.1) fun _ => ?_
    have hpieces : Leaves (R.Draft root ([] ++ [(publishedPayloadName, .file bytes)]))
        (R.writePieces publishedPayloadName i 0 chunk) (fun _ => R.Draft root
          ([] ++ [(publishedPayloadName, .file (chunk.foldl (· ++ ·) bytes))]))
        (R.Untouched root) :=
      leaves_writePieces List.not_mem_nil i 0 chunk bytes
    refine leaves_bind (hpieces.mono (fun _ hs => hs.1) (fun _ _ hs => hs) fun _ hs => hs)
      fun _ => ?_
    rw [List.flatten_cons, List.foldl_append]
    exact ih _ _ _

theorem leaves_finishFile (name : String) :
    Leaves (R.Draft root files) (R.finishFile name) (fun _ => R.Draft root files)
      (R.Untouched root) :=
  leaves_bind (leaves_call _ fun _ hs => hs.1) fun _ => leaves_call _ fun _ hs => hs.1

/-- The two files of an artifact. -/
def artifactFiles (payload encoded : ByteArray) : ArtifactFiles :=
  [(publishedPayloadName, .file payload), (publishedManifestName, .file encoded)]

/-- The files of the manifest and the payload of a run. -/
def IsArtifact (R : PublishRun) (H : BackupHashes) (W : BackupArtifactWriter) (fields : Members)
    (files : ArtifactFiles) : Prop :=
  ∃ manifest encoded, W.manifestOf H fields R.payload = .ok manifest ∧
    manifest.canonicalBytes = .ok encoded ∧ files = artifactFiles R.payload encoded

variable {H : BackupHashes} {W : BackupArtifactWriter} {fields : Members}

/-- Before the rename the two files are complete. -/
theorem leaves_writeArtifact :
    Leaves (R.Draft root []) (R.writeArtifact H W fields)
      (fun _ s => ∃ files, R.IsArtifact H W fields files ∧ R.Draft root files s)
      (R.Untouched root) := by
  have hname : publishedManifestName ∉
      ([(publishedPayloadName, .file R.payload)] : ArtifactFiles).map Prod.fst :=
    (by decide : publishedManifestName ∉ [publishedPayloadName])
  refine leaves_bind (leaves_createFile _) fun _ => ?_
  refine leaves_bind (leaves_copyPayload W.maxBytes 0 0 R.chunks .empty) fun _ => ?_
  refine leaves_bind (leaves_finishFile _) fun _ => ?_
  refine leaves_bind (leaves_orRaise fun _ _ _ hs => hs.1) fun manifest => ?_
  refine leaves_of_and fun hmanifest => ?_
  refine leaves_bind (leaves_createFile _) fun _ => ?_
  refine leaves_bind (leaves_orRaise fun _ _ _ hs => hs.1) fun encoded => ?_
  refine leaves_of_and fun hencoded => ?_
  refine leaves_bind (leaves_writePieces hname 0 0 (R.pieces encoded) .empty) fun _ => ?_
  refine leaves_bind (leaves_finishFile _) fun _ => ?_
  refine leaves_bind (leaves_call _ fun _ hs => hs.1) fun _ => ?_
  refine (leaves_call _ fun _ hs => hs.1).mono (fun _ hs => hs) (fun _ s hs => ?_) fun _ hs => hs
  exact ⟨_, ⟨manifest, encoded, hmanifest, hencoded, rfl⟩, R.join_pieces encoded ▸ hs⟩

/-- What has been checked of the fields before the temporary directory is there. -/
def Named (fields : Members) (backupId : String) : Prop :=
  (fields.keys ⊆ manifestInputKeys ∧ manifestInputKeys ⊆ fields.keys) ∧
    backupIdOf fields = .ok backupId

/-- The temporary directory is empty at first. -/
theorem leaves_makeTemporary :
    Leaves (R.Untouched root) (R.makeTemporary fields)
      (fun backupId s => R.Draft root [] s ∧ Named fields backupId) (R.Untouched root) := by
  refine leaves_bind (leaves_orRaise fun _ _ _ hs => hs) fun _ => ?_
  refine leaves_of_and fun hkeys => ?_
  refine leaves_bind (leaves_call _ fun _ hs => hs) fun _ => ?_
  refine leaves_bind (leaves_call _ fun _ hs => hs) fun _ => ?_
  refine leaves_bind (leaves_orRaise fun _ _ _ hs => hs) fun _ => ?_
  refine leaves_of_and fun _ => ?_
  refine leaves_bind (leaves_call _ fun _ hs => hs) fun _ => ?_
  refine leaves_bind (leaves_call _ fun _ hs => hs) fun _ => ?_
  refine leaves_bind (leaves_call _ fun _ hs => hs) fun _ => ?_
  refine leaves_bind (leaves_orRaise fun _ _ _ hs => hs) fun backupId => ?_
  refine leaves_of_and fun hbackupId => ?_
  have hnamed : ∀ s, R.Untouched root s → R.Untouched root { s with named := true } :=
    fun s hs => ⟨hs.frame, hs.renamed, hs.descriptor⟩
  have hopened : ∀ s, R.Draft root [] s →
      R.Draft root [] { s with descriptor := some R.temporaryName } :=
    fun s hs => ⟨⟨hs.1.frame, hs.1.renamed, .inr rfl⟩, hs.2⟩
  refine leaves_bind (leaves_modify (Q := fun _ => R.Untouched root) hnamed) fun _ => ?_
  refine leaves_bind (leaves_call _ fun _ hs => hs) fun _ => ?_
  refine leaves_bind (leaves_ofStep (Q := fun _ => R.Draft root []) ?_ fun _ hs => hs) fun _ => ?_
  · intro s s' hs hstep
    obtain ⟨_, -, heq⟩ := Except.bind_ok.mp hstep
    rw [← Except.ok.inj heq]
    refine ⟨⟨fun name hname => ?_, hs.renamed, hs.descriptor⟩, PublishState.withEntry_self⟩
    rw [PublishState.withEntry_of_ne hname]
    exact hs.frame name hname
  refine leaves_bind (leaves_call _ fun _ hs => hs.1) fun _ => ?_
  refine leaves_bind (leaves_modify (Q := fun _ => R.Draft root []) hopened) fun _ => ?_
  refine leaves_bind (leaves_call _ fun _ hs => hs.1) fun _ => ?_
  exact leaves_pure fun _ hs => ⟨hs, require_ok.mp hkeys, hbackupId⟩

/-- The rename puts the two files under the id of the backup. -/
theorem leaves_renameDirectory (backupId : String) :
    Leaves (R.Draft root files) (R.renameDirectory backupId)
      (fun _ s => s.root backupId = some (.directory files) ∧
        s.root R.temporaryName = none) (R.Untouched root) := by
  refine leaves_bind (leaves_orRaise fun _ _ _ hs => hs.1) fun _ => ?_
  refine leaves_of_and fun _ => ?_
  refine leaves_bind (leaves_call _ fun _ hs => hs.1) fun _ => ?_
  refine leaves_ofStep (fun s s' hs hstep => ?_) fun _ hs => hs.1
  obtain ⟨_, hfree, heq⟩ := Except.bind_ok.mp hstep
  have hne : backupId ≠ R.temporaryName := by
    rintro rfl
    exact absurd (hs.2.symm.trans (require_ok.mp hfree)) (by simp)
  rw [← Except.ok.inj heq]
  refine ⟨?_, PublishState.withEntry_self⟩
  rw [PublishState.withEntry_of_ne hne, PublishState.withEntry_self, hs.2]

/-- `publish` raises with nothing changed but in the temporary directory, or has put the two files
of the run under the id of the backup. -/
theorem leaves_body :
    Leaves (R.Untouched root) (R.body H W fields)
      (fun backupId s => ∃ files, Named fields backupId ∧ R.IsArtifact H W fields files ∧
        R.Renamed backupId files s)
      (fun s => R.Untouched root s ∨ ∃ backupId files, Named fields backupId ∧
        R.IsArtifact H W fields files ∧ R.Renamed backupId files s) := by
  refine leaves_bind (leaves_makeTemporary.mono (fun _ hs => hs) (fun _ _ hs => hs)
    fun _ hs => .inl hs) fun backupId => ?_
  refine leaves_of_and fun hnamed => ?_
  refine leaves_bind (leaves_writeArtifact.mono (fun _ hs => hs) (fun _ _ hs => hs)
    fun _ hs => .inl hs) fun _ => ?_
  refine leaves_of_exists fun files => ?_
  have hrenamed : ∀ s : PublishState, (s.root backupId = some (.directory files) ∧
      s.root R.temporaryName = none) → R.Renamed backupId files
        { s with renamed := true, descriptor := none } := fun s hs => ⟨hs.1, hs.2, rfl, rfl⟩
  have hclosed : ∀ s : PublishState, R.Renamed backupId files s →
      R.Renamed backupId files { s with named := false } :=
    fun s hs => ⟨hs.artifact, hs.temporary, hs.renamed, hs.descriptor⟩
  refine Leaves.mono (leaves_of_and fun hfiles => ?_) (fun _ hs => ⟨hs.2, hs.1⟩) (fun _ _ hs => hs)
    fun _ hs => hs
  have hraise : ∀ s, R.Renamed backupId files s → R.Untouched root s ∨ ∃ backupId files,
      Named fields backupId ∧ R.IsArtifact H W fields files ∧ R.Renamed backupId files s :=
    fun s hs => .inr ⟨backupId, files, hnamed, hfiles, hs⟩
  refine leaves_bind ((leaves_renameDirectory backupId).mono (fun _ hs => hs) (fun _ _ hs => hs)
    fun _ hs => .inl hs) fun _ => ?_
  refine leaves_bind (leaves_modify (Q := fun _ => R.Renamed backupId files) hrenamed) fun _ => ?_
  refine leaves_bind (leaves_call _ hraise) fun _ => ?_
  refine leaves_bind (leaves_modify (Q := fun _ => R.Renamed backupId files) hclosed) fun _ => ?_
  refine leaves_bind (leaves_call _ hraise) fun _ => ?_
  refine leaves_bind (leaves_call _ hraise) fun _ => ?_
  exact leaves_pure fun _ hs => ⟨files, hnamed, hfiles, hs⟩

/-! ## The exits -/

theorem unlinkMember_of_ne {directory name other : String} (h : other ≠ directory) :
    R.unlinkMember root directory name other = root other := by
  unfold unlinkMember
  match root directory with
  | some (.directory files) =>
    dsimp only
    by_cases hfails : R.fails (.unlink name) = true
    · rw [if_pos hfails]
    · rw [if_neg hfails, Function.update_of_ne h]
  | some .other => rfl
  | none => rfl

/-- Cleaning up changes the temporary directory only. -/
theorem Untouched.cleanup {s : PublishState} (h : R.Untouched root s) {name : String}
    (hname : name ≠ R.temporaryName) : R.cleanup s name = root name := by
  have hmembers : ∀ left : BackupRoot, left name = root name →
      (if R.fails .removeTemporary = false ∧ left R.temporaryName = some (.directory []) then
        Function.update left R.temporaryName none else left) name = root name := by
    intro left hleft
    split_ifs
    · rw [Function.update_of_ne hname, hleft]
    · exact hleft
  refine hmembers _ ?_
  rcases h.descriptor with hnone | hsome
  · rw [hnone]
    exact h.frame name hname
  · rw [hsome]
    dsimp only
    rw [unlinkMember_of_ne hname, unlinkMember_of_ne hname, h.frame name hname]

/-- Cleaning up does not touch what has been renamed. -/
theorem Renamed.cleanup {backupId : String} {s : PublishState} (h : R.Renamed backupId files s) :
    R.cleanup s = s.root := by
  have hgone : ¬(R.fails .removeTemporary = false ∧
      s.root R.temporaryName = some (.directory [])) := by
    rw [h.temporary]
    rintro ⟨-, hsome⟩
    cases hsome
  unfold PublishRun.cleanup
  rw [h.descriptor]
  exact if_neg hgone

/-- What the exits of `publish` leave. -/
theorem publish_cases (R : PublishRun) (H : BackupHashes) (W : BackupArtifactWriter)
    (fields : Members) (root : BackupRoot) :
    (∃ backupId files left, R.publish H W fields root = (.ok backupId, left) ∧
      Named fields backupId ∧ R.IsArtifact H W fields files ∧
      left backupId = some (.directory files)) ∨
    (∃ e left, R.publish H W fields root = (.error e, left) ∧ e ≠ publishOutcomeUnknown ∧
      ∀ name, name ≠ R.temporaryName → left name = root name) ∨
    ∃ e backupId files left, R.publish H W fields root = (.error e, left) ∧ e ≠ publishFailed ∧
      Named fields backupId ∧ R.IsArtifact H W fields files ∧
      left backupId = some (.directory files) := by
  have hstart : R.Untouched root ⟨root, false, none, false⟩ := ⟨fun _ _ => rfl, rfl, .inl rfl⟩
  have hexit := @leaves_body R root H W fields _ hstart
  unfold publish
  cases hrun : R.body H W fields ⟨root, false, none, false⟩ with
  | ok backupId s =>
    rw [hrun] at hexit
    obtain ⟨files, hnamed, hfiles, hrenamed⟩ := hexit
    exact .inl ⟨backupId, files, s.root, rfl, hnamed, hfiles, hrenamed.artifact⟩
  | error e s =>
    rw [hrun] at hexit
    rcases hexit with huntouched | ⟨backupId, files, hnamed, hfiles, hrenamed⟩
    · have hleft : ∀ name, name ≠ R.temporaryName →
          (if s.named then R.cleanup s else s.root) name = root name := by
        intro name hname
        split_ifs
        · exact huntouched.cleanup hname
        · exact huntouched.frame name hname
      refine .inr (.inl ?_)
      dsimp only
      by_cases hconfiguration : e.kind = .backupConfigurationError
      · rw [if_pos hconfiguration]
        refine ⟨e, _, rfl, ?_, hleft⟩
        rintro rfl
        cases hconfiguration
      · rw [if_neg hconfiguration, huntouched.renamed, if_neg Bool.false_ne_true]
        exact ⟨publishFailed, _, rfl, by decide, hleft⟩
    · have hleft : (if s.named then R.cleanup s else s.root) = s.root := by
        rw [hrenamed.cleanup, ite_self]
      refine .inr (.inr ?_)
      dsimp only
      rw [hleft]
      by_cases hconfiguration : e.kind = .backupConfigurationError
      · rw [if_pos hconfiguration]
        refine ⟨e, backupId, files, _, rfl, ?_, hnamed, hfiles, hrenamed.artifact⟩
        rintro rfl
        cases hconfiguration
      · rw [if_neg hconfiguration, if_pos hrenamed.renamed]
        exact ⟨publishOutcomeUnknown, backupId, files, _, rfl, by decide, hnamed, hfiles,
          hrenamed.artifact⟩

end PublishRun

/-! ## Opening -/

theorem Except.mapError_ok {ε ε' α : Type} {f : ε → ε'} {x : Except ε α} {a : α} :
    x.mapError f = .ok a ↔ x = .ok a := by
  cases x with
  | error e =>
    constructor <;>
    · intro h
      cases h
  | ok b =>
    constructor <;>
    · intro h
      exact congrArg Except.ok (Except.ok.inj h)

theorem isSpace_of_isLowerHex {c : Char} (h : isLowerHex c = true) : isSpace c = false := by
  have hle : ∀ {a b : Char}, a ≤ b ↔ a.toNat ≤ b.toNat :=
    fun {a b} => Char.le_def.trans UInt32.le_iff_toNat_le
  have hhex : 48 ≤ c.toNat ∧ c.toNat ≤ 102 := by
    simp only [isLowerHex, Char.isDigit, Bool.or_eq_true, Bool.and_eq_true, decide_eq_true_eq,
      ge_iff_le, UInt32.le_iff_toNat_le, hle, Char.reduceToNat, Char.toNat_val, Char.reduceVal,
      UInt32.reduceToNat] at h
    omega
  rw [Bool.eq_false_iff]
  intro hspace
  have hrange : c.toNat ≤ 32 ∨ 133 ≤ c.toNat := by
    simp only [isSpace, Bool.or_eq_true, Bool.and_eq_true, decide_eq_true_eq, hle,
      ← Char.toNat_inj, Char.reduceToNat] at hspace
    omega
  omega

/-- Hexadecimal digits are the text of a field. -/
theorem Sha256Text.manifestText {s : String} (h : Sha256Text s) : ManifestText s := by
  refine ⟨?_, ?_, fun hnul => ?_⟩
  · rintro rfl
    exact absurd h.1 (by decide)
  · rw [strip, List.dropWhile_eq_self_iff.mpr, List.rdropWhile_eq_self_iff.mpr]
    · intro hne hlast
      rw [isSpace_of_isLowerHex (h.2 _ (List.getLast_mem hne))] at hlast
      cases hlast
    · intro hne hhead
      rw [isSpace_of_isLowerHex (h.2 _ (List.getElem_mem hne))] at hhead
      cases hhead
  · exact absurd (h.2 _ hnul) (by decide)

/-- What an artifact has that is opened. -/
structure Opens (H : BackupHashes) (files : ArtifactFiles) (key : ByteArray)
    (m : BackupManifest) (payload : ByteArray) : Prop where
  key_size : key.size = 32
  length : (files.map Prod.fst).length = 2
  has_manifest : publishedManifestName ∈ files.map Prod.fst
  has_payload : publishedPayloadName ∈ files.map Prod.fst
  manifest : ∃ data, readRegular files publishedManifestName = .ok data ∧
    data.size ≤ maxManifestBytes ∧ manifestFromJson data = .ok m
  payloadName : m.payloadName = publishedPayloadName
  signature : ∃ bytes, m.canonicalUnsignedBytes = .ok bytes ∧
    H.hmacSha256 key bytes = m.signature
  read_payload : readRegular files publishedPayloadName = .ok payload
  payloadSize : payload.size = m.payloadSize
  payloadSha256 : H.sha256 payload = m.payloadSha256

theorem openVerified_ok {H : BackupHashes} {files : ArtifactFiles} {key payload : ByteArray}
    {m : BackupManifest} :
    openVerified H (some (.directory files)) key = .ok (m, payload) ↔
      Opens H files key m payload := by
  rw [openVerified, Except.mapError_ok]
  constructor
  · intro h
    obtain ⟨_, hkey, h⟩ := Except.bind_ok.mp h
    obtain ⟨files', hfiles, h⟩ := Except.bind_ok.mp h
    cases hfiles
    obtain ⟨_, hchildren, h⟩ := Except.bind_ok.mp h
    obtain ⟨data, hdata, h⟩ := Except.bind_ok.mp h
    obtain ⟨_, hsize, h⟩ := Except.bind_ok.mp h
    obtain ⟨manifest, hmanifest, h⟩ := Except.bind_ok.mp h
    obtain ⟨_, hname, h⟩ := Except.bind_ok.mp h
    obtain ⟨_, hverify, h⟩ := Except.bind_ok.mp h
    obtain ⟨data', hpayload, h⟩ := Except.bind_ok.mp h
    obtain ⟨_, hpayloadSize, h⟩ := Except.bind_ok.mp h
    obtain ⟨_, hpayloadSha, h⟩ := Except.bind_ok.mp h
    obtain ⟨rfl, rfl⟩ := Prod.mk.inj (Except.ok.inj h)
    obtain ⟨bytes, hbytes, hsignature⟩ := Except.bind_ok.mp hverify
    obtain ⟨hlength, hhasManifest, hhasPayload⟩ := require_ok.mp hchildren
    exact ⟨require_ok.mp hkey, hlength, hhasManifest, hhasPayload,
      ⟨data, hdata, require_ok.mp hsize, hmanifest⟩, require_ok.mp hname,
      ⟨bytes, hbytes, require_ok.mp hsignature⟩, hpayload, require_ok.mp hpayloadSize,
      require_ok.mp hpayloadSha⟩
  · intro h
    obtain ⟨data, hdata, hsize, hmanifest⟩ := h.manifest
    obtain ⟨bytes, hbytes, hsignature⟩ := h.signature
    refine Except.bind_ok.mpr ⟨(), require_ok.mpr h.key_size, ?_⟩
    refine Except.bind_ok.mpr ⟨files, rfl, ?_⟩
    refine Except.bind_ok.mpr
      ⟨(), require_ok.mpr ⟨h.length, h.has_manifest, h.has_payload⟩, ?_⟩
    refine Except.bind_ok.mpr ⟨data, hdata, ?_⟩
    refine Except.bind_ok.mpr ⟨(), require_ok.mpr hsize, ?_⟩
    refine Except.bind_ok.mpr ⟨m, hmanifest, ?_⟩
    refine Except.bind_ok.mpr ⟨(), require_ok.mpr h.payloadName, ?_⟩
    refine Except.bind_ok.mpr
      ⟨(), Except.bind_ok.mpr ⟨bytes, hbytes, require_ok.mpr hsignature⟩, ?_⟩
    refine Except.bind_ok.mpr ⟨payload, h.read_payload, ?_⟩
    refine Except.bind_ok.mpr ⟨(), require_ok.mpr h.payloadSize, ?_⟩
    exact Except.bind_ok.mpr ⟨(), require_ok.mpr h.payloadSha256, rfl⟩

/-! ## The manifest of a run -/

section Manifest

variable {fields added : Members} {key : String}

theorem get?_append_of_mem (h : key ∈ fields.keys) :
    Members.get? (fields ++ added) key = fields.get? key := by
  obtain ⟨r, hr⟩ := Option.isSome_iff_exists.mp (findRow_isSome.mpr (List.mem_map.mp h))
  unfold Members.get?
  rw [findRow_append, hr]
  rfl

theorem get?_append_of_notMem (h : key ∉ fields.keys) :
    Members.get? (fields ++ added) key = added.get? key := by
  have hnone : findRow Prod.fst key fields = none :=
    findRow_eq_none.mpr fun r hr heq => h (List.mem_map.mpr ⟨r, hr, heq⟩)
  unfold Members.get?
  rw [findRow_append, hnone]
  rfl

end Manifest

namespace PublishRun

variable {R : PublishRun} {H : BackupHashes} {W : BackupArtifactWriter} {fields : Members}
  {payload : ByteArray} {m : BackupManifest} {backupId : String}

/-- What the manifest of a run says. -/
structure Describes (H : BackupHashes) (W : BackupArtifactWriter) (fields : Members)
    (payload : ByteArray) (m : BackupManifest) : Prop where
  valid : m.Valid
  backupId : fields.get? "backup_id" = some (.str m.backupId)
  payloadName : fields.get? "payload_name" = some (.str m.payloadName)
  payloadSize : m.payloadSize = payload.size
  payloadSha256 : m.payloadSha256 = H.sha256 payload
  signature : ∃ bytes, m.canonicalUnsignedBytes = .ok bytes ∧
    m.signature = H.hmacSha256 W.key bytes

theorem manifestOf_ok (hkeys : fields.keys ⊆ manifestInputKeys ∧ manifestInputKeys ⊆ fields.keys)
    (h : W.manifestOf H fields payload = .ok m) : Describes H W fields payload m := by
  obtain ⟨unsigned, hunsigned, hsigned⟩ := Except.bind_ok.mp h
  obtain ⟨bytes, hbytes, heq⟩ := Except.bind_ok.mp hsigned
  obtain ⟨-, hfields, hvalid⟩ := BackupManifest.fromMembers_eq_ok.mp hunsigned
  have hinput : ∀ key ∈ manifestInputKeys, ∀ {v}, (key, v) ∈ unsigned.toDict →
      fields.get? key = some v := by
    intro key hkey v hv
    rw [← hfields _ hv, get?_append_of_mem (hkeys.2 hkey)]
  have hadded : ∀ key, key ∉ manifestInputKeys → ∀ {v}, (key, v) ∈ unsigned.toDict →
      (W.addedFields H payload).get? key = some v := by
    intro key hkey v hv
    rw [← hfields _ hv, get?_append_of_notMem fun hmem => hkey (hkeys.1 hmem)]
  have hid : ("backup_id", .str unsigned.backupId) ∈ unsigned.toDict := by
    simp [BackupManifest.toDict]
  have hname : ("payload_name", .str unsigned.payloadName) ∈ unsigned.toDict := by
    simp [BackupManifest.toDict]
  have hsize : ("payload_size", Value.int unsigned.payloadSize) ∈ unsigned.toDict := by
    simp [BackupManifest.toDict]
  have hsha : ("payload_sha256", .str unsigned.payloadSha256) ∈ unsigned.toDict := by
    simp [BackupManifest.toDict]
  have hsize := hadded _ (by decide) hsize
  have hsha := hadded _ (by decide) hsha
  have htext := H.hmac_text W.key bytes
  obtain rfl := Except.ok.inj heq
  refine ⟨⟨hvalid.formatVersion, hvalid.backupId, hvalid.createdAt, hvalid.backend,
    hvalid.database, hvalid.schema, hvalid.payloadName, hvalid.payloadSha256,
    hvalid.pgDumpVersion, hvalid.serverVersion, hvalid.consistency, hvalid.keyId,
    htext.manifestText, htext⟩, hinput _ (by decide) hid, hinput _ (by decide) hname, ?_, ?_,
    bytes, hbytes, rfl⟩
  · have heq : Value.int payload.size = Value.int unsigned.payloadSize := Option.some.inj hsize
    simpa using heq.symm
  · have heq : (.str (H.sha256 payload) : Value) = .str unsigned.payloadSha256 :=
      Option.some.inj hsha
    exact (Json.str.inj heq).symm

/-- The files of a run are opened, if the manifest names the payload file and is not too long. -/
theorem Describes.opens (h : Describes H W fields payload m) {encoded : ByteArray}
    (hencoded : m.canonicalBytes = .ok encoded) (hname : m.payloadName = publishedPayloadName)
    (hsize : encoded.size ≤ maxManifestBytes) :
    Opens H (artifactFiles payload encoded) W.key m payload := by
  obtain ⟨bytes, hbytes, hsignature⟩ := h.signature
  exact ⟨W.key_size, rfl, List.mem_cons_of_mem _ List.mem_cons_self, List.mem_cons_self,
    ⟨encoded, rfl, hsize, BackupManifest.manifestFromJson_canonicalBytes h.valid hencoded⟩,
    hname, ⟨bytes, hbytes, hsignature.symm⟩, rfl, h.payloadSize.symm, h.payloadSha256.symm⟩

/-- And only then. -/
theorem Describes.opened (h : Describes H W fields payload m) {encoded payload' : ByteArray}
    {m' : BackupManifest} (hencoded : m.canonicalBytes = .ok encoded)
    (hopens : Opens H (artifactFiles payload encoded) W.key m' payload') :
    m.payloadName = publishedPayloadName ∧ encoded.size ≤ maxManifestBytes := by
  obtain ⟨data, hdata, hsize, hmanifest⟩ := hopens.manifest
  obtain rfl : encoded = data := Except.ok.inj hdata
  rw [BackupManifest.manifestFromJson_canonicalBytes h.valid hencoded] at hmanifest
  obtain rfl := Except.ok.inj hmanifest
  exact ⟨hopens.payloadName, hsize⟩

/-- The hashes tell two texts apart. -/
def TellsApart (H : BackupHashes) (key x y : ByteArray) : Prop :=
  (H.sha256 x = H.sha256 y → x = y) ∧ (H.hmacSha256 key x = H.hmacSha256 key y → x = y)

/-- A directory that differs from an artifact in the set of its files or what kind they are, in a
field of the manifest, whose signature or whose other fields are as they were, or in the payload. A
manifest that is signed anew belongs to another artifact. -/
inductive Differs (H : BackupHashes) (key : ByteArray) (m : BackupManifest) (payload : ByteArray)
    (files : ArtifactFiles) : Prop
  | names (hnames : ¬(files.map Prod.fst).Perm [publishedPayloadName, publishedManifestName])
  | irregular (hirregular : (∀ data, readRegular files publishedPayloadName ≠ .ok data) ∨
      ∀ data, readRegular files publishedManifestName ≠ .ok data)
  | payload {data payload' : ByteArray}
      (hdata : readRegular files publishedManifestName = .ok data)
      (hm : manifestFromJson data = .ok m)
      (hpayload : readRegular files publishedPayloadName = .ok payload') (hne : payload' ≠ payload)
      (happart : TellsApart H key payload' payload)
  | manifest {data : ByteArray} {m' : BackupManifest}
      (hdata : readRegular files publishedManifestName = .ok data)
      (hm' : manifestFromJson data = .ok m') (hne : m' ≠ m)
      (hsame : m'.signature = m.signature ∨ m'.unsignedDict = m.unsignedDict)
      (hapart : ∀ {x y}, m'.canonicalUnsignedBytes = .ok x → m.canonicalUnsignedBytes = .ok y →
        TellsApart H key x y)

/-- Two different names in a list of two are the list. -/
theorem perm_of_two {α : Type} {xs : List α} {a b : α} (hab : a ≠ b) (hlength : xs.length = 2)
    (ha : a ∈ xs) (hb : b ∈ xs) : xs.Perm [a, b] := by
  refine (List.Subperm.perm_of_length_le ?_ (by simp [hlength])).symm
  refine (List.nodup_cons.mpr ⟨?_, List.nodup_singleton b⟩).subperm ?_
  · rwa [List.mem_singleton]
  · intro x hx
    rcases List.mem_cons.mp hx with rfl | hx
    · exact ha
    · exact List.mem_singleton.mp hx ▸ hb

/-- A directory that differs from an artifact is not opened. -/
theorem Describes.rejects (h : Describes H W fields payload m) {files : ArtifactFiles}
    (hdiffers : Differs H W.key m payload files) {m' : BackupManifest} {payload' : ByteArray} :
    ¬Opens H files W.key m' payload' := by
  intro hopens
  obtain ⟨data, hdata, -, hmanifest⟩ := hopens.manifest
  obtain ⟨bytes', hbytes', hsignature'⟩ := hopens.signature
  obtain ⟨bytes, hbytes, hsignature⟩ := h.signature
  cases hdiffers with
  | names hnames =>
    exact hnames (perm_of_two (by decide) hopens.length hopens.has_payload hopens.has_manifest)
  | irregular hirregular =>
    rcases hirregular with hpayload | hmanifest
    · exact hpayload _ hopens.read_payload
    · exact hmanifest _ hdata
  | payload hdata₁ hm hpayload hne happart =>
    obtain rfl := Except.ok.inj (hdata.symm.trans hdata₁)
    obtain rfl := Except.ok.inj (hmanifest.symm.trans hm)
    obtain rfl := Except.ok.inj (hopens.read_payload.symm.trans hpayload)
    exact hne (happart.1 (hopens.payloadSha256.trans h.payloadSha256))
  | manifest hdata₁ hm hne hsame hapart =>
    obtain rfl := Except.ok.inj (hdata.symm.trans hdata₁)
    obtain rfl := Except.ok.inj (hmanifest.symm.trans hm)
    have hsigned : m'.signature = m.signature := by
      rcases hsame with hsame | hsame
      · exact hsame
      · have hsameBytes : m'.canonicalUnsignedBytes = m.canonicalUnsignedBytes := by
          rw [BackupManifest.canonicalUnsignedBytes, hsame]
          rfl
        rw [hbytes', hbytes] at hsameBytes
        rw [← hsignature', hsignature, Except.ok.inj hsameBytes]
    have hequal : bytes' = bytes := (hapart hbytes' hbytes).2 <| by
      rw [hsignature', hsigned, hsignature]
    exact hne (BackupManifest.canonicalUnsignedBytes_inj (hequal ▸ hbytes') hbytes hsigned)

/-! ## Publishing and opening -/

/-- Some run of `publish` with these fields and this payload returns. -/
def Accepts (H : BackupHashes) (W : BackupArtifactWriter) (fields : Members)
    (payload : ByteArray) : Prop :=
  ∃ (R : PublishRun) (root : BackupRoot) (backupId : String) (left : BackupRoot),
    R.payload = payload ∧ R.publish H W fields root = (.ok backupId, left)

/-- A published backup verifies, nothing that differs from it does, and a failed call leaves the
final path as it was, or a backup that verifies. -/
structure Sound (H : BackupHashes) (W : BackupArtifactWriter) (fields : Members)
    (payload : ByteArray) : Prop where
  returned : ∀ {R : PublishRun} {root left : BackupRoot} {backupId : String},
    R.payload = payload → R.publish H W fields root = (.ok backupId, left) →
    ∃ m, W.manifestOf H fields payload = .ok m ∧
      openVerified H (left backupId) W.key = .ok (m, payload)
  rejected : ∀ {m : BackupManifest} {files : ArtifactFiles},
    W.manifestOf H fields payload = .ok m → Differs H W.key m payload files →
    ∀ out, openVerified H (some (.directory files)) W.key ≠ .ok out
  failed : ∀ {R : PublishRun} {root left : BackupRoot}, R.payload = payload →
    R.publish H W fields root = (.error publishFailed, left) →
    ∃ backupId, fields.get? "backup_id" = some (.str backupId) ∧ left backupId = root backupId
  unknown : ∀ {R : PublishRun} {root left : BackupRoot}, R.payload = payload →
    R.publish H W fields root = (.error publishOutcomeUnknown, left) →
    ∃ backupId m, fields.get? "backup_id" = some (.str backupId) ∧
      W.manifestOf H fields payload = .ok m ∧
      openVerified H (left backupId) W.key = .ok (m, payload)

/-- What a run that returns says of the fields. -/
theorem Accepts.describes (h : Accepts H W fields payload) :
    (fields.keys ⊆ manifestInputKeys ∧ manifestInputKeys ⊆ fields.keys) ∧
      ∃ m encoded, W.manifestOf H fields payload = .ok m ∧
        m.canonicalBytes = .ok encoded ∧ Describes H W fields payload m := by
  obtain ⟨R, root, backupId, left, rfl, hpublish⟩ := h
  rcases R.publish_cases H W fields root with
    ⟨_, _, _, hrun, hnamed, ⟨m, encoded, hm, hencoded, -⟩, -⟩ | ⟨_, _, hrun, -⟩ |
    ⟨_, _, _, _, hrun, -⟩
  · exact ⟨hnamed.1, m, encoded, hm, hencoded, manifestOf_ok hnamed.1 hm⟩
  · rw [hpublish] at hrun
    cases hrun
  · rw [hpublish] at hrun
    cases hrun

/-- The id of a backup is no temporary name. -/
theorem ne_temporaryName {s : String} (h : CanonicalUuid s) (R : PublishRun) :
    s ≠ R.temporaryName := by
  intro heq
  have hlist : s.toList = '.' :: ("backup-" ++ R.uuidHex ++ ".tmp").toList := by
    rw [heq, temporaryName]
    simp only [String.toList_append]
    rfl
  have hdot := h.2 ('.', 0) (by rw [hlist]; exact List.mem_cons_self)
  exact absurd hdot (by decide)

/-- The id that a run publishes under is the one of its manifest. -/
theorem Describes.backupId_eq (h : Describes H W fields payload m)
    (hnamed : Named fields backupId) : backupId = m.backupId := by
  have hid := hnamed.2
  unfold backupIdOf Members.getD at hid
  rw [h.backupId] at hid
  exact (Except.ok.inj hid).symm

/-- A backup that is opened after it was published has a manifest that names the payload file and is
not too long. -/
theorem Accepts.named (h : Accepts H W fields payload) (hsound : Sound H W fields payload) :
    fields.get? "payload_name" = some (.str publishedPayloadName) ∧
      ∃ m encoded, W.manifestOf H fields payload = .ok m ∧ m.canonicalBytes = .ok encoded ∧
        encoded.size ≤ maxManifestBytes := by
  obtain ⟨-, m, encoded, hm, hencoded, hdescribes⟩ := h.describes
  obtain ⟨R, root, backupId, left, rfl, hpublish⟩ := h
  obtain ⟨m', -, hopened⟩ := hsound.returned rfl hpublish
  rcases R.publish_cases H W fields root with
    ⟨_, files, _, hrun, -, ⟨m₁, encoded₁, hm₁, hencoded₁, rfl⟩, hleft⟩ | ⟨_, _, hrun, -⟩ |
    ⟨_, _, _, _, hrun, -⟩
  · obtain ⟨hid, rfl⟩ := Prod.mk.inj (hpublish.symm.trans hrun)
    obtain rfl := Except.ok.inj hid
    obtain rfl := Except.ok.inj (hm.symm.trans hm₁)
    obtain rfl := Except.ok.inj (hencoded.symm.trans hencoded₁)
    rw [hleft] at hopened
    obtain ⟨hname, hsize⟩ := hdescribes.opened hencoded (openVerified_ok.mp hopened)
    exact ⟨hname ▸ hdescribes.payloadName, m, encoded, hm, hencoded, hsize⟩
  · exact absurd (hpublish.symm.trans hrun) (by simp)
  · exact absurd (hpublish.symm.trans hrun) (by simp)

/-- Publishing is sound for the fields of which the manifest names the payload file and is not too
long. -/
theorem publish_sound_iff (h : Accepts H W fields payload) :
    Sound H W fields payload ↔
      fields.get? "payload_name" = some (.str publishedPayloadName) ∧
        ∃ m encoded, W.manifestOf H fields payload = .ok m ∧ m.canonicalBytes = .ok encoded ∧
          encoded.size ≤ maxManifestBytes := by
  obtain ⟨-, m, encoded, hm, hencoded, hdescribes⟩ := h.describes
  constructor
  · exact h.named
  · rintro ⟨hname, m', encoded', hm', hencoded', hsize⟩
    obtain rfl := Except.ok.inj (hm.symm.trans hm')
    obtain rfl := Except.ok.inj (hencoded.symm.trans hencoded')
    have hpayloadName : m.payloadName = publishedPayloadName :=
      Json.str.inj (Option.some.inj (hdescribes.payloadName.symm.trans hname))
    have hopens := openVerified_ok.mpr (hdescribes.opens hencoded hpayloadName hsize)
    have hartifact : ∀ {R : PublishRun} {files : ArtifactFiles} {backupId : String},
        R.payload = payload → R.IsArtifact H W fields files → Named fields backupId →
        fields.get? "backup_id" = some (.str backupId) ∧
          openVerified H (some (.directory files)) W.key = .ok (m, payload) := by
      rintro R files backupId rfl ⟨m₁, encoded₁, hm₁, hencoded₁, rfl⟩ hnamed
      obtain rfl := Except.ok.inj (hm.symm.trans hm₁)
      obtain rfl := Except.ok.inj (hencoded.symm.trans hencoded₁)
      exact ⟨hdescribes.backupId_eq hnamed ▸ hdescribes.backupId, hopens⟩
    refine ⟨?_, ?_, ?_, ?_⟩
    · intro R root left backupId hpayload hpublish
      rcases R.publish_cases H W fields root with
        ⟨_, files, _, hrun, hnamed, hfiles, hleft⟩ | ⟨_, _, hrun, -⟩ | ⟨_, _, _, _, hrun, -⟩
      · obtain ⟨hid, rfl⟩ := Prod.mk.inj (hpublish.symm.trans hrun)
        obtain rfl := Except.ok.inj hid
        exact ⟨m, hm, hleft ▸ (hartifact hpayload hfiles hnamed).2⟩
      · exact absurd (hpublish.symm.trans hrun) (by simp)
      · exact absurd (hpublish.symm.trans hrun) (by simp)
    · intro m₁ files hm₁ hdiffers out hopened
      obtain rfl := Except.ok.inj (hm.symm.trans hm₁)
      exact hdescribes.rejects hdiffers (openVerified_ok.mp hopened)
    · intro R root left _ hpublish
      refine ⟨m.backupId, hdescribes.backupId, ?_⟩
      rcases R.publish_cases H W fields root with
        ⟨_, _, _, hrun, -⟩ | ⟨_, _, hrun, -, hframe⟩ | ⟨_, _, _, _, hrun, hne, -⟩
      · exact absurd (hpublish.symm.trans hrun) (by simp)
      · obtain ⟨-, rfl⟩ := Prod.mk.inj (hpublish.symm.trans hrun)
        exact hframe _ (ne_temporaryName hdescribes.valid.backupId.2 R)
      · obtain ⟨he, -⟩ := Prod.mk.inj (hpublish.symm.trans hrun)
        exact absurd (Except.error.inj he).symm hne
    · intro R root left hpayload hpublish
      rcases R.publish_cases H W fields root with
        ⟨_, _, _, hrun, -⟩ | ⟨_, _, hrun, hne, -⟩ |
        ⟨_, backupId, files, _, hrun, -, hnamed, hfiles, hleft⟩
      · exact absurd (hpublish.symm.trans hrun) (by simp)
      · obtain ⟨he, -⟩ := Prod.mk.inj (hpublish.symm.trans hrun)
        exact absurd (Except.error.inj he).symm hne
      · obtain ⟨-, rfl⟩ := Prod.mk.inj (hpublish.symm.trans hrun)
        obtain ⟨hid, hopened⟩ := hartifact hpayload hfiles hnamed
        exact ⟨backupId, m, hid, hm, hleft ▸ hopened⟩

/-! ## Two backups of an empty payload -/

/-- The hashes of a backup of an empty payload, with the signature of its manifest. -/
def emptyHashes (signature : String) (h : Sha256Text signature) : BackupHashes where
  sha256 _ := "e3b0c44298fc1c149afbf4c8996fb92427ae41e4649b934ca495991b7852b855"
  hmacSha256 _ _ := signature
  sha256_text _ := by decide
  hmac_text _ _ := h

/-- A writer with a key of zeros. -/
def zeroWriter : BackupArtifactWriter where
  key := ⟨Array.replicate 32 0⟩
  keyId := "primary"
  maxBytes := 1024
  key_size := by decide
  keyId_text := by decide
  maxBytes_pos := by decide

/-- A run in which nothing fails. -/
def quietRun : PublishRun where
  fails _ := false
  posix := true
  renameNoreplace := true
  uuidHex := "00000000000040008000000000000000"
  chunks := []
  pieces data := [data]
  join_pieces _ := ByteArray.empty_append

/-- The fields of a backup of a lite store. -/
def liteFields (payloadName : String) : Members :=
  [("format_version", Value.int 1), ("backup_id", .str "018f7f1d-7c9e-7c31-9d34-35f6a91e2bb9"),
    ("created_at", .str "2026-01-02T03:04:05.000006Z"), ("backend", .str "lite"),
    ("database", .str "lite"), ("schema", .str "memory"), ("migration_version", Value.int 0),
    ("payload_name", .str payloadName), ("pg_dump_version", .str "none"),
    ("server_version", .str "none"), ("consistency", .str "lite_pair_generation")]

theorem accepts_of_quietRun {signature : String} {h : Sha256Text signature} (id : String)
    (hpublish : (quietRun.publish (emptyHashes signature h) zeroWriter fields fun _ => none).1 =
      .ok id) : Accepts (emptyHashes signature h) zeroWriter fields .empty :=
  ⟨quietRun, fun _ => none, id, _, rfl, Prod.ext hpublish rfl⟩

/-- A text has at most four bytes for each of its characters. -/
theorem size_toByteArray_le (text : List Char) :
    (String.ofList text).toByteArray.size ≤ 4 * text.length := by
  rw [String.toByteArray_ofList, List.utf8Encode, List.size_toByteArray]
  induction text with
  | nil => exact le_refl 0
  | cons c text ih =>
    have hchar := c.utf8Size_le_four
    rw [List.flatMap_cons, List.length_append, String.length_utf8EncodeChar, List.length_cons]
    omega

/-- The signature of the manifest that names the payload file. -/
def dumpSignature : String := "e54aeb69bee980d3b8c3afba56a3bcdd1fa9ad1c062bae532ea0abcc25cd016f"

theorem payloadDump_sound :
    Sound (emptyHashes dumpSignature (by decide)) zeroWriter (liteFields "payload.dump")
      .empty := by
  have haccepts : Accepts (emptyHashes dumpSignature (by decide)) zeroWriter
      (liteFields "payload.dump") .empty :=
    accepts_of_quietRun "018f7f1d-7c9e-7c31-9d34-35f6a91e2bb9" (by decide +kernel)
  have hlength : (zeroWriter.manifestOf (emptyHashes dumpSignature (by decide))
      (liteFields "payload.dump") .empty).map
        (fun m => (write dumpsNum (.obj (sortMembers m.toDict))).length) = .ok 504 := by
    decide +kernel
  obtain ⟨-, m, encoded, hm, hencoded, -⟩ := haccepts.describes
  rw [hm] at hlength
  have hle : encoded.size ≤ maxManifestBytes := by
    rw [(canonicalBytes_ok hencoded).2]
    refine (size_toByteArray_le _).trans ?_
    rw [show (write dumpsNum (.obj (sortMembers m.toDict))).length = 504 from
      Except.ok.inj hlength]
    decide
  exact (publish_sound_iff haccepts).mpr ⟨rfl, m, encoded, hm, hencoded, hle⟩

/-- The signature of a manifest that names another file. -/
def pairSignature : String := "9bbb2396d42e40ea4576e1eb988f0f77a6c58fdacda0cf25498548be77b4af81"

/-- A backup whose manifest names another file than the one that the payload is written to is
published, and cannot be opened. -/
theorem pairJson_unsound :
    Accepts (emptyHashes pairSignature (by decide)) zeroWriter (liteFields "pair.json") .empty ∧
      ¬Sound (emptyHashes pairSignature (by decide)) zeroWriter (liteFields "pair.json")
        .empty := by
  have haccepts : Accepts (emptyHashes pairSignature (by decide)) zeroWriter
      (liteFields "pair.json") .empty :=
    accepts_of_quietRun "018f7f1d-7c9e-7c31-9d34-35f6a91e2bb9" (by decide +kernel)
  exact ⟨haccepts, fun hsound => absurd (haccepts.named hsound).1 (by decide)⟩

end PublishRun

end Memplex
