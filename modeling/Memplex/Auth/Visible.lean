import Memplex.Auth.Halting

/-!
# Who may see a node

`AuthorizationGate.is_node_visible` applies a node's own access list and then asks of each of its
declared sources whether the caller may see it. The sources share one evaluator, which carries the
path of the nodes above; only a source that the lookup gives under another id, or an alias below a
source, is walked again by the older recursion. `recurse` stands for that recursion in the
definitions, and `fuel` bounds both it and the rounds of the evaluator.
-/

namespace Memplex

open Lib SourceGraph

/-- What an `AuthorizationGate` uses: the text functions, and the lookup over the store that a
request may read. -/
structure AuthorizationGate where
  text : Text
  typedLookup : AuthorizationContext → NodeLookup

/-- The verdict on one looked-up source, with the memo after it: an alias is not evaluated here. -/
def SnapshotAuthorization.checkSource (p : SnapshotAuthorization) (fuel : ℕ) (memo : Memo)
    (sourceId : String) (source : AclNode) : Option (Verdict × Memo) :=
  if source.id = sourceId then p.check fuel memo source
  else some ((false, "legacy_alias"), memo)

/-- The loop of `_sources_still_visible` over the sources of a node. -/
def SnapshotAuthorization.sourcesVisible (p : SnapshotAuthorization) (fuel : ℕ)
    (recurse : AclNode → Option Bool) : List String → Memo → Option Bool
  | [], _ => some true
  | sourceId :: rest, memo =>
    match p.lookup sourceId with
    | .error _ => some false
    | .ok none => some false
    | .ok (some source) =>
      match p.checkSource fuel memo sourceId source with
      | none => none
      | some (verdict, memo') =>
        let allowed := if verdict.2 = "legacy_alias" then recurse source else some verdict.1
        match allowed with
        | some true => sourcesVisible p fuel recurse rest memo'
        | other => other

namespace AuthorizationGate

variable (gate : AuthorizationGate) (context : AuthorizationContext)
  (sourceLookup : Option NodeLookup)

/-- The lookup of the sources. -/
def lookup : NodeLookup := sourceLookup.getD (gate.typedLookup context)

/-- The evaluator that the sources of a node share, below the nodes of a path. -/
def evaluator (sourcePath : List String) : SnapshotAuthorization where
  text := gate.text
  context := context
  lookup := gate.lookup context sourceLookup
  lookupFailure := "lookup_error"
  legacySourcePath := some sourcePath
  legacyIdentityless := sourceLookup.isNone

/-- `AuthorizationGate._sources_still_visible`. -/
def sourcesStillVisible (fuel : ℕ) (recurse : AclNode → Option Bool) (sourcePath : List String)
    (node : AclNode) : Option Bool :=
  if factualSourcesMatch node (gate.lookup context sourceLookup) = false then some false
  else if sourceIds gate.text node = [] then some true
  else if node.id ∈ sourcePath then some false
  else
    (gate.evaluator context sourceLookup (sourcePath.insert node.id)).sourcesVisible fuel recurse
      (sourceIds gate.text node) []

/-- `AuthorizationGate.is_node_visible`. -/
def isNodeVisible : ℕ → List String → AclNode → Option Bool
  | 0, _, _ => none
  | fuel + 1, sourcePath, node =>
    if isNodeInScope gate.text node context = false then some false
    else if sourceLookup = none ∧ node.tenant gate.text = none then some true
    else
      gate.sourcesStillVisible context sourceLookup fuel
        (isNodeVisible fuel (sourcePath.insert node.id)) sourcePath node

end AuthorizationGate

namespace AuthorizationGate

variable {gate : AuthorizationGate} {context : AuthorizationContext}
  {sourceLookup : Option NodeLookup}

theorem evaluator_namesNodes (sourcePath : List String) :
    (gate.evaluator context sourceLookup sourcePath).NamesNodes :=
  ⟨fun h => absurd h (by simp [evaluator]), fun _ => by simp [evaluator]⟩

theorem evaluator_path (sourcePath : List String) :
    (gate.evaluator context sourceLookup sourcePath).legacySourcePath ≠ none := by
  simp [evaluator]

end AuthorizationGate

namespace SnapshotAuthorization

variable {p : SnapshotAuthorization}

theorem soundMemo_nil : p.SoundMemo [] := by
  intro id verdict h
  simp [Memo.get?, findRow] at h

/-- A node whose evaluation meets an alias has passed the check of its own evidence. -/
theorem check_alias {fuel : ℕ} {memo memo' : Memo} {node : AclNode} {verdict : Verdict}
    (hmemo : p.SoundMemo memo) (hpath : p.legacySourcePath ≠ none)
    (h : p.check fuel memo node = some (verdict, memo')) (hv : verdict.2 = "legacy_alias") :
    factualSourcesMatch node p.lookup = true := by
  unfold check at h
  split at h
  · rename_i v hget
    cases h
    exact absurd hv ((hmemo node.id verdict hget).1 hpath)
  · by_contra hfactual
    have hrefused : ∃ reason, reason ≠ "legacy_alias" ∧
        p.enter node (p.legacySourcePath.getD []) = .error (false, reason) := by
      unfold enter
      split_ifs with hscope hmatch
      · exact ⟨"denied", by decide, rfl⟩
      · exact ⟨"source_changed", by decide, rfl⟩
      · exact absurd (by simpa using hmatch) hfactual
      · exact absurd (by simpa using hmatch) hfactual
    obtain ⟨reason, hreason, henter⟩ := hrefused
    match fuel with
    | 0 => simp [run] at h
    | 1 => simp [run, step, henter] at h
    | fuel + 2 =>
      simp only [run, step, henter, complete, Memo.get?_set, if_true, Option.map_some,
        Option.some.injEq, Prod.mk.injEq] at h
      rw [← h.1] at hv
      exact hreason hv

/-- The verdict on a looked-up source says whether it is grounded, or reports an alias. -/
theorem checkSource_sound {fuel : ℕ} {memo memo' : Memo} {s : String} {source : AclNode}
    {verdict : Verdict} (hnames : p.NamesNodes) (hpath : p.legacySourcePath ≠ none)
    (hmemo : p.SoundMemo memo) (hlookup : p.lookup s = .ok (some source))
    (h : p.checkSource fuel memo s source = some (verdict, memo')) :
    p.SoundMemo memo' ∧
      (verdict.2 ≠ "legacy_alias" → source.id = s ∧ (verdict.1 = true ↔ p.graph.Grounded source)) ∧
      (verdict.2 = "legacy_alias" →
        p.Aliased ∧ (source.id = s → factualSourcesMatch source p.lookup = true)) := by
  unfold checkSource at h
  split_ifs at h with hid
  · subst hid
    have hnode : p.graph.lookup source.id = some source := p.graph_lookup.mpr ⟨hlookup, rfl⟩
    obtain ⟨hmemo', hverdict⟩ := check_sound hnames hmemo hnode h
    refine ⟨hmemo', fun hreason => ⟨rfl, ?_⟩, fun hreason => ⟨?_, fun _ => ?_⟩⟩
    · rcases hverdict with ⟨-, hsound⟩ | ⟨halias, -⟩
      · split_ifs at hsound with hv
        · obtain ⟨node, hnode', hgrounded⟩ := hsound
          rw [hnode] at hnode'
          cases hnode'
          exact iff_of_true hv hgrounded
        · exact iff_of_false hv (hsound source hnode)
      · exact absurd (congrArg Prod.snd halias) hreason
    · rcases hverdict with ⟨hne, -⟩ | ⟨-, haliased⟩
      · exact absurd hreason (hne hpath)
      · exact haliased
    · exact check_alias hmemo hpath h hreason
  · cases h
    refine ⟨hmemo, fun hreason => absurd rfl hreason, fun _ => ⟨⟨s, source, hlookup, hid⟩, ?_⟩⟩
    exact fun hid' => absurd hid' hid

/-- What the loop over the sources accepts: each of them is there, and is grounded or, where there
are aliases, accepted by the recursion. -/
theorem sourcesVisible_true {fuel : ℕ} {recurse : AclNode → Option Bool} (hnames : p.NamesNodes)
    (hpath : p.legacySourcePath ≠ none) (sources : List String) {memo : Memo}
    (hmemo : p.SoundMemo memo) (h : p.sourcesVisible fuel recurse sources memo = some true) :
    ∀ s ∈ sources, ∃ source, p.lookup s = .ok (some source) ∧
      (source.id = s ∧ p.graph.Grounded source ∨
        p.Aliased ∧ recurse source = some true ∧
          (source.id = s → factualSourcesMatch source p.lookup = true)) := by
  induction sources generalizing memo with
  | nil => simp
  | cons sourceId rest ih =>
    unfold sourcesVisible at h
    split at h
    · cases h
    · cases h
    rename_i source hlookup
    split at h
    · cases h
    rename_i verdict memo' hcheck
    obtain ⟨hmemo', hplain, halias⟩ := checkSource_sound hnames hpath hmemo hlookup hcheck
    dsimp only at h
    split at h
    · rename_i hallowed
      intro s hs
      rcases List.mem_cons.mp hs with rfl | hrest
      · refine ⟨source, hlookup, ?_⟩
        split_ifs at hallowed with hreason
        · exact .inr ⟨(halias hreason).1, hallowed, (halias hreason).2⟩
        · obtain ⟨hid, hiff⟩ := hplain hreason
          exact .inl ⟨hid, hiff.mp (Option.some.inj hallowed)⟩
      · exact ih hmemo' h s hrest
    · rename_i hother
      exact absurd h hother

/-- What the loop over the sources refuses, when the lookup has no aliases: one of them is not there
or not grounded. -/
theorem sourcesVisible_false {fuel : ℕ} {recurse : AclNode → Option Bool} (hnames : p.NamesNodes)
    (hpath : p.legacySourcePath ≠ none) (haliased : ¬ p.Aliased) (sources : List String)
    {memo : Memo} (hmemo : p.SoundMemo memo)
    (h : p.sourcesVisible fuel recurse sources memo = some false) :
    ∃ s ∈ sources, ∀ source, p.lookup s = .ok (some source) → ¬ p.graph.Grounded source := by
  induction sources generalizing memo with
  | nil => simp [sourcesVisible] at h
  | cons sourceId rest ih =>
    unfold sourcesVisible at h
    split at h
    · rename_i hlookup
      exact ⟨sourceId, List.mem_cons_self, fun source hs => by simp [hlookup] at hs⟩
    · rename_i hlookup
      exact ⟨sourceId, List.mem_cons_self, fun source hs => by simp [hlookup] at hs⟩
    rename_i source hlookup
    split at h
    · cases h
    rename_i verdict memo' hcheck
    obtain ⟨hmemo', hplain, halias⟩ := checkSource_sound hnames hpath hmemo hlookup hcheck
    have hreason : verdict.2 ≠ "legacy_alias" := fun heq => haliased (halias heq).1
    dsimp only at h
    rw [if_neg hreason] at h
    split at h
    · obtain ⟨s, hs, hbad⟩ := ih hmemo' h
      exact ⟨s, List.mem_cons_of_mem _ hs, hbad⟩
    · refine ⟨sourceId, List.mem_cons_self, fun source' hs hgrounded => ?_⟩
      rw [hlookup] at hs
      cases hs
      have hallowed := (hplain hreason).2.mpr hgrounded
      rw [hallowed] at h
      cases h

/-- With finitely many ids to look at and no aliases, the loop over the sources ends. -/
theorem sourcesVisible_halts {ids : Finset String} (hnames : p.NamesNodes)
    (hpath : p.legacySourcePath ≠ none) (haliased : ¬ p.Aliased)
    (hids : ∀ id node, p.lookup id = .ok (some node) → node.id ∈ ids) (sources : List String)
    {memo : Memo} (hmemo : p.SoundMemo memo) :
    ∃ bound, ∀ fuel, bound ≤ fuel → ∀ recurse,
      ∃ visible, p.sourcesVisible fuel recurse sources memo = some visible := by
  induction sources generalizing memo with
  | nil => exact ⟨0, fun _ _ _ => ⟨true, rfl⟩⟩
  | cons sourceId rest ih =>
    cases hlookup : p.lookup sourceId with
    | error e => exact ⟨0, fun _ _ _ => ⟨false, by simp [sourcesVisible, hlookup]⟩⟩
    | ok found =>
      cases found with
      | none => exact ⟨0, fun _ _ _ => ⟨false, by simp [sourcesVisible, hlookup]⟩⟩
      | some source =>
        have hid : source.id = sourceId := by
          by_contra hne
          exact haliased ⟨sourceId, source, hlookup, hne⟩
        obtain ⟨first, verdict, memo', hcheck⟩ :=
          check_halts hnames hids memo (hids sourceId source hlookup)
        have hsource : ∀ fuel, first ≤ fuel →
            p.checkSource fuel memo sourceId source = some (verdict, memo') := fun fuel hle => by
          rw [checkSource, if_pos hid, check_mono hcheck hle]
        obtain ⟨hmemo', hplain, halias⟩ :=
          checkSource_sound hnames hpath hmemo hlookup (hsource first le_rfl)
        have hreason : verdict.2 ≠ "legacy_alias" := fun heq => haliased (halias heq).1
        obtain ⟨bound, hbound⟩ := ih hmemo'
        refine ⟨max first bound, fun fuel hle recurse => ?_⟩
        unfold sourcesVisible
        simp only [hlookup, hsource fuel (le_trans (le_max_left _ _) hle), if_neg hreason]
        cases verdict.1 with
        | false => exact ⟨false, rfl⟩
        | true => exact hbound fuel (le_trans (le_max_right _ _) hle) recurse

/-- More fuel, and a recursion that has more answers, give the same answer. -/
theorem sourcesVisible_mono {fuel fuel' : ℕ} {recurse recurse' : AclNode → Option Bool}
    (hle : fuel ≤ fuel') (hrecurse : ∀ node b, recurse node = some b → recurse' node = some b)
    (sources : List String) {memo : Memo} {visible : Bool}
    (h : p.sourcesVisible fuel recurse sources memo = some visible) :
    p.sourcesVisible fuel' recurse' sources memo = some visible := by
  induction sources generalizing memo with
  | nil => exact h
  | cons sourceId rest ih =>
    unfold sourcesVisible at h ⊢
    cases hlookup : p.lookup sourceId with
    | error e => simpa only [hlookup] using h
    | ok found =>
      cases found with
      | none => simpa only [hlookup] using h
      | some source =>
        simp only [hlookup] at h ⊢
        cases hcheck : p.checkSource fuel memo sourceId source with
        | none => simp only [hcheck] at h; cases h
        | some result =>
          have hcheck' : p.checkSource fuel' memo sourceId source = some result := by
            unfold checkSource at hcheck ⊢
            split_ifs at hcheck ⊢
            · exact check_mono hcheck hle
            · exact hcheck
          simp only [hcheck] at h
          simp only [hcheck']
          by_cases halias : result.1.2 = "legacy_alias"
          · simp only [if_pos halias] at h ⊢
            cases hanswer : recurse source with
            | none => rw [hanswer] at h; cases h
            | some answer =>
              rw [hanswer] at h
              rw [hrecurse source answer hanswer]
              cases answer with
              | false => exact h
              | true => exact ih h
          · simp only [if_neg halias] at h ⊢
            cases hv : result.1.1 with
            | false => simpa only [hv] using h
            | true =>
              rw [hv] at h
              exact ih h

end SnapshotAuthorization

namespace AuthorizationGate

variable {gate : AuthorizationGate} {context : AuthorizationContext}
  {sourceLookup : Option NodeLookup}

/-- More fuel gives the same answer. -/
theorem isNodeVisible_mono {fuel fuel' : ℕ} (hle : fuel ≤ fuel') {path : List String}
    {node : AclNode} {visible : Bool}
    (h : gate.isNodeVisible context sourceLookup fuel path node = some visible) :
    gate.isNodeVisible context sourceLookup fuel' path node = some visible := by
  induction fuel generalizing fuel' path node visible with
  | zero => simp [isNodeVisible] at h
  | succ fuel ih =>
    obtain ⟨fuel', rfl⟩ := Nat.exists_eq_add_of_le' (Nat.one_le_of_lt hle)
    unfold isNodeVisible sourcesStillVisible at h ⊢
    split_ifs at h ⊢
    · exact h
    · exact h
    · exact h
    · exact h
    · exact h
    · exact SnapshotAuthorization.sourcesVisible_mono (by omega)
        (fun _ _ hm => ih (by omega) hm) _ h

end AuthorizationGate

/-- Text functions that behave as those of the language on lower-case texts without blanks. -/
def sampleText : Text where
  lower := fun s => s
  strip := fun s => s
  fromisoformat := fun _ => none
  repr := fun _ => "None"

end Memplex
