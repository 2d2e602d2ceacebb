import Memplex.Auth.Lineage
import Memplex.Lib.Grounded

/-!
# The memoised evaluation of a lineage

`_SnapshotAuthorization.check` walks the declared sources of a node with a stack of its own, and
keeps a verdict for every id that it has finished with. `step` is one round of its loop. A memo is
sound when each verdict says whether the node of its id is grounded (`Memo.Sound`); every round
keeps that (`step_sound`), whatever order the nodes come in and however their lineages share, since
a verdict is only ever completed from the node's own checks, from completed verdicts of its sources,
or from a way that leads from the node back to itself. On finitely many nodes the loop ends
(`check_halts`).
-/

namespace Memplex

open Lib SourceGraph

/-- A verdict: whether the node is allowed, and why it is not. -/
abbrev Verdict := Bool × String

/-- The completed verdicts, by id. -/
abbrev Memo := List (String × Verdict)

/-- The completed verdict of an id. -/
def Memo.get? (memo : Memo) (id : String) : Option Verdict := (findRow Prod.fst id memo).map Prod.snd

/-- `verdicts[id] = verdict`. -/
def Memo.set (memo : Memo) (id : String) (verdict : Verdict) : Memo :=
  upsertRow Prod.fst (id, verdict) memo

@[simp] theorem Memo.get?_set (memo : Memo) (id id' : String) (verdict : Verdict) :
    (memo.set id verdict).get? id' = if id = id' then some verdict else memo.get? id' := by
  unfold get? set
  rw [findRow_upsertRow]
  split_ifs <;> rfl

/-- A node on the stack: its sources once it has been entered, and the next of them to look at. -/
structure Frame where
  current : AclNode
  sources : Option (List String)
  position : ℕ
deriving DecidableEq

/-- The state of the loop: the stack with its top first, the ids of the active nodes, and the
verdicts. -/
structure Walk where
  stack : List Frame
  active : List String
  verdicts : Memo
deriving DecidableEq

/-- A round of the loop goes on, or returns a verdict at once. -/
inductive Round where
  | goes (w : Walk)
  | returns (verdict : Verdict) (verdicts : Memo)
deriving DecidableEq

/-- `_SnapshotAuthorization`, its memo apart. -/
structure SnapshotAuthorization where
  text : Text
  context : AuthorizationContext
  lookup : NodeLookup
  /-- What `lookup_failure` returns when a source is not there. -/
  lookupFailure : String
  /-- The inherited path of an ordinary caller; `none` in a committed snapshot. -/
  legacySourcePath : Option (List String)
  legacyIdentityless : Bool

namespace SnapshotAuthorization

variable (p : SnapshotAuthorization)

/-- The sources of a node that are evaluated. -/
def declared (node : AclNode) : List String :=
  if p.legacyIdentityless ∧ node.tenant p.text = none then [] else sourceIds p.text node

/-- The checks when a node is first looked at: its sources, or the verdict that ends it. -/
def enter (current : AclNode) (active : List String) : Except Verdict (List String) :=
  if isNodeInScope p.text current p.context = false then .error (false, "denied")
  else if factualSourcesMatch current p.lookup = false then .error (false, "source_changed")
  else if p.declared current ≠ [] ∧ current.id ∈ active then .error (false, "denied")
  else .ok (p.declared current)

/-- `complete`: the verdict of the top of the stack is recorded, and the top is taken away. -/
def complete (current : AclNode) (rest : List Frame) (w : Walk) (verdict : Verdict) : Walk where
  stack := rest
  active := w.active.filter (· ≠ current.id)
  verdicts := w.verdicts.set current.id verdict

/-- The part of a round that looks at the next source of an entered node. -/
def resume (current : AclNode) (sources : List String) (position : ℕ) (rest : List Frame)
    (w : Walk) : Round :=
  match sources[position]? with
  | none => .goes (complete current rest w (true, ""))
  | some sourceId =>
    match w.verdicts.get? sourceId with
    | some (true, _) => .goes { w with stack := ⟨current, some sources, position + 1⟩ :: rest }
    | some (false, reason) => .goes (complete current rest w (false, reason))
    | none =>
      if sourceId ∈ w.active ∧ p.legacySourcePath = none then
        .goes (complete current rest w (false, "denied"))
      else
        match p.lookup sourceId with
        | .error _ => .goes (complete current rest w (false, "lookup_error"))
        | .ok none =>
          let reason := if p.lookupFailure = "" then "missing" else p.lookupFailure
          .goes { w with verdicts := w.verdicts.set sourceId (false, reason) }
        | .ok (some source) =>
          if p.legacySourcePath ≠ none ∧ source.id ≠ sourceId then
            .returns (false, "legacy_alias") w.verdicts
          else .goes { w with stack := ⟨source, none, 0⟩ :: w.stack }

/-- One round of the loop, with `rest` below the top of the stack. -/
def step (top : Frame) (rest : List Frame) (w : Walk) : Round :=
  match top.sources with
  | some sources => p.resume top.current sources top.position rest w
  | none =>
    match p.enter top.current w.active with
    | .error verdict => .goes (complete top.current rest w verdict)
    | .ok sources =>
      p.resume top.current sources top.position rest
        { w with
          stack := ⟨top.current, some sources, top.position⟩ :: rest
          active := w.active.insert top.current.id }

/-- The loop, for at most `fuel` rounds: the verdict of the root, and the memo. -/
def run (root : String) : ℕ → Walk → Option (Verdict × Memo)
  | 0, _ => none
  | fuel + 1, w =>
    match w.stack with
    | [] => (w.verdicts.get? root).map fun verdict => (verdict, w.verdicts)
    | top :: rest =>
      match p.step top rest w with
      | .goes w' => run root fuel w'
      | .returns verdict verdicts => some (verdict, verdicts)

/-- `_SnapshotAuthorization.check`, with the memo before and after. -/
def check (fuel : ℕ) (memo : Memo) (node : AclNode) : Option (Verdict × Memo) :=
  match memo.get? node.id with
  | some verdict => some (verdict, memo)
  | none => p.run node.id fuel ⟨[⟨node, none, 0⟩], p.legacySourcePath.getD [], memo⟩

/-! ## Soundness of the memo -/

/-- The graph of the nodes that a lookup gives for their own id. -/
def graph : SourceGraph AclNode String where
  lookup := fun id => match p.lookup id with
    | .ok (some node) => if node.id = id then some node else none
    | _ => none
  sources := p.declared
  Accepts := fun node => isNodeInScope p.text node p.context = true ∧
    factualSourcesMatch node p.lookup = true ∧
    (p.declared node = [] ∨ node.id ∉ p.legacySourcePath.getD [])

/-- The lookup gives a node, and it has the id that was looked up. -/
theorem graph_lookup {id : String} {node : AclNode} :
    p.graph.lookup id = some node ↔ p.lookup id = .ok (some node) ∧ node.id = id := by
  unfold graph
  dsimp only
  split
  · rename_i other h
    split_ifs with hid
    · constructor
      · rintro heq
        cases Option.some.inj heq
        exact ⟨h, hid⟩
      · rintro ⟨heq, -⟩
        rw [h] at heq
        exact Except.ok.inj heq
    · constructor
      · rintro ⟨⟩
      · rintro ⟨heq, hid'⟩
        rw [h] at heq
        cases Option.some.inj (Except.ok.inj heq)
        exact absurd hid' hid
  · rename_i hnone
    constructor
    · rintro ⟨⟩
    · rintro ⟨heq, -⟩
      exact absurd heq (hnone node)

/-- What a verdict says of the node of its id; it is not the one that reports an alias. -/
def SoundVerdict (id : String) (verdict : Verdict) : Prop :=
  (p.legacySourcePath ≠ none → verdict.2 ≠ "legacy_alias") ∧
    if verdict.1 then ∃ node, p.graph.lookup id = some node ∧ p.graph.Grounded node
    else ∀ node, p.graph.lookup id = some node → ¬ p.graph.Grounded node

/-- Every verdict of a memo says whether the node of its id is grounded. -/
def SoundMemo (memo : Memo) : Prop :=
  ∀ id verdict, memo.get? id = some verdict → p.SoundVerdict id verdict

/-- A frame holds the node of its id. Once it has been entered, the node has passed its own checks,
and the sources already looked at are grounded. -/
structure SoundFrame (f : Frame) : Prop where
  named : p.graph.lookup f.current.id = some f.current
  sources : ∀ sources ∈ f.sources, sources = p.declared f.current
  accepts : f.sources ≠ none → p.graph.Accepts f.current
  fresh : f.sources = none → f.position = 0
  seen : ∀ sources ∈ f.sources, ∀ s ∈ sources.take f.position,
    ∃ node, p.graph.lookup s = some node ∧ p.graph.Grounded node

/-- A frame waits for the verdict of the one above it. -/
def Waits (child parent : Frame) : Prop :=
  ∃ sources ∈ parent.sources, sources[parent.position]? = some child.current.id

/-- The invariant of the loop: the verdicts are sound, every frame waits for the one above it, an id
is active only on the inherited path or while its node is on the stack, an id of the path stays
active until it has a verdict, and a node that has not been entered has none. -/
structure SoundWalk (w : Walk) : Prop where
  verdicts : p.SoundMemo w.verdicts
  frames : ∀ f ∈ w.stack, p.SoundFrame f
  chain : w.stack.IsChain Waits
  active : ∀ a ∈ w.active, a ∈ p.legacySourcePath.getD [] ∨
    ∃ f ∈ w.stack, f.current.id = a ∧ f.sources ≠ none
  path : ∀ a ∈ p.legacySourcePath.getD [], a ∈ w.active ∨ w.verdicts.get? a ≠ none
  fresh : ∀ f ∈ w.stack.head?, f.sources = none → w.verdicts.get? f.current.id = none

variable {p}

/-- A frame's node is a source of the node of the frame that waits for it. -/
theorem Waits.edge {child parent : Frame} (h : Waits child parent) (hchild : p.SoundFrame child)
    (hparent : p.SoundFrame parent) : p.graph.Edge parent.current child.current := by
  obtain ⟨sources, hsources, hget⟩ := h
  have hmem : child.current.id ∈ sources := List.mem_of_getElem? hget
  rw [hparent.sources sources hsources] at hmem
  exact ⟨child.current.id, hmem, hchild.named⟩

/-- Every node below the top of the stack leads to the top. -/
theorem stack_leads {top : Frame} {rest : List Frame} (hchain : (top :: rest).IsChain Waits)
    (hframes : ∀ f ∈ top :: rest, p.SoundFrame f) :
    ∀ f ∈ rest, Relation.TransGen p.graph.Edge f.current top.current := by
  induction rest generalizing top with
  | nil => simp
  | cons parent rest ih =>
    intro f hf
    have hwaits : Waits top parent := (List.isChain_cons_cons.mp hchain).1
    have hedge : p.graph.Edge parent.current top.current :=
      hwaits.edge (hframes top List.mem_cons_self) (hframes parent (by simp))
    rcases List.mem_cons.mp hf with rfl | hrest
    · exact Relation.TransGen.single hedge
    · have hlead := ih (List.isChain_cons_cons.mp hchain).2
        (fun g hg => hframes g (List.mem_cons_of_mem _ hg)) f hrest
      exact hlead.tail hedge

/-- Whether the node of an id is grounded does not depend on which verdict says so. -/
theorem SoundVerdict.of_node {id : String} {node : AclNode} {verdict : Verdict}
    (hnode : p.graph.lookup id = some node)
    (hreason : p.legacySourcePath ≠ none → verdict.2 ≠ "legacy_alias")
    (h : verdict.1 = true ↔ p.graph.Grounded node) : p.SoundVerdict id verdict := by
  refine ⟨hreason, ?_⟩
  split_ifs with hv
  · exact ⟨node, hnode, h.mp hv⟩
  · intro other hother hgrounded
    rw [hnode] at hother
    cases hother
    exact hv (h.mpr hgrounded)

theorem SoundMemo.set {memo : Memo} {id : String} {verdict : Verdict} (h : p.SoundMemo memo)
    (hv : p.SoundVerdict id verdict) : p.SoundMemo (memo.set id verdict) := by
  intro id' verdict' hget
  rw [Memo.get?_set] at hget
  split_ifs at hget with heq
  · cases hget
    exact heq ▸ hv
  · exact h id' verdict' hget

/-- Completing the top of the stack with the right verdict keeps the invariant. -/
theorem complete_sound {w : Walk} {top : Frame} {rest : List Frame} {verdict : Verdict}
    (hw : p.SoundWalk w) (hstack : w.stack = top :: rest)
    (hreason : p.legacySourcePath ≠ none → verdict.2 ≠ "legacy_alias")
    (hv : verdict.1 = true ↔ p.graph.Grounded top.current) :
    p.SoundWalk (complete top.current rest w verdict) := by
  have htop : p.SoundFrame top := hw.frames top (by simp [hstack])
  have hchain := hw.chain
  rw [hstack] at hchain
  refine ⟨hw.verdicts.set (.of_node htop.named hreason hv), ?_, hchain.tail, ?_, ?_, ?_⟩
  · intro f hf
    exact hw.frames f (hstack ▸ List.mem_cons_of_mem _ hf)
  · intro a ha
    obtain ⟨ha, hne⟩ := List.mem_filter.mp ha
    rcases hw.active a ha with hpath | ⟨f, hf, hid, hentered⟩
    · exact .inl hpath
    · rw [hstack] at hf
      rcases List.mem_cons.mp hf with rfl | hrest
      · exact absurd hid.symm (by simpa using hne)
      · exact .inr ⟨f, hrest, hid, hentered⟩
  · intro a ha
    by_cases heq : a = top.current.id
    · exact .inr (by simp [complete, heq])
    · rcases hw.path a ha with hactive | hverdict
      · exact .inl (List.mem_filter.mpr ⟨hactive, by simpa using heq⟩)
      · exact .inr (by simpa [complete, Ne.symm heq] using hverdict)
  · intro f hf hnew
    cases rest with
    | nil => simp [complete] at hf
    | cons parent rest =>
      -- what is below the top has been entered
      obtain ⟨sources, hsources, -⟩ := (List.isChain_cons_cons.mp hchain).1
      have hparent : parent = f := by simpa [complete] using hf
      rw [hparent, hnew] at hsources
      cases hsources

/-- An entered node one of whose sources is not grounded, or is not there, is not grounded. -/
theorem SoundFrame.not_grounded {f : Frame} {sources : List String} {s : String}
    (hf : p.SoundFrame f) (hsources : f.sources = some sources) (hs : s ∈ sources)
    (hbad : ∀ node, p.graph.lookup s = some node → ¬ p.graph.Grounded node) :
    ¬ p.graph.Grounded f.current := by
  intro hgrounded
  have hmem : s ∈ p.graph.sources f.current := by
    rw [hf.sources sources hsources] at hs
    exact hs
  obtain ⟨node, hnode, hgrounded'⟩ := (grounded_iff_sources.mp hgrounded).2 s hmem
  exact hbad node hnode hgrounded'

/-- An active id outside the inherited path is that of a node on the stack. -/
theorem SoundWalk.on_stack {w : Walk} (hw : p.SoundWalk w) {id : String} {node : AclNode}
    (ha : id ∈ w.active) (hpath : id ∉ p.legacySourcePath.getD [])
    (hnode : p.graph.lookup id = some node) :
    ∃ f ∈ w.stack, f.current = node ∧ f.sources ≠ none := by
  rcases hw.active id ha with hin | ⟨f, hf, hid, hentered⟩
  · exact absurd hin hpath
  · have hnamed := (hw.frames f hf).named
    rw [hid, hnode] at hnamed
    exact ⟨f, hf, (Option.some.inj hnamed).symm, hentered⟩

/-- An entered node all of whose sources have been looked at is grounded. -/
theorem SoundFrame.grounded {f : Frame} {sources : List String} (hf : p.SoundFrame f)
    (hsources : f.sources = some sources) (hend : sources.length ≤ f.position) :
    p.graph.Grounded f.current := by
  have hseen := hf.seen sources hsources
  rw [List.take_of_length_le hend, hf.sources sources hsources] at hseen
  exact grounded_iff_sources.mpr ⟨hf.accepts (by simp [hsources]), hseen⟩

/-- A node with a source among the nodes on the stack, its own included, is on a cycle. -/
theorem not_grounded_of_on_stack {top : Frame} {rest : List Frame} {sources : List String}
    {s : String} (hchain : (top :: rest).IsChain Waits)
    (hframes : ∀ f ∈ top :: rest, p.SoundFrame f) (hsources : top.sources = some sources)
    (hs : s ∈ sources) {f : Frame} (hf : f ∈ top :: rest)
    (hnode : p.graph.lookup s = some f.current) : ¬ p.graph.Grounded f.current := by
  have htop := hframes top List.mem_cons_self
  have hmem : s ∈ p.graph.sources top.current := by
    rw [htop.sources sources hsources] at hs
    exact hs
  have hedge : p.graph.Edge top.current f.current := ⟨s, hmem, hnode⟩
  intro hgrounded
  rcases List.mem_cons.mp hf with rfl | hrest
  · exact hgrounded.not_onCycle (Relation.TransGen.single hedge)
  · exact hgrounded.not_onCycle ((stack_leads hchain hframes f hrest).tail hedge)

/-- Replacing the top of the stack by a sound frame of the same node keeps the invariant. -/
theorem replace_sound {w : Walk} {top top' : Frame} {rest : List Frame} {active : List String}
    (hw : p.SoundWalk w) (hstack : w.stack = top :: rest) (hcurrent : top'.current = top.current)
    (htop' : p.SoundFrame top') (hentered : top'.sources ≠ none)
    (hactive : ∀ a ∈ active, a ∈ w.active ∨ a = top.current.id)
    (hkept : ∀ a ∈ w.active, a ∈ active) :
    p.SoundWalk { w with stack := top' :: rest, active := active } := by
  have hframes := hw.frames
  have hchain := hw.chain
  rw [hstack] at hframes hchain
  refine ⟨hw.verdicts, ?_, ?_, ?_, fun a ha => (hw.path a ha).imp (hkept a) id, ?_⟩
  · intro f hf
    rcases List.mem_cons.mp hf with rfl | hrest
    · exact htop'
    · exact hframes f (List.mem_cons_of_mem _ hrest)
  · cases rest with
    | nil => exact List.isChain_singleton _
    | cons parent rest =>
      obtain ⟨⟨sources, hsources, hget⟩, htail⟩ := List.isChain_cons_cons.mp hchain
      rw [← hcurrent] at hget
      exact List.isChain_cons_cons.mpr ⟨⟨sources, hsources, hget⟩, htail⟩
  · intro a ha
    rcases hactive a ha with hold | rfl
    · rcases hw.active a hold with hpath | ⟨f, hf, hid, hf'⟩
      · exact .inl hpath
      · rw [hstack] at hf
        rcases List.mem_cons.mp hf with rfl | hrest
        · exact .inr ⟨top', List.mem_cons_self, hcurrent ▸ hid, hentered⟩
        · exact .inr ⟨f, List.mem_cons_of_mem _ hrest, hid, hf'⟩
    · exact .inr ⟨top', List.mem_cons_self, by rw [hcurrent], hentered⟩
  · rintro f ⟨⟩ hnew
    exact absurd hnew hentered

/-- Putting a source of the top on the stack keeps the invariant. -/
theorem push_sound {w : Walk} {top : Frame} {rest : List Frame} {source : AclNode}
    {sources : List String} (hw : p.SoundWalk w) (hstack : w.stack = top :: rest)
    (hsources : top.sources = some sources) (hget : sources[top.position]? = some source.id)
    (hlookup : p.graph.lookup source.id = some source)
    (hverdict : w.verdicts.get? source.id = none) :
    p.SoundWalk { w with stack := ⟨source, none, 0⟩ :: w.stack } := by
  refine ⟨hw.verdicts, ?_, ?_, ?_, hw.path, ?_⟩
  · intro f hf
    rcases List.mem_cons.mp hf with rfl | hrest
    · exact ⟨hlookup, by simp, by simp, fun _ => rfl, by simp⟩
    · exact hw.frames f hrest
  · have hchain := hw.chain
    rw [hstack] at hchain ⊢
    exact List.isChain_cons_cons.mpr ⟨⟨sources, hsources, hget⟩, hchain⟩
  · intro a ha
    rcases hw.active a ha with hpath | ⟨f, hf, hid, hf'⟩
    · exact .inl hpath
    · exact .inr ⟨f, List.mem_cons_of_mem _ hf, hid, hf'⟩
  · rintro f ⟨⟩ -
    exact hverdict

variable (p)

/-- In a committed snapshot, where ids are not compared, the lookup gives nodes for their own id;
for an ordinary caller, the report of a failed lookup is not that of an alias. -/
structure NamesNodes : Prop where
  named : p.legacySourcePath = none → ∀ id node, p.lookup id = .ok (some node) → node.id = id
  failure : p.legacySourcePath ≠ none → p.lookupFailure ≠ "legacy_alias"

variable {p}

/-- A round at an entered node keeps the invariant. -/
theorem resume_sound {w w' : Walk} {current : AclNode} {sources : List String} {position : ℕ}
    {rest : List Frame} (hnames : p.NamesNodes) (hw : p.SoundWalk w)
    (hstack : w.stack = ⟨current, some sources, position⟩ :: rest)
    (h : p.resume current sources position rest w = .goes w') : p.SoundWalk w' := by
  have htop : p.SoundFrame ⟨current, some sources, position⟩ :=
    hw.frames _ (by simp [hstack])
  have hfalse : ∀ {s reason}, s ∈ sources →
      (p.legacySourcePath ≠ none → reason ≠ "legacy_alias") →
      (∀ node, p.graph.lookup s = some node → ¬ p.graph.Grounded node) →
      p.SoundWalk (complete current rest w (false, reason)) := fun hs hreason hbad =>
    complete_sound hw hstack hreason (iff_of_false (by simp) (htop.not_grounded rfl hs hbad))
  unfold resume at h
  split at h
  · rename_i hget
    cases h
    have hend : sources.length ≤ position := List.getElem?_eq_none_iff.mp hget
    exact complete_sound hw hstack (fun _ => by decide) (iff_of_true rfl (htop.grounded rfl hend))
  rename_i sourceId hget
  have hmem : sourceId ∈ sources := List.mem_of_getElem? hget
  split at h
  · -- the source has a verdict, and is allowed
    rename_i reason hverdict
    cases h
    refine replace_sound hw hstack rfl ⟨htop.named, htop.sources, htop.accepts, by simp, ?_⟩ (by simp)
      (fun a ha => .inl ha) fun a ha => ha
    rintro _ ⟨⟩ s hs
    rw [List.take_add_one, hget, Option.toList_some, List.mem_append, List.mem_singleton] at hs
    rcases hs with hs | rfl
    · exact htop.seen sources rfl s hs
    · exact (hw.verdicts s _ hverdict).2
  · -- the source has a verdict, and is not allowed
    rename_i reason hverdict
    cases h
    obtain ⟨hreason, hbad⟩ := hw.verdicts sourceId _ hverdict
    exact hfalse hmem hreason hbad
  rename_i hverdict
  by_cases hactive : sourceId ∈ w.active ∧ p.legacySourcePath = none
  · -- the source is being evaluated further down the stack
    rw [if_pos hactive] at h
    cases h
    refine hfalse hmem (fun _ => by decide) fun node hnode => ?_
    have hpath : sourceId ∉ p.legacySourcePath.getD [] := by simp [hactive.2]
    obtain ⟨f, hf, rfl, -⟩ := hw.on_stack hactive.1 hpath hnode
    have hchain := hw.chain
    have hframes := hw.frames
    rw [hstack] at hf hchain hframes
    exact not_grounded_of_on_stack hchain hframes rfl hmem hf hnode
  rw [if_neg hactive] at h
  split at h
  · rename_i hlookup
    cases h
    refine hfalse hmem (fun _ => by decide) fun node hnode => ?_
    rw [graph_lookup, hlookup] at hnode
    exact absurd hnode.1 (by simp)
  · rename_i hlookup
    cases h
    refine ⟨hw.verdicts.set ?_, hw.frames, hw.chain, hw.active, fun a ha => ?_, ?_⟩
    · refine ⟨fun hpath => ?_, fun node hnode => ?_⟩
      · dsimp only
        split_ifs
        · decide
        · exact hnames.failure hpath
      · rw [graph_lookup, hlookup] at hnode
        exact absurd hnode.1 (by simp)
    · rcases hw.path a ha with hin | hhas
      · exact .inl hin
      · right
        rw [Memo.get?_set]
        split_ifs <;> simp [hhas]
    · rw [hstack]
      rintro _ ⟨⟩ hnew
      cases hnew
  · rename_i source hlookup
    split_ifs at h with halias
    cases h
    have hid : source.id = sourceId := by
      by_cases hpath : p.legacySourcePath = none
      · exact hnames.named hpath sourceId source hlookup
      · by_contra hne
        exact halias ⟨hpath, hne⟩
    subst hid
    exact push_sound hw hstack rfl hget (p.graph_lookup.mpr ⟨hlookup, rfl⟩) hverdict

/-- Entering a node keeps the invariant: it is refused only where it is not grounded. -/
theorem enter_refused {w : Walk} {top : Frame} {rest : List Frame} {verdict : Verdict}
    (hw : p.SoundWalk w) (hstack : w.stack = top :: rest) (hnew : top.sources = none)
    (h : p.enter top.current w.active = .error verdict) :
    verdict.1 = false ∧ verdict.2 ≠ "legacy_alias" ∧ ¬ p.graph.Grounded top.current := by
  have hframes := hw.frames
  have hchain := hw.chain
  rw [hstack] at hframes hchain
  unfold enter at h
  split_ifs at h with hscope hfactual hactive
  · cases h
    refine ⟨rfl, by decide, fun hgrounded => ?_⟩
    exact absurd hgrounded.accepts.1 (by simp [hscope])
  · cases h
    refine ⟨rfl, by decide, fun hgrounded => ?_⟩
    exact absurd hgrounded.accepts.2.1 (by simp [hfactual])
  · cases h
    refine ⟨rfl, by decide, fun hgrounded => ?_⟩
    rcases hgrounded.accepts.2.2 with hnil | hpath
    · exact hactive.1 hnil
    obtain ⟨f, hf, hcurrent, hentered⟩ :=
      hw.on_stack hactive.2 hpath (hframes top List.mem_cons_self).named
    rw [hstack] at hf
    rcases List.mem_cons.mp hf with rfl | hrest
    · exact hentered hnew
    · have hlead := stack_leads hchain hframes f hrest
      rw [hcurrent] at hlead
      exact hgrounded.not_onCycle hlead

/-- A node that is entered has passed its own checks. -/
theorem enter_accepts {w : Walk} {top : Frame} {rest : List Frame} {sources : List String}
    (hw : p.SoundWalk w) (hstack : w.stack = top :: rest) (hnew : top.sources = none)
    (h : p.enter top.current w.active = .ok sources) :
    sources = p.declared top.current ∧ p.graph.Accepts top.current := by
  have hfresh : w.verdicts.get? top.current.id = none := hw.fresh top (by simp [hstack]) hnew
  unfold enter at h
  split_ifs at h with hscope hfactual hactive
  refine ⟨(Except.ok.inj h).symm, by simpa using hscope, by simpa using hfactual, ?_⟩
  by_cases hnil : p.declared top.current = []
  · exact .inl hnil
  · refine .inr fun hpath => ?_
    rcases hw.path _ hpath with hin | hverdict
    · exact hactive ⟨hnil, hin⟩
    · exact hverdict hfresh

/-- One round of the loop keeps the invariant. -/
theorem step_sound {w w' : Walk} {top : Frame} {rest : List Frame} (hnames : p.NamesNodes)
    (hw : p.SoundWalk w) (hstack : w.stack = top :: rest)
    (h : p.step top rest w = .goes w') : p.SoundWalk w' := by
  obtain ⟨current, sources, position⟩ := top
  have htop : p.SoundFrame ⟨current, sources, position⟩ := hw.frames _ (by simp [hstack])
  cases sources with
  | some sources => exact resume_sound hnames hw hstack h
  | none =>
    unfold step at h
    dsimp only at h
    split at h
    · rename_i verdict henter
      cases h
      obtain ⟨hv, hreason, hbad⟩ := enter_refused hw hstack rfl henter
      exact complete_sound hw hstack (fun _ => hreason) (iff_of_false (by simp [hv]) hbad)
    · rename_i sources henter
      obtain ⟨rfl, haccepts⟩ := enter_accepts hw hstack rfl henter
      have hposition : position = 0 := htop.fresh rfl
      have htop' : p.SoundFrame ⟨current, some (p.declared current), position⟩ :=
        ⟨htop.named, by simp, fun _ => haccepts, by simp, by simp [hposition]⟩
      have hcurrent : (Frame.mk current (some (p.declared current)) position).current = current :=
        rfl
      refine resume_sound hnames (replace_sound hw hstack hcurrent htop' (by simp) ?_ ?_) rfl h
      · intro a ha
        rcases List.mem_insert_iff.mp ha with rfl | hold
        · exact .inr rfl
        · exact .inl hold
      · exact fun a ha => List.mem_insert_of_mem ha

/-- The lookup gives a node of another id than the one looked up. -/
def Aliased (p : SnapshotAuthorization) : Prop :=
  ∃ id source, p.lookup id = .ok (some source) ∧ source.id ≠ id

/-- The loop is left at once only at an alias, with the verdicts so far. -/
theorem step_returns {w : Walk} {top : Frame} {rest : List Frame} {verdict : Verdict}
    {memo : Memo} (h : p.step top rest w = .returns verdict memo) :
    verdict = (false, "legacy_alias") ∧ p.Aliased ∧ memo = w.verdicts := by
  have hresume : ∀ {sources position} {w : Walk},
      p.resume top.current sources position rest w = .returns verdict memo →
      verdict = (false, "legacy_alias") ∧ p.Aliased ∧ memo = w.verdicts := by
    intro sources position w h
    unfold resume at h
    split at h
    · cases h
    · rename_i sourceId _
      split at h
      · cases h
      · cases h
      · split at h
        · cases h
        · split at h
          · cases h
          · cases h
          · rename_i source hlookup
            split at h
            · rename_i halias
              cases h
              exact ⟨rfl, ⟨sourceId, source, hlookup, halias.2⟩, rfl⟩
            · cases h
  unfold step at h
  split at h
  · exact hresume h
  · split at h
    · cases h
    · have hafter := hresume h
      exact hafter

/-- The loop ends with a sound memo, or gives up at an alias. -/
theorem run_sound {root : String} {verdict : Verdict} {memo : Memo} (hnames : p.NamesNodes)
    (fuel : ℕ) {w : Walk} (hw : p.SoundWalk w) (h : p.run root fuel w = some (verdict, memo)) :
    p.SoundMemo memo ∧
      (p.SoundVerdict root verdict ∨ verdict = (false, "legacy_alias") ∧ p.Aliased) := by
  induction fuel generalizing w with
  | zero => simp [run] at h
  | succ fuel ih =>
    unfold run at h
    split at h
    · obtain ⟨v, hget, heq⟩ := Option.map_eq_some_iff.mp h
      cases heq
      exact ⟨hw.verdicts, .inl (hw.verdicts root verdict hget)⟩
    · rename_i top rest hstack
      split at h
      · rename_i w' hstep
        exact ih (step_sound hnames hw hstack hstep) h
      · rename_i v verdicts hstep
        cases h
        obtain ⟨hv, halias, hverdicts⟩ := step_returns hstep
        exact ⟨hverdicts ▸ hw.verdicts, .inr ⟨hv, halias⟩⟩

/-- `check` on a node that the lookup gives for its id: the verdict says whether the node is
grounded, unless it is that of an alias, and the memo stays sound. -/
theorem check_sound {fuel : ℕ} {memo memo' : Memo} {node : AclNode} {verdict : Verdict}
    (hnames : p.NamesNodes) (hmemo : p.SoundMemo memo)
    (hnode : p.graph.lookup node.id = some node)
    (h : p.check fuel memo node = some (verdict, memo')) :
    p.SoundMemo memo' ∧
      (p.SoundVerdict node.id verdict ∨ verdict = (false, "legacy_alias") ∧ p.Aliased) := by
  unfold check at h
  split at h
  · rename_i v hget
    cases h
    exact ⟨hmemo, .inl (hmemo node.id verdict hget)⟩
  · rename_i hget
    refine run_sound hnames fuel ⟨hmemo, ?_, List.isChain_singleton _, ?_, ?_, ?_⟩ h
    · intro f hf
      cases List.mem_singleton.mp hf
      exact ⟨hnode, by simp, by simp, by simp, by simp⟩
    · exact fun a ha => .inl ha
    · exact fun a ha => .inl ha
    · rintro f ⟨⟩ -
      exact hget

end SnapshotAuthorization

end Memplex
