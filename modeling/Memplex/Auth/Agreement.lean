import Memplex.Auth.Visible

/-!
# The two evaluations agree

A node is authorized when it and every node it is derived from exist and are in scope, and no cycle
is reached (`Authorized`). `_SnapshotAuthorization.check` says exactly that of every node, in
whatever order nodes are checked with one memo, and `is_node_visible` says the same with the same
lookup (`check_agrees`). Both evaluate the least predicate, so neither depends on where the walk
came from.
-/

namespace Memplex

open Lib SourceGraph

/-- The nodes of a lookup with the sources they declare; a node is acceptable when it is in
scope. -/
def lineage (text : Text) (context : AuthorizationContext) (lookup : NodeLookup) :
    SourceGraph AclNode String where
  lookup := fun id => match lookup id with
    | .ok found => found
    | .error _ => none
  sources := sourceIds text
  Accepts := fun node => isNodeInScope text node context = true

/-- Every node that a node reaches through declared sources, itself included, is in scope and has
all its sources, and no cycle is reached. -/
def Authorized (text : Text) (context : AuthorizationContext) (lookup : NodeLookup)
    (node : AclNode) : Prop :=
  (∀ m, (lineage text context lookup).Reaches node m → (lineage text context lookup).Sourced m) ∧
    ∀ m, (lineage text context lookup).Reaches node m → ¬ (lineage text context lookup).OnCycle m

/-- A lookup that maps each id to the node with that id, among the given ones, or to nothing. The
nodes carry a tenant identity, and no factual capture made them. -/
structure BoundNodes (text : Text) (lookup : NodeLookup) (nodes : List AclNode) : Prop where
  named : ∀ id, lookup id = .ok none ∨ ∃ node ∈ nodes, node.id = id ∧ lookup id = .ok (some node)
  tenant : ∀ node ∈ nodes, node.tenant text ≠ none
  plain : ∀ node ∈ nodes, node.provenance.getStr "extraction" ≠ .str "factual_capture_v1"

/-- The evaluator of a committed snapshot. -/
def AuthorizationGate.snapshot (gate : AuthorizationGate) (context : AuthorizationContext)
    (lookup : NodeLookup) (lookupFailure : String) : SnapshotAuthorization where
  text := gate.text
  context := context
  lookup := lookup
  lookupFailure := lookupFailure
  legacySourcePath := none
  legacyIdentityless := false

/-- Checks of one node after the other with a shared memo. -/
def SnapshotAuthorization.checkAll (p : SnapshotAuthorization) (fuel : ℕ) :
    Memo → List AclNode → Option (List Verdict)
  | _, [] => some []
  | memo, node :: rest =>
    match p.check fuel memo node with
    | none => none
    | some (verdict, memo') => (checkAll p fuel memo' rest).map (verdict :: ·)

namespace BoundNodes

variable {text : Text} {lookup : NodeLookup} {nodes : List AclNode}

theorem mem (h : BoundNodes text lookup nodes) {id : String} {node : AclNode}
    (hnode : lookup id = .ok (some node)) : node ∈ nodes ∧ node.id = id := by
  rcases h.named id with hnone | ⟨other, hmem, hid, hlookup⟩
  · rw [hnone] at hnode
    cases hnode
  · rw [hlookup] at hnode
    cases hnode
    exact ⟨hmem, hid⟩

theorem ids_mem (h : BoundNodes text lookup nodes) (id : String) (node : AclNode)
    (hnode : lookup id = .ok (some node)) : node.id ∈ (nodes.map AclNode.id).toFinset :=
  List.mem_toFinset.mpr (List.mem_map.mpr ⟨node, (h.mem hnode).1, rfl⟩)

theorem factual (h : BoundNodes text lookup nodes) {node : AclNode} (hnode : node ∈ nodes) :
    factualSourcesMatch node lookup = true := by
  unfold factualSourcesMatch
  rw [if_neg (h.plain node hnode)]

variable {context : AuthorizationContext}

theorem lineage_lookup {id : String} {node : AclNode} :
    (lineage text context lookup).lookup id = some node ↔ lookup id = .ok (some node) := by
  unfold lineage
  dsimp only
  split
  · rename_i found hlookup
    rw [hlookup]
    simp
  · rename_i hlookup
    rw [hlookup]
    simp

/-- In a lookup of bound nodes, authorized nodes are the grounded ones. -/
theorem authorized_iff (h : BoundNodes text lookup nodes) (node : AclNode) :
    Authorized text context lookup node ↔ (lineage text context lookup).Grounded node := by
  have hfinite : {m | ∃ s, (lineage text context lookup).lookup s = some m}.Finite := by
    refine (List.finite_toSet nodes).subset ?_
    rintro m ⟨s, hs⟩
    exact (h.mem (lineage_lookup.mp hs)).1
  exact (grounded_iff hfinite).symm

/-- An evaluator of the nodes of a lookup: what it declares for them are their declared sources. -/
structure Evaluates (p : SnapshotAuthorization) (text : Text) (context : AuthorizationContext)
    (lookup : NodeLookup) (nodes : List AclNode) : Prop where
  text_eq : p.text = text
  context_eq : p.context = context
  lookup_eq : p.lookup = lookup
  declared : ∀ node ∈ nodes, p.declared node = sourceIds text node

variable {p : SnapshotAuthorization}

theorem graph_lookup_eq (h : BoundNodes text lookup nodes)
    (hp : Evaluates p text context lookup nodes) (id : String) :
    p.graph.lookup id = (lineage text context lookup).lookup id := by
  refine Option.ext fun node => ?_
  rw [p.graph_lookup, lineage_lookup, hp.lookup_eq]
  exact ⟨And.left, fun hnode => ⟨hnode, (h.mem hnode).2⟩⟩

/-- What an evaluator finds grounded is grounded in the lineage. -/
theorem grounded_of_evaluator (h : BoundNodes text lookup nodes)
    (hp : Evaluates p text context lookup nodes) {node : AclNode} (hnode : node ∈ nodes)
    (hgrounded : p.graph.Grounded node) : (lineage text context lookup).Grounded node := by
  refine hgrounded.transfer (· ∈ nodes) (fun id => (h.graph_lookup_eq hp id).symm)
    (fun n hn => (hp.declared n hn).symm) (fun n _ haccepts => ?_) ?_ hnode
  · have hscope := haccepts.1
    rw [hp.text_eq, hp.context_eq] at hscope
    exact hscope
  · rintro n m - ⟨s, -, hm⟩
    rw [p.graph_lookup, hp.lookup_eq] at hm
    exact (h.mem hm.1).1

/-- What is grounded in the lineage is so for an evaluator whose inherited path it does not
reach. -/
theorem grounded_in_evaluator (h : BoundNodes text lookup nodes)
    (hp : Evaluates p text context lookup nodes) {node : AclNode} (hnode : node ∈ nodes)
    (hgrounded : (lineage text context lookup).Grounded node)
    (hpath : ∀ m, (lineage text context lookup).Reaches node m →
      m.id ∉ p.legacySourcePath.getD []) : p.graph.Grounded node := by
  refine hgrounded.transfer
    (fun m => m ∈ nodes ∧ (lineage text context lookup).Reaches node m)
    (h.graph_lookup_eq hp) (fun n hn => hp.declared n hn.1) (fun n hn haccepts => ?_) ?_
    ⟨hnode, Relation.ReflTransGen.refl⟩
  · refine ⟨?_, ?_, .inr (hpath n hn.2)⟩
    · rw [hp.text_eq, hp.context_eq]
      exact haccepts
    · rw [hp.lookup_eq]
      exact h.factual hn.1
  · rintro n m ⟨-, hreach⟩ hedge
    have hm : ∃ s, (lineage text context lookup).lookup s = some m := hedge.imp fun _ hs => hs.2
    obtain ⟨s, hs⟩ := hm
    exact ⟨(h.mem (lineage_lookup.mp hs)).1, hreach.tail hedge⟩

theorem not_aliased (h : BoundNodes text lookup nodes)
    (hp : Evaluates p text context lookup nodes) : ¬ p.Aliased := by
  rintro ⟨id, source, hlookup, hne⟩
  rw [hp.lookup_eq] at hlookup
  exact hne (h.mem hlookup).2

end BoundNodes

namespace AuthorizationGate

variable {gate : AuthorizationGate} {context : AuthorizationContext}
  {sourceLookup : Option NodeLookup} {nodes : List AclNode}

theorem snapshot_evaluates {lookup : NodeLookup} (lookupFailure : String) :
    BoundNodes.Evaluates (gate.snapshot context lookup lookupFailure) gate.text context lookup
      nodes :=
  ⟨rfl, rfl, rfl, fun _ _ => rfl⟩

theorem evaluator_evaluates (h : BoundNodes gate.text (gate.lookup context sourceLookup) nodes)
    (sourcePath : List String) :
    BoundNodes.Evaluates (gate.evaluator context sourceLookup sourcePath) gate.text context
      (gate.lookup context sourceLookup) nodes := by
  refine ⟨rfl, rfl, rfl, fun node hnode => ?_⟩
  unfold SnapshotAuthorization.declared
  rw [if_neg]
  · rfl
  · rintro ⟨-, htenant⟩
    exact h.tenant node hnode htenant

/-- A grounded node is named by none of the nodes that its sources reach. -/
theorem not_mem_path (h : BoundNodes gate.text (gate.lookup context sourceLookup) nodes)
    {node source : AclNode} {s : String}
    (hnode : gate.lookup context sourceLookup node.id = .ok (some node))
    (hgrounded : (lineage gate.text context (gate.lookup context sourceLookup)).Grounded node)
    (hs : s ∈ sourceIds gate.text node)
    (hlookup : gate.lookup context sourceLookup s = .ok (some source)) (m : AclNode)
    (hreach : (lineage gate.text context (gate.lookup context sourceLookup)).Reaches source m) :
    m.id ≠ node.id := by
  intro hid
  have hedge : (lineage gate.text context (gate.lookup context sourceLookup)).Edge node source :=
    ⟨s, hs, BoundNodes.lineage_lookup.mpr hlookup⟩
  have hm : gate.lookup context sourceLookup m.id = .ok (some m) := by
    rcases Relation.ReflTransGen.cases_tail hreach with rfl | ⟨_, -, s', -, hs'⟩
    · exact (h.mem hlookup).2 ▸ hlookup
    · have hfound := BoundNodes.lineage_lookup.mp hs'
      exact (h.mem hfound).2 ▸ hfound
  rw [hid, hnode] at hm
  cases hm
  exact hgrounded.not_onCycle (Relation.TransGen.head' hedge hreach)

/-- The loop over the sources of a bound node in scope says whether the node is grounded. -/
theorem sourcesVisible_iff (h : BoundNodes gate.text (gate.lookup context sourceLookup) nodes)
    {node : AclNode} (hnode : gate.lookup context sourceLookup node.id = .ok (some node))
    (hscope : isNodeInScope gate.text node context = true) {fuel : ℕ}
    {recurse : AclNode → Option Bool} {visible : Bool}
    (hvisible : (gate.evaluator context sourceLookup [node.id]).sourcesVisible fuel recurse
      (sourceIds gate.text node) [] = some visible) :
    visible = true ↔
      (lineage gate.text context (gate.lookup context sourceLookup)).Grounded node := by
  have hp := evaluator_evaluates h [node.id]
  have haliased := h.not_aliased hp
  have hnames : (gate.evaluator context sourceLookup [node.id]).NamesNodes :=
    evaluator_namesNodes [node.id]
  cases visible with
  | true =>
    refine iff_of_true rfl (grounded_iff_sources.mpr ⟨hscope, fun s hs => ?_⟩)
    obtain ⟨source, hlookup, ⟨-, hgrounded⟩ | ⟨haliased', -⟩⟩ :=
      SnapshotAuthorization.sourcesVisible_true hnames (evaluator_path [node.id]) _
        SnapshotAuthorization.soundMemo_nil hvisible s hs
    · exact ⟨source, BoundNodes.lineage_lookup.mpr hlookup,
        h.grounded_of_evaluator hp (h.mem hlookup).1 hgrounded⟩
    · exact absurd haliased' haliased
  | false =>
    refine iff_of_false (by simp) fun hgrounded => ?_
    obtain ⟨s, hs, hbad⟩ :=
      SnapshotAuthorization.sourcesVisible_false hnames (evaluator_path [node.id]) haliased _
        SnapshotAuthorization.soundMemo_nil hvisible
    obtain ⟨source, hfound, hsource⟩ := (grounded_iff_sources.mp hgrounded).2 s hs
    have hlookup := BoundNodes.lineage_lookup.mp hfound
    refine hbad source hlookup (h.grounded_in_evaluator hp (h.mem hlookup).1 hsource ?_)
    intro m hreach
    have hne := not_mem_path h hnode hgrounded hs hlookup m hreach
    simpa [evaluator] using hne

/-- `is_node_visible` says of a bound node whether it is grounded in its lineage. -/
theorem isNodeVisible_iff (h : BoundNodes gate.text (gate.lookup context sourceLookup) nodes)
    {node : AclNode} (hnode : gate.lookup context sourceLookup node.id = .ok (some node)) :
    ∃ bound, ∀ fuel, bound ≤ fuel → ∃ visible,
      gate.isNodeVisible context sourceLookup fuel [] node = some visible ∧
        (visible = true ↔
          (lineage gate.text context (gate.lookup context sourceLookup)).Grounded node) := by
  obtain ⟨hmem, -⟩ := h.mem hnode
  obtain ⟨bound, hbound⟩ := SnapshotAuthorization.sourcesVisible_halts
    (evaluator_namesNodes [node.id]) (evaluator_path [node.id])
    (h.not_aliased (evaluator_evaluates h [node.id])) h.ids_mem (sourceIds gate.text node)
    SnapshotAuthorization.soundMemo_nil
  refine ⟨bound + 1, fun fuel hle => ?_⟩
  obtain ⟨fuel, rfl⟩ := Nat.exists_eq_add_of_le' (Nat.one_le_of_lt hle)
  have htenant : ¬ (sourceLookup = none ∧ node.tenant gate.text = none) := fun hnone =>
    h.tenant node hmem hnone.2
  have hfactual := h.factual hmem
  unfold isNodeVisible sourcesStillVisible
  by_cases hscope : isNodeInScope gate.text node context = false
  · refine ⟨false, by rw [if_pos hscope], iff_of_false (by simp) fun hgrounded => ?_⟩
    have haccepts : isNodeInScope gate.text node context = true := hgrounded.accepts
    rw [hscope] at haccepts
    cases haccepts
  have hscope' : isNodeInScope gate.text node context = true := by simpa using hscope
  rw [if_neg hscope, if_neg htenant, if_neg (by simp [hfactual])]
  by_cases hnil : sourceIds gate.text node = []
  · rw [if_pos hnil]
    refine ⟨true, rfl, iff_of_true rfl (grounded_iff_sources.mpr ⟨hscope', ?_⟩)⟩
    simp [lineage, hnil]
  · rw [if_neg hnil, if_neg (by simp)]
    obtain ⟨visible, hvisible⟩ := hbound fuel (by omega)
      (gate.isNodeVisible context sourceLookup fuel [node.id])
    exact ⟨visible, hvisible, sourcesVisible_iff h hnode hscope' hvisible⟩

/-- `check` says of every bound node whether it is grounded in its lineage. -/
theorem checkAll_iff (context : AuthorizationContext) {lookup : NodeLookup} (h : BoundNodes gate.text lookup nodes)
    (lookupFailure : String) (queries : List AclNode)
    (hqueries : ∀ node ∈ queries, lookup node.id = .ok (some node)) {memo : Memo}
    (hmemo : (gate.snapshot context lookup lookupFailure).SoundMemo memo) :
    ∃ bound, ∀ fuel, bound ≤ fuel → ∃ verdicts,
      (gate.snapshot context lookup lookupFailure).checkAll fuel memo queries = some verdicts ∧
        List.Forall₂ (fun node (verdict : Verdict) =>
          (verdict.1 = true ↔ (lineage gate.text context lookup).Grounded node)) queries
          verdicts := by
  let p := gate.snapshot context lookup lookupFailure
  have hp : BoundNodes.Evaluates p gate.text context lookup nodes :=
    snapshot_evaluates lookupFailure
  have hnames : p.NamesNodes := ⟨fun _ id node hnode => (h.mem hnode).2, fun hpath => absurd rfl hpath⟩
  induction queries generalizing memo with
  | nil => exact ⟨0, fun _ _ => ⟨[], rfl, .nil⟩⟩
  | cons node rest ih =>
    have hnode : lookup node.id = .ok (some node) := hqueries node List.mem_cons_self
    have hnamed : p.graph.lookup node.id = some node := p.graph_lookup.mpr ⟨hnode, rfl⟩
    obtain ⟨first, verdict, memo', hcheck⟩ :=
      SnapshotAuthorization.check_halts hnames h.ids_mem memo (h.ids_mem _ node hnode)
    obtain ⟨hmemo', hverdict⟩ := SnapshotAuthorization.check_sound hnames hmemo hnamed hcheck
    obtain ⟨bound, hbound⟩ := ih (fun n hn => hqueries n (List.mem_cons_of_mem _ hn)) hmemo'
    have hiff : verdict.1 = true ↔ (lineage gate.text context lookup).Grounded node := by
      rcases hverdict with ⟨-, hsound⟩ | ⟨-, haliased⟩
      · split_ifs at hsound with hv
        · obtain ⟨node', hnode', hgrounded⟩ := hsound
          rw [hnamed] at hnode'
          cases hnode'
          exact iff_of_true hv (h.grounded_of_evaluator hp (h.mem hnode).1 hgrounded)
        · refine iff_of_false hv fun hgrounded => hsound node hnamed ?_
          exact h.grounded_in_evaluator hp (h.mem hnode).1 hgrounded fun _ _ => by simp [p, snapshot]
      · exact absurd haliased (h.not_aliased hp)
    refine ⟨max first bound, fun fuel hle => ?_⟩
    obtain ⟨verdicts, hall, hforall⟩ := hbound fuel (le_trans (le_max_right _ _) hle)
    refine ⟨verdict :: verdicts, ?_, .cons hiff hforall⟩
    have hfirst := SnapshotAuthorization.check_mono hcheck (le_trans (le_max_left _ _) hle)
    simp only [SnapshotAuthorization.checkAll, p] at hfirst ⊢
    rw [hfirst]
    simp only [hall, Option.map_some]

/-- One bound on the fuel serves finitely many bound nodes. -/
theorem isNodeVisible_all (h : BoundNodes gate.text (gate.lookup context sourceLookup) nodes)
    (queries : List AclNode)
    (hqueries : ∀ node ∈ queries, gate.lookup context sourceLookup node.id = .ok (some node)) :
    ∃ bound, ∀ fuel, bound ≤ fuel → ∀ node ∈ queries, ∃ visible,
      gate.isNodeVisible context sourceLookup fuel [] node = some visible ∧
        (visible = true ↔
          (lineage gate.text context (gate.lookup context sourceLookup)).Grounded node) := by
  induction queries with
  | nil => exact ⟨0, by simp⟩
  | cons node rest ih =>
    obtain ⟨first, hfirst⟩ := isNodeVisible_iff h (hqueries node List.mem_cons_self)
    obtain ⟨bound, hbound⟩ := ih fun n hn => hqueries n (List.mem_cons_of_mem _ hn)
    refine ⟨max first bound, fun fuel hle m hm => ?_⟩
    rcases List.mem_cons.mp hm with rfl | hrest
    · exact hfirst fuel (le_trans (le_max_left _ _) hle)
    · exact hbound fuel (le_trans (le_max_right _ _) hle) m hrest

end AuthorizationGate

/-- The checks of bound nodes, in any order and with one memo, end; each verdict says whether the
node is authorized, and `is_node_visible` says the same. -/
theorem check_agrees (gate : AuthorizationGate) (context : AuthorizationContext)
    (sourceLookup : Option NodeLookup) (lookupFailure : String) (nodes : List AclNode)
    (hbound : BoundNodes gate.text (gate.lookup context sourceLookup) nodes)
    (queries : List AclNode)
    (hqueries : ∀ node ∈ queries, gate.lookup context sourceLookup node.id = .ok (some node)) :
    ∃ bound, ∀ fuel, bound ≤ fuel → ∃ verdicts,
      (gate.snapshot context (gate.lookup context sourceLookup) lookupFailure).checkAll fuel []
          queries = some verdicts ∧
        List.Forall₂ (fun node (verdict : Verdict) =>
          (verdict.1 = true ↔
            Authorized gate.text context (gate.lookup context sourceLookup) node) ∧
          gate.isNodeVisible context sourceLookup fuel [] node = some verdict.1) queries
          verdicts := by
  obtain ⟨first, hchecks⟩ := AuthorizationGate.checkAll_iff context hbound
    lookupFailure queries hqueries SnapshotAuthorization.soundMemo_nil
  obtain ⟨second, hvisible⟩ := AuthorizationGate.isNodeVisible_all hbound queries hqueries
  refine ⟨max first second, fun fuel hle => ?_⟩
  obtain ⟨verdicts, hall, hforall⟩ := hchecks fuel (le_trans (le_max_left _ _) hle)
  refine ⟨verdicts, hall, List.forall₂_iff_get.mpr ⟨hforall.length_eq, fun i hi hi' => ?_⟩⟩
  have hiff := (List.forall₂_iff_get.mp hforall).2 i hi hi'
  refine ⟨hiff.trans (hbound.authorized_iff _).symm, ?_⟩
  obtain ⟨visible, hrun, hsame⟩ :=
    hvisible fuel (le_trans (le_max_right _ _) hle) (queries.get ⟨i, hi⟩) (List.get_mem _ _)
  rw [hrun, Option.some.injEq, Bool.eq_iff_iff, hsame]
  exact hiff.symm

/-- A node of the tenant `t` with an id, open to the workspace `w`, and derived from others. -/
def sampleNode (id : String) (sources : List String) : AclNode where
  id := id
  tenantId := .str "t"
  ownerSubjectId := .str "u"
  workspaceId := .str "w"
  owner := .null
  visibility := .str "workspace"
  originSession := .null
  provenance := []
  namespace_ := [(.str "memplex_source_refs", .str (joinComma sources))]
  isCurrent := true
  fingerprint := ""

/-- A request of the subject `v` in the workspace `w` of the tenant `t`. -/
def sampleContext : AuthorizationContext := ⟨⟨"t", "v", []⟩, "w", "", "", []⟩

/-- Two nodes that are derived from each other, one derived from them, and one that stands alone. -/
def sampleNodes : List AclNode :=
  [sampleNode "a" ["b"], sampleNode "b" ["a", "d"], sampleNode "c" ["d", "a"], sampleNode "d" []]

/-- The lookup over a list of nodes. -/
def lookupIn (nodes : List AclNode) : NodeLookup := fun id => .ok (nodes.find? fun n => n.id = id)

/-- The nodes above are checked one after the other, from a node on the cycle on. -/
theorem sampleNodes_checked :
    ∃ bound, ∀ fuel, bound ≤ fuel → ∃ verdicts,
      (AuthorizationGate.snapshot ⟨sampleText, fun _ => lookupIn sampleNodes⟩ sampleContext
          (lookupIn sampleNodes) "").checkAll fuel [] sampleNodes = some verdicts ∧
        List.Forall₂ (fun node (verdict : Verdict) =>
          (verdict.1 = true ↔
            Authorized sampleText sampleContext (lookupIn sampleNodes) node) ∧
          AuthorizationGate.isNodeVisible ⟨sampleText, fun _ => lookupIn sampleNodes⟩
            sampleContext none fuel [] node = some verdict.1) sampleNodes verdicts := by
  refine check_agrees ⟨sampleText, fun _ => lookupIn sampleNodes⟩ sampleContext none ""
    sampleNodes ⟨fun id => ?_, by decide +kernel, by decide +kernel⟩ sampleNodes
    (by decide +kernel)
  unfold AuthorizationGate.lookup lookupIn
  cases hfind : sampleNodes.find? fun n => n.id = id with
  | none => exact .inl (by simp [hfind])
  | some node =>
    have hid := List.find?_some hfind
    exact .inr ⟨node, List.mem_of_find?_eq_some hfind, by simpa using hid, by simp [hfind]⟩

end Memplex
