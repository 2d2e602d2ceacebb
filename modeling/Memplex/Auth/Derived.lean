import Memplex.Auth.Visible

/-!
# A derived memory and its sources

`Visible` is what `is_node_visible` decides, without its memo and its fuel: the rules by which a
node is accepted below a path of nodes (`visible_iff`). A node accepted below a path is accepted
below any part of it, so the sources of an accepted node are accepted on their own: unless the gate
skips them, which it does for a node without a tenant identity when no lookup is given
(`derived_visible`).
-/

namespace Memplex

open Lib SourceGraph

namespace AuthorizationGate

variable (gate : AuthorizationGate) (context : AuthorizationContext)
  (sourceLookup : Option NodeLookup)

/-- The nodes that `is_node_visible` accepts below a path of nodes: in scope, and either without a
tenant identity where no lookup is given, or with evidence that still holds and sources that are
accepted below the longer path. -/
inductive Visible : List String → AclNode → Prop where
  | bare {path : List String} {node : AclNode}
      (hscope : isNodeInScope gate.text node context = true) (hdefault : sourceLookup = none)
      (htenant : node.tenant gate.text = none) : Visible path node
  | leaf {path : List String} {node : AclNode}
      (hscope : isNodeInScope gate.text node context = true)
      (hfactual : factualSourcesMatch node (gate.lookup context sourceLookup) = true)
      (hnil : sourceIds gate.text node = []) : Visible path node
  | derived {path : List String} {node : AclNode}
      (hscope : isNodeInScope gate.text node context = true)
      (hfactual : factualSourcesMatch node (gate.lookup context sourceLookup) = true)
      (hpath : node.id ∉ path)
      (hexists : ∀ s ∈ sourceIds gate.text node, ∃ source,
        gate.lookup context sourceLookup s = .ok (some source))
      (hchecked : ∀ s ∈ sourceIds gate.text node, ∀ source,
        gate.lookup context sourceLookup s = .ok (some source) → source.id = s →
        factualSourcesMatch source (gate.lookup context sourceLookup) = true)
      (hsources : ∀ s ∈ sourceIds gate.text node, ∀ source,
        gate.lookup context sourceLookup s = .ok (some source) →
        Visible (path.insert node.id) source) : Visible path node

variable {gate context sourceLookup}

/-- What is accepted below a path is accepted below a part of it. -/
theorem Visible.anti {path path' : List String} {node : AclNode}
    (h : gate.Visible context sourceLookup path node) (hsub : path' ⊆ path) :
    gate.Visible context sourceLookup path' node := by
  induction h generalizing path' with
  | bare hscope hdefault htenant => exact .bare hscope hdefault htenant
  | leaf hscope hfactual hnil => exact .leaf hscope hfactual hnil
  | derived hscope hfactual hpath hexists hchecked _ ih =>
    refine .derived hscope hfactual (fun hin => hpath (hsub hin)) hexists hchecked ?_
    intro s hs source hlookup
    refine ih s hs source hlookup fun i hi => ?_
    rcases List.mem_insert_iff.mp hi with rfl | hold
    · exact List.mem_insert_self
    · exact List.mem_insert_of_mem (hsub hold)

/-- A node that the evaluator below a path finds grounded is accepted below any longer path whose
further nodes all lead to it. -/
theorem visible_of_grounded {sourcePath : List String} {node : AclNode}
    (h : (gate.evaluator context sourceLookup sourcePath).graph.Grounded node)
    (hnode : (gate.evaluator context sourceLookup sourcePath).graph.lookup node.id = some node)
    {path : List String}
    (hpath : ∀ i ∈ path, i ∈ sourcePath ∨ ∃ n,
      (gate.evaluator context sourceLookup sourcePath).graph.lookup i = some n ∧
        Relation.TransGen (gate.evaluator context sourceLookup sourcePath).graph.Edge n node) :
    gate.Visible context sourceLookup path node := by
  set p := gate.evaluator context sourceLookup sourcePath with hp
  have hcycle := h.not_onCycle
  induction h generalizing path with
  | intro node haccepts hexists hsources ih =>
    obtain ⟨hscope, hfactual, hnew⟩ := haccepts
    by_cases hbare : sourceLookup = none ∧ node.tenant gate.text = none
    · exact .bare hscope hbare.1 hbare.2
    have hdeclared : p.declared node = sourceIds gate.text node := by
      unfold SnapshotAuthorization.declared
      rw [if_neg]
      · rfl
      · rintro ⟨hnone, htenant⟩
        exact hbare ⟨Option.isNone_iff_eq_none.mp hnone, htenant⟩
    have hmem : ∀ s ∈ sourceIds gate.text node, s ∈ p.graph.sources node := by
      intro s hs
      rw [← hdeclared] at hs
      exact hs
    by_cases hnil : sourceIds gate.text node = []
    · exact .leaf hscope hfactual hnil
    have hfresh : node.id ∉ sourcePath := by
      rcases hnew with hnone | hnew
      · exact absurd (hdeclared ▸ hnone) hnil
      · exact hnew
    have hfound : ∀ s ∈ sourceIds gate.text node, ∀ source,
        gate.lookup context sourceLookup s = .ok (some source) →
        p.graph.lookup s = some source := by
      intro s hs source hlookup
      obtain ⟨m, hm⟩ := Option.isSome_iff_exists.mp (hexists s (hmem s hs))
      have hm' := (p.graph_lookup.mp hm).1
      rw [show p.lookup = gate.lookup context sourceLookup from rfl, hlookup] at hm'
      cases hm'
      exact hm
    refine .derived hscope hfactual ?_ ?_ ?_ ?_
    · intro hin
      rcases hpath node.id hin with hold | ⟨n, hn, hlead⟩
      · exact hfresh hold
      · rw [hnode] at hn
        cases hn
        exact hcycle hlead
    · intro s hs
      obtain ⟨m, hm⟩ := Option.isSome_iff_exists.mp (hexists s (hmem s hs))
      exact ⟨m, (p.graph_lookup.mp hm).1⟩
    · intro s hs source hlookup _
      have hgrounded := hsources s (hmem s hs) source (hfound s hs source hlookup)
      exact hgrounded.accepts.2.1
    · intro s hs source hlookup
      have hsource := hfound s hs source hlookup
      have hedge : p.graph.Edge node source := ⟨s, hmem s hs, hsource⟩
      have hid : source.id = s := (p.graph_lookup.mp hsource).2
      refine ih s (hmem s hs) source hsource (hid.symm ▸ hsource) (fun i hi => ?_)
        (hsources s (hmem s hs) source hsource).not_onCycle
      rcases List.mem_insert_iff.mp hi with rfl | hold
      · exact .inr ⟨node, hnode, Relation.TransGen.single hedge⟩
      · exact (hpath i hold).imp_right fun ⟨n, hn, hlead⟩ => ⟨n, hn, hlead.tail hedge⟩

/-- What `is_node_visible` accepts is accepted by the rules. -/
theorem visible_of_isNodeVisible (fuel : ℕ) {path : List String} {node : AclNode}
    (h : gate.isNodeVisible context sourceLookup fuel path node = some true) :
    gate.Visible context sourceLookup path node := by
  induction fuel generalizing path node with
  | zero => simp [isNodeVisible] at h
  | succ fuel ih =>
    unfold isNodeVisible sourcesStillVisible at h
    split_ifs at h with hscope hbare hfactual hnil hpath
    · cases h
    · exact .bare (by simpa using hscope) hbare.1 hbare.2
    · cases h
    · exact .leaf (by simpa using hscope) (by simpa using hfactual) hnil
    · cases h
    · have hsources := SnapshotAuthorization.sourcesVisible_true
        (evaluator_namesNodes (path.insert node.id)) (evaluator_path (path.insert node.id)) _
        SnapshotAuthorization.soundMemo_nil h
      refine .derived (by simpa using hscope) (by simpa using hfactual) hpath ?_ ?_ ?_
      · intro s hs
        obtain ⟨source, hlookup, -⟩ := hsources s hs
        exact ⟨source, hlookup⟩
      all_goals
        intro s hs source hlookup
        obtain ⟨source', hlookup', hcase⟩ := hsources s hs
        have hsame : source' = source := by
          have heq := hlookup'.symm.trans hlookup
          cases heq
          rfl
        subst hsame
      · intro hid
        rcases hcase with ⟨-, hgrounded⟩ | ⟨-, -, hfactual'⟩
        · exact hgrounded.accepts.2.1
        · exact hfactual' hid
      · rcases hcase with ⟨hid, hgrounded⟩ | ⟨-, hrecurse, -⟩
        · refine visible_of_grounded hgrounded ?_ fun i hi => .inl hi
          exact (gate.evaluator context sourceLookup _).graph_lookup.mpr ⟨hid.symm ▸ hlookup, rfl⟩
        · exact ih hrecurse

/-! ## The evaluator approves what is accepted -/

/-- Every verdict of a memo allows its node. -/
def AllAllowed (memo : Memo) : Prop := ∀ id verdict, memo.get? id = some verdict → verdict = (true, "")

theorem allAllowed_nil : AllAllowed [] := by
  intro id verdict h
  simp [Memo.get?, findRow] at h

/-- A result that allows the root, or reports an alias, with a memo that allows every node. -/
def Approves (result : Verdict × Memo) : Prop :=
  AllAllowed result.2 ∧ (result.1 = (true, "") ∨ result.1 = (false, "legacy_alias"))

/-- The evaluation is approved from every state that follows `w` in which `m` has been allowed and
`rest` is left on the stack. -/
def ApprovedAfter (p : SnapshotAuthorization) (root : String) (m : AclNode) (rest : List Frame)
    (w : Walk) : Prop :=
  ∀ w', w'.stack = rest → AllAllowed w'.verdicts → w'.verdicts.get? m.id = some (true, "") →
    (∀ a ∈ w'.active, a ∈ w.active) → p.Ends root Approves w'

/-- An allowed node is finished with. -/
theorem ApprovedAfter.complete {p : SnapshotAuthorization} {root : String} {m : AclNode}
    {rest : List Frame} {w w' : Walk} (h : ApprovedAfter p root m rest w)
    (hallowed : AllAllowed w'.verdicts) (hactive : ∀ a ∈ w'.active, a ∈ w.active ∨ a = m.id) :
    p.Ends root Approves (SnapshotAuthorization.complete m rest w' (true, "")) := by
  refine h _ rfl (fun id verdict hget => ?_) (by simp [SnapshotAuthorization.complete])
    fun a ha => ?_
  · simp only [SnapshotAuthorization.complete, Memo.get?_set] at hget
    split_ifs at hget
    · exact (Option.some.inj hget).symm
    · exact hallowed id verdict hget
  · obtain ⟨hmem, hne⟩ := List.mem_filter.mp ha
    exact (hactive a hmem).resolve_right (by simpa using hne)

/-- The evaluation is approved from an entered node all of whose sources exist, when it is from
each source that goes on the stack. -/
theorem approved_of_entered {p : SnapshotAuthorization} {root : String} {m : AclNode}
    {sources : List String} {rest : List Frame} {w : Walk} (hpath : p.legacySourcePath ≠ none)
    (hafter : ApprovedAfter p root m rest w)
    (hexists : ∀ s ∈ sources, ∃ source, p.lookup s = .ok (some source))
    (hpush : ∀ w' source, source.id ∈ sources → p.lookup source.id = .ok (some source) →
      AllAllowed w'.verdicts → (∀ a ∈ w'.active, a ∈ w.active ∨ a = m.id) →
      ApprovedAfter p root source w'.stack w' →
      p.Ends root Approves { w' with stack := ⟨source, none, 0⟩ :: w'.stack })
    (left : ℕ) {position : ℕ} {w' : Walk} (hallowed : AllAllowed w'.verdicts)
    (hactive : ∀ a ∈ w'.active, a ∈ w.active ∨ a = m.id)
    (hleft : sources.length - position ≤ left)
    (hstack : w'.stack = ⟨m, some sources, position⟩ :: rest) : p.Ends root Approves w' := by
  induction left generalizing position w' with
  | zero =>
    have hend : sources[position]? = none := List.getElem?_eq_none_iff.mpr (by omega)
    refine (hafter.complete hallowed hactive).of_goes hstack ?_
    simp only [SnapshotAuthorization.step, SnapshotAuthorization.resume, hend]
  | succ left ih =>
    cases hget : sources[position]? with
    | none =>
      refine (hafter.complete hallowed hactive).of_goes hstack ?_
      simp only [SnapshotAuthorization.step, SnapshotAuthorization.resume, hget]
    | some s =>
      have hs : s ∈ sources := List.mem_of_getElem? hget
      -- once the source has been allowed, what is left is one source less
      have hnext : ∀ w'', AllAllowed w''.verdicts →
          (∀ a ∈ w''.active, a ∈ w.active ∨ a = m.id) →
          w''.stack = ⟨m, some sources, position⟩ :: rest →
          w''.verdicts.get? s = some (true, "") → p.Ends root Approves w'' := by
        intro w'' hallowed'' hactive'' hstack'' hverdict''
        have hleft' : sources.length - (position + 1) ≤ left := by omega
        have hadvanced : p.Ends root Approves
            { w'' with stack := ⟨m, some sources, position + 1⟩ :: rest } :=
          ih hallowed'' hactive'' hleft' rfl
        refine hadvanced.of_goes hstack'' ?_
        simp only [SnapshotAuthorization.step, SnapshotAuthorization.resume, hget, hverdict'']
      cases hverdict : w'.verdicts.get? s with
      | some verdict =>
        have htrue := hallowed s verdict hverdict
        subst htrue
        exact hnext w' hallowed hactive hstack hverdict
      | none =>
        obtain ⟨source, hlookup⟩ := hexists s hs
        have hnocycle : ¬ (s ∈ w'.active ∧ p.legacySourcePath = none) := fun h => hpath h.2
        by_cases hid : source.id = s
        · subst hid
          have hgo := hpush w' source hs hlookup hallowed hactive fun w'' hrest hall hv hsub =>
            hnext w'' hall (fun a ha => hactive a (hsub a ha)) (hrest.trans hstack) hv
          refine hgo.of_goes hstack ?_
          simp only [SnapshotAuthorization.step, SnapshotAuthorization.resume, hget, hverdict,
            if_neg hnocycle, hlookup, ne_eq, not_true_eq_false, and_false, if_false]
        · refine .of_returns (false, "legacy_alias") w'.verdicts ⟨hallowed, .inr rfl⟩ hstack ?_
          simp only [SnapshotAuthorization.step, SnapshotAuthorization.resume, hget, hverdict,
            if_neg hnocycle, hlookup, if_pos (And.intro hpath hid)]

/-- The sources that the evaluator declares for a node are its declared ones, or none. -/
theorem declared_eq (gate : AuthorizationGate) (context : AuthorizationContext)
    (sourceLookup : Option NodeLookup) (sourcePath : List String) (node : AclNode) :
    (gate.evaluator context sourceLookup sourcePath).declared node = [] ∨
      (gate.evaluator context sourceLookup sourcePath).declared node =
        sourceIds gate.text node := by
  unfold SnapshotAuthorization.declared
  split_ifs
  · exact .inl rfl
  · exact .inr rfl

/-- A node in scope whose evidence holds is entered, unless it has sources and is active. -/
theorem enter_of_scope {sourcePath active : List String} {node : AclNode}
    (hscope : isNodeInScope gate.text node context = true)
    (hfactual : factualSourcesMatch node (gate.lookup context sourceLookup) = true)
    (hnew : (gate.evaluator context sourceLookup sourcePath).declared node = [] ∨
      node.id ∉ active) :
    (gate.evaluator context sourceLookup sourcePath).enter node active =
      .ok ((gate.evaluator context sourceLookup sourcePath).declared node) := by
  have hscope' : ¬ isNodeInScope gate.text node context = false := by simp [hscope]
  have hfactual' : ¬ factualSourcesMatch node (gate.lookup context sourceLookup) = false := by
    simp [hfactual]
  unfold SnapshotAuthorization.enter
  refine (if_neg hscope').trans ((if_neg hfactual').trans (if_neg ?_))
  rintro ⟨hne, hin⟩
  exact hnew.elim hne fun hnot => hnot hin

/-- The evaluation is approved from an accepted node whose evidence holds, when it is once that node
has been allowed. -/
theorem approved_of_visible {path : List String} {m : AclNode}
    (h : gate.Visible context sourceLookup path m)
    (hchecked : factualSourcesMatch m (gate.lookup context sourceLookup) = true)
    {sourcePath : List String} {root : String} {rest : List Frame} {w : Walk}
    (hallowed : AllAllowed w.verdicts) (hactive : ∀ a ∈ w.active, a ∈ path)
    (hstack : w.stack = ⟨m, none, 0⟩ :: rest)
    (hafter : ApprovedAfter (gate.evaluator context sourceLookup sourcePath) root m rest w) :
    (gate.evaluator context sourceLookup sourcePath).Ends root Approves w := by
  set p := gate.evaluator context sourceLookup sourcePath with hp
  -- a node without sources to evaluate is allowed at once
  have hbare : ∀ {m : AclNode} {rest : List Frame} {w : Walk},
      isNodeInScope gate.text m context = true →
      factualSourcesMatch m (gate.lookup context sourceLookup) = true → p.declared m = [] →
      AllAllowed w.verdicts → w.stack = ⟨m, none, 0⟩ :: rest →
      ApprovedAfter p root m rest w → p.Ends root Approves w := by
    intro m rest w hscope hfactual hnil hallowed hstack hafter
    have henter : p.enter m w.active = .ok [] :=
      hnil ▸ enter_of_scope hscope hfactual (.inl hnil)
    have hcompleted : p.Ends root Approves (SnapshotAuthorization.complete m rest
        (SnapshotAuthorization.entered m [] rest w) (true, "")) :=
      hafter.complete hallowed fun a ha => (List.mem_insert_iff.mp ha).symm
    exact .of_entered (hcompleted.of_goes rfl rfl) hstack henter
  induction h generalizing rest w with
  | bare hscope hdefault htenant =>
    refine hbare hscope hchecked ?_ hallowed hstack hafter
    unfold SnapshotAuthorization.declared
    rw [if_pos]
    exact ⟨by simp [hp, evaluator, hdefault], htenant⟩
  | leaf hscope hfactual hnil =>
    refine hbare hscope hfactual ?_ hallowed hstack hafter
    rcases declared_eq gate context sourceLookup sourcePath _ with hnone | hdeclared
    · exact hnone
    · exact hdeclared.trans hnil
  | derived hscope hfactual hnew hexists hsourcesChecked _ ih =>
    rename_i path node _
    rcases declared_eq gate context sourceLookup sourcePath node with hnone | hdeclared
    · exact hbare hscope hfactual hnone hallowed hstack hafter
    have henter : p.enter node w.active = .ok (sourceIds gate.text node) := by
      rw [← hdeclared]
      exact enter_of_scope hscope hfactual (.inr fun hin => hnew (hactive _ hin))
    refine .of_entered (approved_of_entered (evaluator_path sourcePath) hafter hexists ?_
      (sourceIds gate.text node).length hallowed (fun a ha => ?_) (by omega) rfl) hstack henter
    · intro w' source hs hlookup hall hact hdone
      refine ih source.id hs source hlookup (hsourcesChecked source.id hs source hlookup rfl) hall
        (fun a ha => ?_) rfl hdone
      rcases hact a ha with hold | rfl
      · exact List.mem_insert_of_mem (hactive a hold)
      · exact List.mem_insert_self
    · exact (List.mem_insert_iff.mp ha).symm

/-- The loop over accepted sources whose evidence holds accepts them, where the recursion does. -/
theorem sourcesVisible_of_visible {sourcePath : List String} (sources : List String)
    (hexists : ∀ s ∈ sources, ∃ source, gate.lookup context sourceLookup s = .ok (some source) ∧
      (source.id = s → factualSourcesMatch source (gate.lookup context sourceLookup) = true) ∧
      gate.Visible context sourceLookup sourcePath source)
    {memo : Memo} (hallowed : AllAllowed memo) :
    ∃ bound, ∀ fuel, bound ≤ fuel → ∀ recurse : AclNode → Option Bool,
      (∀ s ∈ sources, ∀ source, gate.lookup context sourceLookup s = .ok (some source) →
        recurse source = some true) →
      (gate.evaluator context sourceLookup sourcePath).sourcesVisible fuel recurse sources memo =
        some true := by
  set p := gate.evaluator context sourceLookup sourcePath with hp
  induction sources generalizing memo with
  | nil => exact ⟨0, fun _ _ _ _ => rfl⟩
  | cons s rest ih =>
    obtain ⟨source, hlookup, hchecked, hvisible⟩ := hexists s List.mem_cons_self
    -- the verdict on the source allows it or reports an alias
    have hverdict : ∃ bound verdict memo', AllAllowed memo' ∧
        (verdict = (true, "") ∨ verdict = (false, "legacy_alias")) ∧
        ∀ fuel, bound ≤ fuel → p.checkSource fuel memo s source = some (verdict, memo') := by
      by_cases hid : source.id = s
      · cases hget : memo.get? source.id with
        | some verdict =>
          refine ⟨0, verdict, memo, hallowed, .inl (hallowed _ _ hget), fun fuel _ => ?_⟩
          rw [SnapshotAuthorization.checkSource, if_pos hid, SnapshotAuthorization.check, hget]
        | none =>
          have hends : p.Ends source.id Approves
              ⟨[⟨source, none, 0⟩], p.legacySourcePath.getD [], memo⟩ := by
            refine approved_of_visible hvisible (hchecked hid) hallowed (fun a ha => ha) rfl ?_
            intro w' hrest hall hv _
            exact .of_empty ⟨hall, .inl rfl⟩ hrest hv
          obtain ⟨bound, ⟨verdict, memo'⟩, hrun, hall, happroved⟩ := hends
          refine ⟨bound, verdict, memo', hall, happroved, fun fuel hle => ?_⟩
          rw [SnapshotAuthorization.checkSource, if_pos hid, SnapshotAuthorization.check, hget]
          exact SnapshotAuthorization.run_mono hrun hle
      · refine ⟨0, (false, "legacy_alias"), memo, hallowed, .inr rfl, fun fuel _ => ?_⟩
        rw [SnapshotAuthorization.checkSource, if_neg hid]
    obtain ⟨first, verdict, memo', hallowed', happroved, hcheck⟩ := hverdict
    obtain ⟨bound, hbound⟩ := ih (fun s' hs' => hexists s' (List.mem_cons_of_mem _ hs')) hallowed'
    refine ⟨max first bound, fun fuel hle recurse hrecurse => ?_⟩
    have hrest := hbound fuel (le_trans (le_max_right _ _) hle) recurse fun s' hs' =>
      hrecurse s' (List.mem_cons_of_mem _ hs')
    have hfirst := hcheck fuel (le_trans (le_max_left _ _) hle)
    have hlookup' : p.lookup s = .ok (some source) := hlookup
    unfold SnapshotAuthorization.sourcesVisible
    simp only [hlookup', hfirst]
    rcases happroved with rfl | rfl
    · rw [if_neg (by decide)]
      exact hrest
    · rw [if_pos rfl, hrecurse s List.mem_cons_self source hlookup]
      exact hrest

/-- One amount of fuel serves finitely many sources. -/
theorem isNodeVisible_sources {path : List String} (sources : List String)
    (h : ∀ s ∈ sources, ∀ source, gate.lookup context sourceLookup s = .ok (some source) →
      ∃ fuel, gate.isNodeVisible context sourceLookup fuel path source = some true) :
    ∃ fuel, ∀ s ∈ sources, ∀ source, gate.lookup context sourceLookup s = .ok (some source) →
      gate.isNodeVisible context sourceLookup fuel path source = some true := by
  induction sources with
  | nil => exact ⟨0, by simp⟩
  | cons s rest ih =>
    obtain ⟨bound, hbound⟩ := ih fun s' hs' => h s' (List.mem_cons_of_mem _ hs')
    have hfirst : ∃ first, ∀ source, gate.lookup context sourceLookup s = .ok (some source) →
        gate.isNodeVisible context sourceLookup first path source = some true := by
      by_cases hsome : ∃ source, gate.lookup context sourceLookup s = .ok (some source)
      · obtain ⟨source, hlookup⟩ := hsome
        obtain ⟨first, hfirst⟩ := h s List.mem_cons_self source hlookup
        refine ⟨first, fun other hother => ?_⟩
        cases hlookup.symm.trans hother
        exact hfirst
      · exact ⟨0, fun source hlookup => absurd ⟨source, hlookup⟩ hsome⟩
    obtain ⟨first, hfirst⟩ := hfirst
    refine ⟨max first bound, fun s' hs' source hlookup => ?_⟩
    rcases List.mem_cons.mp hs' with rfl | hrest
    · exact isNodeVisible_mono (le_max_left _ _) (hfirst source hlookup)
    · exact isNodeVisible_mono (le_max_right _ _) (hbound s' hrest source hlookup)

/-- A node with nothing to evaluate below it is accepted from its own checks. -/
theorem isNodeVisible_of_scope {path : List String} {node : AclNode}
    (hscope : isNodeInScope gate.text node context = true)
    (h : (sourceLookup = none ∧ node.tenant gate.text = none) ∨
      (factualSourcesMatch node (gate.lookup context sourceLookup) = true ∧
        sourceIds gate.text node = [])) :
    gate.isNodeVisible context sourceLookup 1 path node = some true := by
  have hscope' : ¬ isNodeInScope gate.text node context = false := by simp [hscope]
  rw [isNodeVisible, if_neg hscope']
  by_cases hbare : sourceLookup = none ∧ node.tenant gate.text = none
  · rw [if_pos hbare]
  · obtain ⟨hfactual, hnil⟩ := h.resolve_left hbare
    rw [if_neg hbare, sourcesStillVisible, if_neg (by simp [hfactual]), if_pos hnil]

/-- What the rules accept, `is_node_visible` accepts. -/
theorem isNodeVisible_of_visible {path : List String} {node : AclNode}
    (h : gate.Visible context sourceLookup path node) :
    ∃ fuel, gate.isNodeVisible context sourceLookup fuel path node = some true := by
  induction h with
  | bare hscope hdefault htenant => exact ⟨1, isNodeVisible_of_scope hscope (.inl ⟨hdefault, htenant⟩)⟩
  | leaf hscope hfactual hnil => exact ⟨1, isNodeVisible_of_scope hscope (.inr ⟨hfactual, hnil⟩)⟩
  | derived hscope hfactual hpath hexists hchecked hsources ih =>
    rename_i path node
    by_cases hbare : sourceLookup = none ∧ node.tenant gate.text = none
    · exact ⟨1, isNodeVisible_of_scope hscope (.inl hbare)⟩
    by_cases hnil : sourceIds gate.text node = []
    · exact ⟨1, isNodeVisible_of_scope hscope (.inr ⟨hfactual, hnil⟩)⟩
    obtain ⟨first, hfirst⟩ := isNodeVisible_sources (sourceIds gate.text node) ih
    have hall : ∀ s ∈ sourceIds gate.text node, ∃ source,
        gate.lookup context sourceLookup s = .ok (some source) ∧
        (source.id = s →
          factualSourcesMatch source (gate.lookup context sourceLookup) = true) ∧
        gate.Visible context sourceLookup (path.insert node.id) source := by
      intro s hs
      obtain ⟨source, hlookup⟩ := hexists s hs
      exact ⟨source, hlookup, hchecked s hs source hlookup, hsources s hs source hlookup⟩
    obtain ⟨bound, hbound⟩ := sourcesVisible_of_visible _ hall allAllowed_nil
    refine ⟨max first bound + 1, ?_⟩
    rw [isNodeVisible, if_neg (by simp [hscope]), if_neg hbare, sourcesStillVisible,
      if_neg (by simp [hfactual]), if_neg hnil, if_neg hpath]
    exact hbound _ (le_max_right _ _) _ fun s hs source hlookup =>
      isNodeVisible_mono (le_max_left _ _) (hfirst s hs source hlookup)

/-- `is_node_visible` accepts exactly what the rules accept. -/
theorem visible_iff {path : List String} {node : AclNode} :
    gate.Visible context sourceLookup path node ↔
      ∃ fuel, gate.isNodeVisible context sourceLookup fuel path node = some true :=
  ⟨isNodeVisible_of_visible, fun ⟨fuel, h⟩ => visible_of_isNodeVisible fuel h⟩

end AuthorizationGate

/-- The sources that a node was stamped with exist, and are visible to whoever sees the node, unless
the gate leaves them unchecked: without a lookup, for a node that carries no tenant identity. The
node may have changed since, its declared sources apart. -/
theorem derived_visible (gate : AuthorizationGate) (context : AuthorizationContext)
    (sourceLookup : Option NodeLookup) (node stamped derived : AclNode)
    (sources : List DerivationSource) (derivationVersion : String)
    (hstamped : bindDerivationLineage gate.text node sources derivationVersion = .ok stamped)
    (hcomma : ∀ s ∈ sources, ',' ∉ s.id.toList)
    (hrefs : derived.namespace_.getStr "memplex_source_refs" =
      stamped.namespace_.getStr "memplex_source_refs")
    (hchecked : sourceLookup ≠ none ∨ derived.tenant gate.text ≠ none) (fuel : ℕ)
    (hvisible : gate.isNodeVisible context sourceLookup fuel [] derived = some true) :
    ∀ s ∈ sources, ∃ source, gate.lookup context sourceLookup s.id = .ok (some source) ∧
      ∃ fuel', gate.isNodeVisible context sourceLookup fuel' [] source = some true := by
  intro s hs
  have hids : s.id ∈ sourceIds gate.text derived := by
    have hmem := (mem_sourceIds_of_bind gate.text hstamped hcomma s.id).mpr ⟨s, hs, rfl⟩
    unfold sourceIds at hmem ⊢
    rw [hrefs]
    exact hmem
  cases AuthorizationGate.visible_of_isNodeVisible fuel hvisible with
  | bare _ hdefault htenant =>
    exact absurd htenant (hchecked.resolve_left fun hne => hne hdefault)
  | leaf _ _ hnil =>
    rw [hnil] at hids
    cases hids
  | derived _ _ _ hexists _ hsources =>
    obtain ⟨source, hlookup⟩ := hexists s.id hids
    have hsource := (hsources s.id hids source hlookup).anti (List.nil_subset _)
    exact ⟨source, hlookup, AuthorizationGate.isNodeVisible_of_visible hsource⟩

/-- A node of a tenant, or of none, open to the workspace `local-development`. -/
def memoryNode (id : String) (tenantId : Value) : AclNode where
  id := id
  tenantId := tenantId
  ownerSubjectId := .null
  workspaceId := .str "local-development"
  owner := .null
  visibility := .str "workspace"
  originSession := .null
  provenance := []
  namespace_ := []
  isCurrent := true
  fingerprint := ""

/-- `local_development_context`. -/
def localDevelopmentContext : AuthorizationContext where
  principal := ⟨"local", "local-development", ["local-development"]⟩
  workspaceId := "local-development"
  agentId := "memplex"
  sessionId := "local-development"
  provenance := [("trust_boundary", "local-development")]

/-- A hub without a tenant identity stays visible when the paragraph it was derived from is gone. -/
theorem hub_outlives_source :
    ∃ hub, bindDerivationLineage sampleText (memoryNode "hub" .null)
        [⟨"p", .str "workspace", []⟩] "v1" = .ok hub ∧
      AuthorizationGate.isNodeVisible ⟨sampleText, fun _ _ => .ok none⟩ localDevelopmentContext
        none 1 [] hub = some true ∧
      ¬ ∃ source, AuthorizationGate.lookup ⟨sampleText, fun _ _ => .ok none⟩
        localDevelopmentContext none "p" = .ok (some source) := by
  refine ⟨_, rfl, by decide +kernel, ?_⟩
  rintro ⟨source, hsource⟩
  cases hsource

/-- A store that holds the paragraph `p` alone. -/
def paragraphLookup : NodeLookup := fun id =>
  if id = "p" then .ok (some (memoryNode "p" (.str "local"))) else .ok none

/-- A hub of the local tenant is visible together with the paragraph it was derived from. -/
theorem hub_visible_with_source :
    ∃ source, paragraphLookup "p" = .ok (some source) ∧
      ∃ fuel, AuthorizationGate.isNodeVisible ⟨sampleText, fun _ => paragraphLookup⟩
        localDevelopmentContext none fuel [] source = some true := by
  obtain ⟨hub, hhub⟩ : ∃ hub, bindDerivationLineage sampleText (memoryNode "hub" (.str "local"))
      [⟨"p", .str "workspace", []⟩] "v1" = .ok hub := ⟨_, rfl⟩
  have hvisible : AuthorizationGate.isNodeVisible ⟨sampleText, fun _ => paragraphLookup⟩
      localDevelopmentContext none 9 [] hub = some true := by
    cases hhub
    decide +kernel
  have htenant : hub.tenant sampleText ≠ none := by
    cases hhub
    decide +kernel
  exact derived_visible ⟨sampleText, fun _ => paragraphLookup⟩ localDevelopmentContext none
    (memoryNode "hub" (.str "local")) hub hub [⟨"p", .str "workspace", []⟩] "v1" hhub
    (by decide +kernel) rfl (.inr htenant) 9 hvisible ⟨"p", .str "workspace", []⟩
    List.mem_cons_self

end Memplex
