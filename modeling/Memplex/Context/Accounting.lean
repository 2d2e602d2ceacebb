import Memplex.Context.Assembly

/-!
# Every candidate is accounted for

The loop of `assemble_context` is read as a list of verdicts, one for each id that it was given:
accepted with a fragment, over the budget with a fragment, or dropped for a reason. A round does
what its verdict says, and from that follow the text as the join of the accepted fragments, its
size, and the counts. Each fragment is the frame of a source that was resolved, allowed and valid.
-/

namespace Memplex

open Lib

/-! ## What a fragment stands for -/

namespace ContextEnv

variable (E : ContextEnv)

/-- What a fragment is: the frame of the text of a resolved source that may be shown. -/
structure Sourced (call : AssemblyCall) (lookup : String → Option ContextNode)
    (f : ContextFragment) (node : ContextNode) (text : String) : Prop where
  found : lookup f.memoryId = some node
  named : node.id = .str f.memoryId
  allowed : call.allow node = .ok true
  valid : E.nodeValid call.now node = .ok true
  body : currentNodeText node = .ok text
  framed : f.context = frameText (trustLabel node) f.memoryId text

/-- What the guards let pass: an id and a text that cannot disturb the frames. -/
structure Screened (f : ContextFragment) (text : String) : Prop where
  plain : E.plainId f.memoryId = true
  /-- Some text with the body as one of its parts has no marker. -/
  unmarked : ∃ values projected, joinText (values ++ [.str text, f.sourceType.toValue]) "\n" =
    .ok projected ∧ markerFree projected = true

end ContextEnv

theorem dropUnless_ok {p : Prop} [Decidable p] {reason : String} {u : Unit} :
    dropUnless p reason = .ok u ↔ p := by
  unfold dropUnless
  split_ifs with h <;> simp [h]

theorem orLookupError_ok {α : Type} {x : Except PyError α} {a : α} :
    orLookupError x = .ok a ↔ x = .ok a := by
  cases x <;> simp [orLookupError, Except.mapError]

theorem dropUnless_error {p : Prop} [Decidable p] {reason r : String}
    (h : dropUnless p reason = .error r) : r = reason := by
  unfold dropUnless at h
  split_ifs at h
  exact (Except.error.inj h).symm

theorem orLookupError_error {α : Type} {x : Except PyError α} {r : String}
    (h : orLookupError x = .error r) : r = "lookup_error" := by
  cases x with
  | error e => exact (Except.error.inj h).symm
  | ok a => cases h

/-- A `do` block whose steps never raise `e` never raises it. -/
theorem Except.bind_ne_error {ε α β : Type} {x : Except ε α} {f : α → Except ε β} {e : ε}
    (hx : x ≠ .error e) (hf : ∀ a, f a ≠ .error e) : (x >>= f) ≠ .error e := by
  cases x with
  | error e' => exact fun h => hx (congrArg Except.error (Except.error.inj h))
  | ok a => exact hf a

/-- A frame is no empty text. -/
theorem frameText_ne_empty (trust memoryId body : String) : frameText trust memoryId body ≠ "" := by
  intro h
  exact absurd (String.append_eq_empty_iff.mp h).2 (by decide)

namespace ContextEnv

variable {E : ContextEnv} {call : AssemblyCall} {lookup : String → Option ContextNode}

/-- What a draft has passed. -/
theorem currentDraft_ok {memoryId : String} {node : Option ContextNode} {n : ContextNode}
    {d : Draft} (h : E.currentDraft call memoryId node = .ok (n, d)) :
    node = some n ∧ n.id = .str memoryId ∧ call.allow n = .ok true ∧
      E.nodeValid call.now n = .ok true ∧ currentNodeText n = .ok d.text ∧ d.text ≠ "" ∧
      E.plainId memoryId = true ∧ d.sourceType = n.sourceType ∧
      joinText [.str d.name, .str d.domain, .str d.text, n.sourceType.toValue] "\n" =
        .ok d.projected ∧ markerFree d.projected = true := by
  unfold currentDraft at h
  cases node with
  | none => cases h
  | some node =>
    obtain ⟨_, hid, h⟩ := Except.bind_ok.mp h
    obtain ⟨allowed, hallow, h⟩ := Except.bind_ok.mp h
    obtain ⟨_, hallowed, h⟩ := Except.bind_ok.mp h
    obtain ⟨valid, hvalid, h⟩ := Except.bind_ok.mp h
    obtain ⟨_, hvalid', h⟩ := Except.bind_ok.mp h
    obtain ⟨text, htext, h⟩ := Except.bind_ok.mp h
    obtain ⟨_, hne, h⟩ := Except.bind_ok.mp h
    obtain ⟨name, -, h⟩ := Except.bind_ok.mp h
    obtain ⟨domain, -, h⟩ := Except.bind_ok.mp h
    obtain ⟨_, -, h⟩ := Except.bind_ok.mp h
    obtain ⟨projected, hprojected, h⟩ := Except.bind_ok.mp h
    obtain ⟨_, hsafe, h⟩ := Except.bind_ok.mp h
    cases Except.ok.inj h
    have hallowed := dropUnless_ok.mp hallowed
    have hvalid' := dropUnless_ok.mp hvalid'
    subst hallowed hvalid'
    exact ⟨rfl, (dropUnless_ok.mp hid).2, orLookupError_ok.mp hallow, orLookupError_ok.mp hvalid,
      orLookupError_ok.mp htext, dropUnless_ok.mp hne, (dropUnless_ok.mp hsafe).1, rfl,
      orLookupError_ok.mp hprojected, (dropUnless_ok.mp hsafe).2⟩

/-- No draft is refused for the budget. -/
theorem currentDraft_ne_budget (memoryId : String) (node : Option ContextNode) :
    E.currentDraft call memoryId node ≠ .error "budget" := by
  have hdrop : ∀ (p : Prop) [Decidable p] {r : String}, r ≠ "budget" →
      dropUnless p r ≠ .error "budget" := fun _ _ _ hr h => hr (dropUnless_error h).symm
  have hraise : ∀ {α : Type} (x : Except PyError α), orLookupError x ≠ .error "budget" :=
    fun _ h => absurd (orLookupError_error h) (by decide)
  cases node with
  | none =>
    intro h
    exact absurd (Except.error.inj h) (by decide)
  | some node =>
    -- Each line of the block drops for a reason of its own, or raises.
    refine Except.bind_ne_error (hdrop _ (by decide)) fun _ => ?_
    refine Except.bind_ne_error (hraise (call.allow node)) fun allowed => ?_
    refine Except.bind_ne_error (hdrop _ (by decide)) fun _ => ?_
    refine Except.bind_ne_error (hraise (E.nodeValid call.now node)) fun valid => ?_
    refine Except.bind_ne_error (hdrop _ (by decide)) fun _ => ?_
    refine Except.bind_ne_error (hraise (currentNodeText node)) fun text => ?_
    refine Except.bind_ne_error (hdrop _ (by decide)) fun _ => ?_
    refine Except.bind_ne_error (hraise _) fun name => ?_
    refine Except.bind_ne_error (hraise _) fun domain => ?_
    refine Except.bind_ne_error (hdrop _ (by decide)) fun _ => ?_
    refine Except.bind_ne_error (hraise _) fun projected => ?_
    refine Except.bind_ne_error (hdrop _ (by decide)) fun _ => ?_
    intro h
    cases h

/-- One wrapped result is the frame of its source, or nothing. -/
theorem filterAndWrap_single {memoryId text : String} (htext : text ≠ "")
    {registry : Option InjectionRiskRegistry}
    (h : (E.filterAndWrap [draftResult memoryId text] lookup registry).1 ≠ "") :
    ∃ node, lookup memoryId = some node ∧
      (E.filterAndWrap [draftResult memoryId text] lookup registry).1 =
        frameText (trustLabel node) memoryId text := by
  have hsummary : (draftResult memoryId text).summary = text := rfl
  have hid : (draftResult memoryId text).funcId = memoryId := rfl
  simp only [filterAndWrap, List.foldl_cons, List.foldl_nil] at h ⊢
  cases hn : lookup memoryId with
  | none => simp [wrapOne, hid, hn] at h
  | some node =>
    refine ⟨node, rfl, ?_⟩
    by_cases hv : (E.resultSuspected (draftResult memoryId text) (some node) registry).1 = true
    · simp [wrapOne, hid, hn, hv] at h
    · simp [wrapOne, hid, hn, hv, hsummary, htext]

/-- A fragment is the frame of a source that may be shown, under an id and around a text that the
guards let pass. -/
theorem currentFragment_ok {memoryId : String} {registry : Option InjectionRiskRegistry}
    {f : ContextFragment} (h : (E.currentFragment call lookup memoryId registry).1 = .ok f) :
    f.memoryId = memoryId ∧ ∃ node text, E.Sourced call lookup f node text ∧ E.Screened f text := by
  unfold currentFragment at h
  split at h
  · cases h
  · rename_i node draft hdraft
    obtain ⟨hfound, hnamed, hallowed, hvalid, hbody, hne, hplain, hsource, hprojected, hfree⟩ :=
      currentDraft_ok hdraft
    dsimp only at h
    split_ifs at h with hscan hempty
    cases Except.ok.inj h
    obtain ⟨node', hfound', hframed⟩ := filterAndWrap_single hne hempty
    cases Option.some.inj (hfound.symm.trans hfound')
    exact ⟨rfl, node, draft.text, ⟨hfound, hnamed, hallowed, hvalid, hbody, hframed⟩,
      ⟨hplain, [.str draft.name, .str draft.domain], draft.projected, hsource ▸ hprojected, hfree⟩⟩

/-- No fragment is refused for the budget before it is weighed. -/
theorem currentFragment_ne_budget (memoryId : String) (registry : Option InjectionRiskRegistry) :
    (E.currentFragment call lookup memoryId registry).1 ≠ .error "budget" := by
  intro h
  unfold currentFragment at h
  split at h
  · rename_i reason hdraft
    have hreason : reason = "budget" := Except.error.inj h
    exact currentDraft_ne_budget memoryId (lookup memoryId) (hreason ▸ hdraft)
  · dsimp only at h
    split_ifs at h
    · exact absurd (Except.error.inj h) (by decide)
    · exact absurd (Except.error.inj h) (by decide)

end ContextEnv

/-! ## Verdicts -/

/-- How an id ended. -/
inductive CandidateVerdict where
  | accepted (fragment : ContextFragment)
  | overBudget (fragment : ContextFragment)
  | dropped (reason : String)

namespace CandidateVerdict

/-- The fragment of an accepted candidate. -/
def fragment? : CandidateVerdict → Option ContextFragment
  | accepted f => some f
  | _ => none

/-- The reason under which a candidate was counted. -/
def reason? : CandidateVerdict → Option String
  | accepted _ => none
  | overBudget _ => some "budget"
  | dropped r => some r

/-- Whether the budget was the reason. -/
def isOverBudget : CandidateVerdict → Bool
  | overBudget _ => true
  | _ => false

end CandidateVerdict

/-- The fragments that a trace of verdicts accepted. -/
def acceptedOf (trace : List (String × CandidateVerdict)) : List ContextFragment :=
  trace.filterMap fun v => v.2.fragment?

/-- The text of a list of fragments. -/
def textOfFragments (fragments : List ContextFragment) : String :=
  "\n\n".intercalate (fragments.map ContextFragment.context)

namespace ContextEnv

variable (E : ContextEnv)

/-- The verdict of one round. -/
def verdict (call : AssemblyCall) (lookup : String → Option ContextNode) (s : Assembling)
    (memoryId : String) : CandidateVerdict :=
  match (E.currentFragment call lookup memoryId s.registry).1 with
  | .error reason => .dropped reason
  | .ok f =>
    if call.maxTokens < estimateContextTokens (s.propose f) then .overBudget f else .accepted f

/-- The verdicts of the loop, each beside its id. -/
def verdicts (call : AssemblyCall) (lookup : String → Option ContextNode) :
    Assembling → List String → List (String × CandidateVerdict)
  | _, [] => []
  | s, memoryId :: rest =>
    (memoryId, E.verdict call lookup s memoryId) ::
      verdicts call lookup (E.assembleStep call lookup s memoryId) rest

end ContextEnv

/-! ## The text of the fragments -/

/-- Fragments that are no empty texts have an empty text only when there are none. -/
theorem textOfFragments_eq_empty {fragments : List ContextFragment}
    (hne : ∀ f ∈ fragments, f.context ≠ "") : textOfFragments fragments = "" ↔ fragments = [] := by
  constructor
  · intro h
    cases fragments with
    | nil => rfl
    | cons f rest =>
      exfalso
      have hf := hne f List.mem_cons_self
      cases rest with
      | nil => exact hf (String.intercalate_singleton.symm.trans h)
      | cons g rest =>
        have hcons : f.context ++ "\n\n" ++ textOfFragments (g :: rest) = "" :=
          String.intercalate_cons_cons.symm.trans h
        exact hf (String.append_eq_empty_iff.mp (String.append_eq_empty_iff.mp hcons).1).1
  · rintro rfl
    rfl

/-- One more fragment follows the others after a blank line. -/
theorem textOfFragments_concat {fragments : List ContextFragment} (h : fragments ≠ [])
    (f : ContextFragment) : textOfFragments (fragments ++ [f]) =
      textOfFragments fragments ++ "\n\n" ++ f.context := by
  unfold textOfFragments
  rw [List.map_append, List.map_singleton, String.intercalate_append_of_ne_nil
    (List.map_eq_nil_iff.not.mpr h) (List.cons_ne_nil _ _), String.intercalate_singleton]

/-- The text of the loop is the text of its fragments. -/
structure Assembling.Joined (s : Assembling) : Prop where
  context : s.context = textOfFragments s.fragments
  nonempty : ∀ f ∈ s.fragments, f.context ≠ ""

/-- What is proposed is the text with the fragment at its end. -/
theorem Assembling.Joined.propose {s : Assembling} (hs : s.Joined) (f : ContextFragment) :
    s.propose f = textOfFragments (s.fragments ++ [f]) := by
  have hempty : s.context = "" ↔ s.fragments = [] := by
    rw [hs.context]
    exact textOfFragments_eq_empty hs.nonempty
  unfold Assembling.propose
  by_cases h : s.fragments = []
  · rw [if_neg (not_not.mpr (hempty.mpr h)), h]
    exact String.intercalate_singleton.symm
  · rw [if_pos fun he => h (hempty.mp he), textOfFragments_concat h, hs.context]

/-! ## The loop -/

namespace ContextEnv

variable {E : ContextEnv} {call : AssemblyCall} {lookup : String → Option ContextNode}

/-- A round does what its verdict says. -/
theorem assembleStep_eq (s : Assembling) (memoryId : String) :
    (E.assembleStep call lookup s memoryId).fragments =
        s.fragments ++ (E.verdict call lookup s memoryId).fragment?.toList ∧
      (E.assembleStep call lookup s memoryId).context =
        (E.verdict call lookup s memoryId).fragment?.elim s.context s.propose ∧
      (E.assembleStep call lookup s memoryId).dropped =
        (E.verdict call lookup s memoryId).reason?.elim s.dropped (Counter.bump s.dropped) := by
  cases hf : (E.currentFragment call lookup memoryId s.registry).1 with
  | error reason =>
    simp only [assembleStep, verdict, hf]
    exact ⟨(List.append_nil _).symm, rfl, rfl⟩
  | ok f =>
    simp only [assembleStep, verdict, hf]
    split_ifs
    · exact ⟨(List.append_nil _).symm, rfl, rfl⟩
    · exact ⟨rfl, rfl, rfl⟩

/-- An accepted candidate left the text within the budget. -/
theorem verdict_accepted {s : Assembling} {memoryId : String} {f : ContextFragment}
    (h : E.verdict call lookup s memoryId = .accepted f) :
    (E.currentFragment call lookup memoryId s.registry).1 = .ok f ∧
      (estimateContextTokens (s.propose f) : ℤ) ≤ call.maxTokens := by
  unfold verdict at h
  split at h
  · cases h
  · rename_i g hg
    split_ifs at h with hover
    cases h
    exact ⟨hg, Int.not_lt.mp hover⟩

/-- A candidate over the budget would have made the text too long. -/
theorem verdict_overBudget {s : Assembling} {memoryId : String} {f : ContextFragment}
    (h : E.verdict call lookup s memoryId = .overBudget f) :
    (E.currentFragment call lookup memoryId s.registry).1 = .ok f ∧
      call.maxTokens < estimateContextTokens (s.propose f) := by
  unfold verdict at h
  split at h
  · cases h
  · rename_i g hg
    split_ifs at h with hover
    cases h
    exact ⟨hg, hover⟩

/-- Only the budget counts as `budget`. -/
theorem verdict_budget (s : Assembling) (memoryId : String) :
    (E.verdict call lookup s memoryId).reason? = some "budget" ↔
      (E.verdict call lookup s memoryId).isOverBudget = true := by
  unfold verdict
  split
  · rename_i reason herror
    have hne : reason ≠ "budget" := fun he => currentFragment_ne_budget _ _ (he ▸ herror)
    simp [CandidateVerdict.reason?, CandidateVerdict.isOverBudget, hne]
  · split_ifs <;> simp [CandidateVerdict.reason?, CandidateVerdict.isOverBudget]

/-- What the loop keeps: a joined text within the budget. -/
structure Within (call : AssemblyCall) (s : Assembling) : Prop extends s.Joined where
  bounded : (estimateContextTokens s.context : ℤ) ≤ call.maxTokens

/-- A round keeps the text joined and within the budget. -/
theorem Within.step {s : Assembling} (hs : Within call s) (memoryId : String) :
    Within call (E.assembleStep call lookup s memoryId) := by
  obtain ⟨hfragments, hcontext, -⟩ := @assembleStep_eq E call lookup s
    memoryId
  cases hv : E.verdict call lookup s memoryId with
  | accepted f =>
    obtain ⟨hf, hle⟩ := verdict_accepted hv
    obtain ⟨-, node, text, hsource, -⟩ := currentFragment_ok hf
    rw [hv] at hfragments hcontext
    refine ⟨⟨?_, ?_⟩, ?_⟩
    · rw [hcontext, hfragments]
      exact hs.propose f
    · intro g hg
      rw [hfragments] at hg
      rcases List.mem_append.mp hg with hg | hg
      · exact hs.nonempty g hg
      · rw [List.mem_singleton.mp hg, hsource.framed]
        exact frameText_ne_empty _ _ _
    · rw [hcontext]
      exact hle
  | overBudget f =>
    rw [hv] at hfragments hcontext
    have hfragments := hfragments.trans (List.append_nil _)
    exact ⟨⟨by rw [hcontext, hfragments]; exact hs.context, by rw [hfragments]; exact hs.nonempty⟩,
      by rw [hcontext]; exact hs.bounded⟩
  | dropped reason =>
    rw [hv] at hfragments hcontext
    have hfragments := hfragments.trans (List.append_nil _)
    exact ⟨⟨by rw [hcontext, hfragments]; exact hs.context, by rw [hfragments]; exact hs.nonempty⟩,
      by rw [hcontext]; exact hs.bounded⟩

/-- The loop keeps the text joined and within the budget. -/
theorem Within.run {s : Assembling} (hs : Within call s) (ids : List String) :
    Within call (ids.foldl (E.assembleStep call lookup) s) := by
  induction ids generalizing s with
  | nil => exact hs
  | cons memoryId rest ih => exact ih (hs.step memoryId)

/-- The reasons that a trace of verdicts counted. -/
def reasonsOf (trace : List (String × CandidateVerdict)) : List String :=
  trace.filterMap fun v => v.2.reason?

/-- Every verdict is a fragment or a reason. -/
theorem length_trace (trace : List (String × CandidateVerdict)) :
    trace.length = (acceptedOf trace).length + (reasonsOf trace).length := by
  induction trace with
  | nil => rfl
  | cons v rest ih =>
    obtain ⟨memoryId, verdict⟩ := v
    cases verdict <;>
      simp only [acceptedOf, reasonsOf, List.filterMap_cons, CandidateVerdict.fragment?,
        CandidateVerdict.reason?, List.length_cons] at ih ⊢ <;> omega

/-- The trace has the ids of the loop. -/
theorem map_fst_verdicts (s : Assembling) (ids : List String) :
    (E.verdicts call lookup s ids).map Prod.fst = ids := by
  induction ids generalizing s with
  | nil => rfl
  | cons memoryId rest ih => exact congrArg (memoryId :: ·) (ih _)

/-- The loop's fragments are those that its trace accepted. -/
theorem run_fragments (s : Assembling) (ids : List String) :
    (ids.foldl (E.assembleStep call lookup) s).fragments =
      s.fragments ++ acceptedOf (E.verdicts call lookup s ids) := by
  induction ids generalizing s with
  | nil => exact (List.append_nil _).symm
  | cons memoryId rest ih =>
    rw [List.foldl_cons, ih, (assembleStep_eq s memoryId).1, List.append_assoc]
    cases hv : E.verdict call lookup s memoryId <;>
      simp [verdicts, acceptedOf, hv, CandidateVerdict.fragment?]

/-- The loop counts the reasons of its trace. -/
theorem run_dropped (s : Assembling) (ids : List String) :
    (ids.foldl (E.assembleStep call lookup) s).dropped =
      (reasonsOf (E.verdicts call lookup s ids)).foldl Counter.bump s.dropped := by
  induction ids generalizing s with
  | nil => rfl
  | cons memoryId rest ih =>
    rw [List.foldl_cons, ih, (assembleStep_eq s memoryId).2.2]
    cases hv : E.verdict call lookup s memoryId <;>
      simp [verdicts, reasonsOf, hv, CandidateVerdict.reason?]

/-- What was refused for the budget is what was over it. -/
theorem count_budget (s : Assembling) (ids : List String) :
    (reasonsOf (E.verdicts call lookup s ids)).count "budget" =
      (E.verdicts call lookup s ids).countP fun v => v.2.isOverBudget := by
  induction ids generalizing s with
  | nil => rfl
  | cons memoryId rest ih =>
    have hbudget := @verdict_budget E call lookup s memoryId
    have hrest := ih (E.assembleStep call lookup s memoryId)
    rw [verdicts, List.countP_cons, ← hrest]
    cases hv : E.verdict call lookup s memoryId with
    | accepted f => simp [reasonsOf, CandidateVerdict.reason?, CandidateVerdict.isOverBudget]
    | overBudget f => simp [reasonsOf, CandidateVerdict.reason?, CandidateVerdict.isOverBudget]
    | dropped reason =>
      rw [hv] at hbudget
      have hne : reason ≠ "budget" := fun he => Bool.noConfusion (hbudget.mp (congrArg some he))
      simp [reasonsOf, CandidateVerdict.reason?, CandidateVerdict.isOverBudget, hne]

/-- What stands in the trace of a loop: each accepted or refused fragment is the one of its id. -/
theorem sourced_of_trace {s : Assembling} {ids : List String} {memoryId : String}
    {v : CandidateVerdict} {f : ContextFragment} (hv : v = .accepted f ∨ v = .overBudget f)
    (hmem : (memoryId, v) ∈ E.verdicts call lookup s ids) :
    f.memoryId = memoryId ∧ ∃ node text, E.Sourced call lookup f node text ∧ E.Screened f text := by
  induction ids generalizing s with
  | nil => exact absurd hmem List.not_mem_nil
  | cons first rest ih =>
    rcases List.mem_cons.mp hmem with heq | hmem
    · obtain ⟨rfl, hverdict⟩ := Prod.mk.inj heq
      rcases hv with rfl | rfl
      · exact currentFragment_ok (verdict_accepted hverdict.symm).1
      · exact currentFragment_ok (verdict_overBudget hverdict.symm).1
    · exact ih hmem

/-- A fragment of the trace is one that was accepted. -/
theorem mem_acceptedOf {trace : List (String × CandidateVerdict)} {f : ContextFragment} :
    f ∈ acceptedOf trace ↔ ∃ memoryId, (memoryId, CandidateVerdict.accepted f) ∈ trace := by
  unfold acceptedOf
  rw [List.mem_filterMap]
  constructor
  · rintro ⟨⟨memoryId, v⟩, hmem, hf⟩
    cases v with
    | accepted g =>
      cases Option.some.inj hf
      exact ⟨memoryId, hmem⟩
    | overBudget g => cases hf
    | dropped reason => cases hf
  · rintro ⟨memoryId, hmem⟩
    exact ⟨_, hmem, rfl⟩

/-- The fragments of a loop that began with none are frames of sources that may be shown. -/
theorem run_sourced {s : Assembling} (hs : s.fragments = []) {ids : List String}
    {f : ContextFragment} (hf : f ∈ (ids.foldl (E.assembleStep call lookup) s).fragments) :
    ∃ node text, E.Sourced call lookup f node text ∧ E.Screened f text := by
  rw [run_fragments, hs, List.nil_append] at hf
  obtain ⟨memoryId, hmem⟩ := mem_acceptedOf.mp hf
  exact (sourced_of_trace (.inl rfl) hmem).2

/-- The ids of the fragments are ids of the loop, in its order. -/
theorem ids_sublist (s : Assembling) (ids : List String) :
    ((acceptedOf (E.verdicts call lookup s ids)).map ContextFragment.memoryId).Sublist ids := by
  induction ids generalizing s with
  | nil => exact List.Sublist.refl _
  | cons memoryId rest ih =>
    have hrest := ih (E.assembleStep call lookup s memoryId)
    cases hv : E.verdict call lookup s memoryId with
    | accepted f =>
      have hid : f.memoryId = memoryId := (currentFragment_ok (verdict_accepted hv).1).1
      simpa [verdicts, acceptedOf, hv, CandidateVerdict.fragment?, hid] using hrest
    | overBudget f =>
      simpa [verdicts, acceptedOf, hv, CandidateVerdict.fragment?] using hrest.cons memoryId
    | dropped reason =>
      simpa [verdicts, acceptedOf, hv, CandidateVerdict.fragment?] using hrest.cons memoryId

/-- A fragment over the budget would have made the text built so far too long. -/
theorem exceeds_of_trace {s : Assembling} (hs : Within call s) {ids : List String}
    {front back : List (String × CandidateVerdict)} {memoryId : String} {f : ContextFragment}
    (h : E.verdicts call lookup s ids = front ++ (memoryId, .overBudget f) :: back) :
    call.maxTokens <
      estimateContextTokens (textOfFragments (s.fragments ++ acceptedOf front ++ [f])) := by
  induction ids generalizing s front with
  | nil => exact absurd (h ▸ List.mem_append_right _ List.mem_cons_self) List.not_mem_nil
  | cons first rest ih =>
    cases front with
    | nil =>
      obtain ⟨hfirst, -⟩ := List.cons.inj h
      have hover := (verdict_overBudget (Prod.mk.inj hfirst).2).2
      rw [hs.propose] at hover
      simpa [acceptedOf] using hover
    | cons v front =>
      obtain ⟨hfirst, hrest⟩ := List.cons.inj h
      have hover := ih (hs.step first) hrest
      subst hfirst
      rw [(assembleStep_eq s first).1] at hover
      cases hv : E.verdict call lookup s first <;>
        simpa [acceptedOf, hv, CandidateVerdict.fragment?] using hover

end ContextEnv

/-! ## The candidates -/

/-- What the first pass does with candidates: it takes some, in their order and each once, and
counts the others. -/
structure Picked (acc : List String × DropCounts) (candidates : List ContextCandidate)
    (out : List String × DropCounts) : Prop where
  ordered : ∃ taken, out.1 = acc.1 ++ taken ∧
    taken.Sublist (candidates.map ContextCandidate.memoryId)
  nodup : acc.1.Nodup → out.1.Nodup
  counted : Counter.total out.2 + out.1.length =
    Counter.total acc.2 + acc.1.length + candidates.length
  budget : Counter.count out.2 "budget" = Counter.count acc.2 "budget"

/-- One candidate is taken or counted. -/
theorem picked_step (acc : List String × DropCounts) (candidate : ContextCandidate) :
    Picked acc [candidate] (candidateStep acc candidate) := by
  unfold candidateStep
  split_ifs with hseen hlimit
  · exact ⟨⟨[], (List.append_nil _).symm, List.nil_sublist _⟩, id,
      by rw [Counter.total_bump]; simp only [List.length_singleton]; omega,
      by rw [Counter.count_bump]; simp⟩
  · exact ⟨⟨[], (List.append_nil _).symm, List.nil_sublist _⟩, id,
      by rw [Counter.total_bump]; simp only [List.length_singleton]; omega,
      by rw [Counter.count_bump]; simp⟩
  · refine ⟨⟨[candidate.memoryId], rfl, List.Sublist.refl _⟩, fun hd => ?_, ?_, rfl⟩
    · exact List.nodup_append.mpr ⟨hd, List.nodup_singleton _, by
        rintro x hx y hy rfl
        exact hseen (List.mem_singleton.mp hy ▸ hx)⟩
    · simp only [List.length_append, List.length_singleton]
      omega

/-- The first pass takes or counts every candidate. -/
theorem picked_foldl (acc : List String × DropCounts) (candidates : List ContextCandidate) :
    Picked acc candidates (candidates.foldl candidateStep acc) := by
  induction candidates generalizing acc with
  | nil => exact ⟨⟨[], (List.append_nil _).symm, List.nil_sublist _⟩, id, rfl, rfl⟩
  | cons candidate rest ih =>
    have hfirst := picked_step acc candidate
    have hrest := ih (candidateStep acc candidate)
    obtain ⟨one, hone, hsub⟩ := hfirst.ordered
    obtain ⟨taken, htaken, hsub'⟩ := hrest.ordered
    refine ⟨⟨one ++ taken, ?_, hsub.append hsub'⟩, fun hd => hrest.nodup (hfirst.nodup hd), ?_,
      hrest.budget.trans hfirst.budget⟩
    · rw [List.foldl_cons, htaken, hone, List.append_assoc]
    · have hcounted := hrest.counted
      rw [hfirst.counted] at hcounted
      simp only [List.foldl_cons, List.length_cons, List.length_nil] at hcounted ⊢
      omega

/-- The bumps of a counter raise its total by their number. -/
theorem total_foldl_bump (t : DropCounts) (reasons : List String) :
    Counter.total (reasons.foldl Counter.bump t) = Counter.total t + reasons.length := by
  induction reasons generalizing t with
  | nil => rfl
  | cons reason rest ih =>
    rw [List.foldl_cons, ih, Counter.total_bump, List.length_cons]
    omega

/-- The bumps of a counter raise a count by its occurrences. -/
theorem count_foldl_bump (t : DropCounts) (reasons : List String) (r : String) :
    Counter.count (reasons.foldl Counter.bump t) r = Counter.count t r + reasons.count r := by
  induction reasons generalizing t with
  | nil => rfl
  | cons reason rest ih =>
    rw [List.foldl_cons, ih, Counter.count_bump, List.count_cons]
    by_cases h : reason = r
    · simp [h]
      omega
    · simp [h]

/-! ## The assembly -/

namespace ContextEnv

variable (E : ContextEnv)

/-- The verdicts behind an assembly: one for each id, with the fragments among them, and each
refusal for the budget one of a fragment that did not fit after those before it. -/
structure Traced (call : AssemblyCall) (lookup : String → Option ContextNode) (ids : List String)
    (a : ContextAssembly) (trace : List (String × CandidateVerdict)) : Prop where
  ids : trace.map Prod.fst = ids
  fragments : a.fragments = acceptedOf trace
  refused : Counter.count a.dropped "budget" = trace.countP fun v => v.2.isOverBudget
  exceeds : ∀ front memoryId f back, trace = front ++ (memoryId, .overBudget f) :: back →
    f.memoryId = memoryId ∧ (∃ node text, E.Sourced call lookup f node text) ∧
      call.maxTokens < estimateContextTokens (textOfFragments (acceptedOf front ++ [f]))

/-- An assembly that is sound and accounted for. -/
structure Accounted (call : AssemblyCall) (candidates : List ContextCandidate)
    (a : ContextAssembly) : Prop where
  /-- The text is within the budget, by the module's own estimate. -/
  within : (estimateContextTokens a.context : ℤ) ≤ call.maxTokens
  /-- The reported size is the estimate. -/
  used : a.tokensUsed = estimateContextTokens a.context
  /-- The text is the fragments one after another. -/
  joined : a.context = textOfFragments a.fragments
  /-- The reported ids are those of the fragments. -/
  reported : a.memoryIds = a.fragments.map ContextFragment.memoryId
  /-- No id is there twice. -/
  distinct : a.memoryIds.Nodup
  /-- The ids stand in the order of the candidates. -/
  ordered : a.memoryIds.Sublist (candidates.map ContextCandidate.memoryId)
  /-- Every candidate is a fragment or counted once. -/
  counted : candidates.length = a.fragments.length + Counter.total a.dropped
  /-- The fragments are frames of resolved, allowed and valid sources, and every refusal for the
  budget was one of a fragment that did not fit. -/
  traced : ∃ lookup trace,
    ((candidateIds candidates).1 ≠ [] → call.resolve (candidateIds candidates).1 = .ok lookup) ∧
    (∀ f ∈ a.fragments, ∃ node text, E.Sourced call lookup f node text) ∧
    E.Traced call lookup (candidateIds candidates).1 a trace

/-- How a call ends: in an error for a negative limit, in the error of the resolver, or in an
assembly of which `P` holds. -/
inductive Assembles (call : AssemblyCall) (candidates : List ContextCandidate)
    (registry : Option InjectionRiskRegistry) (P : ContextAssembly → Prop) : Prop where
  | negative (hneg : call.maxTokens < 0)
      (h : E.assembleContext call candidates registry =
        .error (valueError "max_tokens must be non-negative"))
  | unresolved (e : PyError) (hresolve : call.resolve (candidateIds candidates).1 = .error e)
      (h : E.assembleContext call candidates registry = .error e)
  | assembled (a : ContextAssembly) (registry' : Option InjectionRiskRegistry)
      (h : E.assembleContext call candidates registry = .ok (a, registry')) (hP : P a)

/-- The loop's result, as the assembly returns it. -/
def assemblyOf (s : Assembling) : ContextAssembly :=
  ⟨s.context, s.fragments.map ContextFragment.memoryId, estimateContextTokens s.context,
    Counter.count s.dropped "budget" ≠ 0 || Counter.count s.dropped "candidate_limit" ≠ 0,
    s.dropped, s.fragments⟩

variable {E}

/-- A call ends as it must when the loop, over the resolved sources, ends in what `P` asks. -/
theorem assembles_of_loop {call : AssemblyCall} {candidates : List ContextCandidate}
    {registry : Option InjectionRiskRegistry} {P : ContextAssembly → Prop}
    (h : 0 ≤ call.maxTokens → ∀ lookup,
      ((candidateIds candidates).1 ≠ [] → call.resolve (candidateIds candidates).1 = .ok lookup) →
      P (assemblyOf ((candidateIds candidates).1.foldl (E.assembleStep call lookup)
        ⟨"", [], (candidateIds candidates).2, registry⟩))) :
    E.Assembles call candidates registry P := by
  by_cases hneg : call.maxTokens < 0
  · refine .negative hneg ?_
    unfold assembleContext require
    rw [if_neg (Int.not_le.mpr hneg)]
    rfl
  · have hle := Int.not_lt.mp hneg
    by_cases hids : (candidateIds candidates).1 = []
    · refine .assembled _ (((candidateIds candidates).1.foldl
        (E.assembleStep call fun _ => none)
          ⟨"", [], (candidateIds candidates).2, registry⟩).registry) ?_
        (h hle (fun _ => none) fun hne => absurd hids hne)
      unfold assembleContext require
      rw [if_pos hle]
      simp only [hids, if_true]
      rfl
    · cases hres : call.resolve (candidateIds candidates).1 with
      | error e =>
        refine .unresolved e hres ?_
        unfold assembleContext require
        rw [if_pos hle]
        simp only [hids, if_false, hres]
        rfl
      | ok lookup =>
        refine .assembled _ (((candidateIds candidates).1.foldl (E.assembleStep call lookup)
          ⟨"", [], (candidateIds candidates).2, registry⟩).registry) ?_
          (h hle lookup fun _ => hres)
        unfold assembleContext require
        rw [if_pos hle]
        simp only [hids, if_false, hres]
        rfl

/-- **Context assembly is sound and accounted for**: for any candidates, any verdicts of the
authorization and any limit, the call refuses a negative limit, passes the error of its resolver
on, or returns an accounted assembly. -/
theorem assembleContext_accounted (E : ContextEnv) (call : AssemblyCall)
    (candidates : List ContextCandidate) (registry : Option InjectionRiskRegistry) :
    E.Assembles call candidates registry (E.Accounted call candidates) := by
  refine assembles_of_loop fun hle lookup hresolve => ?_
  have hpicked := picked_foldl ([], Counter.zero) candidates
  obtain ⟨taken, htaken, hsub⟩ := hpicked.ordered
  set ids := (candidateIds candidates).1 with hids
  set start : Assembling := ⟨"", [], (candidateIds candidates).2, registry⟩ with hstart
  have hwithin : Within call start := ⟨⟨rfl, fun f hf => absurd hf List.not_mem_nil⟩, hle⟩
  have hrun := @Within.run E call lookup start hwithin ids
  have hfragments := @run_fragments E call lookup start ids
  have hdropped := @run_dropped E call lookup start ids
  have hids_sub : ids.Sublist (candidates.map ContextCandidate.memoryId) := by
    have heq : ids = taken := htaken
    exact heq ▸ hsub
  have hnodup : ids.Nodup := hpicked.nodup List.nodup_nil
  have hsublist := @ids_sublist E call lookup start ids
  have hnil : start.fragments = [] := rfl
  rw [hnil, List.nil_append] at hfragments
  refine ⟨hrun.bounded, rfl, hrun.context, rfl, ?_, ?_, ?_,
    lookup, E.verdicts call lookup start ids, hresolve, ?_, ?_⟩
  · show (List.map _ _).Nodup
    rw [hfragments]
    exact hnodup.sublist hsublist
  · show (List.map _ _).Sublist _
    rw [hfragments]
    exact hsublist.trans hids_sub
  · -- The trace has one verdict for each id, and the first pass counted the rest.
    have hcounted : Counter.total start.dropped + ids.length = candidates.length := by
      have hcounted := hpicked.counted
      simp only [Counter.total_zero, List.length_nil, Nat.zero_add] at hcounted
      exact hcounted
    have hlength := length_trace (E.verdicts call lookup start ids)
    have hmap : (E.verdicts call lookup start ids).length = ids.length := by
      rw [← List.length_map Prod.fst, map_fst_verdicts]
    show candidates.length = (Assembling.fragments _).length + Counter.total (Assembling.dropped _)
    rw [hfragments, hdropped, total_foldl_bump]
    omega
  · intro f hf
    obtain ⟨node, text, hsource, -⟩ := run_sourced hnil hf
    exact ⟨node, text, hsource⟩
  · refine ⟨map_fst_verdicts start ids, hfragments, ?_, ?_⟩
    · have hzero : Counter.count start.dropped "budget" = 0 := hpicked.budget
      show Counter.count (Assembling.dropped _) _ = _
      rw [hdropped, count_foldl_bump, hzero, Nat.zero_add, count_budget]
    · intro front memoryId f back htrace
      have hmem : (memoryId, CandidateVerdict.overBudget f) ∈ E.verdicts call lookup start ids :=
        htrace ▸ List.mem_append_right _ List.mem_cons_self
      obtain ⟨hid, node, text, hsource, -⟩ := sourced_of_trace (.inr rfl) hmem
      refine ⟨hid, ⟨node, text, hsource⟩, ?_⟩
      have hexceeds := exceeds_of_trace hwithin htrace
      rwa [hnil, List.nil_append] at hexceeds

end ContextEnv

end Memplex
