import Memplex.Auth.Snapshot
import Mathlib.Data.Finset.Card

/-!
# The evaluation of a lineage ends

The loop of `_SnapshotAuthorization.check` keeps no bound of its own. It ends because a node goes on
the stack only while its id has no verdict, and stays entered only while its id was not active: an
id is settled when it has a verdict or is active, what is settled stays so, and every node that is
entered with sources settles one id more. The rules are stated for the loop from the point where a
node goes on the stack to the point where it has been finished (`Finishes`).
-/

namespace Memplex

open Lib

namespace Walk

/-- An id has a verdict or is active. -/
def Settled (w : Walk) (id : String) : Prop := w.verdicts.get? id ≠ none ∨ id ∈ w.active

instance (w : Walk) (id : String) : Decidable (w.Settled id) :=
  inferInstanceAs (Decidable (_ ∨ _))

/-- How many of the ids are not settled. -/
def unsettled (ids : Finset String) (w : Walk) : ℕ := (ids.filter fun i => ¬ w.Settled i).card

/-- What was settled stays so. -/
def Later (w w' : Walk) : Prop := ∀ i, w.Settled i → w'.Settled i

theorem Later.refl (w : Walk) : w.Later w := fun _ h => h

theorem Later.trans {w w' w'' : Walk} (h : w.Later w') (h' : w'.Later w'') : w.Later w'' :=
  fun i hi => h' i (h i hi)

theorem Later.unsettled_le {w w' : Walk} (h : w.Later w') (ids : Finset String) :
    w'.unsettled ids ≤ w.unsettled ids := by
  refine Finset.card_le_card fun i hi => ?_
  obtain ⟨hmem, hopen⟩ := Finset.mem_filter.mp hi
  exact Finset.mem_filter.mpr ⟨hmem, fun hsettled => hopen (h i hsettled)⟩

/-- One id more that is settled makes the unsettled ones fewer. -/
theorem Later.unsettled_lt {w w' : Walk} (h : w.Later w') {ids : Finset String} {i : String}
    (hmem : i ∈ ids) (hopen : ¬ w.Settled i) (hsettled : w'.Settled i) :
    w'.unsettled ids < w.unsettled ids := by
  refine Finset.card_lt_card ((Finset.ssubset_iff_of_subset fun j hj => ?_).mpr ⟨i, ?_, ?_⟩)
  · obtain ⟨hmem', hopen'⟩ := Finset.mem_filter.mp hj
    exact Finset.mem_filter.mpr ⟨hmem', fun hs => hopen' (h j hs)⟩
  · exact Finset.mem_filter.mpr ⟨hmem, hopen⟩
  · exact fun hin => (Finset.mem_filter.mp hin).2 hsettled

end Walk

namespace SnapshotAuthorization

variable (p : SnapshotAuthorization)

/-- The loop ends from a state, with some number of rounds, in a result of a kind. -/
def Ends (root : String) (P : Verdict × Memo → Prop) (w : Walk) : Prop :=
  ∃ fuel result, p.run root fuel w = some result ∧ P result

/-- The loop ends from a state. -/
def Halts (root : String) (w : Walk) : Prop := p.Ends root (fun _ => True) w

/-- The loop ends from every state that follows `w` in which `m` has been finished and `rest` is
left on the stack. -/
def Finishes (root : String) (m : AclNode) (rest : List Frame) (w : Walk) : Prop :=
  ∀ w', w'.stack = rest → w'.verdicts.get? m.id ≠ none → w.Later w' → p.Halts root w'

variable {p}

theorem Ends.of_goes {root : String} {P : Verdict × Memo → Prop} {w w' : Walk} {top : Frame}
    {rest : List Frame} (h : p.Ends root P w') (hstack : w.stack = top :: rest)
    (hstep : p.step top rest w = .goes w') : p.Ends root P w := by
  obtain ⟨fuel, result, hrun, hresult⟩ := h
  refine ⟨fuel + 1, result, ?_, hresult⟩
  rw [run, hstack]
  simpa only [hstep] using hrun

theorem Ends.of_returns {root : String} {P : Verdict × Memo → Prop} {w : Walk} {top : Frame}
    {rest : List Frame} (verdict : Verdict) (memo : Memo) (h : P (verdict, memo))
    (hstack : w.stack = top :: rest) (hstep : p.step top rest w = .returns verdict memo) :
    p.Ends root P w := by
  refine ⟨1, (verdict, memo), ?_, h⟩
  rw [run, hstack]
  simp only [hstep]

/-- The loop has ended when the stack is empty and the root has a verdict. -/
theorem Ends.of_empty {root : String} {P : Verdict × Memo → Prop} {w : Walk} {verdict : Verdict}
    (h : P (verdict, w.verdicts)) (hstack : w.stack = [])
    (hverdict : w.verdicts.get? root = some verdict) : p.Ends root P w := by
  refine ⟨1, (verdict, w.verdicts), ?_, h⟩
  simp only [run, hstack, hverdict, Option.map_some]

/-- A completed id is settled, and what was settled stays so. -/
theorem later_complete (current : AclNode) (rest : List Frame) (w : Walk) (verdict : Verdict) :
    w.Later (complete current rest w verdict) := by
  intro i hi
  by_cases heq : current.id = i
  · exact .inl (by simp [complete, heq])
  · rcases hi with hverdict | hactive
    · exact .inl (by simpa [complete, heq] using hverdict)
    · exact .inr (List.mem_filter.mpr ⟨hactive, by simpa using Ne.symm heq⟩)

/-- A completed node is finished. -/
theorem Finishes.complete {root : String} {m : AclNode} {rest : List Frame} {w w' : Walk}
    (h : p.Finishes root m rest w) (hlater : w.Later w') (verdict : Verdict) :
    p.Halts root (complete m rest w' verdict) :=
  h _ rfl (by simp [SnapshotAuthorization.complete])
    (hlater.trans (later_complete m rest w' verdict))

/-- An entered node whose next source has a verdict goes on with the source after it, or is
finished. -/
theorem halts_of_verdict {root : String} {m : AclNode} {sources : List String} {position : ℕ}
    {s : String} {rest : List Frame} {w w' : Walk} (hfinish : p.Finishes root m rest w)
    (hlater : w.Later w') (hstack : w'.stack = ⟨m, some sources, position⟩ :: rest)
    (hget : sources[position]? = some s) (hverdict : w'.verdicts.get? s ≠ none)
    (hnext : p.Halts root { w' with stack := ⟨m, some sources, position + 1⟩ :: rest }) :
    p.Halts root w' := by
  obtain ⟨⟨allowed, reason⟩, hv⟩ := Option.ne_none_iff_exists'.mp hverdict
  cases allowed with
  | true =>
    refine Ends.of_goes hnext hstack ?_
    simp only [step, resume, hget, hv]
  | false =>
    refine Ends.of_goes (hfinish.complete hlater (false, reason)) hstack ?_
    simp only [step, resume, hget, hv]

/-- An entered node whose next source has no verdict gets one for it, when the loop ends from that
source: then the rule above applies. -/
theorem halts_of_pending {root : String} {m : AclNode} {sources : List String} {position : ℕ}
    {s : String} {rest : List Frame} {w w' : Walk} (hfinish : p.Finishes root m rest w)
    (hlater : w.Later w') (hstack : w'.stack = ⟨m, some sources, position⟩ :: rest)
    (hget : sources[position]? = some s) (hverdict : w'.verdicts.get? s = none)
    (hpush : ∀ source, p.lookup s = .ok (some source) → (p.legacySourcePath ≠ none → source.id = s) →
      p.Halts root { w' with stack := ⟨source, none, 0⟩ :: w'.stack })
    (hmissing : ∀ reason, p.Halts root { w' with verdicts := w'.verdicts.set s (false, reason) }) :
    p.Halts root w' := by
  by_cases hactive : s ∈ w'.active ∧ p.legacySourcePath = none
  · refine Ends.of_goes (hfinish.complete hlater (false, "denied")) hstack ?_
    simp only [step, resume, hget, hverdict, if_pos hactive]
  cases hlookup : p.lookup s with
  | error e =>
    refine Ends.of_goes (hfinish.complete hlater (false, "lookup_error")) hstack ?_
    simp only [step, resume, hget, hverdict, if_neg hactive, hlookup]
  | ok found =>
    cases found with
    | none =>
      let reason := if p.lookupFailure = "" then "missing" else p.lookupFailure
      refine Ends.of_goes (hmissing reason) hstack ?_
      simp only [step, resume, hget, hverdict, if_neg hactive, hlookup]
      rfl
    | some source =>
      by_cases halias : p.legacySourcePath ≠ none ∧ source.id ≠ s
      · refine Ends.of_returns (false, "legacy_alias") w'.verdicts trivial hstack ?_
        simp only [step, resume, hget, hverdict, if_neg hactive, hlookup, if_pos halias]
      · refine Ends.of_goes (hpush source hlookup fun hpath => ?_) hstack ?_
        · by_contra hne
          exact halias ⟨hpath, hne⟩
        · simp only [step, resume, hget, hverdict, if_neg hactive, hlookup, if_neg halias]

/-- The loop ends from an entered node, when it ends from each source that it puts on the stack. -/
theorem halts_of_entered {root : String} {m : AclNode} {sources : List String}
    {rest : List Frame} {w : Walk} (hnames : p.NamesNodes) (hfinish : p.Finishes root m rest w)
    (hpush : ∀ w' source, w.Later w' → p.lookup source.id = .ok (some source) →
      w'.verdicts.get? source.id = none → p.Finishes root source w'.stack w' →
      p.Halts root { w' with stack := ⟨source, none, 0⟩ :: w'.stack })
    (left : ℕ) {position : ℕ} {w' : Walk} (hlater : w.Later w')
    (hleft : sources.length - position ≤ left)
    (hstack : w'.stack = ⟨m, some sources, position⟩ :: rest) : p.Halts root w' := by
  induction left generalizing position w' with
  | zero =>
    have hend : sources[position]? = none := List.getElem?_eq_none_iff.mpr (by omega)
    refine Ends.of_goes (hfinish.complete hlater (true, "")) hstack ?_
    simp only [step, resume, hend]
  | succ left ih =>
    cases hget : sources[position]? with
    | none =>
      refine Ends.of_goes (hfinish.complete hlater (true, "")) hstack ?_
      simp only [step, resume, hget]
    | some s =>
      -- once the source has a verdict, what is left is one source less
      have hsettled : ∀ w'', w.Later w'' → w''.stack = ⟨m, some sources, position⟩ :: rest →
          w''.verdicts.get? s ≠ none → p.Halts root w'' := by
        intro w'' hlater'' hstack'' hverdict''
        refine halts_of_verdict hfinish hlater'' hstack'' hget hverdict'' ?_
        have hleft' : sources.length - (position + 1) ≤ left := by omega
        exact ih hlater'' hleft' rfl
      by_cases hverdict : w'.verdicts.get? s = none
      · refine halts_of_pending hfinish hlater hstack hget hverdict ?_ fun reason => ?_
        · intro source hlookup hid
          have hname : source.id = s := by
            by_cases hpath : p.legacySourcePath = none
            · exact hnames.named hpath s source hlookup
            · exact hid hpath
          subst hname
          refine hpush w' source hlater hlookup hverdict fun w'' hrest hv hlater'' => ?_
          exact hsettled w'' (hlater.trans hlater'') (hrest.trans hstack) hv
        · refine hsettled _ (hlater.trans fun i hi => ?_) hstack (by simp)
          rcases hi with hv | hactive
          · by_cases heq : s = i
            · exact .inl (by simp [heq])
            · exact .inl (by simpa [heq] using hv)
          · exact .inr hactive
      · exact hsettled w' hlater hstack hverdict

/-- The state in which a node has been entered. -/
def entered (m : AclNode) (sources : List String) (rest : List Frame) (w : Walk) : Walk :=
  ⟨⟨m, some sources, 0⟩ :: rest, w.active.insert m.id, w.verdicts⟩

theorem later_entered (m : AclNode) (sources : List String) (rest : List Frame) (w : Walk) :
    w.Later (entered m sources rest w) := fun _ hi =>
  hi.imp_right fun hactive => List.mem_insert_of_mem hactive

/-- A round that enters a node goes on as the round at the entered node does. -/
theorem Ends.of_entered {root : String} {P : Verdict × Memo → Prop} {m : AclNode}
    {sources : List String} {rest : List Frame} {w : Walk}
    (h : p.Ends root P (entered m sources rest w)) (hstack : w.stack = ⟨m, none, 0⟩ :: rest)
    (henter : p.enter m w.active = .ok sources) : p.Ends root P w := by
  obtain ⟨fuel, result, hrun, hresult⟩ := h
  have hstep : p.step ⟨m, none, 0⟩ rest w =
      p.step ⟨m, some sources, 0⟩ rest (entered m sources rest w) := by
    simp only [step, henter]
    rfl
  cases fuel with
  | zero => simp [run] at hrun
  | succ fuel =>
    refine ⟨fuel + 1, result, ?_, hresult⟩
    rw [← hrun, run, run, hstack]
    simp only [hstep]
    rfl

/-- A node that is entered with sources was not active. -/
theorem not_active_of_enter {m : AclNode} {active : List String} {sources : List String}
    (h : p.enter m active = .ok sources) (hne : sources ≠ []) : m.id ∉ active := by
  unfold enter at h
  split_ifs at h with hscope hfactual hactive
  cases Except.ok.inj h
  exact fun hin => hactive ⟨hne, hin⟩

/-- From a node that has just been put on the stack, the loop ends when it ends from every state in
which that node has been finished: by induction on the number of unsettled ids. -/
theorem halts_of_visit {root : String} {ids : Finset String} (hnames : p.NamesNodes)
    (hids : ∀ id node, p.lookup id = .ok (some node) → node.id ∈ ids) (n : ℕ) {m : AclNode}
    {rest : List Frame} {w : Walk} (hn : w.unsettled ids = n) (hm : m.id ∈ ids)
    (hstack : w.stack = ⟨m, none, 0⟩ :: rest) (hfresh : w.verdicts.get? m.id = none)
    (hfinish : p.Finishes root m rest w) : p.Halts root w := by
  induction n using Nat.strong_induction_on generalizing m rest w with
  | _ n ih =>
    cases henter : p.enter m w.active with
    | error verdict =>
      refine Ends.of_goes (hfinish.complete (.refl w) verdict) hstack ?_
      simp only [step, henter]
    | ok sources =>
      have hlater := later_entered m sources rest w
      refine Ends.of_entered ?_ hstack henter
      by_cases hnil : sources = []
      · refine Ends.of_goes (hfinish.complete hlater (true, "")) rfl ?_
        simp only [step, resume, hnil, List.getElem?_nil]
      · have hopen : ¬ w.Settled m.id := by
          rintro (hverdict | hactive)
          · exact hverdict hfresh
          · exact not_active_of_enter henter hnil hactive
        have hfewer : (entered m sources rest w).unsettled ids < n := by
          rw [← hn]
          exact hlater.unsettled_lt hm hopen (.inr List.mem_insert_self)
        have hfinish' : p.Finishes root m rest (entered m sources rest w) :=
          fun w' hrest hv hl => hfinish w' hrest hv (hlater.trans hl)
        refine halts_of_entered hnames hfinish' ?_ sources.length (.refl _) (by omega) rfl
        intro w' source hlater' hlookup hverdict hdone
        have hle := hlater'.unsettled_le ids
        exact ih (w'.unsettled ids) (lt_of_le_of_lt hle hfewer) rfl (hids _ source hlookup) rfl
          hverdict hdone

/-- With finitely many ids to look at, `check` ends. -/
theorem check_halts {ids : Finset String} (hnames : p.NamesNodes)
    (hids : ∀ id node, p.lookup id = .ok (some node) → node.id ∈ ids) (memo : Memo)
    {node : AclNode} (hnode : node.id ∈ ids) :
    ∃ fuel verdict memo', p.check fuel memo node = some (verdict, memo') := by
  unfold check
  cases hget : memo.get? node.id with
  | some verdict => exact ⟨0, verdict, memo, rfl⟩
  | none =>
    have hhalts : p.Halts node.id ⟨[⟨node, none, 0⟩], p.legacySourcePath.getD [], memo⟩ := by
      refine halts_of_visit hnames hids _ rfl hnode rfl hget fun w' hrest hv _ => ?_
      obtain ⟨verdict, hv⟩ := Option.ne_none_iff_exists'.mp hv
      exact .of_empty trivial hrest hv
    obtain ⟨fuel, ⟨verdict, memo'⟩, hrun, -⟩ := hhalts
    exact ⟨fuel, verdict, memo', hrun⟩

/-- More rounds give the same result. -/
theorem run_mono {root : String} {fuel fuel' : ℕ} {w : Walk} {result : Verdict × Memo}
    (h : p.run root fuel w = some result) (hle : fuel ≤ fuel') :
    p.run root fuel' w = some result := by
  induction fuel generalizing fuel' w with
  | zero => simp [run] at h
  | succ fuel ih =>
    obtain ⟨fuel', rfl⟩ := Nat.exists_eq_add_of_le' (Nat.one_le_of_lt hle)
    unfold run at h ⊢
    split at h
    · exact h
    · rename_i top rest hstack
      split at h
      · rename_i w' hstep
        simpa only [hstep] using ih h (by omega)
      · rename_i hstep
        simpa only [hstep] using h

theorem check_mono {fuel fuel' : ℕ} {memo : Memo} {node : AclNode} {result : Verdict × Memo}
    (h : p.check fuel memo node = some result) (hle : fuel ≤ fuel') :
    p.check fuel' memo node = some result := by
  unfold check at h ⊢
  split at h
  · rename_i hget
    simpa only [hget] using h
  · rename_i hget
    simpa only [hget] using run_mono h hle

end SnapshotAuthorization

end Memplex
