import Memplex.Mesh.Converge

/-!
# Deletions in a mesh of replicas

Any number of replicas exchange their plans in pairs, one side or both at a time. A tombstone under an
id that no live object there has seen should stay: a replica that has met it, by itself or through
others, should not hold the deleted payload live again (`deletes_survive`). It does where the union
rule stays away from the id: a united object keeps its life beside a tombstone, and passes on under an
id of its own what the tombstone has deleted. Where no such step is made (`Fair`), the tombstones that
replicas have met only gain in what they have seen (`Below`), and nothing live gains anything.
-/

namespace Memplex.Mesh

namespace VersionVector

/-- One vector has seen nothing that the other has not. -/
def Below (v w : VersionVector) : Prop := ∀ r, v.get r ≤ w.get r

/-- Causal dominance: at least as many edits of each replica, and more of one. -/
def Above (v w : VersionVector) : Prop := w.Below v ∧ ∃ r, w.get r < v.get r

/-- The entries count edits. -/
def Positive (v : VersionVector) : Prop :=
  ∀ (r : String) (c : ℤ), v.counts[r]? = some c → 0 < c

variable {v w u : VersionVector}

theorem Below.trans (h : u.Below v) (h' : v.Below w) : u.Below w := fun r => (h r).trans (h' r)

theorem Positive.get_nonneg (h : v.Positive) (r : String) : 0 ≤ v.get r := by
  cases hr : v.counts[r]? with
  | none => rw [get_of_none hr]
  | some c =>
    rw [get_of_some hr]
    exact (h r c hr).le

/-- What dominates has seen everything. -/
theorem Positive.below_of_dominates (h : v.Positive) (hdom : v.dominates w = true) :
    w.Below v := fun r => by
  cases hr : w.counts[r]? with
  | none =>
    rw [get_of_none hr]
    exact h.get_nonneg r
  | some c =>
    rw [get_of_some hr]
    exact (dominates_iff.mp hdom).1 r c hr

/-- What dominates has seen more. -/
theorem Positive.above_of_dominates (h : v.Positive) (hdom : v.dominates w = true) :
    v.Above w := by
  refine ⟨h.below_of_dominates hdom, ?_⟩
  rcases (dominates_iff.mp hdom).2 with ⟨r, c, hc, hlt⟩ | ⟨hempty, hne⟩
  · exact ⟨r, by rw [get_of_some hc]; exact hlt⟩
  · -- Any entry of it is of an edit that the other has not seen.
    by_contra hno
    refine hne (Std.ExtTreeMap.ext_getElem? fun r => ?_)
    cases hr : v.counts[r]? with
    | none => simp
    | some c =>
      refine absurd ⟨r, ?_⟩ hno
      have hnone : w.counts[r]? = none := by rw [hempty]; rfl
      rw [get_of_some hr, get_of_none hnone]
      exact h r c hr

theorem Positive.get_merge (h : v.Positive) (w : VersionVector) (r : String) :
    (v.merge w).get r = max (v.get r) (w.get r) := by
  cases hr : w.counts[r]? with
  | none =>
    rw [get, get_merge_of_none hr, ← get, get_of_none hr, max_eq_left (h.get_nonneg r)]
  | some c => rw [get_of_some (get_merge_of_some hr), get_of_some hr]

theorem Positive.merge (h : v.Positive) (h' : w.Positive) : (v.merge w).Positive := by
  intro r c hc
  cases hr : w.counts[r]? with
  | none =>
    rw [get_merge_of_none hr] at hc
    exact h r c hc
  | some d =>
    rw [get_merge_of_some hr] at hc
    rw [← Option.some.inj hc]
    exact lt_max_of_lt_right (h' r d hr)

theorem Positive.below_merge_left (h : v.Positive) (w : VersionVector) : v.Below (v.merge w) :=
  fun r => by
    rw [h.get_merge w]
    exact le_max_left _ _

theorem Positive.below_merge_right (h : v.Positive) (w : VersionVector) : w.Below (v.merge w) :=
  fun r => by
    rw [h.get_merge w]
    exact le_max_right _ _

/-- A dominating vector gains nothing by a merge. -/
theorem Positive.get_merge_of_dominates (h : v.Positive) (hdom : v.dominates w = true)
    (r : String) : (v.merge w).get r = v.get r := by
  rw [h.get_merge w, max_eq_left (h.below_of_dominates hdom r)]

/-- What has seen everything that a vector has, while something else has not, cannot be dominated
by that. -/
theorem not_dominates_of_below (hv : v.Positive) (hno : ¬ v.Above u) (hbelow : u.Below w) :
    v.dominates w = false := by
  rw [Bool.eq_false_iff]
  intro hdom
  obtain ⟨hle, r, hlt⟩ := hv.above_of_dominates hdom
  exact hno ⟨hbelow.trans hle, r, (hbelow r).trans_lt hlt⟩

end VersionVector

open VersionVector

/-! ## The mesh -/

/-- An exchange in a mesh: one side carries out its plan, or both do. -/
inductive MeshStep (ι : Type) where
  | pull (i j : ι)
  | both (i j : ι)

section Mesh

variable {ι : Type} [DecidableEq ι] (sha256 : Bytes → Digest)

/-- The replicas after an exchange. -/
def meshStep (m : ι → Replica) : MeshStep ι → ι → Replica
  | .pull i j => Function.update m i (exchange sha256 (m i) (m j))
  | .both i j => Function.update (Function.update m i (exchange sha256 (m i) (m j))) j
      (exchange sha256 (m j) (m i))

/-- The replicas after a run. -/
def meshRun (m : ι → Replica) (steps : List (MeshStep ι)) : ι → Replica :=
  steps.foldl (meshStep sha256) m

/-- Who has met a tombstone after an exchange, if those in `met` had before. -/
def meetStep (met : ι → Prop) : MeshStep ι → ι → Prop
  | .pull i j => fun r => met r ∨ r = i ∧ met j
  | .both i j => fun r => met r ∨ r = i ∧ met j ∨ r = j ∧ met i

/-- Who has met a tombstone after a run. -/
def meetRun (met : ι → Prop) (steps : List (MeshStep ι)) : ι → Prop := steps.foldl meetStep met

/-- The deleted payload is not live in the replica, neither under the id nor under the one that the
union rule makes of both. -/
def Gone (k : String) (p : Bytes) (S : Replica) : Prop :=
  ∀ (id : String) (o : MeshObject), id = k ∨ id = unionId sha256 k p → S.objects[id]? = some o →
    o.payload = p → o.tombstone = true

/-- The deletion survives a run: who has met the tombstone does not hold the payload live. -/
def DeletesSurvive (m : ι → Replica) (k : String) (T : MeshObject) (steps : List (MeshStep ι)) :
    Prop :=
  ∀ r, meetRun (fun r => (m r).objects[k]? = some T) steps r →
    Gone sha256 k T.payload (meshRun sha256 m steps r)

/-! ### The condition -/

/-- One side of an exchange keeps the union rule away from a deletion: it unites the objects under the
id only if neither is deleted while the local one lives, and without reaching the tombstone or
registering the payload; and what it registers under the id itself has not seen the tombstone. -/
structure Fair (k : String) (T : MeshObject) (L R : Replica) : Prop where
  united : ∀ lo ro, Both L R k lo ro → lo.vector.dominates ro.vector = false →
    ro.vector.dominates lo.vector = false → lo.immutable = true →
    (lo.tombstone = false → ro.tombstone = false ∧
      ¬ (lo.vector.merge ro.vector).Above T.vector) ∧
    (ro.payload = T.payload → lo.payload = T.payload)
  made : L.objects[k]? = none → R.objects[k]? = none → ∀ id lo ro, Both L R id lo ro →
    lo.vector.dominates ro.vector = false → ro.vector.dominates lo.vector = false →
    lo.immutable = true → lo.payload ≠ ro.payload → unionId sha256 id ro.payload = k →
      ro.vector.Positive ∧ ¬ ro.vector.Above T.vector

/-- Each side that carries out its plan in an exchange is fair. -/
def FairStep (k : String) (T : MeshObject) (m : ι → Replica) : MeshStep ι → Prop
  | .pull i j => Fair sha256 k T (m i) (m j)
  | .both i j => Fair sha256 k T (m i) (m j) ∧ Fair sha256 k T (m j) (m i)

/-- Each exchange of a run is fair. -/
def FairRun (k : String) (T : MeshObject) : (ι → Replica) → List (MeshStep ι) → Prop
  | _, [] => True
  | m, x :: xs => FairStep sha256 k T m x ∧ FairRun k T (meshStep sha256 m x) xs

/-! ### One exchange -/

/-- A replica in which nothing live stands against the deletion: the vectors under the id count edits,
what lives there has not seen the tombstone, and the payload does not live under the id of the union
rule. -/
structure Quiet (k : String) (T : MeshObject) (S : Replica) : Prop where
  positive : ∀ o, S.objects[k]? = some o → o.vector.Positive
  unseen : ∀ o, S.objects[k]? = some o → o.tombstone = false → ¬ o.vector.Above T.vector
  uncopied : ∀ o, S.objects[unionId sha256 k T.payload]? = some o → o.tombstone = false →
    o.payload ≠ T.payload

/-- A tombstone that has seen at least what another has. -/
def Buries (T o : MeshObject) : Prop := o.tombstone = true ∧ T.vector.Below o.vector

/-- A replica with a tombstone under the id that has seen at least what another has. -/
def Buried (k : String) (T : MeshObject) (S : Replica) : Prop :=
  ∃ o, S.objects[k]? = some o ∧ Buries T o

section Objects

variable {T lo ro : MeshObject} (hlo : lo.vector.Positive) (hro : ro.vector.Positive)
include hlo hro

/-- What is left under the id counts edits, and has seen no more than it had if it lives. -/
theorem settle_quiet (hlo' : lo.tombstone = false → ¬ lo.vector.Above T.vector)
    (hro' : ro.tombstone = false → ¬ ro.vector.Above T.vector)
    (hfair : resolution lo ro = .union → lo.tombstone = false →
      ¬ (lo.vector.merge ro.vector).Above T.vector) :
    (settle lo ro).vector.Positive ∧
      ((settle lo ro).tombstone = false → ¬ (settle lo ro).vector.Above T.vector) := by
  cases hres : resolution lo ro with
  | sendLocal =>
    rw [settle_sendLocal hres]
    exact ⟨hlo, hlo'⟩
  | conflict =>
    rw [settle_conflict hres]
    exact ⟨hlo, hlo'⟩
  | fetchRemote =>
    rw [settle_fetchRemote hres]
    refine ⟨hro.merge hlo, fun ht habove => hro' ht ?_⟩
    have hdom : ro.vector.dominates lo.vector = true := by
      unfold resolution at hres
      split_ifs at hres with hd hd'
      exact hd'
    have hget := hro.get_merge_of_dominates hdom
    obtain ⟨hle, r, hlt⟩ := habove
    exact ⟨fun r => hget r ▸ hle r, r, hget r ▸ hlt⟩
  | union =>
    rw [settle_union hres]
    exact ⟨hlo.merge hro, hfair hres⟩
  | removeWins =>
    rw [settle_removeWins hres]
    exact ⟨hlo.merge hro, fun ht => absurd ht (by simp)⟩
  | superseded =>
    rw [settle_superseded hres]
    exact ⟨hlo.merge hro, fun ht => absurd ht (by simp)⟩

/-- Where one of the objects buries a tombstone, what is left does. -/
theorem settle_buries (hlo' : lo.tombstone = false → ¬ lo.vector.Above T.vector)
    (hro' : ro.tombstone = false → ¬ ro.vector.Above T.vector)
    (hfair : resolution lo ro = .union → lo.tombstone = false → ro.tombstone = false)
    (hbury : Buries T lo ∨ Buries T ro) : Buries T (settle lo ro) := by
  have hmerge : T.vector.Below (lo.vector.merge ro.vector) := hbury.elim
    (fun h => h.2.trans (hlo.below_merge_left ro.vector))
    (fun h => h.2.trans (hlo.below_merge_right ro.vector))
  cases hres : resolution lo ro with
  | sendLocal =>
    rw [settle_sendLocal hres]
    refine hbury.elim id fun hr => ?_
    have hdom : lo.vector.dominates ro.vector = true := by
      unfold resolution at hres
      split_ifs at hres with hd
      exact hd
    refine ⟨?_, hr.2.trans (hlo.below_of_dominates hdom)⟩
    -- Nothing live dominates what has seen the tombstone.
    by_contra hlive
    rw [Bool.not_eq_true] at hlive
    rw [not_dominates_of_below hlo (hlo' hlive) hr.2] at hdom
    exact absurd hdom (by simp)
  | fetchRemote =>
    rw [settle_fetchRemote hres]
    have hdom : ro.vector.dominates lo.vector = true := by
      unfold resolution at hres
      split_ifs at hres with hd hd'
      exact hd'
    refine ⟨?_, ?_⟩
    · show ro.tombstone = true
      by_contra hlive
      rw [Bool.not_eq_true] at hlive
      rcases hbury with hl | hr
      · rw [not_dominates_of_below hro (hro' hlive) hl.2] at hdom
        exact absurd hdom (by simp)
      · exact absurd (hlive.symm.trans hr.1) (by simp)
    · exact hbury.elim (fun h => h.2.trans (hro.below_merge_right lo.vector))
        (fun h => h.2.trans (hro.below_merge_left lo.vector))
  | union =>
    rw [settle_union hres]
    refine ⟨?_, hmerge⟩
    show lo.tombstone = true
    by_contra hlive
    rw [Bool.not_eq_true] at hlive
    rcases hbury with hl | hr
    · exact absurd (hlive.symm.trans hl.1) (by simp)
    · exact absurd ((hfair hres hlive).symm.trans hr.1) (by simp)
  | removeWins =>
    rw [settle_removeWins hres]
    exact ⟨rfl, hmerge⟩
  | superseded =>
    rw [settle_superseded hres]
    exact ⟨rfl, hmerge⟩
  | conflict =>
    -- Only live objects are in conflict.
    obtain ⟨-, -, -, ht, ht', -⟩ := resolution_eq_conflict_iff.mp hres
    rcases hbury with hl | hr
    · exact absurd (ht.symm.trans hl.1) (by simp)
    · exact absurd (ht'.symm.trans hr.1) (by simp)

end Objects

variable {sha256} {k : String} {T : MeshObject} {L R : Replica}

/-- One side of a fair exchange stays quiet. -/
theorem Fair.quiet (h : Fair sha256 k T L R) (hL : Quiet sha256 k T L) (hR : Quiet sha256 k T R) :
    Quiet sha256 k T (exchange sha256 L R) := by
  have hat : ∀ o, (exchange sha256 L R).objects[k]? = some o →
      o.vector.Positive ∧ (o.tombstone = false → ¬ o.vector.Above T.vector) := by
    intro o ho
    cases hlo : L.objects[k]? with
    | none =>
      cases hro : R.objects[k]? with
      | none =>
        obtain ⟨id, lo, ro, hboth, hres, hdiff, hid, rfl⟩ :=
          (exchange_get_new sha256 L R hlo hro).mp ho
        obtain ⟨hd, hd', hk⟩ := resolution_eq_union_iff.mp hres
        obtain ⟨hpos, habove⟩ := h.made hlo hro id lo ro hboth hd hd' hk hdiff hid
        exact ⟨hpos, fun _ => habove⟩
      | some ro =>
        have hal := (exchange_alone sha256 (⟨hro, hlo⟩ : Alone R L k ro)).2
        cases Option.some.inj (ho.symm.trans hal)
        exact ⟨hR.positive _ hro, hR.unseen _ hro⟩
    | some lo =>
      cases hro : R.objects[k]? with
      | none =>
        have hal := (exchange_alone sha256 (⟨hlo, hro⟩ : Alone L R k lo)).1
        cases Option.some.inj (ho.symm.trans hal)
        exact ⟨hL.positive _ hlo, hL.unseen _ hlo⟩
      | some ro =>
        have hboth : Both L R k lo ro := ⟨hlo, hro⟩
        cases Option.some.inj (ho.symm.trans (exchange_both sha256 hboth))
        refine settle_quiet (hL.positive lo hlo) (hR.positive ro hro) (hL.unseen lo hlo)
          (hR.unseen ro hro) fun hres ht => ?_
        obtain ⟨hd, hd', hk⟩ := resolution_eq_union_iff.mp hres
        exact ((h.united lo ro hboth hd hd' hk).1 ht).2
  refine ⟨fun o ho => (hat o ho).1, fun o ho => (hat o ho).2, fun o ho ht hp => ?_⟩
  cases hlo : L.objects[unionId sha256 k T.payload]? with
  | none =>
    cases hro : R.objects[unionId sha256 k T.payload]? with
    | none =>
      -- What would be registered is what the local side has.
      obtain ⟨id, lo, ro, hboth, hres, hdiff, hid, rfl⟩ :=
        (exchange_get_new sha256 L R hlo hro).mp ho
      obtain ⟨rfl, -⟩ := unionId_inj sha256 hid
      obtain ⟨hd, hd', hk⟩ := resolution_eq_union_iff.mp hres
      exact hdiff (((h.united lo ro hboth hd hd' hk).2 hp).trans hp.symm)
    | some ro =>
      have hal := (exchange_alone sha256 (⟨hro, hlo⟩ : Alone R L _ ro)).2
      cases Option.some.inj (ho.symm.trans hal)
      exact hR.uncopied _ hro ht hp
  | some lo =>
    cases hro : R.objects[unionId sha256 k T.payload]? with
    | none =>
      have hal := (exchange_alone sha256 (⟨hlo, hro⟩ : Alone L R _ lo)).1
      cases Option.some.inj (ho.symm.trans hal)
      exact hL.uncopied _ hlo ht hp
    | some ro =>
      cases Option.some.inj (ho.symm.trans (exchange_both sha256 (⟨hlo, hro⟩ : Both L R _ lo ro)))
      rcases settle_live_iff.mp ⟨ht, hp⟩ with ⟨ht', hp', -⟩ | ⟨ht', hp', -⟩
      · exact hL.uncopied lo hlo ht' hp'
      · exact hR.uncopied ro hro ht' hp'

/-- The side that has met the tombstone has buried it. -/
theorem Fair.buried (h : Fair sha256 k T L R) (hL : Quiet sha256 k T L) (hR : Quiet sha256 k T R)
    (hbury : Buried k T L ∨ Buried k T R) : Buried k T (exchange sha256 L R) := by
  cases hlo : L.objects[k]? with
  | none =>
    obtain ⟨o, ho, hb⟩ := hbury.resolve_left fun ⟨o, ho, _⟩ => absurd (ho.symm.trans hlo) (by simp)
    exact ⟨o, (exchange_alone sha256 (⟨ho, hlo⟩ : Alone R L k o)).2, hb⟩
  | some lo =>
    cases hro : R.objects[k]? with
    | none =>
      obtain ⟨o, ho, hb⟩ :=
        hbury.resolve_right fun ⟨o, ho, _⟩ => absurd (ho.symm.trans hro) (by simp)
      exact ⟨o, (exchange_alone sha256 (⟨ho, hro⟩ : Alone L R k o)).1, hb⟩
    | some ro =>
      have hboth : Both L R k lo ro := ⟨hlo, hro⟩
      refine ⟨settle lo ro, exchange_both sha256 hboth, settle_buries (hL.positive lo hlo)
        (hR.positive ro hro) (hL.unseen lo hlo) (hR.unseen ro hro) (fun hres ht => ?_) ?_⟩
      · obtain ⟨hd, hd', hk⟩ := resolution_eq_union_iff.mp hres
        exact ((h.united lo ro hboth hd hd' hk).1 ht).1
      · refine hbury.imp (fun ⟨o, ho, hb⟩ => ?_) fun ⟨o, ho, hb⟩ => ?_
        · exact Option.some.inj (ho.symm.trans hlo) ▸ hb
        · exact Option.some.inj (ho.symm.trans hro) ▸ hb

/-! ### Runs -/

variable {m : ι → Replica} {met : ι → Prop}

/-- The step: a fair exchange keeps every replica quiet, and whoever has met the tombstone has buried
it. -/
theorem FairStep.keeps {x : MeshStep ι} (h : FairStep sha256 k T m x)
    (hquiet : ∀ r, Quiet sha256 k T (m r)) (hbury : ∀ r, met r → Buried k T (m r)) :
    (∀ r, Quiet sha256 k T (meshStep sha256 m x r)) ∧
      ∀ r, meetStep met x r → Buried k T (meshStep sha256 m x r) := by
  -- One side of an exchange.
  have hside : ∀ i j, Fair sha256 k T (m i) (m j) →
      Quiet sha256 k T (exchange sha256 (m i) (m j)) ∧
        (met i ∨ met j → Buried k T (exchange sha256 (m i) (m j))) := fun i j hf =>
    ⟨hf.quiet (hquiet i) (hquiet j), fun hmet =>
      hf.buried (hquiet i) (hquiet j) (hmet.imp (hbury i) (hbury j))⟩
  cases x with
  | pull i j =>
    obtain ⟨hq, hb⟩ := hside i j h
    refine ⟨fun r => ?_, fun r hr => ?_⟩
    · by_cases hri : r = i
      · subst hri
        rw [meshStep, Function.update_self]
        exact hq
      · rw [meshStep, Function.update_of_ne hri]
        exact hquiet r
    · by_cases hri : r = i
      · subst hri
        rw [meshStep, Function.update_self]
        exact hb (hr.imp_right And.right)
      · rw [meshStep, Function.update_of_ne hri]
        exact hbury r (hr.resolve_right fun hr => hri hr.1)
  | both i j =>
    obtain ⟨hq, hb⟩ := hside i j h.1
    obtain ⟨hq', hb'⟩ := hside j i h.2
    refine ⟨fun r => ?_, fun r hr => ?_⟩
    · by_cases hrj : r = j
      · subst hrj
        rw [meshStep, Function.update_self]
        exact hq'
      · rw [meshStep, Function.update_of_ne hrj]
        by_cases hri : r = i
        · subst hri
          rw [Function.update_self]
          exact hq
        · rw [Function.update_of_ne hri]
          exact hquiet r
    · by_cases hrj : r = j
      · subst hrj
        rw [meshStep, Function.update_self]
        refine hb' ?_
        rcases hr with hr | ⟨rfl, hr⟩ | ⟨-, hr⟩
        · exact .inl hr
        · exact .inl hr
        · exact .inr hr
      · rw [meshStep, Function.update_of_ne hrj]
        by_cases hri : r = i
        · subst hri
          rw [Function.update_self]
          refine hb ?_
          rcases hr with hr | ⟨-, hr⟩ | ⟨hr, -⟩
          · exact .inl hr
          · exact .inr hr
          · exact absurd hr hrj
        · rw [Function.update_of_ne hri]
          rcases hr with hr | ⟨hr, -⟩ | ⟨hr, -⟩
          · exact hbury r hr
          · exact absurd hr hri
          · exact absurd hr hrj

/-- The run. -/
theorem FairRun.keeps {steps : List (MeshStep ι)} (h : FairRun sha256 k T m steps)
    (hquiet : ∀ r, Quiet sha256 k T (m r)) (hbury : ∀ r, met r → Buried k T (m r)) :
    (∀ r, Quiet sha256 k T (meshRun sha256 m steps r)) ∧
      ∀ r, meetRun met steps r → Buried k T (meshRun sha256 m steps r) := by
  induction steps generalizing m met with
  | nil => exact ⟨hquiet, hbury⟩
  | cons x xs ih =>
    obtain ⟨hq, hb⟩ := h.1.keeps hquiet hbury
    exact ih h.2 hq hb

/-- A deletion survives every run of fair exchanges, among replicas in which nothing live stands
against it at the beginning: whoever has met the tombstone does not hold the payload live, and has a
tombstone under the id. -/
theorem deletes_survive (sha256 : Bytes → Digest) (m : ι → Replica) (k : String) (T : MeshObject)
    (steps : List (MeshStep ι)) (hT : T.tombstone = true)
    (hquiet : ∀ r, Quiet sha256 k T (m r)) (hfair : FairRun sha256 k T m steps) :
    DeletesSurvive sha256 m k T steps ∧
      ∀ r, meetRun (fun r => (m r).objects[k]? = some T) steps r →
        ∃ o, (meshRun sha256 m steps r).objects[k]? = some o ∧ o.tombstone = true := by
  have hheld : ∀ r, (m r).objects[k]? = some T → Buried k T (m r) := fun r hr =>
    ⟨T, hr, hT, fun _ => le_rfl⟩
  obtain ⟨hq, hb⟩ := hfair.keeps hquiet hheld
  refine ⟨fun r hr id o hid ho hp => ?_, fun r hr => ?_⟩
  · rcases hid with rfl | rfl
    · obtain ⟨o', ho', hbury, -⟩ := hb r hr
      exact Option.some.inj (ho'.symm.trans ho) ▸ hbury
    · by_contra hlive
      exact (hq r).uncopied o ho (by simpa using hlive) hp
  · obtain ⟨o, ho, hbury, -⟩ := hb r hr
    exact ⟨o, ho, hbury⟩

end Mesh

/-! ## A sample -/

/-- A replica that has deleted an object, and one that has written it meanwhile. -/
def sampleMesh (kind : String) : Bool → Replica
  | true => sampleReplica (sampleObject kind "a" [0] true)
  | false => sampleReplica (sampleObject kind "b" [0] false)

theorem sampleObject_positive (kind replica : String) (payload : Bytes) (tombstone : Bool) :
    (sampleObject kind replica payload tombstone).vector.Positive := fun r c hc => by
  have hget : ((∅ : Dict ℤ).insert replica 1)[r]? = some c := hc
  rw [Std.ExtTreeMap.getElem?_insert] at hget
  split_ifs at hget with hr
  · rw [← Option.some.inj hget]
    exact one_pos
  · exact absurd hget (by simp)

/-- Nothing live stands against the deletion. -/
theorem sampleMesh_quiet (kind : String) (r : Bool) :
    Quiet (fun _ => sampleDigest) "o" (sampleObject kind "a" [0] true) (sampleMesh kind r) := by
  have hnew := unionId_ne (fun _ => sampleDigest) "o" (sampleObject kind "a" [0] true).payload
  cases r with
  | true =>
    refine ⟨fun o ho => ?_, fun o ho ht => ?_, fun o ho _ => ?_⟩
    · rw [(sampleReplica_get ho).2]
      exact sampleObject_positive kind "a" [0] true
    · rw [(sampleReplica_get ho).2] at ht
      exact absurd ht (by simp [sampleObject])
    · exact absurd (sampleReplica_get ho).1 hnew
  | false =>
    refine ⟨fun o ho => ?_, fun o ho _ habove => ?_, fun o ho _ => ?_⟩
    · rw [(sampleReplica_get ho).2]
      exact sampleObject_positive kind "b" [0] false
    · rw [(sampleReplica_get ho).2] at habove
      have hle : VersionVector.get ⟨(∅ : Dict ℤ).insert "a" 1⟩ "a" ≤
        VersionVector.get ⟨(∅ : Dict ℤ).insert "b" 1⟩ "a" := habove.1 "a"
      exact absurd hle (by decide +kernel)
    · exact absurd (sampleReplica_get ho).1 hnew

/-- The memory stays deleted. -/
theorem sampleMesh_survives : DeletesSurvive (fun _ => sampleDigest) (sampleMesh "memory") "o"
    (sampleObject "memory" "a" [0] true) [.pull false true] := by
  refine (deletes_survive (fun _ => sampleDigest) (sampleMesh "memory") "o"
    (sampleObject "memory" "a" [0] true) [.pull false true] rfl (sampleMesh_quiet "memory")
    ⟨⟨fun lo ro hboth _ _ hk => ?_, fun hl => ?_⟩, trivial⟩).1
  · have hlo : (sampleMesh "memory" false).objects["o"]? =
        some (sampleObject "memory" "b" [0] false) := by decide +kernel
    rw [Option.some.inj (hboth.1.symm.trans hlo)] at hk
    exact absurd hk (by decide)
  · exact absurd hl (by decide +kernel)

/-- The observation lives on under its id beside a replica that has met the tombstone. -/
theorem sampleMesh_undone :
    (∀ r, Quiet (fun _ => sampleDigest) "o" (sampleObject "observation" "a" [0] true)
      (sampleMesh "observation" r)) ∧
      (sampleMesh "observation" true).objects["o"]? =
        some (sampleObject "observation" "a" [0] true) ∧
      ¬ DeletesSurvive (fun _ => sampleDigest) (sampleMesh "observation") "o"
        (sampleObject "observation" "a" [0] true) [.pull false true] := by
  refine ⟨sampleMesh_quiet "observation", by decide +kernel, fun h => ?_⟩
  have hmet : meetRun (fun r => (sampleMesh "observation" r).objects["o"]? =
      some (sampleObject "observation" "a" [0] true)) [MeshStep.pull false true] false :=
    .inr ⟨rfl, by decide +kernel⟩
  have hlive : ∃ o, (meshRun (fun _ => sampleDigest) (sampleMesh "observation")
      [.pull false true] false).objects["o"]? = some o ∧ o.payload = [0] ∧
        o.tombstone = false := by
    refine ⟨settle (sampleObject "observation" "b" [0] false)
      (sampleObject "observation" "a" [0] true), by decide +kernel, by decide +kernel,
      by decide +kernel⟩
  obtain ⟨o, ho, hp, ht⟩ := hlive
  exact absurd ((h false hmet "o" o (.inl rfl) ho hp).symm.trans ht) (by simp)

end Memplex.Mesh
