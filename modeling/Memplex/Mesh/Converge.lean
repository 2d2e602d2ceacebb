import Memplex.Mesh.Reconcile

/-!
# Convergence of a pair of replicas

Two replicas exchange their plans, each side carrying out its own. What the exchange should reach is
`Converges`: under every id that no plan reports as a conflict both sides hold the same, a further
exchange changes nothing, and no live payload is lost without a reason. What it takes is `Concordant`,
a condition on the two replicas before the exchange, and `converges_iff` says that it takes exactly
that. The condition is about one id at a time, and under an id about two objects (`Settled`), except
for the ids of the union rule, which must be taken already, and the payloads that are held under
another id.
-/

namespace Memplex.Mesh

namespace VersionVector

variable {v w : VersionVector}

theorem get_merge_of_some {r : String} {c : ℤ} (h : w.counts[r]? = some c) :
    (v.merge w).counts[r]? = some (max (v.get r) c) := by
  rw [merge_get, h]

theorem get_merge_of_none {r : String} (h : w.counts[r]? = none) :
    (v.merge w).counts[r]? = v.counts[r]? := by
  rw [merge_get, h]

/-- The merged vector has the entries of both. -/
theorem isSome_merge {r : String} : (v.merge w).counts[r]?.isSome = true ↔
    v.counts[r]?.isSome = true ∨ w.counts[r]?.isSome = true := by
  cases hw : w.counts[r]? with
  | some c => simp [get_merge_of_some hw]
  | none => simp [get_merge_of_none hw]

/-- A vector that has seen all of another absorbs it. -/
theorem merge_eq_left (hle : ∀ r c, w.counts[r]? = some c → c ≤ v.get r)
    (hkeys : ∀ r : String, w.counts[r]?.isSome = true → v.counts[r]?.isSome = true) :
    v.merge w = v := by
  refine VersionVector.ext fun r => ?_
  cases hw : w.counts[r]? with
  | some c =>
    obtain ⟨d, hd⟩ := Option.isSome_iff_exists.mp (hkeys r (by rw [hw]; rfl))
    have hc := hle r c hw
    rw [get_of_some hd] at hc
    rw [get_merge_of_some hw, get_of_some hd, hd, max_eq_left hc]
  | none => rw [get_merge_of_none hw]

theorem merge_self (v : VersionVector) : v.merge v = v :=
  merge_eq_left (fun _ _ h => (get_of_some h).ge) fun _ h => h

/-- No vector dominates itself. -/
theorem dominates_irrefl (v : VersionVector) : v.dominates v = false := by
  rw [Bool.eq_false_iff]
  intro h
  rcases (dominates_iff.mp h).2 with ⟨r, c, hc, hlt⟩ | ⟨hempty, hne⟩
  · rw [get_of_some hc] at hlt
    exact lt_irrefl c hlt
  · exact hne hempty

section Absorb

variable (h : v.dominates w = true)
include h

/-- The merged vector says of each replica what the dominating one says. -/
theorem merge_entry {r : String} {c : ℤ} (hc : (v.merge w).counts[r]? = some c) : c = v.get r := by
  cases hw : w.counts[r]? with
  | some d =>
    rw [get_merge_of_some hw, max_eq_left ((dominates_iff.mp h).1 r d hw)] at hc
    exact (Option.some.inj hc).symm
  | none =>
    rw [get_merge_of_none hw] at hc
    exact (get_of_some hc).symm

theorem not_dominates_merge : v.dominates (v.merge w) = false := by
  rw [Bool.eq_false_iff]
  intro hdom
  rcases (dominates_iff.mp hdom).2 with ⟨r, c, hc, hlt⟩ | ⟨hempty, hne⟩
  · rw [merge_entry h hc] at hlt
    exact lt_irrefl _ hlt
  · refine hne (Std.ExtTreeMap.ext_getElem? fun r => ?_)
    have hnone : (v.merge w).counts[r]? = none := by rw [hempty]; rfl
    have hr : ¬ (v.counts[r]?.isSome = true) := fun hs => by
      have := isSome_merge.mpr (.inl hs : _ ∨ w.counts[r]?.isSome = true)
      rw [hnone] at this
      exact absurd this (by simp)
    simpa using hr

/-- The merged vector dominates only where the dominating one is empty. -/
theorem merge_dominates_iff : (v.merge w).dominates v = true ↔ v.counts = ∅ := by
  constructor
  · intro hdom
    rcases (dominates_iff.mp hdom).2 with ⟨r, c, hc, hlt⟩ | ⟨hempty, -⟩
    · obtain ⟨d, hd⟩ := Option.isSome_iff_exists.mp
        ((isSome_merge (v := v) (w := w)).mpr (.inl (by rw [hc]; rfl)))
      rw [get_of_some hd, merge_entry h hd, get_of_some hc] at hlt
      exact absurd hlt (lt_irrefl c)
    · exact hempty
  · intro hempty
    have hnone : ∀ r : String, v.counts[r]? = none := fun r => by rw [hempty]; rfl
    refine dominates_iff.mpr ⟨fun r c hc => absurd hc (by rw [hnone]; simp), .inr ⟨hempty, ?_⟩⟩
    intro hmerged
    rcases (dominates_iff.mp h).2 with ⟨r, c, hc, -⟩ | ⟨-, hne⟩
    · have hsome := (isSome_merge (v := v) (w := w)).mpr (.inr (by rw [hc]; rfl) :
        _ ∨ w.counts[r]?.isSome = true)
      rw [hmerged] at hsome
      exact absurd hsome (by simp)
    · exact hne hempty

theorem merge_merge_left : v.merge (v.merge w) = v.merge w := by
  refine VersionVector.ext fun r => ?_
  cases hm : (v.merge w).counts[r]? with
  | some c => rw [get_merge_of_some hm, merge_entry h hm, max_self]
  | none =>
    rw [get_merge_of_none hm]
    by_contra hsome
    have := isSome_merge.mpr
      (.inl (Option.isSome_iff_ne_none.mpr hsome) : _ ∨ w.counts[r]?.isSome = true)
    rw [hm] at this
    exact absurd this (by simp)

theorem merge_merge_right : (v.merge w).merge v = v.merge w := by
  refine merge_eq_left (fun r c hc => ?_) fun r hr => isSome_merge.mpr (.inl hr)
  obtain ⟨d, hd⟩ := Option.isSome_iff_exists.mp
    ((isSome_merge (v := v) (w := w)).mpr (.inl (by rw [hc]; rfl)))
  rw [get_of_some hd, merge_entry h hd, get_of_some hc]

end Absorb

/-! ### Vectors with entries of the same replicas -/

/-- Both have entries of the same replicas. -/
def SameKeys (v w : VersionVector) : Prop :=
  ∀ r : String, v.counts[r]?.isSome = true ↔ w.counts[r]?.isSome = true

theorem sameKeys_merge (v w : VersionVector) : (v.merge w).SameKeys (w.merge v) := fun _ => by
  rw [isSome_merge, isSome_merge, or_comm]

theorem SameKeys.symm (h : v.SameKeys w) : w.SameKeys v := fun r => (h r).symm

/-- An entry of one, and the entry of the other. -/
theorem SameKeys.some (h : v.SameKeys w) {r : String} {c : ℤ} (hc : w.counts[r]? = Option.some c) :
    v.counts[r]? = Option.some (v.get r) := by
  obtain ⟨d, hd⟩ := Option.isSome_iff_exists.mp ((h r).mpr (by rw [hc]; rfl))
  rw [hd, get_of_some hd]

/-- What dominates is strictly greater somewhere. -/
theorem SameKeys.strict (h : v.SameKeys w) (hdom : v.dominates w = true) :
    ∃ r c, w.counts[r]? = Option.some c ∧ c < v.get r := by
  rcases (dominates_iff.mp hdom).2 with hstrict | ⟨hempty, hne⟩
  · exact hstrict
  · refine absurd (Std.ExtTreeMap.ext_getElem? fun r => ?_) hne
    have hnone : ¬ (v.counts[r]?.isSome = true) := by
      rw [h r, hempty]
      simp
    simpa using hnone

/-- They do not dominate each other. -/
theorem SameKeys.asymm (h : v.SameKeys w) (hdom : v.dominates w = true) :
    w.dominates v = false := by
  rw [Bool.eq_false_iff]
  intro hback
  obtain ⟨r, c, hc, hlt⟩ := h.strict hdom
  have hle := (dominates_iff.mp hback).1 r _ (h.some hc)
  rw [get_of_some hc] at hle
  exact absurd hlt (not_lt.mpr hle)

/-- What a merge does not change has seen all of the other. -/
theorem le_of_merge_eq (h : v.merge w = v) {r : String} {c : ℤ} (hc : w.counts[r]? = some c) :
    c ≤ v.get r := by
  have hmerged := get_merge_of_some (v := v) hc
  rw [h] at hmerged
  rw [get_of_some hmerged]
  exact le_max_right _ _

/-- Only equal vectors both stay the same when they are merged. -/
theorem SameKeys.eq_of_merge (h : v.SameKeys w) (hv : v.merge w = v) (hw : w.merge v = w) :
    v = w := by
  refine VersionVector.ext fun r => ?_
  cases hc : w.counts[r]? with
  | some c =>
    have hd := h.some hc
    have hle := le_of_merge_eq hv hc
    have hge := le_of_merge_eq hw hd
    rw [get_of_some hc] at hge
    rw [hd, le_antisymm hge hle]
  | none =>
    have hnone : ¬ (v.counts[r]?.isSome = true) := by
      rw [h r, hc]
      simp
    simpa using hnone

end VersionVector

/-! ## Two objects under one id -/

namespace MeshObject

/-- What both sides should agree on: the payload, the kind, the tombstone flag and the supersession
edge. -/
def view (o : MeshObject) : Bytes × String × Bool × Option String :=
  (o.payload, o.kind, o.tombstone, o.supersededBy)

/-- The kind is one of which both sides are kept. -/
def immutable (o : MeshObject) : Bool := o.kind ∈ immutableKinds

/-- A live fact whose edge names the fact itself. -/
def SelfSuperseded (o : MeshObject) : Prop :=
  o.kind ∈ supersessionKinds ∧ o.tombstone = false ∧ o.supersededBy = some o.id

theorem view_inj {x y : MeshObject} (h : x.view = y.view) :
    x.payload = y.payload ∧ x.kind = y.kind ∧ x.tombstone = y.tombstone ∧
      x.supersededBy = y.supersededBy := by
  simpa [view] using h

end MeshObject

open MeshObject

/-- An object that dominates is left with nothing to do: it is no live fact that a further exchange
would turn into a tombstone, and the vector of the other side has nothing that its own has not. -/
def Upholds (w l : MeshObject) : Prop :=
  ¬ w.SelfSuperseded ∧ (w.vector.merge l.vector = w.vector ∨
    w.vector.counts ≠ ∅ ∧ w.immutable = false ∧ w.tombstone = false)

/-- Concurrent objects that both sides resolve to the same. -/
def Meets (lo ro : MeshObject) : Prop :=
  lo.vector.merge ro.vector = ro.vector.merge lo.vector ∧
    if lo.immutable = ro.immutable then
      (lo.immutable = true ∨ lo.tombstone = true ∧ ro.tombstone = true ∨
        (lo.tombstone = false ∧ ro.tombstone = false) ∧
          lo.supersededBy = some lo.id ∧ ro.supersededBy = some ro.id) → lo.view = ro.view
    else if lo.immutable = true then lo.tombstone = true ∧ ro.tombstone = false
    else ro.tombstone = true ∧ lo.tombstone = false

/-- Concurrent live objects that the kind of the first does not tell how to resolve. -/
def Unresolved (lo ro : MeshObject) : Prop :=
  lo.vector.dominates ro.vector = false ∧ ro.vector.dominates lo.vector = false ∧
    lo.immutable = false ∧ lo.tombstone = false ∧ ro.tombstone = false ∧
      ¬ (lo.kind ∈ supersessionKinds ∧ supersessionPair lo ro = true)

/-- Two objects under one id that an exchange settles for good. -/
def Settled (lo ro : MeshObject) : Prop :=
  if lo.vector.dominates ro.vector = true then
    if ro.vector.dominates lo.vector = true then lo.view = ro.view else Upholds lo ro
  else if ro.vector.dominates lo.vector = true then Upholds ro lo
  else Meets lo ro

/-- What an exchange should reach under an id: the same on both sides, and nothing to do. -/
def Agrees (lo ro : MeshObject) : Prop :=
  (settle lo ro).view = (settle ro lo).view ∧
    settle (settle lo ro) (settle ro lo) = settle lo ro ∧
      settle (settle ro lo) (settle lo ro) = settle ro lo

section Pair

variable {lo ro : MeshObject}

theorem Agrees.symm (h : Agrees lo ro) : Agrees ro lo := ⟨h.1.symm, h.2.2, h.2.1⟩

theorem Agrees.comm : Agrees lo ro ↔ Agrees ro lo := ⟨Agrees.symm, Agrees.symm⟩

theorem resolution_sendLocal (h : lo.vector.dominates ro.vector = true) :
    resolution lo ro = .sendLocal := by
  rw [resolution, if_pos h]

theorem resolution_fetchRemote (h : lo.vector.dominates ro.vector = false)
    (h' : ro.vector.dominates lo.vector = true) : resolution lo ro = .fetchRemote := by
  rw [resolution, if_neg (by simp [h]), if_pos h']

section Concurrent

variable (h : lo.vector.dominates ro.vector = false) (h' : ro.vector.dominates lo.vector = false)
include h h'

theorem resolution_concurrent : resolution lo ro =
    if lo.immutable then .union
    else if lo.tombstone || ro.tombstone then .removeWins
    else if lo.kind ∈ supersessionKinds ∧ supersessionPair lo ro then .superseded
    else .conflict := by
  rw [resolution, if_neg (by simp [h]), if_neg (by simp [h'])]
  simp only [immutable, decide_eq_true_eq]

theorem resolution_union (hkind : lo.immutable = true) : resolution lo ro = .union := by
  rw [resolution_concurrent h h', if_pos hkind]

theorem resolution_removeWins (hkind : lo.immutable = false)
    (htomb : lo.tombstone = true ∨ ro.tombstone = true) : resolution lo ro = .removeWins := by
  rw [resolution_concurrent h h', if_neg (by simp [hkind]), if_pos (by simpa using htomb)]

theorem resolution_superseded (hkind : lo.immutable = false)
    (htomb : lo.tombstone = false) (htomb' : ro.tombstone = false)
    (hfact : lo.kind ∈ supersessionKinds) (hpair : supersessionPair lo ro = true) :
    resolution lo ro = .superseded := by
  rw [resolution_concurrent h h', if_neg (by simp [hkind]), if_neg (by simp [htomb, htomb']),
    if_pos ⟨hfact, hpair⟩]

theorem resolution_conflict (hkind : lo.immutable = false)
    (htomb : lo.tombstone = false) (htomb' : ro.tombstone = false)
    (hpair : ¬ (lo.kind ∈ supersessionKinds ∧ supersessionPair lo ro = true)) :
    resolution lo ro = .conflict := by
  rw [resolution_concurrent h h', if_neg (by simp [hkind]), if_neg (by simp [htomb, htomb']),
    if_neg hpair]

end Concurrent

theorem resolution_eq_union_iff : resolution lo ro = .union ↔
    lo.vector.dominates ro.vector = false ∧ ro.vector.dominates lo.vector = false ∧
      lo.immutable = true := by
  constructor
  · intro h
    unfold resolution at h
    split_ifs at h with hd hd' hk
    exact ⟨by simpa using hd, by simpa using hd', decide_eq_true hk⟩
  · rintro ⟨hd, hd', hk⟩
    exact resolution_union hd hd' hk

theorem resolution_eq_conflict_iff : resolution lo ro = .conflict ↔ Unresolved lo ro := by
  constructor
  · intro h
    unfold resolution at h
    split_ifs at h with hd hd' hk ht hpair
    rw [Bool.or_eq_true, not_or, Bool.not_eq_true, Bool.not_eq_true] at ht
    exact ⟨by simpa using hd, by simpa using hd', decide_eq_false hk, ht.1, ht.2, hpair⟩
  · rintro ⟨hd, hd', hk, ht, ht', hpair⟩
    exact resolution_conflict hd hd' hk ht ht' hpair

/-- Objects that agree, of an immutable kind or deleted, have nothing more to do exactly if their
vectors are the same. -/
theorem settle_stable_iff (hview : lo.view = ro.view) (hid : lo.id = ro.id)
    (hkeys : lo.vector.SameKeys ro.vector) (hkind : lo.immutable = true ∨ lo.tombstone = true) :
    settle lo ro = lo ∧ settle ro lo = ro ↔ lo.vector = ro.vector := by
  obtain ⟨hpayload, hkinds, htombs, hedges⟩ := view_inj hview
  have hsame : lo.vector = ro.vector → lo = ro := fun hvec => by
    cases lo
    cases ro
    simp_all
  -- A merge changes nothing but the vector.
  have hmerge : lo.vector.dominates ro.vector = false → ro.vector.dominates lo.vector = false →
      settle lo ro = { lo with vector := lo.vector.merge ro.vector } ∧
        settle ro lo = { ro with vector := ro.vector.merge lo.vector } := fun h h' => by
    have himm : lo.immutable = ro.immutable := by rw [immutable, immutable, hkinds]
    cases hk : lo.immutable with
    | true =>
      exact ⟨settle_union (resolution_union h h' hk),
        settle_union (resolution_union h' h (himm ▸ hk))⟩
    | false =>
      have htomb : lo.tombstone = true := hkind.resolve_left (by simp [hk])
      have htomb' : ro.tombstone = true := htombs ▸ htomb
      rw [settle_removeWins (resolution_removeWins h h' hk (.inl htomb)),
        settle_removeWins (resolution_removeWins h' h (himm ▸ hk) (.inl htomb'))]
      simp only [htomb, htomb', if_true, and_self]
  constructor
  · rintro ⟨hlo, hro⟩
    cases hdom : lo.vector.dominates ro.vector with
    | true =>
      -- The other side takes the vector over.
      rw [settle_fetchRemote (resolution_fetchRemote (hkeys.asymm hdom) hdom)] at hro
      obtain ⟨r, c, hc, hlt⟩ := hkeys.strict hdom
      have hmerged : lo.vector.merge ro.vector = ro.vector := congrArg MeshObject.vector hro
      have hget := VersionVector.get_merge_of_some (v := lo.vector) hc
      rw [hmerged, hc, max_eq_left hlt.le] at hget
      exact absurd (Option.some.inj hget) hlt.ne
    | false =>
      cases hdom' : ro.vector.dominates lo.vector with
      | true =>
        rw [settle_fetchRemote (resolution_fetchRemote hdom hdom')] at hlo
        obtain ⟨r, c, hc, hlt⟩ := hkeys.symm.strict hdom'
        have hmerged : ro.vector.merge lo.vector = lo.vector := congrArg MeshObject.vector hlo
        have hget := VersionVector.get_merge_of_some (v := ro.vector) hc
        rw [hmerged, hc, max_eq_left hlt.le] at hget
        exact absurd (Option.some.inj hget) hlt.ne
      | false =>
        obtain ⟨hl, hr⟩ := hmerge hdom hdom'
        rw [hl] at hlo
        rw [hr] at hro
        exact hkeys.eq_of_merge (congrArg MeshObject.vector hlo) (congrArg MeshObject.vector hro)
  · intro hvec
    obtain rfl := hsame hvec
    have hirrefl := lo.vector.dominates_irrefl
    obtain ⟨hl, -⟩ := hmerge hirrefl hirrefl
    have hself : settle lo lo = lo := by rw [hl, VersionVector.merge_self]
    exact ⟨hself, hself⟩

theorem not_selfSuperseded_of_immutable {o : MeshObject} (h : o.immutable = true) :
    ¬ o.SelfSuperseded := fun hs => by
  have hkind := hs.1
  simp only [supersessionKinds, List.mem_singleton] at hkind
  simp [immutable, immutableKinds, hkind] at h

/-- Two forms of one object that no vector tells apart are a supersession pair only for a live fact
whose edge names itself. -/
theorem resolution_same_id (h : lo.vector.dominates ro.vector = false)
    (h' : ro.vector.dominates lo.vector = false) (hid : ro.id = lo.id)
    (hedge : ro.supersededBy = lo.supersededBy) (hkind : lo.immutable = false)
    (htomb : lo.tombstone = false) (htomb' : ro.tombstone = false) :
    (lo.SelfSuperseded → resolution lo ro = .superseded) ∧
      (¬ lo.SelfSuperseded → resolution lo ro = .conflict) := by
  have hpair : supersessionPair lo ro = true ↔ lo.supersededBy = some lo.id := by
    simp [supersessionPair, hid, hedge]
  constructor
  · rintro ⟨hfact, -, hself⟩
    exact resolution_superseded h h' hkind htomb htomb' hfact (hpair.mpr hself)
  · intro hself
    exact resolution_conflict h h' hkind htomb htomb'
      fun hs => hself ⟨hs.1, htomb, hpair.mp hs.2⟩

/-- What both sides have stays, unless it is a live fact whose edge names itself. -/
theorem settle_self_iff (o : MeshObject) : settle o o = o ↔ ¬ o.SelfSuperseded := by
  have hirrefl := o.vector.dominates_irrefl
  have hmerge : ({ o with vector := o.vector.merge o.vector } : MeshObject) = o := by
    rw [VersionVector.merge_self]
  cases hk : o.immutable with
  | true =>
    rw [settle_union (resolution_union hirrefl hirrefl hk), hmerge]
    exact iff_of_true rfl (not_selfSuperseded_of_immutable hk)
  | false =>
    cases ht : o.tombstone with
    | true =>
      rw [settle_removeWins (resolution_removeWins hirrefl hirrefl hk (.inl ht)),
        VersionVector.merge_self]
      refine iff_of_true ?_ fun hs => absurd hs.2.1 (by simp [ht])
      rw [ite_self]
      simp only [← ht]
    | false =>
      obtain ⟨hsup, hconf⟩ := resolution_same_id hirrefl hirrefl rfl rfl hk ht ht
      by_cases hself : o.SelfSuperseded
      · refine iff_of_false (fun heq => ?_) (not_not.mpr hself)
        rw [settle_superseded (hsup hself)] at heq
        exact absurd (congrArg MeshObject.tombstone heq) (by simp [ht])
      · exact iff_of_true (settle_conflict (hconf hself)) hself

/-- A dominating object agrees with what it dominates exactly if it is left with nothing to do. -/
theorem agrees_iff_upholds (hdom : lo.vector.dominates ro.vector = true)
    (hdom' : ro.vector.dominates lo.vector = false) : Agrees lo ro ↔ Upholds lo ro := by
  -- The local side stays, and the remote side gets the object with the merged vector.
  obtain ⟨lo', hlo'⟩ : ∃ o : MeshObject, o = { lo with vector := lo.vector.merge ro.vector } :=
    ⟨_, rfl⟩
  have hl : settle lo ro = lo := settle_sendLocal (resolution_sendLocal hdom)
  have hr : settle ro lo = lo' := by
    rw [settle_fetchRemote (resolution_fetchRemote hdom' hdom), hlo']
  have hvec : lo'.vector = lo.vector.merge ro.vector := by rw [hlo']
  have hkind : lo'.immutable = lo.immutable := by rw [hlo']; rfl
  have hsame : ∀ v, v = lo'.vector → { lo with vector := v } = lo' := fun v hv => by
    rw [hv, hvec, hlo']
  have hm : lo.vector.dominates lo'.vector = false := by
    rw [hvec]
    exact VersionVector.not_dominates_merge hdom
  have hback : lo'.vector.dominates lo.vector = true ↔ lo.vector.counts = ∅ := by
    rw [hvec]
    exact VersionVector.merge_dominates_iff hdom
  have hleft : lo.vector.merge lo'.vector = lo'.vector := by
    rw [hvec]
    exact VersionVector.merge_merge_left hdom
  have hright : lo'.vector.merge lo.vector = lo'.vector := by
    rw [hvec]
    exact VersionVector.merge_merge_right hdom
  have hview : lo.view = lo'.view := by rw [hlo']; rfl
  have hkeep : lo'.vector = lo.vector → lo' = lo := fun heq => by
    rw [← hsame lo.vector heq.symm]
  rw [Agrees, hl, hr, Upholds, ← hvec]
  refine ⟨fun ⟨_, hstay, _⟩ => ?_, fun hup => ⟨hview, ?_⟩⟩
  · cases hd : lo'.vector.dominates lo.vector with
    | true =>
      -- The local side would take the greater vector back.
      rw [settle_fetchRemote (resolution_fetchRemote hm hd), hright] at hstay
      have hvec' : lo'.vector = lo.vector := congrArg MeshObject.vector hstay
      rw [hvec', VersionVector.dominates_irrefl] at hd
      exact absurd hd (by simp)
    | false =>
      have hne : lo.vector.counts ≠ ∅ := fun he => absurd (hback.mpr he) (by simp [hd])
      cases hk : lo.immutable with
      | true =>
        rw [settle_union (resolution_union hm hd hk), hleft] at hstay
        have hv : lo'.vector = lo.vector := (congrArg MeshObject.vector hstay :)
        exact ⟨not_selfSuperseded_of_immutable hk, .inl hv⟩
      | false =>
        cases ht : lo.tombstone with
        | true =>
          rw [settle_removeWins (resolution_removeWins hm hd hk (.inl ht)), hleft] at hstay
          have hv : lo'.vector = lo.vector := (congrArg MeshObject.vector hstay :)
          exact ⟨fun hs => absurd hs.2.1 (by simp [ht]), .inl hv⟩
        | false =>
          refine ⟨fun hself => ?_, .inr ⟨hne, rfl, rfl⟩⟩
          have ht' : lo'.tombstone = false := by rw [hlo']; exact ht
          have hres := (resolution_same_id hm hd (by rw [hlo']) (by rw [hlo']) hk ht ht').1 hself
          rw [settle_superseded hres] at hstay
          exact absurd (congrArg MeshObject.tombstone hstay) (by simp [ht])
  · obtain ⟨hnself, heq | ⟨hne, hk, ht⟩⟩ := hup
    · have hself := (settle_self_iff lo).mpr hnself
      rw [hkeep heq]
      exact ⟨hself, hself⟩
    · have hd : lo'.vector.dominates lo.vector = false := by
        rw [Bool.eq_false_iff]
        exact fun hd => hne (hback.mp hd)
      have ht' : lo'.tombstone = false := by rw [hlo']; exact ht
      have hnself' : ¬ lo'.SelfSuperseded := by rw [hlo']; exact hnself
      refine ⟨settle_conflict ?_, settle_conflict ?_⟩
      · exact (resolution_same_id hm hd (by rw [hlo']) (by rw [hlo']) hk ht ht').2 hnself
      · exact (resolution_same_id hd hm (by rw [hlo']) (by rw [hlo']) (hkind ▸ hk) ht' ht).2 hnself'

/-- Where both sides merge the vectors and leave an object of an immutable kind or a tombstone, it is
the objects and the merged vectors that have to be the same. -/
theorem agrees_iff_of_merged (hid : ro.id = lo.id)
    (hlo : (settle lo ro).vector = lo.vector.merge ro.vector)
    (hro : (settle ro lo).vector = ro.vector.merge lo.vector)
    (hkind : (settle lo ro).immutable = true ∨ (settle lo ro).tombstone = true) :
    Agrees lo ro ↔ lo.vector.merge ro.vector = ro.vector.merge lo.vector ∧
      (settle lo ro).view = (settle ro lo).view := by
  rw [Agrees, and_comm, and_congr_left_iff, ← hlo, ← hro]
  intro hview
  refine settle_stable_iff hview ?_ ?_ hkind
  · rw [settle_id hid, settle_id hid.symm, hid]
  · rw [hlo, hro]
    exact VersionVector.sameKeys_merge lo.vector ro.vector

theorem Meets.comm : Meets lo ro ↔ Meets ro lo := by
  unfold Meets
  refine and_congr eq_comm ?_
  by_cases hk : lo.immutable = ro.immutable
  · rw [if_pos hk, if_pos hk.symm, hk, eq_comm (a := lo.view), and_comm (a := lo.tombstone = true),
      and_comm (a := lo.tombstone = false), and_comm (a := lo.supersededBy = some lo.id)]
  · rw [if_neg hk, if_neg (Ne.symm hk)]
    cases hlo : lo.immutable with
    | true =>
      have hro : ro.immutable = false := by simpa [hlo] using Ne.symm hk
      simp [hro]
    | false =>
      have hro : ro.immutable = true := by simpa [hlo] using Ne.symm hk
      simp [hro]

/-- Concurrent live objects that a plan does not report, without the union rule. -/
theorem superseded_of_not_conflict (h : lo.vector.dominates ro.vector = false)
    (h' : ro.vector.dominates lo.vector = false) (hk : lo.immutable = false)
    (ht : lo.tombstone = false) (ht' : ro.tombstone = false) (hlo : resolution lo ro ≠ .conflict) :
    resolution lo ro = .superseded ∧ lo.kind ∈ supersessionKinds ∧
      supersessionPair lo ro = true := by
  by_cases hpair : lo.kind ∈ supersessionKinds ∧ supersessionPair lo ro = true
  · exact ⟨resolution_superseded h h' hk ht ht' hpair.1 hpair.2, hpair⟩
  · exact absurd (resolution_conflict h h' hk ht ht' hpair) hlo

/-- Concurrent objects, of which one side unites and the other does not. -/
theorem agrees_iff_meets_of_mixed (hid : ro.id = lo.id)
    (h : lo.vector.dominates ro.vector = false) (h' : ro.vector.dominates lo.vector = false)
    (hro : resolution ro lo ≠ .conflict) (hk : lo.immutable = true) (hk' : ro.immutable = false) :
    Agrees lo ro ↔ Meets lo ro := by
  have hl := settle_union (resolution_union h h' hk)
  have hmeets : Meets lo ro ↔ lo.vector.merge ro.vector = ro.vector.merge lo.vector ∧
      lo.tombstone = true ∧ ro.tombstone = false := by
    simp [Meets, hk, hk']
  have hkinds : lo.kind ≠ ro.kind := fun heq => by
    rw [immutable, heq, ← immutable, hk'] at hk
    exact absurd hk (by simp)
  rw [hmeets]
  by_cases htomb : ro.tombstone = true ∨ lo.tombstone = true
  · have hr := settle_removeWins (resolution_removeWins h' h hk' htomb)
    rw [agrees_iff_of_merged hid (by rw [hl]) (by rw [hr]) (.inl (by rw [hl]; exact hk)), hl, hr]
    refine and_congr_right fun _ => ?_
    cases ht : ro.tombstone with
    | true =>
      -- The remote side keeps a tombstone of another kind.
      refine iff_of_false (fun hview => hkinds ?_) (by simp)
      simpa using (view_inj hview).2.1
    | false =>
      have ht' : lo.tombstone = true := htomb.resolve_left (by simp [ht])
      exact iff_of_true (by simp [view, ht']) ⟨ht', rfl⟩
  · -- The remote side makes a tombstone of live objects.
    rw [not_or, Bool.not_eq_true, Bool.not_eq_true] at htomb
    have hsup := (superseded_of_not_conflict h' h hk' htomb.1 htomb.2 hro).1
    refine iff_of_false (fun hagrees => ?_) fun hm => absurd hm.2.1 (by simp [htomb.2])
    have htombs := (view_inj hagrees.1).2.2.1
    rw [hl, settle_superseded hsup] at htombs
    exact absurd htombs (by simp [htomb.2])

/-- Concurrent objects that no plan reports agree exactly if both sides resolve them to the same. -/
theorem agrees_iff_meets (hid : ro.id = lo.id) (h : lo.vector.dominates ro.vector = false)
    (h' : ro.vector.dominates lo.vector = false) (hlo : resolution lo ro ≠ .conflict)
    (hro : resolution ro lo ≠ .conflict) : Agrees lo ro ↔ Meets lo ro := by
  cases hk : lo.immutable with
  | true =>
    cases hk' : ro.immutable with
    | true =>
      -- Both sides keep what they have.
      have hl := settle_union (resolution_union h h' hk)
      have hr := settle_union (resolution_union h' h hk')
      have hmeets : Meets lo ro ↔
          lo.vector.merge ro.vector = ro.vector.merge lo.vector ∧ lo.view = ro.view := by
        simp [Meets, hk, hk']
      rw [hmeets, agrees_iff_of_merged hid (by rw [hl]) (by rw [hr]) (.inl (by rw [hl]; exact hk)),
        hl, hr]
      rfl
    | false => exact agrees_iff_meets_of_mixed hid h h' hro hk hk'
  | false =>
    cases hk' : ro.immutable with
    | true =>
      rw [Agrees.comm, Meets.comm]
      exact agrees_iff_meets_of_mixed hid.symm h' h hlo hk' hk
    | false =>
      by_cases htomb : lo.tombstone = true ∨ ro.tombstone = true
      · -- Both sides keep a tombstone.
        have hl := settle_removeWins (resolution_removeWins h h' hk htomb)
        have hr := settle_removeWins (resolution_removeWins h' h hk' htomb.symm)
        rw [agrees_iff_of_merged hid (by rw [hl]) (by rw [hr]) (.inr (by rw [hl])), hl, hr, Meets,
          hk, hk', if_pos rfl]
        refine and_congr_right fun _ => ?_
        cases ht : lo.tombstone with
        | true =>
          cases ht' : ro.tombstone with
          | true => simp [view, ht, ht']
          | false => simp [view]
        | false =>
          have ht' : ro.tombstone = true := htomb.resolve_left (by simp [ht])
          simp [view, ht']
      · -- Both sides keep what is superseded.
        rw [not_or, Bool.not_eq_true, Bool.not_eq_true] at htomb
        obtain ⟨ht, ht'⟩ := htomb
        obtain ⟨hres, hfact, hpair⟩ := superseded_of_not_conflict h h' hk ht ht' hlo
        obtain ⟨hres', hfact', -⟩ := superseded_of_not_conflict h' h hk' ht' ht hro
        have hkinds : lo.kind = ro.kind := by
          rw [List.mem_singleton.mp hfact, List.mem_singleton.mp hfact']
        have hl := settle_superseded hres
        have hr := settle_superseded hres'
        rw [agrees_iff_of_merged hid (by rw [hl]) (by rw [hr]) (.inr (by rw [hl])), hl, hr, Meets,
          hk, hk', if_pos rfl]
        refine and_congr_right fun _ => ?_
        rw [hid]
        by_cases hself : lo.supersededBy = some lo.id
        · by_cases hself' : ro.supersededBy = some lo.id
          · simp [view, hself, hself', hkinds, ht, ht']
          · simp [view, hself, hself', ht]
        · have hself' : ro.supersededBy = some lo.id := by
            simpa [supersessionPair, hid, hself] using hpair
          simp [view, hself, hself', ht]

/-- What an exchange should reach under an id that no plan reports, it reaches exactly for settled
objects. -/
theorem agrees_iff_settled (hid : ro.id = lo.id) (hlo : resolution lo ro ≠ .conflict)
    (hro : resolution ro lo ≠ .conflict) : Agrees lo ro ↔ Settled lo ro := by
  unfold Settled
  cases hdom : lo.vector.dominates ro.vector with
  | true =>
    cases hdom' : ro.vector.dominates lo.vector with
    | true =>
      -- Each side takes the other for behind, and nothing is exchanged.
      have hl := settle_sendLocal (resolution_sendLocal hdom)
      have hr := settle_sendLocal (resolution_sendLocal hdom')
      simp only [Agrees, hl, hr, and_true, if_true]
    | false =>
      rw [if_pos rfl, if_neg (by simp)]
      exact agrees_iff_upholds hdom hdom'
  | false =>
    rw [if_neg (by simp)]
    cases hdom' : ro.vector.dominates lo.vector with
    | true =>
      rw [if_pos rfl, Agrees.comm]
      exact agrees_iff_upholds hdom' hdom
    | false =>
      rw [if_neg (by simp)]
      exact agrees_iff_meets hid hdom hdom' hlo hro

/-- The local object is live with a payload, and stays so. -/
def Stands (lo ro : MeshObject) : Prop :=
  lo.vector.dominates ro.vector = true ∨ ro.vector.dominates lo.vector = false ∧
    (lo.immutable = true ∨ ro.tombstone = false ∧
      ¬ (lo.kind ∈ supersessionKinds ∧ supersessionPair lo ro = true))

/-- The remote object takes its place. -/
def Yields (lo ro : MeshObject) : Prop :=
  lo.vector.dominates ro.vector = false ∧ ro.vector.dominates lo.vector = true

/-- Where a live payload comes from. -/
theorem settle_live_iff {p : Bytes} :
    (settle lo ro).tombstone = false ∧ (settle lo ro).payload = p ↔
      (lo.tombstone = false ∧ lo.payload = p ∧ Stands lo ro) ∨
        (ro.tombstone = false ∧ ro.payload = p ∧ Yields lo ro) := by
  unfold Stands Yields
  cases hdom : lo.vector.dominates ro.vector with
  | true =>
    rw [settle_sendLocal (resolution_sendLocal hdom)]
    simp
  | false =>
    cases hdom' : ro.vector.dominates lo.vector with
    | true =>
      rw [settle_fetchRemote (resolution_fetchRemote hdom hdom')]
      simp
    | false =>
      cases hk : lo.immutable with
      | true =>
        rw [settle_union (resolution_union hdom hdom' hk)]
        simp
      | false =>
        by_cases htomb : lo.tombstone = true ∨ ro.tombstone = true
        · rw [settle_removeWins (resolution_removeWins hdom hdom' hk htomb)]
          rcases htomb with ht | ht
          · simp [ht]
          · simp [ht]
        · rw [not_or, Bool.not_eq_true, Bool.not_eq_true] at htomb
          by_cases hpair : lo.kind ∈ supersessionKinds ∧ supersessionPair lo ro = true
          · rw [settle_superseded (resolution_superseded hdom hdom' hk htomb.1 htomb.2 hpair.1
              hpair.2)]
            simp [hpair]
          · rw [settle_conflict (resolution_conflict hdom hdom' hk htomb.1 htomb.2 hpair)]
            simp [htomb, hpair]

end Pair

/-! ## Two replicas -/

section Replicas

variable (sha256 : Bytes → Digest) (L R : Replica)

/-- A plan reports the id as a conflict. -/
def Reported (k : String) : Prop :=
  (k, .conflict) ∈ reconcile L.objects R.objects ∨ (k, .conflict) ∈ reconcile R.objects L.objects

/-- A replica holds a payload live. -/
def Holds (S : Replica) (p : Bytes) : Prop :=
  ∃ (k : String) (o : MeshObject), S.objects[k]? = some o ∧ o.tombstone = false ∧ o.payload = p

/-- A live object of the first replica that the other has no reason to drop: nothing there dominates
it or deletes it, and no edge supersedes it. -/
def Standing (X Y : Replica) (k : String) (o : MeshObject) : Prop :=
  X.objects[k]? = some o ∧ o.tombstone = false ∧ o.supersededBy = none ∧
    ∀ r, Y.objects[k]? = some r → r.vector.dominates o.vector = false ∧ r.tombstone = false

/-- What an exchange of both sides should reach. -/
structure Converges : Prop where
  /-- Both sides hold the same under every id that no plan reports. -/
  same : ∀ k, ¬ Reported L R k →
    (exchange sha256 L R).objects[k]?.map view = (exchange sha256 R L).objects[k]?.map view
  /-- A further exchange changes nothing there. -/
  stable : ∀ k : String, ¬ Reported L R k →
    (exchange sha256 (exchange sha256 L R) (exchange sha256 R L)).objects[k]? =
        (exchange sha256 L R).objects[k]? ∧
      (exchange sha256 (exchange sha256 R L) (exchange sha256 L R)).objects[k]? =
        (exchange sha256 R L).objects[k]?
  /-- No live payload is lost without a reason. -/
  kept : ∀ k o, Standing L R k o ∨ Standing R L k o →
    Holds (exchange sha256 L R) o.payload ∧ Holds (exchange sha256 R L) o.payload

/-- The first replica has a payload live where it stays, or fetches it. -/
def Keeps (X Y : Replica) (p : Bytes) : Prop :=
  ∃ k : String,
    (∃ o, X.objects[k]? = some o ∧ o.tombstone = false ∧ o.payload = p ∧
      ∀ r, Y.objects[k]? = some r → Stands o r) ∨
    (∃ r, Y.objects[k]? = some r ∧ r.tombstone = false ∧ r.payload = p ∧
      ∀ o, X.objects[k]? = some o → Yields o r)

/-- What the union rule would register at the first replica has its id taken. -/
def Taken (X Y : Replica) : Prop :=
  ∀ k (lo ro : MeshObject), Both X Y k lo ro → lo.vector.dominates ro.vector = false →
    ro.vector.dominates lo.vector = false → lo.immutable = true → lo.payload ≠ ro.payload → X.objects[unionId sha256 k ro.payload]?.isSome = true ∨
      Y.objects[unionId sha256 k ro.payload]?.isSome = true

/-- Replicas that an exchange brings together. -/
structure Concordant : Prop where
  /-- What one side has alone is no live fact whose edge names the fact itself. -/
  alone : ∀ k (o : MeshObject), Alone L R k o ∨ Alone R L k o → ¬ o.SelfSuperseded
  /-- What both have is settled, unless it is a conflict. -/
  settled : ∀ k lo ro, Both L R k lo ro → ¬ Unresolved lo ro → ¬ Unresolved ro lo →
    Settled lo ro
  /-- What the union rule would register on either side has its id taken. -/
  taken : Taken sha256 L R ∧ Taken sha256 R L
  /-- A live payload without an edge, beside a concurrent one, is kept under some id. -/
  kept : ∀ k (lo ro : MeshObject), Both L R k lo ro ∨ Both R L k lo ro →
    lo.vector.dominates ro.vector = false → ro.vector.dominates lo.vector = false →
    lo.tombstone = false → ro.tombstone = false → lo.supersededBy = none →
      Keeps L R lo.payload ∧ Keeps R L lo.payload

variable {sha256 L R}

theorem reported_iff {k : String} : Reported L R k ↔ ∃ lo ro, Both L R k lo ro ∧
    (resolution lo ro = .conflict ∨ resolution ro lo = .conflict) := by
  have hat : ∀ a b : Option MeshObject, resolutionAt a b = some .conflict ↔
      ∃ x y, (a = some x ∧ b = some y) ∧ resolution x y = .conflict := fun a b => by
    cases a <;> cases b <;> simp [resolutionAt]
  rw [Reported, mem_reconcile, mem_reconcile, hat, hat]
  constructor
  · rintro (⟨x, y, hboth, hres⟩ | ⟨x, y, ⟨hx, hy⟩, hres⟩)
    · exact ⟨x, y, hboth, .inl hres⟩
    · exact ⟨y, x, ⟨hy, hx⟩, .inr hres⟩
  · rintro ⟨x, y, ⟨hx, hy⟩, hres | hres⟩
    · exact .inl ⟨x, y, ⟨hx, hy⟩, hres⟩
    · exact .inr ⟨y, x, ⟨hy, hx⟩, hres⟩

theorem reported_comm {k : String} : Reported L R k ↔ Reported R L k := or_comm

theorem not_reported {k : String} {lo ro : MeshObject} (hboth : Both L R k lo ro) :
    ¬ Reported L R k ↔ resolution lo ro ≠ .conflict ∧ resolution ro lo ≠ .conflict := by
  rw [reported_iff, ← not_or, not_iff_not]
  constructor
  · rintro ⟨x, y, ⟨hx, hy⟩, hres⟩
    cases Option.some.inj (hx.symm.trans hboth.1)
    cases Option.some.inj (hy.symm.trans hboth.2)
    exact hres
  · exact fun hres => ⟨lo, ro, hboth, hres⟩

theorem not_reported_of_none {k : String} (h : L.objects[k]? = none ∨ R.objects[k]? = none) :
    ¬ Reported L R k := fun hrep => by
  obtain ⟨lo, ro, ⟨hlo, hro⟩, -⟩ := reported_iff.mp hrep
  rcases h with h | h
  · exact absurd (hlo.symm.trans h) (by simp)
  · exact absurd (hro.symm.trans h) (by simp)

/-- Under an id of both sides, the first two demands are the demand on the objects. -/
theorem agrees_at {k : String} {lo ro : MeshObject} (hboth : Both L R k lo ro) :
    ((exchange sha256 L R).objects[k]?.map view = (exchange sha256 R L).objects[k]?.map view ∧
      (exchange sha256 (exchange sha256 L R) (exchange sha256 R L)).objects[k]? =
          (exchange sha256 L R).objects[k]? ∧
        (exchange sha256 (exchange sha256 R L) (exchange sha256 L R)).objects[k]? =
          (exchange sha256 R L).objects[k]?) ↔ Agrees lo ro := by
  have hl := exchange_both sha256 hboth
  have hr := exchange_both sha256 hboth.symm
  have hnext : Both (exchange sha256 L R) (exchange sha256 R L) k (settle lo ro) (settle ro lo) :=
    ⟨hl, hr⟩
  rw [exchange_both sha256 hnext, exchange_both sha256 hnext.symm, hl, hr, Option.map_some,
    Option.map_some, Option.some_inj, Option.some_inj, Option.some_inj, Agrees]

/-- Where the union rule finds its ids taken, an exchange makes none. -/
theorem Taken.exchange_none (h : Taken sha256 L R) {k : String} (hl : L.objects[k]? = none)
    (hr : R.objects[k]? = none) : (exchange sha256 L R).objects[k]? = none := by
  by_contra hsome
  obtain ⟨o, ho⟩ := Option.ne_none_iff_exists'.mp hsome
  obtain ⟨id, lo, ro, hboth, hres, hdiff, rfl, -⟩ := (exchange_get_new sha256 L R hl hr).mp ho
  obtain ⟨hd, hd', hk⟩ := resolution_eq_union_iff.mp hres
  rcases h id lo ro hboth hd hd' hk hdiff with htaken | htaken
  · rw [hl] at htaken
    exact absurd htaken (by simp)
  · rw [hr] at htaken
    exact absurd htaken (by simp)

/-- What a replica keeps it holds afterwards. -/
theorem Keeps.holds {p : Bytes} (h : Keeps L R p) : Holds (exchange sha256 L R) p := by
  obtain ⟨k, ⟨o, ho, ht, hp, hstands⟩ | ⟨r, hr, ht, hp, hyields⟩⟩ := h
  · cases hr : R.objects[k]? with
    | none => exact ⟨k, o, (exchange_alone sha256 ⟨ho, hr⟩).1, ht, hp⟩
    | some r =>
      exact ⟨k, settle o r, exchange_both sha256 ⟨ho, hr⟩,
        settle_live_iff.mpr (.inl ⟨ht, hp, hstands r hr⟩)⟩
  · cases ho : L.objects[k]? with
    | none => exact ⟨k, r, (exchange_alone sha256 ⟨hr, ho⟩).2, ht, hp⟩
    | some o =>
      exact ⟨k, settle o r, exchange_both sha256 ⟨ho, hr⟩,
        settle_live_iff.mpr (.inr ⟨ht, hp, hyields o ho⟩)⟩

/-- What a replica holds afterwards it keeps, where the union rule makes no ids. -/
theorem Taken.keeps (h : Taken sha256 L R) {p : Bytes} (hholds : Holds (exchange sha256 L R) p) :
    Keeps L R p := by
  obtain ⟨k, x, hx, ht, hp⟩ := hholds
  refine ⟨k, ?_⟩
  cases ho : L.objects[k]? with
  | none =>
    cases hr : R.objects[k]? with
    | none =>
      rw [h.exchange_none ho hr] at hx
      exact absurd hx (by simp)
    | some r =>
      rw [(exchange_alone sha256 ⟨hr, ho⟩).2] at hx
      cases Option.some.inj hx
      exact .inr ⟨_, rfl, ht, hp, fun o ho' => absurd ho' (by simp)⟩
  | some o =>
    cases hr : R.objects[k]? with
    | none =>
      rw [(exchange_alone sha256 ⟨ho, hr⟩).1] at hx
      cases Option.some.inj hx
      exact .inl ⟨_, rfl, ht, hp, fun r hr' => absurd hr' (by simp)⟩
    | some r =>
      rw [exchange_both sha256 ⟨ho, hr⟩] at hx
      cases Option.some.inj hx
      rcases settle_live_iff.mp ⟨ht, hp⟩ with ⟨ht', hp', hst⟩ | ⟨ht', hp', hy⟩
      · exact .inl ⟨o, rfl, ht', hp', fun r' hr' => Option.some.inj hr' ▸ hst⟩
      · exact .inr ⟨r, rfl, ht', hp', fun o' ho' => Option.some.inj ho' ▸ hy⟩

theorem Converges.symm (h : Converges sha256 L R) : Converges sha256 R L where
  same k hk := (h.same k (mt reported_comm.mp hk)).symm
  stable k hk := (h.stable k (mt reported_comm.mp hk)).symm
  kept k o ho := (h.kept k o ho.symm).symm

theorem Concordant.symm (h : Concordant sha256 L R) : Concordant sha256 R L where
  alone k o ho := h.alone k o ho.symm
  settled k lo ro hboth hres hres' := by
    have hs := h.settled k ro lo hboth.symm hres' hres
    rw [← resolution_eq_conflict_iff] at hres hres'
    rw [← agrees_iff_settled hboth.symm.id_eq hres' hres] at hs
    exact (agrees_iff_settled hboth.id_eq hres hres').mp hs.symm
  taken := h.taken.symm
  kept k lo ro hboth hd hd' ht ht' hedge := (h.kept k lo ro hboth.symm hd hd' ht ht' hedge).symm

/-! ### What convergence takes -/

/-- Where replicas converge, what the union rule would register has its id taken. -/
theorem Converges.taken (h : Converges sha256 L R) : Taken sha256 L R := by
  intro k lo ro hboth hd hd' hk hdiff
  by_contra hfree
  simp only [not_or, Bool.not_eq_true, Option.isSome_eq_false_iff, Option.isNone_iff_eq_none]
    at hfree
  -- The payload is registered here, and not there.
  have hnew := (exchange_get_new sha256 L R hfree.1 hfree.2).mpr
    ⟨k, lo, ro, hboth, resolution_union hd hd' hk, hdiff, rfl, rfl⟩
  have hsame := h.same _ (not_reported_of_none (.inl hfree.1))
  rw [hnew, Option.map_some, eq_comm, Option.map_eq_some_iff] at hsame
  obtain ⟨o, ho, hview⟩ := hsame
  obtain ⟨id, ro', lo', hboth', -, -, hid, rfl⟩ :=
    (exchange_get_new sha256 R L hfree.2 hfree.1).mp ho
  obtain ⟨rfl, -⟩ := unionId_inj sha256 hid
  cases Option.some.inj (hboth'.2.symm.trans hboth.1)
  exact hdiff (view_inj hview).1

theorem Converges.alone (h : Converges sha256 L R) {k : String} {o : MeshObject}
    (ho : Alone L R k o) : ¬ o.SelfSuperseded := by
  have hboth := exchange_alone sha256 ho
  have hstable := (h.stable k (not_reported_of_none (.inr ho.2))).1
  rw [exchange_both sha256 hboth, hboth.1, Option.some_inj] at hstable
  exact (settle_self_iff o).mp hstable

/-- Replicas that converge are concordant. -/
theorem Converges.concordant (h : Converges sha256 L R) : Concordant sha256 L R where
  alone k o ho := ho.elim h.alone h.symm.alone
  settled k lo ro hboth hres hres' := by
    rw [← resolution_eq_conflict_iff] at hres hres'
    have hk := (not_reported hboth).mpr ⟨hres, hres'⟩
    exact (agrees_iff_settled hboth.id_eq hres hres').mp
      ((agrees_at hboth).mp ⟨h.same k hk, h.stable k hk⟩)
  taken := ⟨h.taken, h.symm.taken⟩
  kept k lo ro hboth hd hd' ht ht' hedge := by
    have hstanding : Standing L R k lo ∨ Standing R L k lo := hboth.imp
      (fun hb => ⟨hb.1, ht, hedge, fun r hr => by
        cases Option.some.inj (hr.symm.trans hb.2)
        exact ⟨hd', ht'⟩⟩)
      (fun hb => ⟨hb.1, ht, hedge, fun r hr => by
        cases Option.some.inj (hr.symm.trans hb.2)
        exact ⟨hd', ht'⟩⟩)
    obtain ⟨hl, hr⟩ := h.kept k lo hstanding
    exact ⟨h.taken.keeps hl, h.symm.taken.keeps hr⟩

/-! ### What suffices for it -/

/-- What is left has the kind of one of the objects. -/
theorem settle_immutable {lo ro : MeshObject} (h : lo.immutable = false)
    (h' : ro.immutable = false) : (settle lo ro).immutable = false := by
  have hite : ∀ c : Prop, ∀ _ : Decidable c, (if c then lo else ro).immutable = false := by
    intro c hc
    split_ifs
    · exact h
    · exact h'
  cases hres : resolution lo ro with
  | sendLocal => rw [settle_sendLocal hres, h]
  | conflict => rw [settle_conflict hres, h]
  | fetchRemote => rw [settle_fetchRemote hres]; exact h'
  | union => rw [settle_union hres]; exact h
  | removeWins => rw [settle_removeWins hres]; exact hite _ _
  | superseded => rw [settle_superseded hres]; exact hite _ _

/-- Where a conflict is reported, a further exchange unites only what one side has united, and for
the same payload. -/
theorem union_of_reported {lo ro : MeshObject}
    (hrep : resolution lo ro = .conflict ∨ resolution ro lo = .conflict)
    (h : resolution (settle lo ro) (settle ro lo) = .union) :
    resolution lo ro = .union ∧ (settle lo ro).payload = lo.payload ∧
      (settle ro lo).payload = ro.payload := by
  have himm := (resolution_eq_union_iff.mp h).2.2
  rcases hrep with hrep | hrep
  · -- The local object is kept, and its kind is not one of the union rule.
    rw [settle_conflict hrep, (resolution_eq_conflict_iff.mp hrep).2.2.1] at himm
    exact absurd himm (by simp)
  · obtain ⟨hd, hd', hk', -⟩ := resolution_eq_conflict_iff.mp hrep
    cases hk : lo.immutable with
    | true =>
      have hres := resolution_union hd' hd hk
      exact ⟨hres, by rw [settle_union hres], by rw [settle_conflict hrep]⟩
    | false =>
      rw [settle_immutable hk hk'] at himm
      exact absurd himm (by simp)

namespace Concordant

/-- Under an id of both sides that no plan reports, the demands on the objects are met. -/
theorem agrees (h : Concordant sha256 L R) {k : String} {lo ro : MeshObject}
    (hboth : Both L R k lo ro) (hk : ¬ Reported L R k) : Agrees lo ro := by
  obtain ⟨hres, hres'⟩ := (not_reported hboth).mp hk
  refine (agrees_iff_settled hboth.id_eq hres hres').mpr ?_
  rw [Ne, resolution_eq_conflict_iff] at hres hres'
  exact h.settled k lo ro hboth hres hres'

/-- A further exchange makes no id of the union rule either. -/
theorem taken_exchange (h : Concordant sha256 L R) {k : String} (hl : L.objects[k]? = none)
    (hr : R.objects[k]? = none) :
    (exchange sha256 (exchange sha256 L R) (exchange sha256 R L)).objects[k]? = none := by
  have hl' := h.taken.1.exchange_none hl hr
  have hr' := h.taken.2.exchange_none hr hl
  by_contra hsome
  obtain ⟨o, ho⟩ := Option.ne_none_iff_exists'.mp hsome
  obtain ⟨id, x, y, hxy, hres, hdiff, hid, -⟩ := (exchange_get_new sha256 _ _ hl' hr').mp ho
  cases hlo : L.objects[id]? with
  | none =>
    cases hro : R.objects[id]? with
    | none =>
      have hnone := h.taken.1.exchange_none hlo hro
      rw [hxy.1] at hnone
      exact absurd hnone (by simp)
    | some ro =>
      -- Both sides have the same.
      have hsame := exchange_alone sha256 (⟨hro, hlo⟩ : Alone R L id ro)
      cases Option.some.inj (hxy.1.symm.trans hsame.2)
      cases Option.some.inj (hxy.2.symm.trans hsame.1)
      exact hdiff rfl
  | some lo =>
    cases hro : R.objects[id]? with
    | none =>
      have hsame := exchange_alone sha256 (⟨hlo, hro⟩ : Alone L R id lo)
      cases Option.some.inj (hxy.1.symm.trans hsame.1)
      cases Option.some.inj (hxy.2.symm.trans hsame.2)
      exact hdiff rfl
    | some ro =>
      have hboth : Both L R id lo ro := ⟨hlo, hro⟩
      cases Option.some.inj (hxy.1.symm.trans (exchange_both sha256 hboth))
      cases Option.some.inj (hxy.2.symm.trans (exchange_both sha256 hboth.symm))
      by_cases hrep : Reported L R id
      · have hconf : resolution lo ro = .conflict ∨ resolution ro lo = .conflict := by
          by_contra hno
          exact (not_reported hboth).mpr (not_or.mp hno) hrep
        obtain ⟨hunion, hp, hp'⟩ := union_of_reported hconf hres
        rw [hp'] at hid
        rw [hp, hp'] at hdiff
        obtain ⟨hd, hd', hk⟩ := resolution_eq_union_iff.mp hunion
        rcases h.taken.1 id lo ro hboth hd hd' hk hdiff with htaken | htaken
        · rw [hid, hl] at htaken
          exact absurd htaken (by simp)
        · rw [hid, hr] at htaken
          exact absurd htaken (by simp)
      · exact hdiff (view_inj (h.agrees hboth hrep).1).1

/-- The demands of convergence at an id that both sides hold the same under. -/
theorem same_and_stable_of_one {k : String} {o : MeshObject}
    (hboth : Both (exchange sha256 L R) (exchange sha256 R L) k o o) (hself : ¬ o.SelfSuperseded) :
    (exchange sha256 L R).objects[k]?.map view = (exchange sha256 R L).objects[k]?.map view ∧
      (exchange sha256 (exchange sha256 L R) (exchange sha256 R L)).objects[k]? =
          (exchange sha256 L R).objects[k]? ∧
        (exchange sha256 (exchange sha256 R L) (exchange sha256 L R)).objects[k]? =
          (exchange sha256 R L).objects[k]? := by
  have hsettle := (settle_self_iff o).mpr hself
  have hnext := exchange_both sha256 hboth
  have hnext' := exchange_both sha256 hboth.symm
  rw [hsettle] at hnext hnext'
  exact ⟨by rw [hboth.1, hboth.2], hnext.trans hboth.1.symm, hnext'.trans hboth.2.symm⟩

/-- The demands of convergence at one id. -/
theorem same_and_stable (h : Concordant sha256 L R) {k : String} (hk : ¬ Reported L R k) :
    (exchange sha256 L R).objects[k]?.map view = (exchange sha256 R L).objects[k]?.map view ∧
      (exchange sha256 (exchange sha256 L R) (exchange sha256 R L)).objects[k]? =
          (exchange sha256 L R).objects[k]? ∧
        (exchange sha256 (exchange sha256 R L) (exchange sha256 L R)).objects[k]? =
          (exchange sha256 R L).objects[k]? := by
  cases hlo : L.objects[k]? with
  | none =>
    cases hro : R.objects[k]? with
    | none =>
      have hl := h.taken.1.exchange_none hlo hro
      have hr := h.taken.2.exchange_none hro hlo
      refine ⟨by rw [hl, hr], ?_, ?_⟩
      · rw [h.taken_exchange hlo hro, hl]
      · rw [h.symm.taken_exchange hro hlo, hr]
    | some ro =>
      have hal : Alone R L k ro := ⟨hro, hlo⟩
      exact same_and_stable_of_one (exchange_alone sha256 hal).symm (h.alone k ro (.inr hal))
  | some lo =>
    cases hro : R.objects[k]? with
    | none =>
      have hal : Alone L R k lo := ⟨hlo, hro⟩
      exact same_and_stable_of_one (exchange_alone sha256 hal) (h.alone k lo (.inl hal))
    | some ro =>
      have hboth : Both L R k lo ro := ⟨hlo, hro⟩
      exact (agrees_at hboth).mpr (h.agrees hboth hk)

/-- No live payload is lost without a reason. -/
theorem holds (h : Concordant sha256 L R) {k : String} {o : MeshObject} (ho : Standing L R k o) :
    Holds (exchange sha256 L R) o.payload ∧ Holds (exchange sha256 R L) o.payload := by
  obtain ⟨ho, ht, hedge, hother⟩ := ho
  cases hr : R.objects[k]? with
  | none =>
    have hboth := exchange_alone sha256 (⟨ho, hr⟩ : Alone L R k o)
    exact ⟨⟨k, o, hboth.1, ht, rfl⟩, k, o, hboth.2, ht, rfl⟩
  | some r =>
    have hboth : Both L R k o r := ⟨ho, hr⟩
    obtain ⟨hd', ht'⟩ := hother r hr
    cases hd : o.vector.dominates r.vector with
    | true =>
      -- The other side takes it over.
      refine ⟨⟨k, settle o r, exchange_both sha256 hboth, ?_⟩,
        k, settle r o, exchange_both sha256 hboth.symm, ?_⟩
      · exact settle_live_iff.mpr (.inl ⟨ht, rfl, .inl hd⟩)
      · exact settle_live_iff.mpr (.inr ⟨ht, rfl, hd', hd⟩)
    | false =>
      obtain ⟨hl, hr⟩ := h.kept k o r (.inl hboth) hd hd' ht ht' hedge
      exact ⟨hl.holds, hr.holds⟩

/-- Concordant replicas converge. -/
theorem converges (h : Concordant sha256 L R) : Converges sha256 L R where
  same _ hk := (h.same_and_stable hk).1
  stable _ hk := (h.same_and_stable hk).2
  kept _ _ ho := ho.elim h.holds fun ho' => (h.symm.holds ho').symm

end Concordant

variable (sha256 L R)

/-- An exchange of both sides brings two replicas together exactly if they are concordant. -/
theorem converges_iff : Converges sha256 L R ↔ Concordant sha256 L R :=
  ⟨Converges.concordant, Concordant.converges⟩

end Replicas

/-! ## A sample -/

/-- A digest. -/
def sampleDigest : Digest := ⟨List.replicate 32 0, rfl⟩

/-- A replica with one object. -/
def sampleReplica (o : MeshObject) : Replica where
  objects := (∅ : Dict MeshObject).insert o.id o
  keyed id x hx := by
    rw [get_insert] at hx
    split_ifs at hx with hid
    · rw [← Option.some.inj hx, hid]
    · exact absurd hx (by simp)

theorem sampleReplica_get {o x : MeshObject} {k : String}
    (h : (sampleReplica o).objects[k]? = some x) : k = o.id ∧ x = o := by
  have hget : ((∅ : Dict MeshObject).insert o.id o)[k]? = some x := h
  rw [get_insert] at hget
  split_ifs at hget with hk
  · exact ⟨hk, (Option.some.inj hget).symm⟩
  · exact absurd hget (by simp)

/-- An object that a replica has written once under the id `o`. -/
def sampleObject (kind replica : String) (payload : Bytes) (tombstone : Bool) : MeshObject where
  id := "o"
  kind := kind
  payload := payload
  vector := ⟨(∅ : Dict ℤ).insert replica 1⟩
  tombstone := tombstone
  supersededBy := none

/-- Two captures under one id: each side keeps its own there, and nothing is reported. -/
theorem sample_not_converges : ¬ Converges (fun _ => sampleDigest)
    (sampleReplica (sampleObject "observation" "a" [0] false))
    (sampleReplica (sampleObject "observation" "b" [1] false)) := fun h => by
  have hnot : ¬ Reported (sampleReplica (sampleObject "observation" "a" [0] false))
      (sampleReplica (sampleObject "observation" "b" [1] false)) "o" := by
    unfold Reported
    decide +kernel
  exact absurd (h.same "o" hnot) (by decide +kernel)

end Memplex.Mesh
