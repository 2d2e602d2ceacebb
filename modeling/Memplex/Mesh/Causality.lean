import Memplex.Mesh.Tombstones

/-!
# The order of version vectors

A missing entry of a vector counts as zero, and one vector should dominate another exactly if it is
strictly above it in the componentwise order. `dominates` only looks at the replicas that the other
vector lists. What a vector has under the others is seen in one case alone, where the other lists
nothing, and there any entry counts as more. So an edit by a replica that is new to the other vector
is overlooked (`Overlooked`), and `bump` by such a replica makes a vector that does not dominate the
one it was made from. The exact conditions are in `causal_order_iff`; the entries are any integers,
as a peer may send them.
-/

namespace Memplex.Mesh

namespace VersionVector

/-- `bump`. -/
def bump (v : VersionVector) (replica : String) : VersionVector :=
  ⟨v.counts.insert replica (v.get replica + 1)⟩

/-- `concurrent_with`. -/
def concurrentWith (v other : VersionVector) : Bool := !v.dominates other && !other.dominates v

/-! ## What the loop compares -/

/-- At least as much under every replica that the other vector lists. -/
def Reaches (v w : VersionVector) : Prop :=
  ∀ (r : String) (c : ℤ), w.counts[r]? = some c → c ≤ v.get r

/-- More under a replica that the other vector lists. -/
def Leads (v w : VersionVector) : Prop :=
  ∃ (r : String) (c : ℤ), w.counts[r]? = some c ∧ c < v.get r

/-- Edits of a replica that the other vector does not list. -/
def Gains (v w : VersionVector) : Prop := ∃ r : String, w.counts[r]? = none ∧ 0 < v.get r

/-- A negative entry of a replica that the other vector does not list. -/
def Sinks (v w : VersionVector) : Prop := ∃ r : String, w.counts[r]? = none ∧ v.get r < 0

/-- What `dominates` decides, in terms of the entries. -/
def Passes (v w : VersionVector) : Prop :=
  v.Reaches w ∧ (v.Leads w ∨ w.counts = ∅ ∧ v.counts ≠ ∅)

/-- Different vectors of which neither is above the other. -/
def Incomparable (v w : VersionVector) : Prop :=
  (∃ r, v.get r ≠ w.get r) ∧ ¬ v.Above w ∧ ¬ w.Above v

/-- A least upper bound in the componentwise order. -/
structure IsJoin (m v w : VersionVector) : Prop where
  left : v.Below m
  right : w.Below m
  least : ∀ u : VersionVector, v.Below u → w.Below u → m.Below u

variable {u v w : VersionVector} {replica : String}

theorem dominates_iff_passes : v.dominates w = true ↔ v.Passes w := dominates_iff

theorem below_iff : w.Below v ↔ v.Reaches w ∧ ¬ v.Sinks w := by
  constructor
  · refine fun h => ⟨fun r c hc => get_of_some hc ▸ h r, ?_⟩
    rintro ⟨r, hnone, hneg⟩
    have hle := h r
    rw [get_of_none hnone] at hle
    omega
  · rintro ⟨hreaches, hsinks⟩ r
    cases hr : w.counts[r]? with
    | some c => exact get_of_some hr ▸ hreaches r c hr
    | none =>
      rw [get_of_none hr]
      by_contra hneg
      exact hsinks ⟨r, hr, not_le.mp hneg⟩

/-- Some component is larger: under a replica that the other lists, or under one that it does not. -/
theorem exists_get_lt_iff : (∃ r, w.get r < v.get r) ↔ v.Leads w ∨ v.Gains w := by
  constructor
  · rintro ⟨r, hlt⟩
    cases hr : w.counts[r]? with
    | some c => exact Or.inl ⟨r, c, hr, get_of_some hr ▸ hlt⟩
    | none => exact Or.inr ⟨r, hr, get_of_none hr ▸ hlt⟩
  · rintro (⟨r, c, hr, hlt⟩ | ⟨r, hr, hlt⟩)
    · exact ⟨r, by rwa [get_of_some hr]⟩
    · exact ⟨r, by rwa [get_of_none hr]⟩

theorem above_iff : v.Above w ↔ (v.Reaches w ∧ ¬ v.Sinks w) ∧ (v.Leads w ∨ v.Gains w) := by
  rw [Above, below_iff, exists_get_lt_iff]

/-- A component differs exactly if one of the vectors is larger in it. -/
theorem incomparable_iff : v.Incomparable w ↔ ¬ v.Below w ∧ ¬ w.Below v := by
  have hexists : ∀ {v w : VersionVector}, ¬ v.Below w ↔ ∃ r, w.get r < v.get r := fun {v w} => by
    simp only [Below, not_forall, not_le]
  constructor
  · rintro ⟨⟨r, hne⟩, hv, hw⟩
    -- Below the other, it would be strictly below by the component that differs.
    refine ⟨fun h => hw ⟨h, r, (h r).lt_of_ne hne⟩, fun h => hv ⟨h, r, (h r).lt_of_ne hne.symm⟩⟩
  · rintro ⟨hv, hw⟩
    obtain ⟨r, hlt⟩ := hexists.mp hv
    exact ⟨⟨r, hlt.ne'⟩, fun h => hw h.1, fun h => hv h.1⟩

theorem reaches_of_empty (h : w.counts = ∅) : v.Reaches w := fun r c hc => by
  rw [h, Std.ExtTreeMap.getElem?_empty] at hc
  cases hc

theorem not_leads_of_empty (h : w.counts = ∅) : ¬ v.Leads w := by
  rintro ⟨r, c, hc, -⟩
  rw [h, Std.ExtTreeMap.getElem?_empty] at hc
  cases hc

/-- A vector without entries is zero everywhere. -/
theorem get_of_empty (h : v.counts = ∅) (r : String) : v.get r = 0 :=
  get_of_none (by rw [h, Std.ExtTreeMap.getElem?_empty])

theorem Gains.ne_empty (h : v.Gains w) : v.counts ≠ ∅ := by
  obtain ⟨r, -, hpos⟩ := h
  exact fun hempty => hpos.ne' (get_of_empty hempty r)

theorem Sinks.ne_empty (h : v.Sinks w) : v.counts ≠ ∅ := by
  obtain ⟨r, -, hneg⟩ := h
  exact fun hempty => hneg.ne (get_of_empty hempty r)

/-! ## Where the verdicts are wrong -/

/-- The vector is above another, but only by replicas that the other, which lists some, does not
list. -/
def Overlooked (v w : VersionVector) : Prop :=
  w.counts ≠ ∅ ∧ (v.Reaches w ∧ ¬ v.Leads w) ∧ ¬ v.Sinks w ∧ v.Gains w

/-- The vector is taken to be above another that it is not above: it has a negative entry that the
other does not list, or nothing but zeros where the other lists nothing. -/
def Overrated (v w : VersionVector) : Prop :=
  (v.Reaches w ∧ v.Leads w) ∧ v.Sinks w ∨
    w.counts = ∅ ∧ v.counts ≠ ∅ ∧ (v.Sinks w ∨ ¬ v.Gains w)

/-- The same counts under all replicas that the other vector lists, and entries if it has some. -/
def Level (v w : VersionVector) : Prop :=
  (v.counts = ∅ ↔ w.counts = ∅) ∧ v.Reaches w ∧ ¬ v.Leads w

/-- The vector is taken to be above another that is incomparable to it. -/
def Crossed (v w : VersionVector) : Prop :=
  v.Reaches w ∧ v.Sinks w ∧ (v.Leads w ∨ w.counts = ∅ ∧ v.Gains w)

/-- The vector `v` between `u` and `w` lacks an entry of `w` under which `u` has less, or has so
little that `u` is not more than `w` anywhere. -/
def Slipped (u v w : VersionVector) : Prop :=
  u.Passes v ∧ v.Passes w ∧
    ((∃ r c, w.counts[r]? = some c ∧ v.counts[r]? = none ∧ u.get r < c) ∨
      ¬ u.Leads w ∧ (w.counts = ∅ → u.counts = ∅))

/-- The verdict of `dominates` is right unless something is overlooked or overrated. -/
theorem dominates_above_iff :
    (v.dominates w = true ↔ v.Above w) ↔ ¬ (v.Overlooked w ∨ v.Overrated w) := by
  rw [dominates_iff_passes, above_iff, Passes, Overlooked, Overrated]
  by_cases hempty : w.counts = ∅
  · have hreaches : v.Reaches w := reaches_of_empty hempty
    have hleads : ¬ v.Leads w := not_leads_of_empty hempty
    have hgains : v.Gains w → v.counts ≠ ∅ := Gains.ne_empty
    tauto
  · tauto

/-- Nothing that one vector has more of leaves it below the other. -/
theorem reaches_and_not_sinks_iff :
    v.Reaches w ∧ ¬ v.Sinks w ↔ ¬ w.Leads v ∧ ¬ w.Gains v := by
  rw [← below_iff, ← not_or, ← exists_get_lt_iff]
  simp only [Below, not_exists, not_lt]

theorem Gains.not_reaches (h : v.Gains w) : ¬ w.Reaches v := by
  obtain ⟨r, hnone, hpos⟩ := h
  intro hreaches
  cases hr : v.counts[r]? with
  | none => exact hpos.ne' (get_of_none hr)
  | some c =>
    have hle := hreaches r c hr
    rw [get_of_none hnone, ← get_of_some hr] at hle
    omega

/-- Two vectors that one of them levels are taken to be concurrent although they can be compared,
and two that cross are not although they cannot. -/
theorem concurrentWith_iff :
    (v.concurrentWith w = true ↔ v.Incomparable w) ↔
      ¬ (v.Level w ∧ ¬ v.Sinks w ∨ w.Level v ∧ ¬ w.Sinks v ∨ v.Crossed w ∨ w.Crossed v) := by
  have hvw : v.Reaches w ∧ ¬ v.Sinks w ↔ ¬ w.Leads v ∧ ¬ w.Gains v := reaches_and_not_sinks_iff
  have hwv : w.Reaches v ∧ ¬ w.Sinks v ↔ ¬ v.Leads w ∧ ¬ v.Gains w := reaches_and_not_sinks_iff
  have hgv : v.Gains w → v.counts ≠ ∅ ∧ ¬ w.Reaches v := fun h => ⟨h.ne_empty, h.not_reaches⟩
  have hgw : w.Gains v → w.counts ≠ ∅ ∧ ¬ v.Reaches w := fun h => ⟨h.ne_empty, h.not_reaches⟩
  have hsv : v.Sinks w → v.counts ≠ ∅ := Sinks.ne_empty
  have hsw : w.Sinks v → w.counts ≠ ∅ := Sinks.ne_empty
  have hew : w.counts = ∅ → v.Reaches w ∧ ¬ v.Leads w := fun h =>
    ⟨reaches_of_empty h, not_leads_of_empty h⟩
  have hev : v.counts = ∅ → w.Reaches v ∧ ¬ w.Leads v := fun h =>
    ⟨reaches_of_empty h, not_leads_of_empty h⟩
  rw [incomparable_iff, below_iff, below_iff, concurrentWith, Bool.and_eq_true,
    Bool.not_eq_true', Bool.not_eq_true', ← Bool.not_eq_true, ← Bool.not_eq_true,
    dominates_iff_passes, dominates_iff_passes, Passes, Passes, Level, Level, Crossed, Crossed]
  grind

/-- The verdicts of three vectors in a row fit together unless the one in the middle slips. -/
theorem dominates_trans_iff :
    (u.dominates v = true → v.dominates w = true → u.dominates w = true) ↔ ¬ Slipped u v w := by
  simp only [dominates_iff_passes]
  constructor
  · rintro htrans ⟨huv, hvw, hslip⟩
    obtain ⟨hreaches, hmore⟩ := htrans huv hvw
    rcases hslip with ⟨r, c, hc, -, hlt⟩ | ⟨hleads, hempty⟩
    · exact absurd (hreaches r c hc) (not_le.mpr hlt)
    · exact hmore.elim hleads fun h => h.2 (hempty h.1)
  · intro hslip huv hvw
    have hreaches : u.Reaches w := fun r c hc => by
      cases hr : v.counts[r]? with
      | some d => exact (hvw.1 r c hc).trans (get_of_some hr ▸ huv.1 r d hr)
      | none =>
        by_contra hlt
        exact hslip ⟨huv, hvw, Or.inl ⟨r, c, hc, hr, not_le.mp hlt⟩⟩
    refine ⟨hreaches, ?_⟩
    by_contra hmore
    exact hslip ⟨huv, hvw, Or.inr (by tauto)⟩

theorem get_merge (v w : VersionVector) (r : String) :
    (v.merge w).get r = if w.counts[r]? = none then v.get r else max (v.get r) (w.get r) := by
  cases hr : w.counts[r]? with
  | some c => rw [get_of_some (get_merge_of_some hr), get_of_some hr, if_neg (by simp)]
  | none => rw [get, get_merge_of_none hr, ← get, if_pos rfl]

/-- A merge is the least upper bound unless it keeps a negative entry that the other vector does not
list. -/
theorem isJoin_merge_iff : (v.merge w).IsJoin v w ↔ ¬ v.Sinks w := by
  constructor
  · rintro h ⟨r, hnone, hneg⟩
    have hle := h.right r
    rw [get_merge, if_pos hnone, get_of_none hnone] at hle
    omega
  · intro hsinks
    have hmax : ∀ r, (v.merge w).get r = max (v.get r) (w.get r) := fun r => by
      rw [get_merge]
      split_ifs with hnone
      · rw [get_of_none hnone, max_eq_left]
        by_contra hneg
        exact hsinks ⟨r, hnone, not_le.mp hneg⟩
      · rfl
    exact ⟨fun r => hmax r ▸ le_max_left _ _, fun r => hmax r ▸ le_max_right _ _,
      fun u hv hw r => hmax r ▸ max_le (hv r) (hw r)⟩

theorem get_bump (v : VersionVector) (replica r : String) :
    (v.bump replica).get r = if r = replica then v.get replica + 1 else v.get r := by
  rw [get, bump, get_insert]
  split_ifs with hr
  · rfl
  · rw [← get]

/-- A bump dominates exactly if the vector lists the replica, or lists nothing. -/
theorem bump_dominates_iff :
    (v.bump replica).dominates v = true ↔ v.counts = ∅ ∨ v.counts[replica]?.isSome = true := by
  rw [dominates_iff_passes]
  have hreaches : (v.bump replica).Reaches v := fun r c hc => by
    rw [get_bump, ← get_of_some hc]
    split_ifs with hr
    · rw [hr]
      omega
    · exact le_rfl
  have hne : (v.bump replica).counts ≠ ∅ := by
    have hone : (v.bump replica).counts[replica]? = some (v.get replica + 1) := by
      rw [bump, get_insert, if_pos rfl]
    exact fun h => by rw [h, Std.ExtTreeMap.getElem?_empty] at hone; cases hone
  constructor
  · rintro ⟨-, ⟨r, c, hc, hlt⟩ | ⟨hempty, -⟩⟩
    · rw [get_bump] at hlt
      split_ifs at hlt with hr
      · exact Or.inr (by rw [← hr, hc]; rfl)
      · exact absurd (get_of_some hc) hlt.ne'
    · exact Or.inl hempty
  · rintro (hempty | hsome)
    · exact ⟨hreaches, Or.inr ⟨hempty, hne⟩⟩
    · obtain ⟨c, hc⟩ := Option.isSome_iff_exists.mp hsome
      refine ⟨hreaches, Or.inl ⟨replica, c, hc, ?_⟩⟩
      rw [get_bump, if_pos rfl, get_of_some hc]
      omega

/-- What it takes for the verdicts on vectors to be the causal order: nothing is overlooked or
overrated, no vector slips, comparable vectors are not level and incomparable ones do not cross, a
merge loses no bound, and a bump is by a replica that the vector lists. -/
theorem causal_order_iff (u v w : VersionVector) (replica : String) :
    ((v.dominates w = true ↔ v.Above w) ↔ ¬ (v.Overlooked w ∨ v.Overrated w)) ∧
    v.dominates v = false ∧
    ((u.dominates v = true → v.dominates w = true → u.dominates w = true) ↔ ¬ Slipped u v w) ∧
    ((v.concurrentWith w = true ↔ v.Incomparable w) ↔
      ¬ (v.Level w ∧ ¬ v.Sinks w ∨ w.Level v ∧ ¬ w.Sinks v ∨ v.Crossed w ∨ w.Crossed v)) ∧
    ((v.merge w).IsJoin v w ↔ ¬ v.Sinks w) ∧
    ((v.bump replica).dominates v = true ↔
      v.counts = ∅ ∨ v.counts[replica]?.isSome = true) :=
  ⟨dominates_above_iff, dominates_irrefl v, dominates_trans_iff, concurrentWith_iff,
    isJoin_merge_iff, bump_dominates_iff⟩

/-- A vector that an edit of a new replica was added to is above the vector before, does not dominate
it, and is taken to be concurrent with it. -/
theorem bump_overlooked :
    let v : VersionVector := ⟨(∅ : Dict ℤ).insert "a" 1⟩
    (v.bump "b").Above v ∧ (v.bump "b").dominates v = false ∧
      (v.bump "b").concurrentWith v = true ∧ v.concurrentWith v = true := by
  intro v
  have hnot : (v.bump "b").dominates v = false := by
    rw [Bool.eq_false_iff, ne_eq, bump_dominates_iff]
    decide
  have habove : (v.bump "b").Above v := by
    refine ⟨fun r => ?_, "b", ?_⟩
    · rw [get_bump]
      split_ifs with hr
      · rw [hr]
        omega
      · exact le_rfl
    · rw [get_bump, if_pos rfl]
      omega
  refine ⟨habove, hnot, ?_, ?_⟩
  · have hback : v.dominates (v.bump "b") = false := by decide
    rw [concurrentWith, hnot, hback]
    rfl
  · rw [concurrentWith, dominates_irrefl]
    rfl

end VersionVector

end Memplex.Mesh
