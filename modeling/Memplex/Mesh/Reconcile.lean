import Mathlib.Data.List.Sort
import Mathlib.Tactic.Linarith

/-!
# Reconciliation of two replicas

A replica holds objects by id, each with a vector of the edits that its writers had seen. `reconcile`
compares two replicas id by id, and `applyPlan` carries the plan out on one of them: an object whose
vector dominates goes to the other side, and for concurrent objects the kind decides, by union,
removal, supersession or a conflict that is only reported.

What the loop over the plan leaves is determined under each id alone (`exchange_get`): where both
replicas have an object it is `settle` of the two, where one has, it is that one. Only the union rule
writes elsewhere, under an id of its own making, and nothing else is written there
(`exchange_get_new`).
-/

namespace Memplex.Mesh

/-! ## Vectors -/

/-- A dictionary with texts as keys; the order in which it was filled does not matter. -/
abbrev Dict (β : Type) := Std.ExtTreeMap String β

theorem get_insert {β : Type} (d : Dict β) (key k : String) (b : β) :
    (d.insert key b)[k]? = if k = key then some b else d[k]? := by
  rw [Std.ExtTreeMap.getElem?_insert]
  by_cases hk : k = key
  · rw [if_pos hk, if_pos (by rw [hk]; exact Std.ReflCmp.compare_self)]
  · rw [if_neg hk, if_neg fun h => hk (Std.LawfulEqCmp.eq_of_compare h).symm]

/-- What a loop that writes under keys of their own leaves under a key. -/
theorem foldl_insert_get {α β : Type} (key : α → String) (f : Option β → α → β) (xs : List α)
    (hnodup : (xs.map key).Nodup) (d : Dict β) (k : String) :
    (xs.foldl (fun d x => d.insert (key x) (f d[key x]? x)) d)[k]? =
      match xs.find? fun x => key x = k with
      | some x => some (f d[k]? x)
      | none => d[k]? := by
  induction xs generalizing d with
  | nil => rfl
  | cons x xs ih =>
    obtain ⟨hnew, hrest⟩ := List.nodup_cons.mp (List.map_cons ▸ hnodup)
    rw [List.foldl_cons, ih hrest]
    by_cases hk : key x = k
    · -- The rest has nothing under this key.
      have hnone : xs.find? (fun y => key y = k) = none :=
        List.find?_eq_none.mpr fun y hy hyk => hnew
          (hk ▸ of_decide_eq_true hyk ▸ List.mem_map_of_mem hy)
      rw [hnone, List.find?_cons_of_pos (by simpa using hk), ← hk]
      exact Std.ExtTreeMap.getElem?_insert_self
    · rw [List.find?_cons_of_neg (by simpa using hk), get_insert, if_neg (Ne.symm hk)]

/-- The causal clock of an object: how many edits of each replica were seen. -/
structure VersionVector where
  counts : Dict ℤ
deriving DecidableEq

namespace VersionVector

/-- `counts.get(replica, 0)`. -/
def get (v : VersionVector) (replica : String) : ℤ := v.counts[replica]?.getD 0

/-- `dominates`: the loop is over the replicas that the other vector has. -/
def dominates (v other : VersionVector) : Bool :=
  if other.counts.toList.any fun item => v.get item.1 < item.2 then false
  else (other.counts.toList.any fun item => item.2 < v.get item.1) ||
    (other.counts.isEmpty && !v.counts.isEmpty)

/-- `merge`. -/
def merge (v other : VersionVector) : VersionVector :=
  ⟨other.counts.foldl (fun merged replica count =>
    merged.insert replica (max (merged[replica]?.getD 0) count)) v.counts⟩

@[ext] theorem ext {v w : VersionVector} (h : ∀ r : String, v.counts[r]? = w.counts[r]?) :
    v = w := by
  cases v
  cases w
  exact congrArg mk (Std.ExtTreeMap.ext_getElem? h)

/-- The entry of a vector that has one. -/
theorem get_of_some {v : VersionVector} {r : String} {c : ℤ} (h : v.counts[r]? = some c) :
    v.get r = c := by
  rw [get, h]
  rfl

theorem get_of_none {v : VersionVector} {r : String} (h : v.counts[r]? = none) : v.get r = 0 := by
  rw [get, h]
  rfl

/-- A test of the entries of a vector. -/
theorem any_toList {w : VersionVector} {p : String × ℤ → Bool} :
    w.counts.toList.any p = true ↔ ∃ r c, w.counts[r]? = some c ∧ p (r, c) = true := by
  rw [List.any_eq_true]
  constructor
  · rintro ⟨⟨r, c⟩, hmem, hp⟩
    exact ⟨r, c, Std.ExtTreeMap.mem_toList_iff_getElem?_eq_some.mp hmem, hp⟩
  · rintro ⟨r, c, hmem, hp⟩
    exact ⟨(r, c), Std.ExtTreeMap.mem_toList_iff_getElem?_eq_some.mpr hmem, hp⟩

/-- What `dominates` decides. -/
theorem dominates_iff {v w : VersionVector} :
    v.dominates w = true ↔
      (∀ r c, w.counts[r]? = some c → c ≤ v.get r) ∧
        ((∃ r c, w.counts[r]? = some c ∧ c < v.get r) ∨ w.counts = ∅ ∧ v.counts ≠ ∅) := by
  unfold dominates
  split_ifs with hless
  · obtain ⟨r, c, hc, hlt⟩ := any_toList.mp hless
    exact ⟨fun h => absurd h (by simp), fun h => absurd (h.1 r c hc) (by simpa using hlt)⟩
  · have hle : ∀ r c, w.counts[r]? = some c → c ≤ v.get r := fun r c hc => by
      by_contra hlt
      exact hless (any_toList.mpr ⟨r, c, hc, by simpa using hlt⟩)
    have hstrict : (w.counts.toList.any fun item => item.2 < v.get item.1) = true ↔
        ∃ r c, w.counts[r]? = some c ∧ c < v.get r := by
      rw [any_toList]
      simp only [decide_eq_true_eq]
    have hempty : (w.counts.isEmpty && !v.counts.isEmpty) = true ↔
        w.counts = ∅ ∧ v.counts ≠ ∅ := by
      rw [Bool.and_eq_true, Bool.not_eq_true', ← Bool.not_eq_true, Std.ExtTreeMap.isEmpty_iff,
        Std.ExtTreeMap.isEmpty_iff]
    rw [Bool.or_eq_true, hstrict, hempty]
    exact ⟨fun h => ⟨hle, h⟩, fun h => h.2⟩

/-- What `merge` leaves under one replica. -/
theorem merge_get (v w : VersionVector) (r : String) :
    (v.merge w).counts[r]? = match w.counts[r]? with
      | some c => some (max (v.get r) c)
      | none => v.counts[r]? := by
  have hnodup : (w.counts.toList.map Prod.fst).Nodup := by
    rw [Std.ExtTreeMap.map_fst_toList_eq_keys]
    exact Std.ExtTreeMap.nodup_keys
  have hfold := foldl_insert_get Prod.fst (fun (held : Option ℤ) item => max (held.getD 0) item.2)
    w.counts.toList hnodup v.counts r
  rw [merge, Std.ExtTreeMap.foldl_eq_foldl_toList, hfold]
  cases hfind : w.counts.toList.find? fun item => item.1 = r with
  | some item =>
    have hitem : w.counts[r]? = some item.2 := by
      have hr : item.1 = r := by simpa using List.find?_some hfind
      rw [← hr]
      exact Std.ExtTreeMap.mem_toList_iff_getElem?_eq_some.mp (List.mem_of_find?_eq_some hfind)
    rw [hitem]
    rfl
  | none =>
    have hnone : w.counts[r]? = none := by
      by_contra hsome
      obtain ⟨c, hc⟩ := Option.ne_none_iff_exists'.mp hsome
      exact List.find?_eq_none.mp hfind (r, c)
        (Std.ExtTreeMap.mem_toList_iff_getElem?_eq_some.mpr hc) (by simp)
    rw [hnone]

end VersionVector

/-! ## Objects -/

/-- A byte string. -/
abbrev Bytes := List UInt8

/-- A SHA-256 digest. -/
structure Digest where
  bytes : Bytes
  size : bytes.length = 32
deriving DecidableEq

namespace Digest

/-- A digit of the hexadecimal form. -/
def hexDigit (n : ℕ) : Char := if n < 10 then Char.ofNat (48 + n) else Char.ofNat (87 + n)

/-- `hexdigest()`. -/
def hexdigest (d : Digest) : String :=
  String.ofList (d.bytes.flatMap fun b => [hexDigit (b.toNat / 16), hexDigit (b.toNat % 16)])

theorem length_hexdigest (d : Digest) : d.hexdigest.toList.length = 64 := by
  rw [hexdigest, String.toList_ofList, List.length_flatMap]
  simp [d.size]

end Digest

/-- One logical object, as peers exchange it. -/
structure MeshObject where
  id : String
  kind : String
  payload : Bytes
  vector : VersionVector
  tombstone : Bool
  supersededBy : Option String
deriving DecidableEq

/-- What `reconcile` decides for an object. -/
inductive Resolution where
  | fetchRemote
  | sendLocal
  | union
  | superseded
  | removeWins
  | conflict
deriving DecidableEq

/-- The kinds of which both sides are kept. -/
def immutableKinds : List String := ["observation", "raw_turn"]

/-- The kinds that a supersession edge resolves. -/
def supersessionKinds : List String := ["fact"]

/-- `_supersession_pair`. -/
def supersessionPair (lo ro : MeshObject) : Bool :=
  lo.supersededBy = some ro.id || ro.supersededBy = some lo.id

/-! ## Plans -/

/-- The decision for an object that both sides have. -/
def resolution (lo ro : MeshObject) : Resolution :=
  if lo.vector.dominates ro.vector then .sendLocal
  else if ro.vector.dominates lo.vector then .fetchRemote
  else if lo.kind ∈ immutableKinds then .union
  else if lo.tombstone || ro.tombstone then .removeWins
  else if lo.kind ∈ supersessionKinds ∧ supersessionPair lo ro then .superseded
  else .conflict

/-- The decision under an id, of which one side has an object. -/
def resolutionAt (lo ro : Option MeshObject) : Option Resolution :=
  match lo, ro with
  | some _, none => some .sendLocal
  | none, some _ => some .fetchRemote
  | some lo, some ro => some (resolution lo ro)
  | none, none => none

/-- `reconcile`: the plan, in the order of the ids. -/
def reconcile (L R : Dict MeshObject) : List (String × Resolution) :=
  (L ∪ R).keys.filterMap fun id => (resolutionAt L[id]? R[id]?).map fun r => (id, r)

section Apply

variable (sha256 : Bytes → Digest)

/-- The suffix of an id that the union rule makes: eight digits of the digest of the payload. -/
def suffix (payload : Bytes) : String :=
  String.ofList ((sha256 payload).hexdigest.toList.take 8)

/-- The id under which the union rule registers a payload beside an id. -/
def unionId (id : String) (payload : Bytes) : String := id ++ "~" ++ suffix sha256 payload

/-- The object that the union rule registers. -/
def capture (id : String) (ro : MeshObject) : MeshObject where
  id := unionId sha256 id ro.payload
  kind := ro.kind
  payload := ro.payload
  vector := ro.vector
  tombstone := false
  supersededBy := none

/-- One round of the loop over a plan. Nothing is left where an assertion fails. -/
def applyEntry (L R next : Dict MeshObject) (entry : String × Resolution) :
    Option (Dict MeshObject) :=
  let id := entry.1
  match entry.2, L[id]?, R[id]? with
  | .fetchRemote, _, none => none
  | .fetchRemote, none, some ro => some (next.insert id ro)
  | .fetchRemote, some lo, some ro =>
    some (next.insert id { ro with vector := ro.vector.merge lo.vector })
  | .union, some _, some ro =>
    let differs := (next[id]?.all fun held => held.payload ≠ ro.payload) = true
    let next' := if differs ∧ unionId sha256 id ro.payload ∉ next
      then next.insert (unionId sha256 id ro.payload) (capture sha256 id ro) else next
    match next'[id]? with
    | some touched =>
      some (next'.insert id { touched with vector := touched.vector.merge ro.vector })
    | none => some next'
  | .removeWins, some lo, some ro =>
    let winner := if lo.tombstone then lo else ro
    some (next.insert id
      { winner with vector := lo.vector.merge ro.vector, tombstone := true })
  | .removeWins, some lo, none =>
    if lo.tombstone then some (next.insert id { lo with tombstone := true }) else none
  | .removeWins, none, some ro => some (next.insert id { ro with tombstone := true })
  | .removeWins, none, none => none
  | .superseded, some lo, some ro =>
    let superseding := if lo.supersededBy = some ro.id then ro else lo
    let superseded := if lo.supersededBy = some ro.id then lo else ro
    let merged := lo.vector.merge ro.vector
    some ((next.insert superseding.id
        { superseding with vector := merged, tombstone := false, supersededBy := none }).insert
      superseded.id
        { superseded with vector := merged, tombstone := true
                          supersededBy := some superseding.id })
  | _, _, _ => some next

/-- `apply_plan`. -/
def applyPlan (L R : Dict MeshObject) (plan : List (String × Resolution)) :
    Option (Dict MeshObject) :=
  plan.foldlM (applyEntry sha256 L R) L

/-! ## What an exchange leaves -/

/-- What is left under an id that both sides have an object under. -/
def settle (lo ro : MeshObject) : MeshObject :=
  match resolution lo ro with
  | .fetchRemote => { ro with vector := ro.vector.merge lo.vector }
  | .union => { lo with vector := lo.vector.merge ro.vector }
  | .removeWins =>
    { (if lo.tombstone then lo else ro) with
      vector := lo.vector.merge ro.vector, tombstone := true }
  | .superseded =>
    { (if lo.supersededBy = some lo.id then lo else ro) with
      vector := lo.vector.merge ro.vector, tombstone := true, supersededBy := some lo.id }
  | .sendLocal | .conflict => lo

section Settle

variable {lo ro : MeshObject}

theorem settle_sendLocal (h : resolution lo ro = .sendLocal) : settle lo ro = lo := by
  rw [settle, h]

theorem settle_conflict (h : resolution lo ro = .conflict) : settle lo ro = lo := by
  rw [settle, h]

theorem settle_fetchRemote (h : resolution lo ro = .fetchRemote) :
    settle lo ro = { ro with vector := ro.vector.merge lo.vector } := by
  rw [settle, h]

theorem settle_union (h : resolution lo ro = .union) :
    settle lo ro = { lo with vector := lo.vector.merge ro.vector } := by
  rw [settle, h]

theorem settle_removeWins (h : resolution lo ro = .removeWins) :
    settle lo ro = { (if lo.tombstone then lo else ro) with
      vector := lo.vector.merge ro.vector, tombstone := true } := by
  rw [settle, h]

theorem settle_superseded (h : resolution lo ro = .superseded) :
    settle lo ro = { (if lo.supersededBy = some lo.id then lo else ro) with
      vector := lo.vector.merge ro.vector, tombstone := true, supersededBy := some lo.id } := by
  rw [settle, h]

end Settle

/-- What is left under an id that one side has an object under. -/
def settleAt (lo ro : Option MeshObject) : Option MeshObject :=
  match lo, ro with
  | some lo, some ro => some (settle lo ro)
  | some lo, none => some lo
  | none, ro => ro

theorem isSome_settleAt {lo ro : Option MeshObject} :
    (settleAt lo ro).isSome = true ↔ lo.isSome = true ∨ ro.isSome = true := by
  cases lo with
  | none => simp [settleAt]
  | some lo => cases ro <;> simp [settleAt]

theorem isSome_resolutionAt {lo ro : Option MeshObject} :
    (resolutionAt lo ro).isSome = true ↔ lo.isSome = true ∨ ro.isSome = true := by
  cases lo <;> cases ro <;> simp [resolutionAt]

/-- What the union rule registers for an id. -/
def captureAt (L R : Dict MeshObject) (id : String) : Option MeshObject :=
  match L[id]?, R[id]? with
  | some lo, some ro =>
    if resolution lo ro = .union ∧ lo.payload ≠ ro.payload then some (capture sha256 id ro)
    else none
  | _, _ => none

/-- Each object is under its own id. -/
def Keyed (S : Dict MeshObject) : Prop :=
  ∀ (id : String) (o : MeshObject), S[id]? = some o → o.id = id

/-- An id that the union rule makes is longer than the id that it makes it of. -/
theorem unionId_ne (id : String) (payload : Bytes) : unionId sha256 id payload ≠ id := by
  intro h
  have hlen := congrArg String.length h
  rw [unionId, String.length_append, String.length_append] at hlen
  have hone : ("~" : String).length = 1 := by decide
  omega

variable {sha256} {L R next : Dict MeshObject}

/-- The round of the union rule. -/
theorem applyEntry_union (sha256 : Bytes → Digest) {id : String} {lo ro : MeshObject} (hlo : L[id]? = some lo)
    (hro : R[id]? = some ro) (hnext : next[id]? = some lo) :
    ∃ next', applyEntry sha256 L R next (id, .union) = some next' ∧
      ∀ k : String, next'[k]? = if k = id then
          some { lo with vector := lo.vector.merge ro.vector }
        else next[k]?.or (if lo.payload ≠ ro.payload ∧ unionId sha256 id ro.payload = k then
          some (capture sha256 id ro) else none) := by
  have hdiffers : (next[id]?.all fun held => held.payload ≠ ro.payload) = true ↔
      lo.payload ≠ ro.payload := by
    rw [hnext, Option.all_some, decide_eq_true_iff]
  simp only [applyEntry, hlo, hro, hdiffers]
  by_cases hnew : lo.payload ≠ ro.payload ∧ unionId sha256 id ro.payload ∉ next
  · -- The payload is registered under an id of its own.
    have hhere : (next.insert (unionId sha256 id ro.payload) (capture sha256 id ro))[id]? =
        some lo := by
      rw [get_insert, if_neg (unionId_ne sha256 id ro.payload).symm, hnext]
    have hnone : next[unionId sha256 id ro.payload]? = none := by
      simpa using hnew.2
    simp only [if_pos hnew, hhere]
    refine ⟨_, rfl, fun k => ?_⟩
    rw [get_insert, get_insert]
    by_cases hk : k = id
    · rw [if_pos hk, if_pos hk]
    · rw [if_neg hk, if_neg hk]
      by_cases hu : unionId sha256 id ro.payload = k
      · rw [if_pos hu.symm, if_pos ⟨hnew.1, hu⟩, ← hu, hnone, Option.none_or]
      · rw [if_neg (Ne.symm hu), if_neg fun h => hu h.2, Option.or_none]
  · simp only [if_neg hnew, hnext]
    refine ⟨_, rfl, fun k => ?_⟩
    rw [get_insert]
    by_cases hk : k = id
    · rw [if_pos hk, if_pos hk]
    · rw [if_neg hk, if_neg hk]
      split_ifs with hu
      · -- The id is taken.
        have htaken : (next[k]?).isSome = true := by
          by_contra hfree
          refine hnew ⟨hu.1, ?_⟩
          rw [hu.2]
          simpa using hfree
        obtain ⟨o, ho⟩ := Option.isSome_iff_exists.mp htaken
        rw [ho, Option.some_or]
      · rw [Option.or_none]

/-- One round, at an id that no round has come to. -/
theorem applyEntry_get (sha256 : Bytes → Digest) (hL : Keyed L) (hR : Keyed R) {id : String} {r : Resolution}
    (hr : resolutionAt L[id]? R[id]? = some r)
    (hnext : ∀ lo, L[id]? = some lo → next[id]? = some lo) :
    ∃ next', applyEntry sha256 L R next (id, r) = some next' ∧
      ∀ k : String, next'[k]? = if k = id then settleAt L[id]? R[id]?
        else next[k]?.or ((captureAt sha256 L R id).filter fun o => o.id = k) := by
  cases hlo : L[id]? with
  | none =>
    cases hro : R[id]? with
    | none => simp [resolutionAt, hlo, hro] at hr
    | some ro =>
      obtain rfl : r = .fetchRemote := by simpa [resolutionAt, hlo, hro, eq_comm] using hr
      refine ⟨next.insert id ro, by simp only [applyEntry, hlo, hro], fun k => ?_⟩
      rw [get_insert]
      simp [settleAt, captureAt, hlo]
  | some lo =>
    have hhere := hnext lo hlo
    cases hro : R[id]? with
    | none =>
      obtain rfl : r = .sendLocal := by simpa [resolutionAt, hlo, hro, eq_comm] using hr
      refine ⟨next, by simp only [applyEntry, hlo, hro], fun k => ?_⟩
      by_cases hk : k = id
      · rw [if_pos hk, hk, hhere]
        rfl
      · simp [captureAt, hlo, hro, hk]
    | some ro =>
      obtain rfl : r = resolution lo ro := by simpa [resolutionAt, hlo, hro, eq_comm] using hr
      have hloid : lo.id = id := hL id lo hlo
      have hroid : ro.id = id := hR id ro hro
      -- Only the union rule writes under another id.
      have helse : resolution lo ro ≠ .union → ∀ k : String,
          next[k]?.or ((captureAt sha256 L R id).filter fun o => o.id = k) = next[k]? :=
        fun hne k => by simp [captureAt, hlo, hro, hne]
      cases hres : resolution lo ro with
      | union =>
        obtain ⟨next', happly, hget⟩ := applyEntry_union sha256 hlo hro hhere
        refine ⟨next', happly, fun k => ?_⟩
        rw [hget k]
        simp only [settleAt, settle, captureAt, hlo, hro, hres, true_and]
        split_ifs with hk hcap hdiff hdiff
        · rfl
        · have hid : (capture sha256 id ro).id = k := hcap.2
          rw [Option.filter_some, if_pos (by simpa using hid)]
        · exact absurd hcap.1 hdiff
        · have hid : (capture sha256 id ro).id ≠ k := fun h => hcap ⟨hdiff, h⟩
          rw [Option.filter_some, if_neg (by simpa using hid)]
        · rfl
      | sendLocal =>
        refine ⟨next, rfl, fun k => ?_⟩
        rw [helse (by rw [hres]; simp) k, settleAt, settle_sendLocal hres]
        by_cases hk : k = id
        · rw [if_pos hk, hk, hhere]
        · rw [if_neg hk]
      | conflict =>
        refine ⟨next, rfl, fun k => ?_⟩
        rw [helse (by rw [hres]; simp) k, settleAt, settle_conflict hres]
        by_cases hk : k = id
        · rw [if_pos hk, hk, hhere]
        · rw [if_neg hk]
      | fetchRemote =>
        refine ⟨_, by simp only [applyEntry, hlo, hro]; rfl, fun k => ?_⟩
        rw [helse (by rw [hres]; simp) k, settleAt, settle_fetchRemote hres, get_insert]
      | removeWins =>
        refine ⟨_, by simp only [applyEntry, hlo, hro]; rfl, fun k => ?_⟩
        rw [helse (by rw [hres]; simp) k, settleAt, settle_removeWins hres, get_insert]
      | superseded =>
        -- Both objects have this id, and the second of the two writes stays.
        refine ⟨_, by simp only [applyEntry, hlo, hro]; rfl, fun k => ?_⟩
        rw [helse (by rw [hres]; simp) k, settleAt, settle_superseded hres]
        have hsuperseding : (if lo.supersededBy = some ro.id then ro else lo).id = id := by
          rw [apply_ite MeshObject.id, hloid, hroid, ite_self]
        have hsuperseded : (if lo.supersededBy = some ro.id then lo else ro).id = id := by
          rw [apply_ite MeshObject.id, hloid, hroid, ite_self]
        rw [get_insert, get_insert, hsuperseding, hsuperseded, hloid, hroid]
        by_cases hk : k = id
        · rw [if_pos hk, if_pos hk]
          by_cases hedge : lo.supersededBy = some id
          · simp only [if_pos hedge, hloid]
          · simp only [if_neg hedge, hroid]
        · rw [if_neg hk, if_neg hk, if_neg hk]

/-- The rounds, over ids that occur once. -/
theorem foldlM_applyEntry (sha256 : Bytes → Digest) (next : Dict MeshObject) (hL : Keyed L)
    (hR : Keyed R) (plan : List (String × Resolution))
    (hplan : ∀ x ∈ plan, resolutionAt L[x.1]? R[x.1]? = some x.2)
    (hnodup : (plan.map Prod.fst).Nodup) (done : List String)
    (hnew : ∀ x ∈ plan, x.1 ∉ done)
    (hdone : ∀ k ∈ done, (settleAt L[k]? R[k]?).isSome = true)
    (hnext : ∀ k : String, next[k]? = if k ∈ done then settleAt L[k]? R[k]?
      else L[k]?.or (done.findSome? fun id =>
        (captureAt sha256 L R id).filter fun o => o.id = k)) :
    ∃ next', plan.foldlM (applyEntry sha256 L R) next = some next' ∧
      ∀ k : String, next'[k]? = if k ∈ done ++ plan.map Prod.fst then settleAt L[k]? R[k]?
        else L[k]?.or ((done ++ plan.map Prod.fst).findSome? fun id =>
          (captureAt sha256 L R id).filter fun o => o.id = k) := by
  induction plan generalizing done next with
  | nil => exact ⟨next, rfl, by simpa using hnext⟩
  | cons x plan ih =>
    obtain ⟨id, r⟩ := x
    obtain ⟨hid, hrest⟩ := List.nodup_cons.mp (List.map_cons ▸ hnodup)
    have hr := hplan (id, r) List.mem_cons_self
    have hfresh : id ∉ done := hnew (id, r) List.mem_cons_self
    have hhere : ∀ lo, L[id]? = some lo → next[id]? = some lo := fun lo hlo => by
      rw [hnext id, if_neg hfresh, hlo, Option.some_or]
    obtain ⟨next₁, happly, hget⟩ := applyEntry_get sha256 hL hR hr hhere
    have hsome : (settleAt L[id]? R[id]?).isSome = true :=
      isSome_settleAt.mpr (isSome_resolutionAt.mp (by rw [hr]; rfl))
    have hstep : ∀ k : String, next₁[k]? = if k ∈ done ++ [id] then settleAt L[k]? R[k]?
        else L[k]?.or ((done ++ [id]).findSome? fun id =>
          (captureAt sha256 L R id).filter fun o => o.id = k) := fun k => by
      rw [hget k]
      by_cases hk : k = id
      · rw [if_pos hk, if_pos (by simp [hk]), hk]
      · rw [if_neg hk, hnext k]
        by_cases hmem : k ∈ done
        · -- What a round has settled stays.
          obtain ⟨o, ho⟩ := Option.isSome_iff_exists.mp (hdone k hmem)
          rw [if_pos hmem, if_pos (List.mem_append_left _ hmem), ho, Option.some_or]
        · have hmem' : k ∉ done ++ [id] := by simp [hmem, hk]
          rw [if_neg hmem, if_neg hmem', List.findSome?_append, Option.or_assoc,
            List.findSome?_singleton]
    obtain ⟨next', hrun, hfinal⟩ := ih next₁ (fun y hy => hplan y (.tail _ hy)) hrest
      (done ++ [id])
      (fun y hy hmem => by
        rcases List.mem_append.mp hmem with hmem | hmem
        · exact hnew y (.tail _ hy) hmem
        · have hold : y.1 ∈ plan.map Prod.fst := List.mem_map_of_mem hy
          rw [List.mem_singleton.mp hmem] at hold
          exact hid hold)
      (fun k hk => by
        rcases List.mem_append.mp hk with hk | hk
        · exact hdone k hk
        · rw [List.mem_singleton.mp hk]
          exact hsome)
      hstep
    refine ⟨next', by rw [List.foldlM_cons, happly]; exact hrun, fun k => ?_⟩
    rw [hfinal k, List.append_assoc, List.singleton_append, List.map_cons]

/-- The plan of two replicas decides on every id of either, once. -/
theorem reconcile_spec (L R : Dict MeshObject) :
    (∀ x ∈ reconcile L R, resolutionAt L[x.1]? R[x.1]? = some x.2) ∧
      (reconcile L R).map Prod.fst = (L ∪ R).keys := by
  constructor
  · intro x hx
    obtain ⟨id, -, hid⟩ := List.mem_filterMap.mp hx
    obtain ⟨r, hr, rfl⟩ := Option.map_eq_some_iff.mp hid
    exact hr
  · rw [reconcile, List.map_filterMap]
    have hsome : ∀ id ∈ (L ∪ R).keys,
        ((resolutionAt L[id]? R[id]?).map fun r => (id, r)).map Prod.fst = some id := by
      intro id hid
      have hin : L[id]?.isSome = true ∨ R[id]?.isSome = true := by
        simpa using hid
      obtain ⟨r, hr⟩ := Option.isSome_iff_exists.mp (isSome_resolutionAt.mpr hin)
      rw [hr]
      rfl
    rw [List.filterMap_congr hsome, List.filterMap_some]

/-- A plan has what is decided under each id. -/
theorem mem_reconcile {L R : Dict MeshObject} {id : String} {r : Resolution} :
    (id, r) ∈ reconcile L R ↔ resolutionAt L[id]? R[id]? = some r := by
  constructor
  · exact (reconcile_spec L R).1 (id, r)
  · intro hr
    have hin : id ∈ L ∪ R := by
      have hsome := isSome_resolutionAt.mp (by rw [hr]; rfl : (resolutionAt L[id]? R[id]?).isSome)
      simpa using hsome
    refine List.mem_filterMap.mpr ⟨id, Std.ExtTreeMap.mem_keys.mpr hin, ?_⟩
    rw [hr]
    rfl

variable (sha256) in
/-- The plan of two replicas is carried out to its end, and what it leaves is known under each id. -/
theorem applyPlan_get (hL : Keyed L) (hR : Keyed R) :
    ∃ next', applyPlan sha256 L R (reconcile L R) = some next' ∧
      ∀ k : String, next'[k]? = if k ∈ L ∪ R then settleAt L[k]? R[k]?
        else (L ∪ R).keys.findSome? fun id =>
          (captureAt sha256 L R id).filter fun o => o.id = k := by
  obtain ⟨hplan, hids⟩ := reconcile_spec L R
  have hnodup : ((reconcile L R).map Prod.fst).Nodup := by
    rw [hids]
    exact Std.ExtTreeMap.nodup_keys
  obtain ⟨next', hrun, hget⟩ := foldlM_applyEntry sha256 L hL hR _ hplan
    hnodup [] (by simp) (by simp) (by simp)
  refine ⟨next', hrun, fun k => ?_⟩
  rw [hget k, List.nil_append, hids]
  by_cases hk : k ∈ L ∪ R
  · rw [if_pos hk, if_pos (Std.ExtTreeMap.mem_keys.mpr hk)]
  · have hnone : L[k]? = none := by
      simp only [Std.ExtTreeMap.mem_union_iff, not_or] at hk
      simpa using hk.1
    rw [if_neg hk, if_neg fun h => hk (Std.ExtTreeMap.mem_keys.mp h), hnone, Option.none_or]

end Apply

/-! ## Replicas -/

/-- A replica: its objects, by their ids. -/
structure Replica where
  objects : Dict MeshObject
  keyed : Keyed objects

/-- What is left has the id of both. -/
theorem settle_id {lo ro : MeshObject} (h : ro.id = lo.id) : (settle lo ro).id = lo.id := by
  cases hres : resolution lo ro with
  | sendLocal => rw [settle_sendLocal hres]
  | conflict => rw [settle_conflict hres]
  | fetchRemote =>
    rw [settle_fetchRemote hres]
    exact h
  | union => rw [settle_union hres]
  | removeWins =>
    rw [settle_removeWins hres]
    show (if lo.tombstone then lo else ro).id = lo.id
    rw [apply_ite MeshObject.id, h, ite_self]
  | superseded =>
    rw [settle_superseded hres]
    show (if lo.supersededBy = some lo.id then lo else ro).id = lo.id
    rw [apply_ite MeshObject.id, h, ite_self]

section Exchange

variable (sha256 : Bytes → Digest)

/-- One side of an exchange: the local replica after its plan against the remote one. -/
def exchange (L R : Replica) : Replica where
  objects := (applyPlan sha256 L.objects R.objects (reconcile L.objects R.objects)).getD L.objects
  keyed := by
    obtain ⟨next', hrun, hget⟩ := applyPlan_get sha256 L.keyed R.keyed
    rw [hrun, Option.getD_some]
    intro id o ho
    rw [hget id] at ho
    split_ifs at ho with hid
    · cases hlo : L.objects[id]? with
      | none =>
        rw [hlo] at ho
        exact R.keyed id o ho
      | some lo =>
        cases hro : R.objects[id]? with
        | none =>
          rw [hlo, hro] at ho
          cases Option.some.inj ho
          exact L.keyed id _ hlo
        | some ro =>
          rw [hlo, hro] at ho
          cases Option.some.inj ho
          rw [settle_id ((R.keyed id ro hro).trans (L.keyed id lo hlo).symm)]
          exact L.keyed id lo hlo
    · obtain ⟨j, -, hj⟩ := List.exists_of_findSome?_eq_some ho
      simpa using (Option.filter_eq_some_iff.mp hj).2

/-- The plan is carried out to its end. -/
theorem applyPlan_reconcile (L R : Replica) :
    applyPlan sha256 L.objects R.objects (reconcile L.objects R.objects) =
      some (exchange sha256 L R).objects := by
  obtain ⟨next', hrun, -⟩ := applyPlan_get sha256 L.keyed R.keyed
  have hobjects : (exchange sha256 L R).objects = next' := by
    rw [exchange]
    simp only [hrun, Option.getD_some]
  rw [hrun, hobjects]

/-- What an exchange leaves under an id that one of the replicas has. -/
theorem exchange_get (L R : Replica) {k : String}
    (hk : L.objects[k]?.isSome = true ∨ R.objects[k]?.isSome = true) :
    (exchange sha256 L R).objects[k]? = settleAt L.objects[k]? R.objects[k]? := by
  obtain ⟨next', hrun, hget⟩ := applyPlan_get sha256 L.keyed R.keyed
  have hin : k ∈ L.objects ∪ R.objects := by simpa using hk
  rw [exchange]
  simp only [hrun, Option.getD_some]
  rw [hget k, if_pos hin]

/-- Both replicas have an object under the id. -/
def Both (L R : Replica) (k : String) (lo ro : MeshObject) : Prop :=
  L.objects[k]? = some lo ∧ R.objects[k]? = some ro

/-- Only the first replica has an object under the id. -/
def Alone (L R : Replica) (k : String) (o : MeshObject) : Prop :=
  L.objects[k]? = some o ∧ R.objects[k]? = none

theorem Both.symm {L R : Replica} {k : String} {lo ro : MeshObject} (h : Both L R k lo ro) :
    Both R L k ro lo :=
  ⟨h.2, h.1⟩

theorem Both.id_eq {L R : Replica} {k : String} {lo ro : MeshObject} (h : Both L R k lo ro) :
    ro.id = lo.id :=
  (R.keyed k ro h.2).trans (L.keyed k lo h.1).symm

theorem exchange_both {L R : Replica} {k : String} {lo ro : MeshObject} (h : Both L R k lo ro) :
    (exchange sha256 L R).objects[k]? = some (settle lo ro) := by
  rw [exchange_get sha256 L R (.inl (by rw [h.1]; rfl)), h.1, h.2]
  rfl

/-- What one replica has alone, both have afterwards. -/
theorem exchange_alone {L R : Replica} {k : String} {o : MeshObject} (h : Alone L R k o) :
    Both (exchange sha256 L R) (exchange sha256 R L) k o o := by
  constructor
  · rw [exchange_get sha256 L R (.inl (by rw [h.1]; rfl)), h.1, h.2]
    rfl
  · rw [exchange_get sha256 R L (.inr (by rw [h.1]; rfl)), h.1, h.2]
    rfl

/-- The id and the payload can be read from an id that the union rule makes. -/
theorem unionId_inj {id id' : String} {p p' : Bytes}
    (h : unionId sha256 id p = unionId sha256 id' p') :
    id = id' ∧ suffix sha256 p = suffix sha256 p' := by
  have hlen : ∀ p, (suffix sha256 p).toList.length = 8 := fun p => by
    rw [suffix, String.toList_ofList, List.length_take, Digest.length_hexdigest]
    rfl
  have hlist := congrArg String.toList h
  rw [unionId, unionId, String.toList_append, String.toList_append, String.toList_append,
    String.toList_append] at hlist
  obtain ⟨hfront, hback⟩ := List.append_inj' hlist ((hlen p).trans (hlen p').symm)
  exact ⟨String.toList_inj.mp (List.append_cancel_right hfront), String.toList_inj.mp hback⟩

/-- The union rule registers the remote payload of `id` under `k`. -/
def Captures (L R : Replica) (k : String) (o : MeshObject) : Prop :=
  ∃ id lo ro, Both L R id lo ro ∧ resolution lo ro = .union ∧ lo.payload ≠ ro.payload ∧
    unionId sha256 id ro.payload = k ∧ o = capture sha256 id ro

/-- What an exchange leaves under an id that none of the replicas has. -/
theorem exchange_get_new (L R : Replica) {k : String} (hl : L.objects[k]? = none)
    (hr : R.objects[k]? = none) {o : MeshObject} :
    (exchange sha256 L R).objects[k]? = some o ↔ Captures sha256 L R k o := by
  obtain ⟨next', hrun, hget⟩ := applyPlan_get sha256 L.keyed R.keyed
  have hout : k ∉ L.objects ∪ R.objects := by simp_all
  have hfind : (exchange sha256 L R).objects[k]? = (L.objects ∪ R.objects).keys.findSome?
      fun id => (captureAt sha256 L.objects R.objects id).filter fun o => o.id = k := by
    rw [exchange]
    simp only [hrun, Option.getD_some]
    rw [hget k, if_neg hout]
  -- The rounds that register something do it for objects of both sides.
  have hone : ∀ id o, ((captureAt sha256 L.objects R.objects id).filter fun o => o.id = k) =
      some o ↔ ∃ lo ro, Both L R id lo ro ∧ resolution lo ro = .union ∧
        lo.payload ≠ ro.payload ∧ unionId sha256 id ro.payload = k ∧
        o = capture sha256 id ro := by
    intro id o
    rw [Option.filter_eq_some_iff]
    constructor
    · rintro ⟨hcap, hid⟩
      unfold captureAt at hcap
      split at hcap
      next lo ro hlo hro =>
        split_ifs at hcap with hdiff
        cases Option.some.inj hcap
        exact ⟨lo, ro, ⟨hlo, hro⟩, hdiff.1, hdiff.2, of_decide_eq_true hid, rfl⟩
      · exact absurd hcap (by simp)
    · rintro ⟨lo, ro, ⟨hlo, hro⟩, hres, hdiff, hid, rfl⟩
      refine ⟨?_, decide_eq_true hid⟩
      simp only [captureAt, hlo, hro]
      exact if_pos ⟨hres, hdiff⟩
  rw [hfind]
  constructor
  · intro ho
    obtain ⟨id, -, hid⟩ := List.exists_of_findSome?_eq_some ho
    exact ⟨id, (hone id o).mp hid⟩
  · rintro ⟨id, lo, ro, hboth, hrest⟩
    have hid := (hone id o).mpr ⟨lo, ro, hboth, hrest⟩
    cases hfirst : (L.objects ∪ R.objects).keys.findSome?
      fun id => (captureAt sha256 L.objects R.objects id).filter fun o => o.id = k with
    | none =>
      have hin : id ∈ (L.objects ∪ R.objects).keys := by
        rw [Std.ExtTreeMap.mem_keys, Std.ExtTreeMap.mem_union_iff,
          Std.ExtTreeMap.mem_iff_isSome_getElem?, hboth.1]
        exact .inl rfl
      have hnone := List.findSome?_eq_none_iff.mp hfirst id hin
      exact absurd (hid.symm.trans hnone) (by simp)
    | some o' =>
      -- It is the same round, since the id tells which one it was.
      obtain ⟨id', -, hid'⟩ := List.exists_of_findSome?_eq_some hfirst
      obtain ⟨lo', ro', hboth', -, -, hk', rfl⟩ := (hone id' o').mp hid'
      obtain ⟨rfl, -⟩ := unionId_inj sha256 (hk'.trans hrest.2.2.1.symm)
      cases Option.some.inj (hboth.2.symm.trans hboth'.2)
      rw [hrest.2.2.2]

end Exchange

end Memplex.Mesh
