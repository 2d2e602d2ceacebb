import Memplex.Mesh.Gossip
import Mathlib.Data.List.Dedup
import Mathlib.Data.List.Sort
import Mathlib.Data.String.Basic

/-!
# Divergence

Where the roots of two replicas differ, the ids that differ are looked for: by `divergent_ids` in the
leaves of two trees, and by `divergent_ids_from_manifest` in the digests that a peer sends instead of
its objects. `merkle_binds` is for any two lists of objects with different ids: their roots are equal
exactly if the lists have the same ids with the same kinds, tombstone flags and payloads, and both
computations name exactly the ids where they have not.
-/

namespace Memplex.Mesh

open Lib Merkle

/-! ## What differs -/

/-- What a leaf binds of an object. -/
def MeshObject.fields (o : MeshObject) : String × String × Bool × Bytes :=
  (o.id, o.kind, o.tombstone, o.payload)

/-- An id is on one side only, or its objects differ. -/
def Diverges (xs ys : List MeshObject) (id : String) : Prop :=
  (id ∈ xs.map MeshObject.id ∧ id ∉ ys.map MeshObject.id) ∨
    (id ∉ xs.map MeshObject.id ∧ id ∈ ys.map MeshObject.id) ∨
    ∃ lo ∈ xs, ∃ ro ∈ ys, lo.id = id ∧ ro.id = id ∧ lo.fields ≠ ro.fields

/-- `sorted(set(a) | set(b))`. -/
def sortedUnion (a b : List String) : List String := (a ++ b).dedup.insertionSort (· ≤ ·)

theorem mem_sortedUnion {a b : List String} {x : String} :
    x ∈ sortedUnion a b ↔ x ∈ a ∨ x ∈ b := by
  rw [sortedUnion, (List.perm_insertionSort _ _).mem_iff, List.mem_dedup, List.mem_append]

/-- Each is listed once, in order. -/
theorem sortedUnion_sorted (a b : List String) : (sortedUnion a b).Pairwise (· < ·) := by
  have hle : (sortedUnion a b).Pairwise (· ≤ ·) := List.pairwise_insertionSort _ _
  have hne : (sortedUnion a b).Pairwise (· ≠ ·) :=
    (List.perm_insertionSort _ _).nodup_iff.mpr (List.nodup_dedup _)
  exact (hle.and hne).imp fun h => lt_of_le_of_ne h.1 h.2

section Trees

variable (sha256 : Bytes → Digest)

/-- `divergent_ids`. -/
def ObjectMerkleTree.divergentIds (t other : ObjectMerkleTree) : List String :=
  (sortedUnion t.leaves.keys other.leaves.keys).filter fun id => t.leaves[id]? ≠ other.leaves[id]?

/-- The digests of the objects, in hexadecimal, by their ids: what `fetch_ids` answers. -/
def manifest (objects : Dict MeshObject) : Dict String :=
  objects.map fun _ o => (leafHash sha256 o).hexdigest

/-- `divergent_ids_from_manifest`: the ids to fetch, and those to send. -/
def divergentIdsFromManifest (localObjects : Dict MeshObject) (remoteManifest : Dict String) :
    List String × List String :=
  let localHashes := manifest sha256 localObjects
  let divergent := (sortedUnion localHashes.keys remoteManifest.keys).filter fun id =>
    localHashes[id]? ≠ remoteManifest[id]?
  (divergent.filter fun id => remoteManifest[id]? ≠ none,
    divergent.filter fun id => remoteManifest[id]? = none)

/-- What a list of objects leaves under an id. -/
theorem foldl_objects_get {xs : List MeshObject} (h : (xs.map MeshObject.id).Nodup) (id : String) :
    (xs.foldl (fun d o => d.insert o.id o) (∅ : Dict MeshObject))[id]? =
      xs.find? fun o => o.id = id := by
  have hfold := foldl_insert_get MeshObject.id (fun (_ : Option MeshObject) o => o) xs h ∅ id
  rw [hfold]
  cases xs.find? fun o => o.id = id with
  | some o => rfl
  | none => rfl

/-- Objects with different ids, as a replica. -/
def Replica.ofObjects (xs : List MeshObject) (h : (xs.map MeshObject.id).Nodup) : Replica where
  objects := xs.foldl (fun d o => d.insert o.id o) ∅
  keyed := by
    intro id o ho
    rw [foldl_objects_get h] at ho
    simpa using List.find?_some ho

/-! ## What a tree has -/

theorem tree_ext {t t' : ObjectMerkleTree} (h : t.leaves = t'.leaves) : t = t' := by
  cases t
  cases t'
  cases h
  rfl

variable {sha256} {xs ys : List MeshObject}

/-- The object of an id, if there is one. -/
theorem find_id_eq_some (h : (xs.map MeshObject.id).Nodup) {id : String} {o : MeshObject} :
    (xs.find? fun o => o.id = id) = some o ↔ o ∈ xs ∧ o.id = id := by
  constructor
  · intro hfind
    exact ⟨List.mem_of_find?_eq_some hfind, by simpa using List.find?_some hfind⟩
  · rintro ⟨ho, hid⟩
    cases hfind : xs.find? fun o => o.id = id with
    | none => exact absurd hid (by simpa using List.find?_eq_none.mp hfind o ho)
    | some o' =>
      have hid' : o'.id = id := by simpa using List.find?_some hfind
      rw [List.inj_on_of_nodup_map h (List.mem_of_find?_eq_some hfind) ho (hid'.trans hid.symm)]

/-- The leaf of an id. -/
theorem ofObjects_leaf (h : (xs.map MeshObject.id).Nodup) (id : String) :
    (ObjectMerkleTree.ofObjects sha256 xs).leaves[id]? =
      (xs.find? fun o => o.id = id).map (leafHash sha256) := by
  have hfold := foldl_insert_get MeshObject.id (fun (_ : Option Digest) o => leafHash sha256 o)
    xs h ∅ id
  rw [ObjectMerkleTree.ofObjects, hfold]
  cases xs.find? fun o => o.id = id with
  | some o => rfl
  | none => rfl

/-- The tree over a list is the one over its replica. -/
theorem ofObjects_eq (h : (xs.map MeshObject.id).Nodup) : ObjectMerkleTree.ofObjects sha256 xs =
    ObjectMerkleTree.ofObjects sha256 ((Replica.ofObjects xs h).objects.toList.map Prod.snd) := by
  refine tree_ext ?_
  rw [(Replica.ofObjects xs h).leaves_map sha256]
  refine Std.ExtTreeMap.ext_getElem? fun id => ?_
  rw [ofObjects_leaf h, Std.ExtTreeMap.getElem?_map]
  congr 1
  exact (foldl_objects_get h id).symm

/-- An id diverges where the two sides have something else under it. -/
theorem diverges_iff (hx : (xs.map MeshObject.id).Nodup) (hy : (ys.map MeshObject.id).Nodup)
    (id : String) : Diverges xs ys id ↔
      (xs.find? fun o => o.id = id).map MeshObject.fields ≠
        (ys.find? fun o => o.id = id).map MeshObject.fields := by
  have hnone : ∀ {zs : List MeshObject}, (zs.find? fun o => o.id = id) = none ↔
      id ∉ zs.map MeshObject.id := fun {zs} => by
    rw [List.find?_eq_none, List.mem_map]
    simp
  have hmem : ∀ {zs : List MeshObject} {o : MeshObject}, o ∈ zs → o.id = id →
      id ∈ zs.map MeshObject.id := fun ho hid => hid ▸ List.mem_map_of_mem ho
  cases hfx : xs.find? fun o => o.id = id with
  | none =>
    have hx' := hnone.mp hfx
    cases hfy : ys.find? fun o => o.id = id with
    | none =>
      have hy' := hnone.mp hfy
      constructor
      · rintro (⟨hin, -⟩ | ⟨-, hin⟩ | ⟨lo, hlo, -, -, hid, -⟩)
        · exact absurd hin hx'
        · exact absurd hin hy'
        · exact absurd (hmem hlo hid) hx'
      · exact fun hne => absurd rfl hne
    | some ro =>
      obtain ⟨hro, hid⟩ := (find_id_eq_some hy).mp hfy
      exact ⟨fun _ => by simp, fun _ => .inr (.inl ⟨hx', hmem hro hid⟩)⟩
  | some lo =>
    obtain ⟨hlo, hid⟩ := (find_id_eq_some hx).mp hfx
    cases hfy : ys.find? fun o => o.id = id with
    | none => exact ⟨fun _ => by simp, fun _ => .inl ⟨hmem hlo hid, hnone.mp hfy⟩⟩
    | some ro =>
      obtain ⟨hro, hid'⟩ := (find_id_eq_some hy).mp hfy
      constructor
      · rintro (⟨-, hout⟩ | ⟨hout, -⟩ | ⟨lo', hlo', ro', hro', hl, hr, hne⟩)
        · exact absurd (hmem hro hid') hout
        · exact absurd (hmem hlo hid) hout
        · cases Option.some.inj (hfx.symm.trans ((find_id_eq_some hx).mpr ⟨hlo', hl⟩))
          cases Option.some.inj (hfy.symm.trans ((find_id_eq_some hy).mpr ⟨hro', hr⟩))
          simpa using hne
      · intro hne
        exact .inr (.inr ⟨lo, hlo, ro, hro, hid, hid', by simpa using hne⟩)

/-! ## What the digests tell -/

/-- Digests with one hexadecimal form are equal. -/
theorem hexdigest_inj {d d' : Digest} (h : d.hexdigest = d'.hexdigest) : d = d' := by
  have hdigit : ∀ m n : Fin 16, Digest.hexDigit m = Digest.hexDigit n → m = n := by decide
  have hbyte : ∀ b b' : UInt8, Digest.hexDigit (b.toNat / 16) = Digest.hexDigit (b'.toNat / 16) →
      Digest.hexDigit (b.toNat % 16) = Digest.hexDigit (b'.toNat % 16) → b = b' := by
    intro b b' hhigh hlow
    have hb := b.toNat_lt
    have hb' := b'.toNat_lt
    have hhigh' := hdigit ⟨b.toNat / 16, by omega⟩ ⟨b'.toNat / 16, by omega⟩ hhigh
    have hlow' := hdigit ⟨b.toNat % 16, by omega⟩ ⟨b'.toNat % 16, by omega⟩ hlow
    rw [Fin.mk.injEq] at hhigh' hlow'
    exact UInt8.toNat_inj.mp (by omega)
  have hbytes : ∀ xs ys : Bytes,
      xs.flatMap (fun b => [Digest.hexDigit (b.toNat / 16), Digest.hexDigit (b.toNat % 16)]) =
        ys.flatMap (fun b => [Digest.hexDigit (b.toNat / 16), Digest.hexDigit (b.toNat % 16)]) →
      xs = ys := by
    intro xs
    induction xs with
    | nil =>
      intro ys heq
      cases ys with
      | nil => rfl
      | cons y ys => simp at heq
    | cons x xs ih =>
      intro ys heq
      cases ys with
      | nil => simp at heq
      | cons y ys =>
        simp only [List.flatMap_cons, List.cons_append, List.nil_append, List.cons.injEq] at heq
        obtain ⟨hhigh, hlow, hrest⟩ := heq
        rw [hbyte x y hhigh hlow, ih ys hrest]
  have hsame : d.bytes = d'.bytes := hbytes _ _ (String.ofList_injective h)
  cases d
  cases d'
  cases hsame
  rfl

/-- The objects of a list are what its replica holds. -/
theorem ofObjects_get (h : (xs.map MeshObject.id).Nodup) {id : String} {o : MeshObject} :
    (Replica.ofObjects xs h).objects[id]? = some o ↔ o ∈ xs ∧ o.id = id := by
  rw [← find_id_eq_some h, ← foldl_objects_get h id]
  rfl

theorem ofObjects_nulFree (h : (xs.map MeshObject.id).Nodup) (hnul : ∀ o ∈ xs, NulFree o) :
    (Replica.ofObjects xs h).NulFree := fun _ o ho => hnul o ((ofObjects_get h).mp ho).1

/-- The leaves of a list are hashed for its root. -/
theorem leaf_mem_hashed (h : (xs.map MeshObject.id).Nodup) {o : MeshObject} (ho : o ∈ xs) :
    leafMessage (leafPayload o) ∈ (Replica.ofObjects xs h).hashed sha256 := by
  have hpayload : leafPayload o ∈ (Replica.ofObjects xs h).payloads :=
    mem_payloads.mpr ⟨o.id, o, (ofObjects_get h).mpr ⟨ho, rfl⟩, rfl⟩
  obtain ⟨t, ht⟩ := Option.isSome_iff_exists.mp (Tree.ofList_isSome (List.ne_nil_of_mem hpayload))
  rw [Replica.hashed, ht]
  exact Tree.leafMessage_mem (Tree.mem_leaves ht hpayload)

/-- Without a collision, leaves with one digest are leaves of the same fields. -/
theorem leafHash_eq_iff (hx : (xs.map MeshObject.id).Nodup) (hy : (ys.map MeshObject.id).Nodup)
    (hnx : ∀ o ∈ xs, NulFree o) (hny : ∀ o ∈ ys, NulFree o)
    (hinj : Set.InjOn sha256 ((Replica.ofObjects xs hx).hashed sha256 ∪
      (Replica.ofObjects ys hy).hashed sha256)) {lo ro : MeshObject} (hlo : lo ∈ xs)
    (hro : ro ∈ ys) : leafHash sha256 lo = leafHash sha256 ro ↔ lo.fields = ro.fields := by
  constructor
  · intro heq
    have hmessage := hinj (.inl (leaf_mem_hashed hx hlo)) (.inr (leaf_mem_hashed hy hro)) heq
    obtain ⟨hid, hkind, htombstone, hpayload⟩ :=
      leafPayload_inj (hnx lo hlo) (hny ro hro) (List.cons.inj hmessage).2
    rw [MeshObject.fields, MeshObject.fields, hid, hkind, htombstone, hpayload]
  · intro heq
    simp only [MeshObject.fields, Prod.mk.injEq] at heq
    obtain ⟨hid, hkind, htombstone, hpayload⟩ := heq
    rw [leafHash, leafHash, leafPayload, leafPayload, hid, hkind, htombstone, hpayload]

/-- The leaves under an id differ where the id diverges. -/
theorem leaf_ne_iff (hx : (xs.map MeshObject.id).Nodup) (hy : (ys.map MeshObject.id).Nodup)
    (hnx : ∀ o ∈ xs, NulFree o) (hny : ∀ o ∈ ys, NulFree o)
    (hinj : Set.InjOn sha256 ((Replica.ofObjects xs hx).hashed sha256 ∪
      (Replica.ofObjects ys hy).hashed sha256)) (id : String) :
    (xs.find? fun o => o.id = id).map (leafHash sha256) ≠
        (ys.find? fun o => o.id = id).map (leafHash sha256) ↔ Diverges xs ys id := by
  rw [diverges_iff hx hy, not_iff_not]
  cases hfx : xs.find? fun o => o.id = id with
  | none => cases ys.find? fun o => o.id = id <;> simp
  | some lo =>
    cases hfy : ys.find? fun o => o.id = id with
    | none => simp
    | some ro =>
      simp only [Option.map_some, Option.some_inj]
      exact leafHash_eq_iff hx hy hnx hny hinj ((find_id_eq_some hx).mp hfx).1
        ((find_id_eq_some hy).mp hfy).1

/-- The fields that a list has are those found under their ids. -/
theorem mem_fields_iff (h : (xs.map MeshObject.id).Nodup) {f : String × String × Bool × Bytes} :
    f ∈ xs.map MeshObject.fields ↔
      (xs.find? fun o => o.id = f.1).map MeshObject.fields = some f := by
  rw [List.mem_map, Option.map_eq_some_iff]
  constructor
  · rintro ⟨o, ho, rfl⟩
    exact ⟨o, (find_id_eq_some h).mpr ⟨ho, rfl⟩, rfl⟩
  · rintro ⟨o, ho, rfl⟩
    exact ⟨o, ((find_id_eq_some h).mp ho).1, rfl⟩

/-- Nothing diverges between lists with the same fields. -/
theorem forall_not_diverges_iff (hx : (xs.map MeshObject.id).Nodup)
    (hy : (ys.map MeshObject.id).Nodup) : (∀ id, ¬ Diverges xs ys id) ↔
      ∀ f, f ∈ xs.map MeshObject.fields ↔ f ∈ ys.map MeshObject.fields := by
  have hfound : ∀ {zs : List MeshObject} {id : String} {f : String × String × Bool × Bytes},
      (zs.find? fun o => o.id = id).map MeshObject.fields = some f → f.1 = id := by
    intro zs id f hf
    obtain ⟨o, ho, rfl⟩ := Option.map_eq_some_iff.mp hf
    have hid : o.id = id := by simpa using List.find?_some ho
    exact hid
  constructor
  · intro hsame f
    have hf := not_not.mp ((diverges_iff hx hy f.1).not.mp (hsame f.1))
    rw [mem_fields_iff hx, mem_fields_iff hy, hf]
  · intro hsame id
    rw [diverges_iff hx hy, not_not]
    refine Option.ext fun f => ?_
    constructor
    · intro hf
      have hid := hfound hf
      rw [← hid] at hf ⊢
      exact (mem_fields_iff hy).mp ((hsame f).mp ((mem_fields_iff hx).mpr hf))
    · intro hf
      have hid := hfound hf
      rw [← hid] at hf ⊢
      exact (mem_fields_iff hx).mp ((hsame f).mpr ((mem_fields_iff hy).mpr hf))

/-- Roots bind the fields. -/
theorem root_eq_iff (hx : (xs.map MeshObject.id).Nodup) (hy : (ys.map MeshObject.id).Nodup)
    (hnx : ∀ o ∈ xs, NulFree o) (hny : ∀ o ∈ ys, NulFree o)
    (hinj : Set.InjOn sha256 ((Replica.ofObjects xs hx).hashed sha256 ∪
      (Replica.ofObjects ys hy).hashed sha256)) :
    (ObjectMerkleTree.ofObjects sha256 xs).root sha256 =
        (ObjectMerkleTree.ofObjects sha256 ys).root sha256 ↔
      ∀ f, f ∈ xs.map MeshObject.fields ↔ f ∈ ys.map MeshObject.fields := by
  constructor
  · intro hroots
    rw [ofObjects_eq hx, ofObjects_eq hy] at hroots
    have hnl := ofObjects_nulFree hx hnx
    have hnr := ofObjects_nulFree hy hny
    have hpayloads := root_inj hnl hnr hinj hroots
    -- The object of each side is found on the other.
    have hsub : ∀ {xs ys : List MeshObject} {hx : (xs.map MeshObject.id).Nodup}
        {hy : (ys.map MeshObject.id).Nodup}, (Replica.ofObjects xs hx).NulFree →
        (Replica.ofObjects ys hy).NulFree →
        (Replica.ofObjects xs hx).payloads = (Replica.ofObjects ys hy).payloads →
        ∀ f ∈ xs.map MeshObject.fields, f ∈ ys.map MeshObject.fields := by
      intro xs ys hx hy hnl hnr heq f hf
      obtain ⟨lo, hlo, rfl⟩ := List.mem_map.mp hf
      obtain ⟨ro, hro, hid, hkind, htombstone, hpayload⟩ :=
        object_of_root hnl hnr heq ((ofObjects_get hx).mpr ⟨hlo, rfl⟩)
      refine List.mem_map.mpr ⟨ro, ((ofObjects_get hy).mp hro).1, ?_⟩
      rw [MeshObject.fields, MeshObject.fields, hid, hkind, htombstone, hpayload]
    exact fun f => ⟨hsub hnl hnr hpayloads f, hsub hnr hnl hpayloads.symm f⟩
  · intro hsame
    have hquiet := (forall_not_diverges_iff hx hy).mpr hsame
    congr 1
    refine tree_ext (Std.ExtTreeMap.ext_getElem? fun id => ?_)
    rw [ofObjects_leaf hx, ofObjects_leaf hy]
    exact not_not.mp ((leaf_ne_iff hx hy hnx hny hinj id).not.mpr (hquiet id))

/-- The ids of a dictionary are those it has something under. -/
theorem mem_keys_iff {β : Type} {d : Dict β} {id : String} : id ∈ d.keys ↔ d[id]? ≠ none := by
  rw [Std.ExtTreeMap.mem_keys, Std.ExtTreeMap.mem_iff_isSome_getElem?, Option.isSome_iff_ne_none]

/-- The ids that are listed where two dictionaries differ. -/
theorem mem_differing_iff {β : Type} [DecidableEq β] {d d' : Dict β} {id : String} :
    id ∈ (sortedUnion d.keys d'.keys).filter (fun id => d[id]? ≠ d'[id]?) ↔ d[id]? ≠ d'[id]? := by
  rw [List.mem_filter, mem_sortedUnion, decide_eq_true_eq, mem_keys_iff, mem_keys_iff]
  constructor
  · exact fun h => h.2
  · intro hne
    refine ⟨?_, hne⟩
    by_contra hnone
    rw [not_or, not_not, not_not] at hnone
    exact hne (hnone.1.trans hnone.2.symm)

/-- What a manifest has under an id. -/
theorem manifest_get (h : (xs.map MeshObject.id).Nodup) (id : String) :
    (manifest sha256 (Replica.ofObjects xs h).objects)[id]? =
      ((xs.find? fun o => o.id = id).map (leafHash sha256)).map Digest.hexdigest := by
  rw [manifest, Std.ExtTreeMap.getElem?_map, ← foldl_objects_get h id, Option.map_map]
  rfl

/-- What `divergent_ids` lists. -/
theorem divergentIds_spec (hx : (xs.map MeshObject.id).Nodup) (hy : (ys.map MeshObject.id).Nodup)
    (hnx : ∀ o ∈ xs, NulFree o) (hny : ∀ o ∈ ys, NulFree o)
    (hinj : Set.InjOn sha256 ((Replica.ofObjects xs hx).hashed sha256 ∪
      (Replica.ofObjects ys hy).hashed sha256)) :
    ((ObjectMerkleTree.ofObjects sha256 xs).divergentIds
        (ObjectMerkleTree.ofObjects sha256 ys)).Pairwise (· < ·) ∧
      ∀ id, id ∈ (ObjectMerkleTree.ofObjects sha256 xs).divergentIds
        (ObjectMerkleTree.ofObjects sha256 ys) ↔ Diverges xs ys id := by
  refine ⟨(sortedUnion_sorted _ _).filter _, fun id => ?_⟩
  rw [ObjectMerkleTree.divergentIds, mem_differing_iff, ofObjects_leaf hx, ofObjects_leaf hy]
  exact leaf_ne_iff hx hy hnx hny hinj id

/-- What `divergent_ids_from_manifest` lists. -/
theorem divergentIdsFromManifest_spec (hx : (xs.map MeshObject.id).Nodup)
    (hy : (ys.map MeshObject.id).Nodup) (hnx : ∀ o ∈ xs, NulFree o) (hny : ∀ o ∈ ys, NulFree o)
    (hinj : Set.InjOn sha256 ((Replica.ofObjects xs hx).hashed sha256 ∪
      (Replica.ofObjects ys hy).hashed sha256)) {fetchIds sendIds : List String}
    (hids : divergentIdsFromManifest sha256 (Replica.ofObjects xs hx).objects
      (manifest sha256 (Replica.ofObjects ys hy).objects) = (fetchIds, sendIds)) :
    fetchIds.Pairwise (· < ·) ∧ sendIds.Pairwise (· < ·) ∧
      (∀ id, id ∈ fetchIds ↔ Diverges xs ys id ∧ id ∈ ys.map MeshObject.id) ∧
      ∀ id, id ∈ sendIds ↔ Diverges xs ys id ∧ id ∉ ys.map MeshObject.id := by
  obtain ⟨rfl, rfl⟩ := Prod.mk.inj hids
  have hdiffer : ∀ id, (manifest sha256 (Replica.ofObjects xs hx).objects)[id]? ≠
      (manifest sha256 (Replica.ofObjects ys hy).objects)[id]? ↔ Diverges xs ys id := by
    intro id
    rw [← leaf_ne_iff hx hy hnx hny hinj id, manifest_get hx, manifest_get hy, not_iff_not]
    exact (Option.map_injective fun _ _ h => hexdigest_inj h).eq_iff
  have hpresent : ∀ id, (manifest sha256 (Replica.ofObjects ys hy).objects)[id]? = none ↔
      id ∉ ys.map MeshObject.id := by
    intro id
    rw [manifest_get hy, Option.map_eq_none_iff, Option.map_eq_none_iff, List.find?_eq_none,
      List.mem_map]
    simp
  have hsorted := (sortedUnion_sorted (manifest sha256 (Replica.ofObjects xs hx).objects).keys
    (manifest sha256 (Replica.ofObjects ys hy).objects).keys).filter fun id =>
      decide ((manifest sha256 (Replica.ofObjects xs hx).objects)[id]? ≠
        (manifest sha256 (Replica.ofObjects ys hy).objects)[id]?)
  refine ⟨hsorted.filter _, hsorted.filter _, fun id => ?_, fun id => ?_⟩
  · rw [List.mem_filter, mem_differing_iff, hdiffer, decide_eq_true_eq, ne_eq, hpresent, not_not]
  · rw [List.mem_filter, mem_differing_iff, hdiffer, decide_eq_true_eq, hpresent]

end Trees

/-- For lists of objects with different ids, without a NUL byte in an id or a kind and without a
collision among what is hashed: the roots are equal exactly if the lists have the same ids with the
same kinds, tombstone flags and payloads. The divergent ids are exactly the ids on one side only and
those whose objects differ, in order and each once; those computed from a manifest are the same,
split by whether the other side has them. -/
theorem merkle_binds (sha256 : Bytes → Digest) (xs ys : List MeshObject)
    (hx : (xs.map MeshObject.id).Nodup) (hy : (ys.map MeshObject.id).Nodup)
    (hnx : ∀ o ∈ xs, NulFree o) (hny : ∀ o ∈ ys, NulFree o)
    (hinj : Set.InjOn sha256 ((Replica.ofObjects xs hx).hashed sha256 ∪
      (Replica.ofObjects ys hy).hashed sha256)) :
    ((ObjectMerkleTree.ofObjects sha256 xs).root sha256 =
          (ObjectMerkleTree.ofObjects sha256 ys).root sha256 ↔
        ∀ f, f ∈ xs.map MeshObject.fields ↔ f ∈ ys.map MeshObject.fields) ∧
      (((ObjectMerkleTree.ofObjects sha256 xs).divergentIds
            (ObjectMerkleTree.ofObjects sha256 ys)).Pairwise (· < ·) ∧
        ∀ id, id ∈ (ObjectMerkleTree.ofObjects sha256 xs).divergentIds
          (ObjectMerkleTree.ofObjects sha256 ys) ↔ Diverges xs ys id) ∧
      ∃ fetchIds sendIds, divergentIdsFromManifest sha256 (Replica.ofObjects xs hx).objects
          (manifest sha256 (Replica.ofObjects ys hy).objects) = (fetchIds, sendIds) ∧
        fetchIds.Pairwise (· < ·) ∧ sendIds.Pairwise (· < ·) ∧
          (∀ id, id ∈ fetchIds ↔ Diverges xs ys id ∧ id ∈ ys.map MeshObject.id) ∧
          ∀ id, id ∈ sendIds ↔ Diverges xs ys id ∧ id ∉ ys.map MeshObject.id :=
  ⟨root_eq_iff hx hy hnx hny hinj, divergentIds_spec hx hy hnx hny hinj, _, _, rfl,
    divergentIdsFromManifest_spec hx hy hnx hny hinj rfl⟩

/-- A hash that tells the empty message from the others. -/
def sampleHash (message : Bytes) : Digest :=
  if message = [] then sampleDigest else ⟨List.replicate 32 1, rfl⟩

/-- A memory and no memory: the roots differ, and the id of the memory diverges. -/
theorem merkle_binds_sample :
    (ObjectMerkleTree.ofObjects sampleHash [sampleObject "memory" "a" [0] false]).root sampleHash ≠
        (ObjectMerkleTree.ofObjects sampleHash []).root sampleHash ∧
      "o" ∈ (ObjectMerkleTree.ofObjects sampleHash
          [sampleObject "memory" "a" [0] false]).divergentIds
        (ObjectMerkleTree.ofObjects sampleHash []) := by
  have hx : ([sampleObject "memory" "a" [0] false].map MeshObject.id).Nodup := List.nodup_singleton _
  have hpayloads : (Replica.ofObjects [sampleObject "memory" "a" [0] false] hx).payloads =
      [leafPayload (sampleObject "memory" "a" [0] false)] := rfl
  have hhashed : (Replica.ofObjects [sampleObject "memory" "a" [0] false] hx).hashed sampleHash =
      {leafMessage (leafPayload (sampleObject "memory" "a" [0] false))} := by
    rw [Replica.hashed, hpayloads, Tree.ofList, List.map_cons, List.map_nil, reduce]
    rfl
  have hempty : (Replica.ofObjects [] List.nodup_nil).hashed sampleHash = {[]} := by
    have hnone : (Replica.ofObjects [] List.nodup_nil).payloads = [] := rfl
    rw [Replica.hashed, hnone, Tree.ofList, List.map_nil, reduce]
  have hinj : Set.InjOn sampleHash
      ((Replica.ofObjects [sampleObject "memory" "a" [0] false] hx).hashed sampleHash ∪
        (Replica.ofObjects [] List.nodup_nil).hashed sampleHash) := by
    rw [hhashed, hempty]
    rintro m (rfl | rfl) m' (rfl | rfl) heq
    · rfl
    · exact absurd heq (by decide)
    · exact absurd heq (by decide)
    · rfl
  obtain ⟨hroots, ⟨-, hids⟩, -⟩ := merkle_binds sampleHash [sampleObject "memory" "a" [0] false] []
    hx List.nodup_nil (List.forall_mem_singleton.mpr sample_nulFree) (by simp) hinj
  refine ⟨fun heq => ?_, (hids "o").mpr (.inl ⟨List.mem_singleton_self _, by simp⟩)⟩
  have hsame := (hroots.mp heq (sampleObject "memory" "a" [0] false).fields).mp
    (List.mem_singleton_self _)
  simp at hsame

end Memplex.Mesh
