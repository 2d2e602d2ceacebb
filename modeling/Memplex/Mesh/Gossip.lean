import Memplex.Lib.Merkle
import Memplex.Mesh.Converge

/-!
# Gossip

Before two replicas compare their objects they compare the roots of the Merkle trees over them, and
equal roots end the pass. Equal roots do prove that the leaves are equal (`root_inj`), and a leaf binds
the id, the kind, the tombstone flag and the payload of an object. It binds neither its vector nor its
supersession edge, which `reconcile` decides by. So the pass may end where an exchange would still
have something to do, and `gossip_sound_iff` says when it does not.
-/

namespace Memplex.Mesh

open Lib Merkle

/-! ## The trees -/

/-- `encode("utf-8")`. -/
def utf8 (s : String) : Bytes := s.toByteArray.data.toList

/-- What the leaf of an object says of it. -/
def leafPayload (o : MeshObject) : Bytes :=
  utf8 o.id ++ 0 :: (utf8 o.kind ++ 0 :: (if o.tombstone then 1 else 0) :: o.payload)

/-- A list of objects, by their ids, as the digests of their leaves. -/
structure ObjectMerkleTree where
  leaves : Dict Digest

section Trees

variable (sha256 : Bytes → Digest)

/-- `leaf_hash`. -/
def leafHash (o : MeshObject) : Digest := sha256 (0 :: leafPayload o)

/-- `_node_hash`. -/
def nodeHash (left right : Digest) : Digest := sha256 (1 :: (left.bytes ++ right.bytes))

/-- `ObjectMerkleTree(objects)`. -/
def ObjectMerkleTree.ofObjects (objects : List MeshObject) : ObjectMerkleTree :=
  ⟨objects.foldl (fun leaves o => leaves.insert o.id (leafHash sha256 o)) ∅⟩

/-- `root`: the levels are built over the leaves in the order of their ids. -/
def ObjectMerkleTree.root (t : ObjectMerkleTree) : Digest :=
  (reduce (nodeHash sha256) (t.leaves.toList.map Prod.snd)).getD (sha256 [])

/-- `gossip`: the roots tell whether there is anything to compare. -/
def gossip (localRoot remoteRoot : Digest) : Bool := localRoot ≠ remoteRoot

/-- The root of a replica. -/
def Replica.root (S : Replica) : Digest :=
  (ObjectMerkleTree.ofObjects sha256 (S.objects.toList.map Prod.snd)).root sha256

/-- A decision that changes the local replica. -/
def Resolution.changes (r : Resolution) : Bool :=
  r = .fetchRemote ∨ r = .union ∨ r = .removeWins ∨ r = .superseded

/-- `gossip_once`, for one peer: the local replica afterwards. -/
def gossipOnce (L R : Replica) : Replica :=
  if gossip (L.root sha256) (R.root sha256) then
    if (reconcile L.objects R.objects).any fun x => x.2.changes then exchange sha256 L R else L
  else L

/-- The leaf messages of a replica. -/
def Replica.payloads (S : Replica) : List Bytes := S.objects.toList.map fun x => leafPayload x.2

/-- The message of a leaf. -/
def leafMessage (payload : Bytes) : Bytes := 0 :: payload

/-- The message of a node. -/
def nodeMessage (left right : Digest) : Bytes := 1 :: (left.bytes ++ right.bytes)

/-- What is hashed for the root of a replica. -/
def Replica.hashed (S : Replica) : Set Bytes :=
  match Tree.ofList S.payloads with
  | some t => t.messages sha256 leafMessage nodeMessage
  | none => {[]}

/-- The digests under the ids are those of the objects. -/
theorem Replica.leaves_map (S : Replica) :
    (ObjectMerkleTree.ofObjects sha256 (S.objects.toList.map Prod.snd)).leaves =
      S.objects.map fun _ o => leafHash sha256 o := by
  have hids : (S.objects.toList.map Prod.snd).map MeshObject.id = S.objects.keys := by
    rw [← Std.ExtTreeMap.map_fst_toList_eq_keys, List.map_map]
    refine List.map_congr_left fun x hx => ?_
    exact S.keyed x.1 x.2 (Std.ExtTreeMap.mem_toList_iff_getElem?_eq_some.mp hx)
  have hnodup : ((S.objects.toList.map Prod.snd).map MeshObject.id).Nodup := by
    rw [hids]
    exact Std.ExtTreeMap.nodup_keys
  refine Std.ExtTreeMap.ext_getElem? fun k => ?_
  have hfold := foldl_insert_get MeshObject.id (fun (_ : Option Digest) o => leafHash sha256 o)
    _ hnodup ∅ k
  rw [ObjectMerkleTree.ofObjects, hfold, Std.ExtTreeMap.getElem?_map]
  have hmem : ∀ o, o ∈ S.objects.toList.map Prod.snd ↔ S.objects[o.id]? = some o := fun o => by
    constructor
    · intro ho
      obtain ⟨x, hx, rfl⟩ := List.mem_map.mp ho
      have hx' := Std.ExtTreeMap.mem_toList_iff_getElem?_eq_some.mp hx
      rw [S.keyed x.1 x.2 hx', hx']
    · intro ho
      exact List.mem_map.mpr
        ⟨(o.id, o), Std.ExtTreeMap.mem_toList_iff_getElem?_eq_some.mpr ho, rfl⟩
  cases hfind : (S.objects.toList.map Prod.snd).find? fun o => o.id = k with
  | some o =>
    have hk : o.id = k := by simpa using List.find?_some hfind
    rw [← hk, (hmem o).mp (List.mem_of_find?_eq_some hfind), Option.map_some]
  | none =>
    have hnone : S.objects[k]? = none := by
      by_contra hsome
      obtain ⟨o, ho⟩ := Option.ne_none_iff_exists'.mp hsome
      have hk := S.keyed k o ho
      refine List.find?_eq_none.mp hfind o ((hmem o).mpr (hk ▸ ho)) (by simpa using hk)
    rw [hnone, Option.map_none]
    rfl

/-- The digests at the bottom of the tree are those of the objects. -/
theorem Replica.leaves_eq (S : Replica) :
    (ObjectMerkleTree.ofObjects sha256 (S.objects.toList.map Prod.snd)).leaves.toList.map Prod.snd =
      S.objects.toList.map fun x => leafHash sha256 x.2 := by
  rw [S.leaves_map sha256, Std.ExtTreeMap.toList_map, List.map_map]
  rfl

/-- The root is the digest of the tree of the leaf messages. -/
theorem Replica.root_eq (S : Replica) : S.root sha256 =
    ((Tree.ofList S.payloads).map (Tree.digest sha256 leafMessage nodeMessage)).getD (sha256 []) := by
  have hreduce := reduce_digest sha256 leafMessage nodeMessage S.payloads
  rw [Replica.root, ObjectMerkleTree.root, S.leaves_eq sha256, ← hreduce, Replica.payloads,
    List.map_map]
  rfl

/-! ## What a root binds -/

/-- Neither the id nor the kind has a NUL byte. -/
def NulFree (o : MeshObject) : Prop := (0 : UInt8) ∉ utf8 o.id ∧ (0 : UInt8) ∉ utf8 o.kind

/-- No id and no kind in the replica has one. -/
def Replica.NulFree (S : Replica) : Prop :=
  ∀ (k : String) (o : MeshObject), S.objects[k]? = some o → Mesh.NulFree o

/-- What a NUL byte ends can be read off. -/
theorem append_nul_inj {a a' b b' : Bytes} (ha : (0 : UInt8) ∉ a) (ha' : (0 : UInt8) ∉ a')
    (h : a ++ 0 :: b = a' ++ 0 :: b') : a = a' ∧ b = b' := by
  induction a generalizing a' with
  | nil =>
    cases a' with
    | nil => exact ⟨rfl, (List.cons.inj h).2⟩
    | cons x a' =>
      have hx : (0 : UInt8) = x := (List.cons.inj h).1
      exact absurd (hx ▸ List.mem_cons_self) ha'
  | cons x a ih =>
    cases a' with
    | nil =>
      have hx : x = (0 : UInt8) := (List.cons.inj h).1
      exact absurd (hx ▸ List.mem_cons_self) ha
    | cons y a' =>
      obtain ⟨rfl, hrest⟩ := List.cons.inj h
      obtain ⟨rfl, rfl⟩ := ih (fun hm => ha (.tail _ hm)) (fun hm => ha' (.tail _ hm)) hrest
      exact ⟨rfl, rfl⟩

theorem utf8_inj {s t : String} (h : utf8 s = utf8 t) : s = t := by
  have hdata : s.toByteArray.data = t.toByteArray.data := Array.toList_inj.mp h
  exact String.toByteArray_inj.mp (ByteArray.ext hdata)

/-- A leaf binds the id, the kind, the tombstone flag and the payload. -/
theorem leafPayload_inj {o o' : MeshObject} (hn : NulFree o) (hn' : NulFree o')
    (h : leafPayload o = leafPayload o') :
    o.id = o'.id ∧ o.kind = o'.kind ∧ o.tombstone = o'.tombstone ∧ o.payload = o'.payload := by
  obtain ⟨hid, hrest⟩ := append_nul_inj hn.1 hn'.1 h
  obtain ⟨hkind, hrest⟩ := append_nul_inj hn.2 hn'.2 hrest
  obtain ⟨hflag, hpayload⟩ := List.cons.inj hrest
  refine ⟨utf8_inj hid, utf8_inj hkind, ?_, hpayload⟩
  cases ht : o.tombstone <;> cases ht' : o'.tombstone <;> simp_all

variable {sha256} {L R : Replica}

theorem mem_payloads {S : Replica} {p : Bytes} :
    p ∈ S.payloads ↔ ∃ (k : String) (o : MeshObject), S.objects[k]? = some o ∧ leafPayload o = p := by
  rw [Replica.payloads, List.mem_map]
  constructor
  · rintro ⟨x, hx, rfl⟩
    exact ⟨x.1, x.2, Std.ExtTreeMap.mem_toList_iff_getElem?_eq_some.mp hx, rfl⟩
  · rintro ⟨k, o, ho, rfl⟩
    exact ⟨(k, o), Std.ExtTreeMap.mem_toList_iff_getElem?_eq_some.mpr ho, rfl⟩

/-- Objects of a replica are told apart by their leaves. -/
theorem nodup_payloads {S : Replica} (hn : S.NulFree) :
    S.payloads.Nodup := by
  have hkeys : (S.objects.toList.map Prod.fst).Nodup := by
    rw [Std.ExtTreeMap.map_fst_toList_eq_keys]
    exact Std.ExtTreeMap.nodup_keys
  refine (hkeys.of_map _).map_on fun x hx y hy hxy => ?_
  have hx' := Std.ExtTreeMap.mem_toList_iff_getElem?_eq_some.mp hx
  have hy' := Std.ExtTreeMap.mem_toList_iff_getElem?_eq_some.mp hy
  have hid := (leafPayload_inj (hn _ _ hx') (hn _ _ hy') hxy).1
  rw [S.keyed _ _ hx', S.keyed _ _ hy'] at hid
  have hobj : x.2 = y.2 := by
    rw [hid] at hx'
    exact Option.some.inj (hx'.symm.trans hy')
  exact Prod.ext hid hobj

/-- Equal roots are roots over equal leaves. -/
theorem root_inj (hnl : L.NulFree) (hnr : R.NulFree)
    (hinj : Set.InjOn sha256 (L.hashed sha256 ∪ R.hashed sha256))
    (hroots : L.root sha256 = R.root sha256) : L.payloads = R.payloads := by
  have hempty : ∀ xs : List Bytes, Tree.ofList xs = none → xs = [] := fun xs hxs => by
    by_contra hne
    have hsome := Tree.ofList_isSome hne
    rw [hxs] at hsome
    exact absurd hsome (by simp)
  -- What is hashed over objects is not the empty message.
  have hmessage : ∀ t : Merkle.Tree Bytes, t.message sha256 leafMessage nodeMessage ≠ [] := fun t => by
    cases t <;> simp [Tree.message, leafMessage, nodeMessage]
  rw [Replica.root_eq, Replica.root_eq] at hroots
  unfold Replica.hashed at hinj
  cases hl : Tree.ofList L.payloads with
  | none =>
    cases hr : Tree.ofList R.payloads with
    | none => rw [hempty _ hl, hempty _ hr]
    | some t =>
      rw [hl, hr] at hroots hinj
      have heq := hinj (.inl rfl) (.inr t.message_mem) (hroots.trans t.digest_eq)
      exact absurd heq.symm (hmessage t)
  | some t =>
    cases hr : Tree.ofList R.payloads with
    | none =>
      rw [hl, hr] at hroots hinj
      have heq := hinj (.inl t.message_mem) (.inr rfl) (t.digest_eq.symm.trans hroots)
      exact absurd heq (hmessage t)
    | some t' =>
      rw [hl, hr] at hroots hinj
      have htrees : t = t' := by
        refine Tree.digest_inj (fun a b h => (List.cons.inj h).2) (fun a b a' b' h => ?_)
          (fun x a b h => absurd (List.cons.inj h).1 (by decide)) hinj hroots
        obtain ⟨hleft, hright⟩ := List.append_inj (List.cons.inj h).2 (a.size.trans a'.size.symm)
        cases a
        cases b
        cases a'
        cases b'
        cases hleft
        cases hright
        exact ⟨rfl, rfl⟩
      exact Tree.leaves_inj (nodup_payloads hnl) (nodup_payloads hnr) hl (htrees ▸ hr)

/-- Under equal roots an object of one replica is in the other, but for its vector and its edge. -/
theorem object_of_root (hnl : L.NulFree) (hnr : R.NulFree) (hpayloads : L.payloads = R.payloads)
    {k : String} {lo : MeshObject} (hlo : L.objects[k]? = some lo) :
    ∃ ro, R.objects[k]? = some ro ∧ lo.id = ro.id ∧ lo.kind = ro.kind ∧
      lo.tombstone = ro.tombstone ∧ lo.payload = ro.payload := by
  have hmem : leafPayload lo ∈ R.payloads := by
    rw [← hpayloads]
    exact mem_payloads.mpr ⟨k, lo, hlo, rfl⟩
  obtain ⟨k', ro, hro, hleaf⟩ := mem_payloads.mp hmem
  have hsame := leafPayload_inj (hnl k lo hlo) (hnr k' ro hro) hleaf.symm
  have hk : k = k' := by rw [← L.keyed k lo hlo, ← R.keyed k' ro hro, hsame.1]
  exact ⟨ro, hk ▸ hro, hsame⟩

/-! ## Whether a pass may end at the roots -/

variable (sha256) in
/-- An exchange changes nothing between equal replicas, unless there is a live fact whose edge names
itself. -/
theorem exchange_self_iff (S : Replica) :
    (exchange sha256 S S).objects = S.objects ↔
      ∀ (k : String) (o : MeshObject), S.objects[k]? = some o → ¬ o.SelfSuperseded := by
  have hat : ∀ {k : String} {o : MeshObject}, S.objects[k]? = some o →
      (exchange sha256 S S).objects[k]? = some (settle o o) := fun ho =>
    exchange_both sha256 (⟨ho, ho⟩ : Both S S _ _ _)
  constructor
  · intro heq k o ho
    have hk := hat ho
    rw [heq, ho, Option.some_inj] at hk
    exact (settle_self_iff o).mp hk.symm
  · intro hself
    refine Std.ExtTreeMap.ext_getElem? fun k => ?_
    cases ho : S.objects[k]? with
    | some o => rw [hat ho, (settle_self_iff o).mpr (hself k o ho)]
    | none =>
      -- The union rule registers nothing, since the payloads are the same.
      by_contra hsome
      obtain ⟨x, hx⟩ := Option.ne_none_iff_exists'.mp hsome
      obtain ⟨id, lo, ro, hboth, -, hdiff, -⟩ := (exchange_get_new sha256 S S ho ho).mp hx
      cases Option.some.inj (hboth.1.symm.trans hboth.2)
      exact hdiff rfl

/-- A pass over replicas whose roots differ ends with the exchange, also where it is not committed. -/
theorem gossipOnce_eq_exchange (h : gossip (L.root sha256) (R.root sha256) = true) :
    (gossipOnce sha256 L R).objects = (exchange sha256 L R).objects := by
  rw [gossipOnce, if_pos h]
  split_ifs with hany
  · rfl
  · -- A plan without changes leaves the local replica as it is.
    have hquiet : ∀ (k : String) (r : Resolution),
        resolutionAt L.objects[k]? R.objects[k]? = some r → r.changes = false := fun k r hr => by
      rw [Bool.not_eq_true, List.any_eq_false] at hany
      simpa using hany (k, r) (mem_reconcile.mpr hr)
    refine (Std.ExtTreeMap.ext_getElem? fun k => ?_).symm
    cases hlo : L.objects[k]? with
    | some lo =>
      cases hro : R.objects[k]? with
      | none => exact (exchange_alone sha256 (⟨hlo, hro⟩ : Alone L R k lo)).1
      | some ro =>
        have hkeep := hquiet k (resolution lo ro) (by rw [hlo, hro]; rfl)
        rw [exchange_both sha256 (⟨hlo, hro⟩ : Both L R k lo ro)]
        cases hres : resolution lo ro with
        | sendLocal => rw [settle_sendLocal hres]
        | conflict => rw [settle_conflict hres]
        | fetchRemote => simp [hres, Resolution.changes] at hkeep
        | union => simp [hres, Resolution.changes] at hkeep
        | removeWins => simp [hres, Resolution.changes] at hkeep
        | superseded => simp [hres, Resolution.changes] at hkeep
    | none =>
      cases hro : R.objects[k]? with
      | some ro =>
        have hkeep := hquiet k .fetchRemote (by rw [hlo, hro]; rfl)
        exact absurd hkeep (by decide)
      | none =>
        by_contra hsome
        obtain ⟨x, hx⟩ := Option.ne_none_iff_exists'.mp hsome
        obtain ⟨id, lo, ro, hboth, hres, -⟩ := (exchange_get_new sha256 L R hlo hro).mp hx
        have hkeep := hquiet id .union (by rw [hboth.1, hboth.2, ← hres]; rfl)
        exact absurd hkeep (by decide)

variable (sha256) in
/-- A plan that was made for two replicas is always carried out to its end, and a pass leaves what it
leaves, unless the roots are equal: under every id that one of the replicas has what the two objects
settle to, and under any other id exactly the copies that the union rule registers. -/
theorem gossip_pass (L R : Replica) :
    applyPlan sha256 L.objects R.objects (reconcile L.objects R.objects) =
        some (exchange sha256 L R).objects ∧
      (gossipOnce sha256 L R).objects =
        (if gossip (L.root sha256) (R.root sha256) then (exchange sha256 L R).objects
          else L.objects) ∧
      (∀ k : String, L.objects[k]?.isSome = true ∨ R.objects[k]?.isSome = true →
        (exchange sha256 L R).objects[k]? = settleAt L.objects[k]? R.objects[k]?) ∧
      ∀ (k : String) (o : MeshObject), L.objects[k]? = none → R.objects[k]? = none →
        ((exchange sha256 L R).objects[k]? = some o ↔ Captures sha256 L R k o) := by
  refine ⟨applyPlan_reconcile sha256 L R, ?_, fun k => exchange_get sha256 L R,
    fun k o hl hr => exchange_get_new sha256 L R hl hr⟩
  split_ifs with h
  · exact gossipOnce_eq_exchange h
  · rw [gossipOnce, if_neg h]

/-- Where gossip ends a pass at equal roots, the replicas are the same and an exchange would have
changed neither, exactly if their objects have the same vectors and edges and no live fact has an edge
that names itself. -/
theorem gossip_sound_iff (sha256 : Bytes → Digest) (L R : Replica) (hnl : L.NulFree)
    (hnr : R.NulFree) (hinj : Set.InjOn sha256 (L.hashed sha256 ∪ R.hashed sha256))
    (hroots : gossip (L.root sha256) (R.root sha256) = false) :
    (L.objects = R.objects ∧ (exchange sha256 L R).objects = L.objects ∧
        (exchange sha256 R L).objects = R.objects) ↔
      (∀ k lo ro, Both L R k lo ro →
          lo.vector = ro.vector ∧ lo.supersededBy = ro.supersededBy) ∧
        ∀ (k : String) (o : MeshObject), L.objects[k]? = some o → ¬ o.SelfSuperseded := by
  have hpayloads := root_inj hnl hnr hinj (by simpa [gossip] using hroots)
  have hreplica : L.objects = R.objects → L = R := fun h => by
    cases L
    cases R
    cases h
    rfl
  constructor
  · rintro ⟨heq, hl, -⟩
    obtain rfl := hreplica heq
    refine ⟨fun k lo ro hboth => ?_, (exchange_self_iff sha256 L).mp hl⟩
    cases Option.some.inj (hboth.1.symm.trans hboth.2)
    exact ⟨rfl, rfl⟩
  · rintro ⟨hsame, hself⟩
    have heq : L.objects = R.objects := by
      refine Std.ExtTreeMap.ext_getElem? fun k => ?_
      cases hlo : L.objects[k]? with
      | some lo =>
        obtain ⟨ro, hro, hid, hkind, htomb, hpayload⟩ := object_of_root hnl hnr hpayloads hlo
        obtain ⟨hvec, hedge⟩ := hsame k lo ro ⟨hlo, hro⟩
        rw [hro, Option.some_inj]
        cases lo
        cases ro
        simp_all
      | none =>
        cases hro : R.objects[k]? with
        | none => rfl
        | some ro =>
          obtain ⟨lo, hlo', -⟩ := object_of_root hnr hnl hpayloads.symm hro
          exact absurd (hlo.symm.trans hlo') (by simp)
    obtain rfl := hreplica heq
    have hstay := (exchange_self_iff sha256 L).mpr hself
    exact ⟨rfl, hstay, hstay⟩

end Trees

/-! ## A sample -/

/-- A memory that its replica has written twice. -/
def sampleRewritten : MeshObject :=
  { sampleObject "memory" "a" [0] false with vector := ⟨(∅ : Dict ℤ).insert "a" 2⟩ }

theorem sampleReplica_nulFree (o : MeshObject) (h : NulFree o) : (sampleReplica o).NulFree :=
  fun _ _ hx => (sampleReplica_get hx).2 ▸ h

/-- A replica with one object has one leaf. -/
theorem sampleReplica_tree (o : MeshObject) :
    Merkle.Tree.ofList (sampleReplica o).payloads = some (.leaf (leafPayload o)) := by
  have hpayloads : (sampleReplica o).payloads = [leafPayload o] := rfl
  rw [hpayloads, Tree.ofList, List.map_cons, List.map_nil, reduce]

theorem sampleReplica_hashed (o : MeshObject) :
    (sampleReplica o).hashed (fun _ => sampleDigest) = {leafMessage (leafPayload o)} := by
  simp only [Replica.hashed, sampleReplica_tree, Tree.messages]

theorem sampleReplica_root (o : MeshObject) :
    (sampleReplica o).root (fun _ => sampleDigest) = sampleDigest := by
  rw [Replica.root_eq, sampleReplica_tree]
  rfl

theorem sample_nulFree : NulFree (sampleObject "memory" "a" [0] false) := by
  unfold NulFree
  decide +kernel

/-- Two replicas with the same memory need no exchange. -/
theorem sample_gossip_sound :
    (exchange (fun _ => sampleDigest) (sampleReplica (sampleObject "memory" "a" [0] false))
        (sampleReplica (sampleObject "memory" "a" [0] false))).objects =
      (sampleReplica (sampleObject "memory" "a" [0] false)).objects := by
  have hinj : Set.InjOn (fun _ : Bytes => sampleDigest)
      ((sampleReplica (sampleObject "memory" "a" [0] false)).hashed (fun _ => sampleDigest) ∪
        (sampleReplica (sampleObject "memory" "a" [0] false)).hashed fun _ => sampleDigest) := by
    rw [sampleReplica_hashed, Set.union_self]
    exact Set.injOn_singleton _ _
  refine ((gossip_sound_iff (fun _ => sampleDigest)
    (sampleReplica (sampleObject "memory" "a" [0] false))
    (sampleReplica (sampleObject "memory" "a" [0] false))
    (sampleReplica_nulFree _ sample_nulFree) (sampleReplica_nulFree _ sample_nulFree) hinj
    (by simp [gossip])).mpr ⟨fun k lo ro hboth => ?_, fun k o ho => ?_⟩).2.1
  · rw [(sampleReplica_get hboth.1).2, (sampleReplica_get hboth.2).2]
    exact ⟨rfl, rfl⟩
  · rw [(sampleReplica_get ho).2]
    exact fun hself => absurd hself.1 (by decide)

/-- The roots are equal, since a leaf leaves the vector out, and the exchange that the pass skips would
have taken the newer vector over. -/
theorem sample_gossip_unsound :
    (sampleReplica (sampleObject "memory" "a" [0] false)).NulFree ∧
      (sampleReplica sampleRewritten).NulFree ∧
      Set.InjOn (fun _ : Bytes => sampleDigest)
        ((sampleReplica (sampleObject "memory" "a" [0] false)).hashed (fun _ => sampleDigest) ∪
          (sampleReplica sampleRewritten).hashed fun _ => sampleDigest) ∧
      gossip ((sampleReplica (sampleObject "memory" "a" [0] false)).root fun _ => sampleDigest)
        ((sampleReplica sampleRewritten).root fun _ => sampleDigest) = false ∧
      (exchange (fun _ => sampleDigest) (sampleReplica (sampleObject "memory" "a" [0] false))
          (sampleReplica sampleRewritten)).objects ≠
        (sampleReplica (sampleObject "memory" "a" [0] false)).objects := by
  have hleaf : leafPayload sampleRewritten =
      leafPayload (sampleObject "memory" "a" [0] false) := rfl
  refine ⟨sampleReplica_nulFree _ sample_nulFree, sampleReplica_nulFree _ sample_nulFree, ?_, ?_,
    by decide +kernel⟩
  · rw [sampleReplica_hashed, sampleReplica_hashed, hleaf, Set.union_self]
    exact Set.injOn_singleton _ _
  · rw [sampleReplica_root, sampleReplica_root]
    decide

end Memplex.Mesh
