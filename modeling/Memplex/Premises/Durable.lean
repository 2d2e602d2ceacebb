import Memplex.Auth.Lineage
import Memplex.Lite.Written
import Memplex.Premises.Resolution

/-!
# Stamps in the files of a store

A stamp in the namespace of a resident function, fact or preference is written with the node, and is
found in the store that is loaded from what was written: the namespace comes back member by member
under the texts of its keys, and no other key is written as the one of the stamp. So a write that
goes through leaves its own stamp in the files, and those that were there before it.
-/

namespace Memplex

open Lib Lib.Mutator Lib.Json

/-! ## Stamped nodes -/

/-- A node with a stamp, whatever its dictionary has under that key. -/
structure MemoryNode.Stamped (n : MemoryNode) : Prop where
  has : ∃ m ∈ n.namespace_, m.1 = .str supersededKey
  truthy : ∀ m ∈ n.namespace_, m.1 = .str supersededKey → m.2.truthy = true

namespace MemoryNode

theorem supersede_stamped (n : MemoryNode) {stamp : String} (h : stamp ≠ "") :
    (n.supersede stamp).Stamped := by
  have htruthy : Value.truthy (.str stamp) = true := by
    simp [Value.truthy, h]
  unfold supersede PyDict.insertStr PyDict.insert
  simp only [PyDict.keyEq_str]
  split_ifs with hany
  · obtain ⟨m, hm, hkey⟩ := List.any_eq_true.mp hany
    have hkey := of_decide_eq_true hkey
    refine ⟨⟨_, List.mem_map_of_mem hm, ?_⟩, ?_⟩
    · rw [if_pos (decide_eq_true hkey)]
      exact hkey
    · intro m' hm' hkey'
      obtain ⟨m, -, rfl⟩ := List.mem_map.mp hm'
      split_ifs at hkey' ⊢ with hsame
      · exact htruthy
      · exact absurd (decide_eq_true hkey') hsame
  · refine ⟨⟨_, List.mem_append_right _ (List.mem_singleton_self _), rfl⟩, ?_⟩
    intro m hm hkey
    rcases List.mem_append.mp hm with hm | hm
    · exact absurd (List.any_eq_true.mpr ⟨m, hm, decide_eq_true hkey⟩) hany
    · rw [List.mem_singleton.mp hm]
      exact htruthy

/-- A stamped node is superseded. -/
theorem Stamped.superseded {n : MemoryNode} (h : n.Stamped) : n.superseded = true := by
  obtain ⟨m, hm, hkey⟩ := h.has
  have hsome : (n.namespace_.find? fun m => keyEq m.1 (.str supersededKey)).isSome = true := by
    refine List.find?_isSome.mpr ⟨m, hm, ?_⟩
    rw [PyDict.keyEq_str]
    exact decide_eq_true hkey
  obtain ⟨found, hfound⟩ := Option.isSome_iff_exists.mp hsome
  have hkey' := List.find?_some hfound
  rw [PyDict.keyEq_str] at hkey'
  unfold MemoryNode.superseded PyDict.getStr
  rw [hfound]
  exact h.truthy found (List.mem_of_find?_eq_some hfound) (of_decide_eq_true hkey')

/-- A stamp is read back. -/
theorem Stamped.reloaded {n n' : MemoryNode} (h : n.Stamped)
    (hread : n.Reread n') : n'.Stamped := by
  refine ⟨?_, fun m hm hkey => ?_⟩
  · obtain ⟨m, hm, hkey⟩ := h.has
    obtain ⟨v, hv⟩ := PyDict.exists_mem_toMembers hm
    rw [hkey] at hv
    rw [hread.namespace_]
    exact ⟨_, List.mem_map_of_mem hv, rfl⟩
  · rw [hread.namespace_] at hm
    obtain ⟨⟨key, v⟩, hmem, rfl⟩ := List.mem_map.mp hm
    obtain ⟨m, hold, hjson, rfl⟩ := PyDict.mem_toMembers hmem
    have hsame : key = supersededKey := Json.str.inj hkey
    exact h.truthy m hold (PyDict.jsonKey_eq (by decide) (hjson.trans hsame))

end MemoryNode

namespace LiteMemory

/-- The record of a node has a stamp. -/
def Supersedes (m : LiteMemory) : PremiseNode → Prop
  | .function f => ∃ g, m.functions.get? f.id = some g ∧ g.Stamped
  | .fact f => ∃ g, m.facts.get? f.id = some g ∧ g.Stamped
  | .preference p => ∃ g, m.preferences.get? p.id = some g ∧ g.Stamped

section Written

variable {env : Env} {now : Timestamp} {m : LiteMemory} {d : Decoded}

/-- A stamp that was written is read. -/
theorem Supersedes.read {node : PremiseNode} {opened : LiteMemory} (h : m.Supersedes node)
    (hvalid : m.rawPair.validateMemoryPayload = .ok ())
    (hopen : publishPair env now m.rawPair = .ok opened) : opened.Supersedes node := by
  obtain ⟨d, hd, hpublish⟩ := Except.bind_ok.mp hopen
  obtain ⟨paragraphs, -, heq⟩ := Except.bind_ok.mp hpublish
  obtain rfl := Except.ok.inj heq
  have hall := decodePair_rereads hd
  have hmem := decodePair_mem (StoreFiles.listed hvalid) hd
  cases node with
  | function f =>
    obtain ⟨g, hg, hstamped⟩ := h
    obtain ⟨g', hg'⟩ := hall.functions g (Table.mem_of_get? hg)
    have hread := decodeFunction_reread hg'
    have hrow : g' ∈ d.functions.rows := by
      have hwritten := List.mem_map_of_mem (f := fun f : Function => (.obj f.toDict : Value))
        (Table.mem_of_get? hg)
      refine (hmem (.function g')).mpr ⟨.node hwritten ?_, nofun⟩
      exact .function (fun hhistorical => Bool.noConfusion hhistorical) hg'
    have hkey : g'.id = f.id := hread.id.trans (Table.get?_key (t := m.functions) hg)
    exact ⟨g', hkey ▸ (Table.mem_rows_iff _ _).mp hrow, hstamped.reloaded hread⟩
  | fact f =>
    obtain ⟨g, hg, hstamped⟩ := h
    obtain ⟨g', hg'⟩ := hall.facts g (Table.mem_of_get? hg)
    have hread := decodeFact_reread hg'
    have hrow : g' ∈ d.facts.rows := (hmem (.fact g')).mpr
      ⟨.fact (List.mem_map_of_mem (Table.mem_of_get? hg)) hg', nofun⟩
    have hkey : g'.id = f.id := hread.id.trans (Table.get?_key (t := m.facts) hg)
    exact ⟨g', hkey ▸ (Table.mem_rows_iff _ _).mp hrow, hstamped.reloaded hread⟩
  | preference p =>
    obtain ⟨g, hg, hstamped⟩ := h
    obtain ⟨g', hg'⟩ := hall.preferences g (Table.mem_of_get? hg)
    have hread := decodePreference_reread hg'
    have hrow : g' ∈ d.preferences.rows := (hmem (.preference g')).mpr
      ⟨.preference (List.mem_map_of_mem (Table.mem_of_get? hg)) hg', nofun⟩
    have hkey : g'.id = p.id := hread.id.trans (Table.get?_key (t := m.preferences) hg)
    exact ⟨g', hkey ▸ (Table.mem_rows_iff _ _).mp hrow, hstamped.reloaded hread⟩

end Written

/-- What a store has stamps on, whatever else of it changes. -/
theorem Supersedes.congr {m m' : LiteMemory} {node : PremiseNode} (h : m.Supersedes node)
    (hfunctions : m'.functions = m.functions) (hfacts : m'.facts = m.facts)
    (hprefs : m'.preferences = m.preferences) : m'.Supersedes node := by
  cases node with
  | function f =>
    obtain ⟨g, hg, hstamped⟩ := h
    exact ⟨g, by rw [hfunctions, hg], hstamped⟩
  | fact f =>
    obtain ⟨g, hg, hstamped⟩ := h
    exact ⟨g, by rw [hfacts, hg], hstamped⟩
  | preference p =>
    obtain ⟨g, hg, hstamped⟩ := h
    exact ⟨g, by rw [hprefs, hg], hstamped⟩

end LiteMemory

/-! ## Writes that go through -/

/-- A table with a stamped record under an id has one when a stamped record is entered. -/
theorem stamped_set {ν : Type} {key : ν → String} (b : ν → MemoryNode) {t : Table key} {r : ν}
    (hr : (b r).Stamped) {id : String} (h : ∃ g, t.get? id = some g ∧ (b g).Stamped) :
    ∃ g, (t.set r).get? id = some g ∧ (b g).Stamped := by
  rw [Table.get?_set]
  split_ifs
  · exact ⟨r, rfl, hr⟩
  · exact h

/-- The state with a node under its id, and no other records. -/
def LiteMemory.Puts (m m' : LiteMemory) : PremiseNode → Prop
  | .function f =>
    m'.functions = m.functions.set f ∧ m'.facts = m.facts ∧ m'.preferences = m.preferences
  | .fact f =>
    m'.functions = m.functions ∧ m'.facts = m.facts.set f ∧ m'.preferences = m.preferences
  | .preference p =>
    m'.functions = m.functions ∧ m'.facts = m.facts ∧ m'.preferences = m.preferences.set p

/-- A stamped node that is put has its stamp, and takes none away. -/
theorem LiteMemory.Puts.supersedes {m m' : LiteMemory} {node : PremiseNode}
    {nodes : List PremiseNode} (h : m.Puts m' node) (hnode : node.base.Stamped)
    (hm : ∀ x ∈ nodes, m.Supersedes x) :
    ∀ x ∈ node :: nodes, m'.Supersedes x := by
  obtain ⟨hfunctions, hfacts, hprefs⟩ :
      (∀ id, (∃ g, m.functions.get? id = some g ∧ g.Stamped) →
        ∃ g, m'.functions.get? id = some g ∧ g.Stamped) ∧
      (∀ id, (∃ g, m.facts.get? id = some g ∧ g.Stamped) →
        ∃ g, m'.facts.get? id = some g ∧ g.Stamped) ∧
      ∀ id, (∃ g, m.preferences.get? id = some g ∧ g.Stamped) →
        ∃ g, m'.preferences.get? id = some g ∧ g.Stamped := by
    cases node with
    | function f =>
      obtain ⟨hfunctions, hfacts, hprefs⟩ := h
      rw [hfunctions, hfacts, hprefs]
      exact ⟨fun _ => stamped_set Function.toMemoryNode hnode, fun _ h => h, fun _ h => h⟩
    | fact f =>
      obtain ⟨hfunctions, hfacts, hprefs⟩ := h
      rw [hfunctions, hfacts, hprefs]
      exact ⟨fun _ h => h, fun _ => stamped_set Fact.toMemoryNode hnode, fun _ h => h⟩
    | preference p =>
      obtain ⟨hfunctions, hfacts, hprefs⟩ := h
      rw [hfunctions, hfacts, hprefs]
      exact ⟨fun _ h => h, fun _ h => h, fun _ => stamped_set Preference.toMemoryNode hnode⟩
  refine List.forall_mem_cons.mpr ⟨?_, fun x hx => ?_⟩
  · cases node with
    | function f => exact ⟨f, by rw [h.1, Table.get?_set, if_pos rfl], hnode⟩
    | fact f => exact ⟨f, by rw [h.2.1, Table.get?_set, if_pos rfl], hnode⟩
    | preference p => exact ⟨p, by rw [h.2.2, Table.get?_set, if_pos rfl], hnode⟩
  · have hx := hm x hx
    cases x with
    | function f => exact hfunctions f.id hx
    | fact f => exact hfacts f.id hx
    | preference p => exact hprefs p.id hx

theorem residentFact_puts (W : LiteWriter) (moment : WriteMoment) (m : LiteMemory) (f : Fact) :
    m.Puts (W.residentFact moment m f).1 (.fact (W.residentFact moment m f).2) :=
  ⟨rfl, rfl, rfl⟩

theorem residentPreference_puts (W : LiteWriter) (moment : WriteMoment) (m : LiteMemory)
    (p : Preference) :
    m.Puts (W.residentPreference moment m p).1 (.preference (W.residentPreference moment m p).2) :=
  ⟨rfl, rfl, rfl⟩

/-- A computation that returns after a check goes on from what was checked. -/
theorem result_check {α β : Type} {x : Except PyError α} {k : α → Mutator PyError LiteMemory β}
    {m : LiteMemory} {out : β × LiteMemory} (h : (orRaise x >>= k).result m = .ok out) :
    ∃ a, (k a).result m = .ok out := by
  rw [result_bind, result_orRaise] at h
  cases x with
  | error e => cases h
  | ok a => exact ⟨a, h⟩

/-- The resident functions after `replace_function`. -/
theorem replaceFunction_result {W : LiteWriter} {f : Function} {m m' : LiteMemory} {u : Unit}
    (h : (W.replaceFunction f).result m = .ok (u, m')) : m.Puts m' (.function f) := by
  unfold LiteWriter.replaceFunction at h
  rw [result_bind, result_get] at h
  obtain ⟨_, h⟩ := result_check h
  obtain ⟨_, h⟩ := result_check h
  obtain ⟨_, h⟩ := result_check h
  rw [result_bind] at h
  obtain ⟨norm, h⟩ := result_check h
  obtain rfl : _ = m' := congrArg Prod.snd (Except.ok.inj h)
  -- The index of the names and the queue are beside the records.
  unfold LiteMemory.indexName
  split_ifs <;> exact ⟨rfl, rfl, rfl⟩

/-- The instance has what is in the files. -/
def LiteInstance.Fresh (inst : LiteInstance) (disk : LiteDisk) : Prop :=
  (inst.committed && inst.pairFilesUnchanged disk) = true

/-- A store that has stamps on some nodes, as long as nobody else writes. -/
structure LiteInstance.Holding (env : Env) (inst : LiteInstance) (disk : LiteDisk)
    (nodes : List PremiseNode) : Prop where
  /-- Resident, unless the files are loaded again before the next write. -/
  resident : inst.Fresh disk → ∀ node ∈ nodes, inst.memory.Supersedes node
  /-- In the files. -/
  files : ∀ node ∈ nodes, ∀ now opened, publishPair env now disk.files = .ok opened →
    opened.Supersedes node
  /-- The files are in the present form. -/
  current : nodes ≠ [] → ∃ m : LiteMemory, disk.files = m.rawPair

namespace LiteInstance

variable {W : LiteWriter} {run : ClearRun × WriteMoment} {inst inst' : LiteInstance}
  {disk disk' : LiteDisk} {nodes : List PremiseNode}

/-- An instance that is loaded again, or need not be, has the stamps. -/
theorem Holding.reload (h : inst.Holding W.env disk nodes) {loaded : LiteInstance}
    (hreload : inst.reloadForMutation W run.1 disk = .ok loaded) :
    loaded.Fresh disk ∧ ∀ node ∈ nodes, loaded.memory.Supersedes node := by
  refine ⟨reloadForMutation_ok hreload, ?_⟩
  unfold reloadForMutation at hreload
  split_ifs at hreload with hfresh
  · rw [← Except.ok.inj hreload]
    exact h.resident hfresh
  · obtain ⟨m, hm, heq⟩ := Except.bind_ok.mp hreload
    rw [← Except.ok.inj heq]
    exact fun node hnode => h.files node hnode _ m hm

/-- An instance after a call that raised is loaded again. -/
theorem Holding.abandoned (h : inst.Holding W.env disk nodes) :
    inst.abandoned.Holding W.env disk nodes :=
  ⟨fun hfresh => Bool.noConfusion hfresh, h.files, h.current⟩

theorem Holding.mono {env : Env} (h : inst.Holding env disk nodes) {nodes' : List PremiseNode}
    (hsub : ∀ node ∈ nodes', node ∈ nodes) : inst.Holding env disk nodes' := by
  refine ⟨fun hfresh node hnode => h.resident hfresh node (hsub node hnode),
    fun node hnode => h.files node (hsub node hnode), fun hne => h.current ?_⟩
  obtain ⟨node, hnode⟩ := List.exists_mem_of_ne_nil _ hne
  exact List.ne_nil_of_mem (hsub node hnode)

/-- A commit writes the stamps that the state has. -/
theorem commitNode_holding {m : LiteMemory} {node : MemoryNode} {nodeType : SyncNodeType}
    {data : Members} (hfresh : inst.Fresh disk) (hm : ∀ node ∈ nodes, m.Supersedes node)
    (h : inst.commitNode W run disk m node nodeType data = .ok (inst', disk')) :
    inst'.Holding W.env disk' nodes := by
  obtain ⟨sync, -, h⟩ := Except.bind_ok.mp h
  obtain ⟨hstore, -, hfiles, hvalid⟩ := commitCurrentState_ok (by exact hfresh) h
  have hresident : ∀ node ∈ nodes, inst'.memory.Supersedes node := by
    intro node hnode
    have hbusiness : inst'.memory.store.business = m.store.business :=
      (congrArg LiteStore.business hstore).trans rfl
    exact (hm node hnode).congr (congrArg BusinessState.functions hbusiness)
      (congrArg BusinessState.facts hbusiness) (congrArg BusinessState.preferences hbusiness)
  rw [hfiles] at hvalid
  refine ⟨fun _ => hresident, fun node hnode now opened hopen => ?_, fun _ => ⟨_, hfiles⟩⟩
  rw [hfiles] at hopen
  exact (hresident node hnode).read hvalid hopen

end LiteInstance

/-- A store that holds stamps has them when it is opened. -/
theorem LiteInstance.Holding.opened {env : Env} {inst : LiteInstance} {disk : LiteDisk}
    {nodes : List PremiseNode} (h : inst.Holding env disk nodes) {node : PremiseNode}
    (hnode : node ∈ nodes) {now : Timestamp} {opened : LiteMemory}
    (hopen : openStore env now disk.files = .ok opened) : opened.Supersedes node := by
  obtain ⟨m, hfiles⟩ := h.current (List.ne_nil_of_mem hnode)
  obtain ⟨files, hload, hpublish⟩ := Except.bind_ok.mp hopen
  have hsame : files = disk.files := by
    rw [hfiles] at hload ⊢
    obtain ⟨_, -, hload⟩ := Except.bind_ok.mp hload
    obtain ⟨_, -, hload⟩ := Except.bind_ok.mp hload
    exact (Except.ok.inj hload).symm
  exact h.files node hnode now opened (hsame ▸ hpublish)

namespace PremiseEnv

variable {E : PremiseEnv} {n : ℕ} {inst inst' : LiteInstance} {disk disk' : LiteDisk}
  {nodes : List PremiseNode} {node : PremiseNode}

/-- A write that stores a stamped node as what it is leaves its stamp, and those of before. -/
theorem store_holding (h : inst.Holding E.writer.env disk nodes) (hnode : node.base.Stamped)
    (hstore : E.store n inst disk node = .ok (inst', disk')) :
    inst'.Holding E.writer.env disk' (node :: nodes) := by
  cases node with
  | function f =>
    obtain ⟨loaded, hreload, hstore⟩ := Except.bind_ok.mp hstore
    obtain ⟨⟨u, m⟩, hreplace, hcommit⟩ := Except.bind_ok.mp hstore
    obtain ⟨hfresh, hloaded⟩ := h.reload hreload
    have hputs : loaded.memory.Puts m (.function f) := replaceFunction_result hreplace
    exact LiteInstance.commitNode_holding hfresh (hputs.supersedes hnode hloaded) hcommit
  | fact f =>
    obtain ⟨loaded, hreload, hstore⟩ := Except.bind_ok.mp hstore
    obtain ⟨m, hchecked, hcommit⟩ := Except.bind_ok.mp hstore
    obtain ⟨hfresh, hloaded⟩ := h.abandoned.reload hreload
    obtain ⟨pending, rfl⟩ := LiteWriter.validateResidentGraph_ok hchecked
    have hputs := residentFact_puts E.writer (E.run n).2
      { loaded.memory with pendingBelongsEdges := pending } f
    have hall := hputs.supersedes ⟨hnode.has, hnode.truthy⟩ fun x hx =>
      (hloaded x hx).congr rfl rfl rfl
    obtain ⟨hfirst, hrest⟩ := List.forall_mem_cons.mp hall
    refine LiteInstance.commitNode_holding hfresh (List.forall_mem_cons.mpr ⟨?_, hrest⟩) hcommit
    exact hfirst
  | preference p =>
    simp only [store] at hstore
    split_ifs at hstore
    obtain ⟨loaded, hreload, hstore⟩ := Except.bind_ok.mp hstore
    obtain ⟨m, hchecked, hcommit⟩ := Except.bind_ok.mp hstore
    obtain ⟨hfresh, hloaded⟩ := h.abandoned.reload hreload
    obtain ⟨pending, rfl⟩ := LiteWriter.validateResidentGraph_ok hchecked
    have hputs := residentPreference_puts E.writer (E.retry n).2
      { loaded.memory with pendingBelongsEdges := pending } p
    have hall := hputs.supersedes ⟨hnode.has, hnode.truthy⟩ fun x hx =>
      (hloaded x hx).congr rfl rfl rfl
    obtain ⟨hfirst, hrest⟩ := List.forall_mem_cons.mp hall
    refine LiteInstance.commitNode_holding hfresh (List.forall_mem_cons.mpr ⟨?_, hrest⟩) hcommit
    exact hfirst

end PremiseEnv

end Memplex
