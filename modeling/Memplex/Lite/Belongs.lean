import Memplex.Lite.Residents

/-!
# The incremental check of the resident graph

Before a commit the store checks the edges to domains that it has queued, against the domains that
it has indexed (`validateResidentGraph`); a load checks all functions and all edges
(`validateBelongsToEdges`). The two agree as long as every edge that is not queued fits the domain
of its function, and the index is right about the functions that queued edges leave (`Queued`).
That is kept by every mutator, on both of its exits, as long as no mutator puts another domain under
a function without indexing it and queueing its edges (`Reached`): `replace_function` does both,
`add` under a new name, a compaction and the events of peers do not.
-/

namespace Memplex

open Lib Lib.Mutator

/-! ## Edges that fit -/

/-- An edge leads to the node of the domain of a function. -/
def Fits (env : Env) (f : Function) (e : GraphEdge) : Prop :=
  f.domainText ≠ "" ∧ e.target = domainNodeId env f.domainText

/-- The full check of an edge. -/
theorem validateBelongsToEdge_ok {env : Env} {functions : Functions} {e : GraphEdge} {u : Unit}
    (htype : e.edgeType = belongsTo) : validateBelongsToEdge env functions e = .ok u ↔
      ∃ f, functions.get? e.source = some f ∧ Fits env f e := by
  unfold validateBelongsToEdge
  rw [if_neg (not_not.mpr htype)]
  cases functions.get? e.source with
  | none => simp
  | some f =>
    have hone : (∃ g, some f = some g ∧ Fits env g e) ↔ Fits env f e := by simp
    rw [hone]
    unfold Fits Function.domainText
    dsimp only
    cases f.domain with
    | str s => exact require_ok
    | _ => exact iff_of_false (fun h => nomatch h) fun h => h.1 rfl

/-- The incremental check of an edge. -/
theorem validateIndexedEdge_ok {env : Env}
    {domainById : Table (Prod.fst : String × String → String)} {e : GraphEdge} {u : Unit} :
    validateIndexedEdge env domainById e = .ok u ↔
      ∃ domain, domainById.get? e.source = some (e.source, domain) ∧ domain ≠ "" ∧
        e.target = domainNodeId env domain := by
  unfold validateIndexedEdge
  cases hget : domainById.get? e.source with
  | none => simp
  | some entry =>
    obtain ⟨id, domain⟩ := entry
    obtain rfl : id = e.source := Table.get?_key hget
    simp [require_ok]

theorem validateBelongsToEdges_ok {env : Env} {functions : Functions} {edges : List GraphEdge}
    {u : Unit} : validateBelongsToEdges env functions edges = .ok u ↔
      (∀ f ∈ functions.rows, validateGraphFunction f = .ok ()) ∧
        ∀ e ∈ edges, validateBelongsToEdge env functions e = .ok () := by
  simp only [validateBelongsToEdges, Except.bind_ok, forM_ok]
  exact ⟨fun ⟨_, h⟩ => h, fun h => ⟨(), h⟩⟩

/-! ## The invariant -/

/-- The index of domains is right about an id. -/
def LiteMemory.Indexed (m : LiteMemory) (id : String) : Prop :=
  m.domainById.get? id = (m.functions.get? id).map fun f => (f.id, f.domainText)

/-- What is not queued was checked, and what is queued can be. -/
structure LiteMemory.Queued (env : Env) (m : LiteMemory) : Prop where
  functions : ∀ f ∈ m.functions.rows, validateGraphFunction f = .ok ()
  checked : ∀ e ∈ m.edges, e ∉ m.pendingBelongsEdges →
    validateBelongsToEdge env m.functions e = .ok ()
  pending : ∀ e ∈ m.pendingBelongsEdges,
    e.edgeType = belongsTo ∧ e.parts ∈ m.edges.map GraphEdge.parts
  indexed : ∀ e ∈ m.pendingBelongsEdges, m.Indexed e.source
  byNode : m.edgesByNode.Indexes m.edges

section Check

variable {W : LiteWriter} {m m' : LiteMemory}

/-- The incremental check. -/
theorem validateResidentGraph_iff : W.validateResidentGraph m = .ok m' ↔
    (∀ e ∈ m.pendingBelongsEdges, validateIndexedEdge W.env m.domainById e = .ok ()) ∧
      m' = { m with pendingBelongsEdges := [] } := by
  unfold LiteWriter.validateResidentGraph
  split_ifs with hnone
  · have hsame : { m with pendingBelongsEdges := [] } = m := by rw [← hnone]
    rw [hnone, hsame]
    exact ⟨fun h => ⟨nofun, (Except.ok.inj h).symm⟩, fun h => h.2 ▸ rfl⟩
  · simp only [Except.bind_ok, forM_ok]
    exact ⟨fun ⟨_, h, heq⟩ => ⟨h, (Except.ok.inj heq).symm⟩, fun h => ⟨(), h.1, h.2 ▸ rfl⟩⟩

/-- A queued edge passes the incremental check exactly when it fits. -/
theorem LiteMemory.Indexed.check {e : GraphEdge} (h : m.Indexed e.source)
    (htype : e.edgeType = belongsTo) : validateIndexedEdge W.env m.domainById e = .ok () ↔
      validateBelongsToEdge W.env m.functions e = .ok () := by
  rw [validateIndexedEdge_ok, validateBelongsToEdge_ok htype, h]
  constructor
  · rintro ⟨domain, hentry, hfit⟩
    obtain ⟨f, hf, hpair⟩ := Option.map_eq_some_iff.mp hentry
    obtain ⟨-, rfl⟩ := Prod.mk.inj hpair
    exact ⟨f, hf, hfit⟩
  · rintro ⟨f, hf, hfit⟩
    refine ⟨f.domainText, ?_, hfit⟩
    have hid : f.id = e.source := (findRow_some hf).2
    rw [hf, ← hid]
    rfl

/-- The check of an edge reads its ends and its type. -/
theorem validateBelongsToEdge_parts {env : Env} {functions : Functions} {e e' : GraphEdge}
    (h : e'.parts = e.parts) :
    validateBelongsToEdge env functions e' = validateBelongsToEdge env functions e := by
  obtain ⟨hsource, hrest⟩ := Prod.mk.inj h
  obtain ⟨htarget, htype⟩ := Prod.mk.inj hrest
  unfold validateBelongsToEdge
  rw [hsource, htarget, htype]

/-- The two checks agree. -/
theorem LiteMemory.Queued.check (h : m.Queued W.env) :
    (∃ m', W.validateResidentGraph m = .ok m') ↔
      validateBelongsToEdges W.env m.functions m.edges = .ok () := by
  simp only [validateResidentGraph_iff, exists_and_left, exists_eq, and_true,
    validateBelongsToEdges_ok]
  constructor
  · intro hqueue
    refine ⟨h.functions, fun e he => ?_⟩
    by_cases hmem : e ∈ m.pendingBelongsEdges
    · exact ((h.indexed e hmem).check (h.pending e hmem).1).mp (hqueue e hmem)
    · exact h.checked e he hmem
  · rintro ⟨-, hfull⟩ e hmem
    obtain ⟨htype, hparts⟩ := h.pending e hmem
    obtain ⟨e', he', hsame⟩ := List.mem_map.mp hparts
    rw [(h.indexed e hmem).check htype, ← validateBelongsToEdge_parts hsame]
    exact hfull e' he'

/-- A graph that was checked in full, without a queue. -/
theorem LiteMemory.queued_of_full
    (hfull : validateBelongsToEdges W.env m.functions m.edges = .ok ())
    (hnone : m.pendingBelongsEdges = []) (hnode : m.edgesByNode.Indexes m.edges) :
    m.Queued W.env := by
  obtain ⟨hfunctions, hedges⟩ := validateBelongsToEdges_ok.mp hfull
  refine ⟨hfunctions, fun e he _ => hedges e he, ?_, ?_, hnode⟩
  · rw [hnone]
    exact nofun
  · rw [hnone]
    exact nofun

/-- The incremental check empties the queue. -/
theorem LiteMemory.Queued.validated (h : m.Queued W.env)
    (hcheck : W.validateResidentGraph m = .ok m') :
    m'.Queued W.env ∧ m' = { m with pendingBelongsEdges := [] } := by
  obtain rfl := (validateResidentGraph_iff.mp hcheck).2
  refine ⟨LiteMemory.queued_of_full (h.check.mp ⟨_, hcheck⟩) rfl h.byNode, rfl⟩

end Check

/-! ## Changes of one function -/

section Changes

variable {env : Env} {m m' : LiteMemory}

@[simp] theorem LiteMemory.indexName_functions (norm funcId : String) :
    (m.indexName norm funcId).functions = m.functions := by
  unfold indexName
  split_ifs <;> rfl

@[simp] theorem LiteMemory.indexName_edges (norm funcId : String) :
    (m.indexName norm funcId).edges = m.edges := by
  unfold indexName
  split_ifs <;> rfl

@[simp] theorem LiteMemory.indexName_edgesByNode (norm funcId : String) :
    (m.indexName norm funcId).edgesByNode = m.edgesByNode := by
  unfold indexName
  split_ifs <;> rfl

@[simp] theorem LiteMemory.indexName_domainById (norm funcId : String) :
    (m.indexName norm funcId).domainById = m.domainById := by
  unfold indexName
  split_ifs <;> rfl

@[simp] theorem LiteMemory.indexName_pending (norm funcId : String) :
    (m.indexName norm funcId).pendingBelongsEdges = m.pendingBelongsEdges := by
  unfold indexName
  split_ifs <;> rfl

/-- A function is put in its place: an edge from it that is not queued then fits it, and the index
is right about the ids that queued edges leave. -/
theorem LiteMemory.Queued.put (h : m.Queued env) {f : Function}
    (hvalid : validateGraphFunction f = .ok ()) (hfunctions : m'.functions = m.functions.set f)
    (hedges : m'.edges = m.edges) (hnode : m'.edgesByNode = m.edgesByNode)
    (hkeep : ∀ e ∈ m.pendingBelongsEdges, e ∈ m'.pendingBelongsEdges)
    (hpending : ∀ e ∈ m'.pendingBelongsEdges,
      e ∈ m.pendingBelongsEdges ∨ e.edgeType = belongsTo ∧ e ∈ m.edges)
    (hfit : ∀ e ∈ m.edges, e.edgeType = belongsTo → e.source = f.id →
      e ∉ m'.pendingBelongsEdges → Fits env f e)
    (hindexed : ∀ e ∈ m'.pendingBelongsEdges, m'.Indexed e.source) : m'.Queued env where
  functions := by
    rw [hfunctions]
    intro g hg
    rcases mem_upsertRow.mp hg with rfl | ⟨hg, -⟩
    · exact hvalid
    · exact h.functions g hg
  checked := by
    rw [hfunctions, hedges]
    intro e he hfree
    by_cases htype : e.edgeType = belongsTo
    · rw [validateBelongsToEdge_ok htype, Table.get?_set]
      split_ifs with hsource
      · exact ⟨f, rfl, hfit e he htype hsource.symm hfree⟩
      · exact (validateBelongsToEdge_ok htype).mp (h.checked e he fun hmem => hfree (hkeep e hmem))
    · rw [validateBelongsToEdge, if_pos htype]
  pending := by
    rw [hedges]
    intro e he
    rcases hpending e he with hold | ⟨htype, hmem⟩
    · exact h.pending e hold
    · exact ⟨htype, List.mem_map_of_mem hmem⟩
  indexed := hindexed
  byNode := by rw [hnode, hedges]; exact h.byNode

/-- Another function in its place leaves the index right about an id, if the domain that is indexed
for its own id is its own. -/
theorem LiteMemory.Indexed.put {id : String} {f : Function} (h : m.Indexed id)
    (hfunctions : m'.functions = m.functions.set f)
    (hsame : id ≠ f.id → m'.domainById.get? id = m.domainById.get? id)
    (hself : id = f.id → m'.domainById.get? f.id = some (f.id, f.domainText)) : m'.Indexed id := by
  unfold LiteMemory.Indexed
  rw [hfunctions, Table.get?_set]
  split_ifs with hid
  · obtain rfl := hid
    exact hself rfl
  · rw [hsame fun heq => hid heq.symm]
    exact h

/-- What a function has to find that is put in its place without being indexed: it fits the edges
that were checked, and its domain is the one that is indexed if edges that leave it are queued. -/
structure PutFits (env : Env) (f : Function) (m : LiteMemory) : Prop where
  fits : ∀ e ∈ m.edges, e.edgeType = belongsTo → e.source = f.id → e ∉ m.pendingBelongsEdges →
    Fits env f e
  indexed : ∀ e ∈ m.pendingBelongsEdges, e.source = f.id →
    m.domainById.get? f.id = some (f.id, f.domainText)

/-- A function is put in its place, and nothing else. -/
theorem LiteMemory.Queued.putOnly (h : m.Queued env) {f : Function}
    (hvalid : validateGraphFunction f = .ok ()) (hfits : PutFits env f m)
    (hfunctions : m'.functions = m.functions.set f) (hedges : m'.edges = m.edges)
    (hnode : m'.edgesByNode = m.edgesByNode)
    (hpending : m'.pendingBelongsEdges = m.pendingBelongsEdges)
    (hdomains : m'.domainById = m.domainById) : m'.Queued env := by
  refine h.put hvalid hfunctions hedges hnode (fun e he => hpending ▸ he)
    (fun e he => .inl (hpending ▸ he)) (fun e he htype hsource hfree => ?_) fun e he => ?_
  · exact hfits.fits e he htype hsource (hpending ▸ hfree)
  · have hold := h.indexed e (hpending ▸ he)
    refine hold.put hfunctions (fun _ => by rw [hdomains]) fun hsource => ?_
    rw [hdomains]
    exact hfits.indexed e (hpending ▸ he) hsource

/-- A resident function is changed, but not its id and its domain. -/
theorem LiteMemory.Queued.touch (h : m.Queued env) {f : Function} (f' : Function)
    (hget : m.functions.get? f.id = some f) (hid : f'.id = f.id) (hdomain : f'.domain = f.domain)
    (hfunctions : m'.functions = m.functions.set f') (hedges : m'.edges = m.edges)
    (hnode : m'.edgesByNode = m.edgesByNode)
    (hpending : m'.pendingBelongsEdges = m.pendingBelongsEdges)
    (hdomains : m'.domainById = m.domainById) : m'.Queued env := by
  have htext : f'.domainText = f.domainText := by rw [Function.domainText, hdomain]; rfl
  have hvalid : validateGraphFunction f' = .ok () := by
    have hold := h.functions f ((Table.mem_rows_iff _ f).mpr hget)
    rw [validateGraphFunction] at hold ⊢
    rwa [hid, hdomain]
  refine h.putOnly hvalid ⟨fun e he htype hsource hfree => ?_, fun e he hsource => ?_⟩ hfunctions
    hedges hnode hpending hdomains
  · obtain ⟨g, hg, hfit⟩ := (validateBelongsToEdge_ok htype).mp (h.checked e he hfree)
    rw [hsource, hid, hget] at hg
    obtain rfl : f = g := Option.some.inj hg
    rw [Fits, htext]
    exact hfit
  · have hold := h.indexed e he
    rw [LiteMemory.Indexed, hsource, hid] at hold
    rw [hid, hold, hget, htext]
    rfl

/-- Functions go, and no edge to a domain that stays has left one of them. -/
theorem LiteMemory.Queued.drop (h : m.Queued env) (gone : String → Prop)
    (hrows : ∀ f ∈ m'.functions.rows, f ∈ m.functions.rows)
    (hget : ∀ id, ¬ gone id → m'.functions.get? id = m.functions.get? id)
    (hedges : ∀ e ∈ m'.edges, e ∈ m.edges)
    (hstays : ∀ e ∈ m'.edges, e.edgeType = belongsTo → ¬ gone e.source)
    (hpending : m'.pendingBelongsEdges = m.pendingBelongsEdges)
    (hparts : ∀ e ∈ m.pendingBelongsEdges, e.parts ∈ m'.edges.map GraphEdge.parts)
    (hdomains : ∀ id, ¬ gone id → m'.domainById.get? id = m.domainById.get? id)
    (hnode : m'.edgesByNode.Indexes m'.edges) : m'.Queued env where
  functions f hf := h.functions f (hrows f hf)
  checked e he hfree := by
    have hold := h.checked e (hedges e he) (hpending ▸ hfree)
    by_cases htype : e.edgeType = belongsTo
    · rw [validateBelongsToEdge_ok htype] at hold ⊢
      rwa [hget _ (hstays e he htype)]
    · rw [validateBelongsToEdge, if_pos htype]
  pending e he := by
    rw [hpending] at he
    exact ⟨(h.pending e he).1, hparts e he⟩
  indexed e he := by
    rw [hpending] at he
    -- The queued edge is one that stays, under its parts.
    obtain ⟨e', he', hsame⟩ := List.mem_map.mp (hparts e he)
    obtain ⟨hsource, hrest⟩ := Prod.mk.inj hsame
    obtain ⟨-, htype⟩ := Prod.mk.inj hrest
    have hhere : ¬ gone e.source := hsource ▸ hstays e' he' (htype.trans (h.pending e he).1)
    rw [LiteMemory.Indexed, hdomains _ hhere, hget _ hhere]
    exact h.indexed e he
  byNode := hnode

/-- What the invariant reads is the same. -/
theorem LiteMemory.Queued.same (h : m.Queued env) (hfunctions : m'.functions = m.functions)
    (hedges : m'.edges = m.edges) (hnode : m'.edgesByNode = m.edgesByNode)
    (hpending : m'.pendingBelongsEdges = m.pendingBelongsEdges)
    (hdomains : m'.domainById = m.domainById) : m'.Queued env := by
  refine ⟨?_, ?_, ?_, ?_, ?_⟩
  · rw [hfunctions]; exact h.functions
  · rw [hfunctions, hedges, hpending]; exact h.checked
  · rw [hedges, hpending]; exact h.pending
  · intro e he
    rw [LiteMemory.Indexed, hdomains, hfunctions]
    exact h.indexed e (hpending ▸ he)
  · rw [hnode, hedges]; exact h.byNode

/-- Functions under some ids are changed, but not their ids and domains. -/
theorem LiteMemory.Queued.touched (change : Function → Function)
    (hid : ∀ f, (change f).id = f.id) (hdomain : ∀ f, (change f).domain = f.domain)
    (ids : List String) (h : m.Queued env) : (m.touch ids change).Queued env := by
  induction ids generalizing m with
  | nil => exact h
  | cons id ids ih =>
    refine ih ?_
    dsimp only
    cases hget : m.functions.get? id with
    | none => exact h
    | some f =>
      have hkey : f.id = id := (findRow_some hget).2
      exact h.touch (change f) (by rwa [hkey]) (hid f) (hdomain f) rfl rfl rfl rfl rfl

/-- A function is put in its place and indexed. -/
structure LiteMemory.Enters (m : LiteMemory) (f : Function) (m' : LiteMemory) : Prop where
  functions : m'.functions = m.functions.set f
  edges : m'.edges = m.edges
  byNode : m'.edgesByNode = m.edgesByNode
  domains : m'.domainById = m.domainById.set (f.id, f.domainText)
  pending : m'.pendingBelongsEdges = m.pendingBelongsEdges

theorem LiteMemory.enters (m : LiteMemory) (f : Function) (norm : String) :
    m.Enters f (((m.putFunction f).indexName norm f.id).indexResidentFunction f) where
  functions := indexName_functions ..
  edges := indexName_edges ..
  byNode := indexName_edgesByNode ..
  domains := congrArg (Table.set · (f.id, f.domainText)) (indexName_domainById ..)
  pending := indexName_pending ..

/-- The index is then right about the function. -/
theorem LiteMemory.Enters.self {f : Function} (h : m.Enters f m') : m'.Indexed f.id := by
  rw [LiteMemory.Indexed, h.functions, h.domains, Table.get?_set, Table.get?_set, if_pos rfl,
    if_pos rfl]
  rfl

/-- What the index is right about stays so. -/
theorem LiteMemory.Enters.keeps {f : Function} (h : m.Enters f m') {id : String}
    (hid : m.Indexed id) : m'.Indexed id := by
  refine hid.put h.functions (fun hne => ?_) fun _ => ?_
  · rw [h.domains, Table.get?_set, if_neg (Ne.symm hne)]
  · rw [h.domains, Table.get?_set, if_pos rfl]

end Changes

/-! ## The mutators -/

namespace LiteWriter

variable {W : LiteWriter} {moment : WriteMoment}

/-- The check that begins most mutators. -/
theorem leaves_validated {C : LiteMemory → Prop}
    (hC : ∀ m, C m → C { m with pendingBelongsEdges := [] }) :
    Leaves (fun m => m.Queued W.env ∧ C m) (ofStep W.validateResidentGraph)
      (fun _ m => m.Queued W.env ∧ m.pendingBelongsEdges = [] ∧ C m)
      (fun m => m.Queued W.env) := by
  refine leaves_ofStep ?_ fun m hm => hm.1
  rintro m m' ⟨hqueued, hcond⟩ hstep
  obtain ⟨hqueued', rfl⟩ := hqueued.validated hstep
  exact ⟨hqueued', rfl, hC m hcond⟩

/-- The check that begins a mutator without a condition. -/
theorem leaves_begin : Leaves (fun m => m.Queued W.env) (ofStep W.validateResidentGraph)
    (fun _ m => m.Queued W.env ∧ m.pendingBelongsEdges = []) (fun m => m.Queued W.env) :=
  Leaves.mono (leaves_validated (C := fun _ => True) fun _ h => h) (fun _ h => ⟨h, trivial⟩)
    (fun _ _ h => ⟨h.1, h.2.1⟩) fun _ h => h

/-- A check that does not change the state. -/
theorem leaves_check {P : LiteMemory → Prop} {α : Type} {x : Except PyError α}
    (hP : ∀ m, P m → m.Queued W.env) :
    Leaves P (orRaise x) (fun a m => P m ∧ x = .ok a) (fun m => m.Queued W.env) :=
  leaves_orRaise fun _ _ m hm => hP m hm

/-- A function that comes in passes the checks of the graph. -/
theorem checkIncoming_ok {func : Function} {u : Unit} (h : checkIncoming func = .ok u) :
    validateGraphFunction func = .ok () := by
  obtain ⟨_, hid, h⟩ := Except.bind_ok.mp h
  obtain ⟨domain, hdomain, -⟩ := Except.bind_ok.mp h
  exact Except.bind_ok.mpr ⟨(), hid, Except.bind_ok.mpr ⟨domain, hdomain, rfl⟩⟩

/-- The function that a name is indexed for is resident. -/
theorem namesake_get {b : BusinessState} {norm : String} {f : Function}
    (h : b.namesake norm = some f) : b.functions.get? f.id = some f := by
  obtain ⟨entry, -, h⟩ := Option.bind_eq_some_iff.mp h
  split_ifs at h
  have hid : f.id = entry.2 := (findRow_some h).2
  rwa [hid]

/-- What `add` has to find: a function that it accepts and does not merge fits the edges that leave
it. -/
def AddFits (W : LiteWriter) (func : Function) (m : LiteMemory) : Prop :=
  ∀ norm, checkIncoming func = .ok () → functionNameKey W.env func = .ok norm →
    m.store.business.namesake norm = none →
    ∀ e ∈ m.edges, e.edgeType = belongsTo → e.source = func.id → Fits W.env func e

theorem addResident_leaves (func : Function) (source : SourceDocument) :
    Leaves (fun m => m.Queued W.env ∧ AddFits W func m) (W.addResident moment func source)
      (fun _ m => m.Queued W.env) (fun m => m.Queued W.env) := by
  unfold addResident
  refine leaves_bind (leaves_validated fun m hfits => hfits) fun _ => ?_
  refine leaves_bind (leaves_check fun m hm => hm.1) fun _ => ?_
  refine leaves_bind (leaves_check fun m hm => hm.1.1) fun norm => ?_
  refine leaves_bind leaves_get fun m => ?_
  cases hname : m.store.business.namesake norm with
  | some existing =>
    refine leaves_bind (leaves_set (Q := fun _ m => m.Queued W.env) ?_) fun _ =>
      leaves_pure fun _ h => h
    rintro _ ⟨⟨⟨⟨hqueued, -, -⟩, -⟩, -⟩, rfl⟩
    exact hqueued.touch (existing.merge func moment.updatedAt) (namesake_get hname) rfl rfl rfl rfl
      rfl rfl rfl
  | none =>
    refine leaves_bind (leaves_set (Q := fun _ m => m.Queued W.env) ?_) fun _ =>
      leaves_bind (leaves_check fun _ h => h) fun _ => leaves_pure fun _ h => h.1
    rintro _ ⟨⟨⟨⟨hqueued, hnone, hfits⟩, hcheck⟩, hnorm⟩, rfl⟩
    have hempty : ∀ e ∈ m.pendingBelongsEdges, False := by
      rw [hnone]
      exact nofun
    exact hqueued.put (checkIncoming_ok hcheck) rfl rfl rfl (fun _ he => he) (fun _ he => .inl he)
      (fun e he htype hsource _ => hfits norm hcheck hnorm hname e he htype hsource)
      fun e he => (hempty e he).elim

theorem delete_leaves (funcId : String) :
    Leaves (fun m => m.Queued W.env) (W.delete funcId) (fun _ m => m.Queued W.env)
      (fun m => m.Queued W.env) := by
  unfold delete
  refine leaves_bind leaves_begin fun _ => ?_
  refine leaves_bind leaves_get fun m => ?_
  split_ifs
  · exact leaves_pure fun _ h => h.1.1
  · refine leaves_bind (leaves_set (Q := fun _ m => m.Queued W.env) ?_) fun _ =>
      leaves_pure fun _ h => h
    rintro _ ⟨⟨hqueued, hnone⟩, rfl⟩
    refine hqueued.drop (fun id => id = funcId) (fun f hf => (mem_eraseRow.mp hf).1)
      (fun id hid => ?_) (fun e he => (List.mem_filter.mp he).1) (fun e he _ => ?_) rfl
      (by rw [hnone]; exact nofun) (fun id hid => ?_) (EdgesByNode.indexes_rebuild _)
    · change (m.functions.erase funcId).get? id = _
      rw [Table.get?_erase, if_neg hid]
    · exact (of_decide_eq_true (List.mem_filter.mp he).2).1
    · change (m.domainById.erase funcId).get? id = _
      rw [Table.get?_erase, if_neg hid]

theorem annotate_leaves (ids : List String) (attributes : PyDict) (needsReview : Option Bool) :
    Leaves (fun m => m.Queued W.env) (annotate ids attributes needsReview)
      (fun _ m => m.Queued W.env) (fun m => m.Queued W.env) :=
  leaves_modify fun _ h => h.touched (Function.annotate attributes needsReview) (fun _ => rfl)
    (fun _ => rfl) ids

theorem incrementAccess_leaves (ids : List String) :
    Leaves (fun m => m.Queued W.env) (W.incrementAccess moment ids) (fun _ m => m.Queued W.env)
      (fun m => m.Queued W.env) := by
  unfold incrementAccess
  refine leaves_bind leaves_begin fun _ => ?_
  exact leaves_modify fun _ h => h.1.touched (Function.accessed moment.updatedAt) (fun _ => rfl)
    (fun _ => rfl) ids

theorem annotateNodes_leaves (ids : List String) (attributes : PyDict)
    (needsReview : Option Bool) :
    Leaves (fun m => m.Queued W.env) (W.annotateNodes ids attributes needsReview)
      (fun _ m => m.Queued W.env) (fun m => m.Queued W.env) := by
  have hfold : ∀ {m : LiteMemory}, m.Queued W.env →
      (ids.foldl (W.annotateAt attributes needsReview) m).Queued W.env := by
    induction ids with
    | nil => exact fun h => h
    | cons id ids ih =>
      intro m h
      refine ih ?_
      cases hget : m.functions.get? id with
      | some f =>
        have hkey : f.id = id := (findRow_some hget).2
        simp only [annotateAt, hget]
        exact h.touch (f := f) (f.annotate attributes needsReview) (by rwa [hkey]) rfl rfl rfl rfl
          rfl rfl rfl
      | none =>
        cases hfact : m.store.business.facts.get? id with
        | some fact =>
          simp only [annotateAt, hget, hfact]
          exact h.same rfl rfl rfl rfl rfl
        | none =>
          cases hpref : m.store.business.preferences.get? id with
          | some pref =>
            simp only [annotateAt, hget, hfact, hpref]
            exact h.same rfl rfl rfl rfl rfl
          | none =>
            simp only [annotateAt, hget, hfact, hpref]
            exact h
  refine leaves_bind leaves_get fun m => leaves_bind (leaves_check fun _ h => h.1) fun _ => ?_
  exact leaves_modify fun _ h => hfold h.1.1

theorem clear_leaves : Leaves (fun m => m.Queued W.env) W.clear (fun _ m => m.Queued W.env)
    (fun m => m.Queued W.env) := by
  unfold clear
  refine leaves_bind leaves_begin fun _ => ?_
  refine leaves_bind leaves_get fun m => ?_
  refine leaves_bind (leaves_set (Q := fun _ m => m.Queued W.env) ?_)
    fun _ => Leaves.mono (leaves_check fun _ h => h) (fun _ h => h) (fun _ _ h => h.1) fun _ h => h
  intro _ _
  exact ⟨nofun, nofun, nofun, nofun, EdgesByNode.indexes_rebuild []⟩

/-! ### Merging -/

/-- What a merge has to find: the index is right about the functions that the new edges leave which
it accepts, those apart that come with it. -/
def MergeFits (W : LiteWriter) (nodes : List Function) (edges : List GraphEdge) (m : LiteMemory) :
    Prop :=
  ∀ e ∈ edges, W.checkMergeEdge nodes m e = .ok () → e.edgeType = belongsTo →
    e.parts ∉ m.edges.map GraphEdge.parts →
    (∀ n ∈ nodes, n.id = e.source → m.functions.contains n.id = true) → m.Indexed e.source

/-- A function of a graph that is merged: the index stays right, and gets right about a new one. -/
theorem mergeNode_queued (moment : WriteMoment) {m : LiteMemory} (h : m.Queued W.env)
    (hnone : m.pendingBelongsEdges = [])
    {node : Function} (hvalid : validateGraphFunction node = .ok ()) :
    (W.mergeNode moment m node).Queued W.env ∧
      (W.mergeNode moment m node).pendingBelongsEdges = [] ∧
      (W.mergeNode moment m node).edges = m.edges ∧
      (∀ id, m.Indexed id → (W.mergeNode moment m node).Indexed id) ∧
      (∀ id, id ≠ node.id → (W.mergeNode moment m node).functions.get? id = m.functions.get? id) ∧
      (m.functions.contains node.id = false → (W.mergeNode moment m node).Indexed node.id) := by
  unfold mergeNode
  cases hget : m.functions.get? node.id with
  | some existing =>
    have hkey : existing.id = node.id := (findRow_some hget).2
    have hself : m.functions.get? existing.id = some existing := by rwa [hkey]
    have hqueued : (m.putFunction (existing.mergeFields node moment.updatedAt)).Queued W.env :=
      h.touch (existing.mergeFields node moment.updatedAt) hself rfl rfl rfl rfl rfl rfl rfl
    refine ⟨hqueued, hnone, rfl, fun id hid => ?_, fun id hid => ?_, fun hnew => ?_⟩
    · refine hid.put (f := existing.mergeFields node moment.updatedAt) rfl (fun _ => rfl)
        fun heq => ?_
      have hindex : m.domainById.get? id = (m.functions.get? id).map _ := hid
      rw [heq] at hindex
      change m.domainById.get? existing.id = some (existing.id, existing.domainText)
      exact hindex.trans (congrArg (Option.map _) hself)
    · change (m.functions.set _).get? id = _
      rw [Table.get?_set, if_neg]
      exact fun heq => hid (heq.symm.trans hkey)
    · rw [Table.contains, hget] at hnew
      exact absurd hnew (by simp)
  | none =>
    have henters := m.enters node (nodeNorm W.env node)
    have hpending := henters.pending.trans hnone
    refine ⟨?_, hpending, henters.edges, fun id hid => henters.keeps hid, fun id hid => ?_,
      fun _ => henters.self⟩
    · -- No edge that was checked leaves a function that is not resident.
      refine h.put hvalid henters.functions henters.edges henters.byNode
        (by rw [hnone]; exact nofun) (by rw [hpending]; exact nofun)
        (fun e he htype hsource _ => ?_)
        (by rw [hpending]; exact nofun)
      obtain ⟨f, hf, -⟩ := (validateBelongsToEdge_ok htype).mp
        (h.checked e he (by rw [hnone]; exact List.not_mem_nil))
      rw [hsource, hget] at hf
      exact nomatch hf
    · rw [henters.functions, Table.get?_set, if_neg (Ne.symm hid)]

/-- The functions of a graph that is merged. -/
theorem foldl_mergeNode_queued (moment : WriteMoment) {nodes : List Function} {m : LiteMemory}
    (h : m.Queued W.env) (hnone : m.pendingBelongsEdges = [])
    (hvalid : ∀ n ∈ nodes, validateGraphFunction n = .ok ()) :
    (nodes.foldl (W.mergeNode moment) m).Queued W.env ∧
      (nodes.foldl (W.mergeNode moment) m).edges = m.edges ∧
      ∀ id, (m.Indexed id ∨ (∃ n ∈ nodes, n.id = id) ∧ m.functions.contains id = false) →
        (nodes.foldl (W.mergeNode moment) m).Indexed id := by
  induction nodes generalizing m with
  | nil => exact ⟨h, rfl, fun id hid => hid.resolve_right fun h => nomatch h.1⟩
  | cons node nodes ih =>
    obtain ⟨hnode, hnodes⟩ := List.forall_mem_cons.mp hvalid
    obtain ⟨hqueued, hnone', hedges, hkeep, hother, hnew⟩ :=
      mergeNode_queued moment h hnone hnode
    obtain ⟨hqueued', hedges', hindexed⟩ := ih hqueued hnone' hnodes
    refine ⟨hqueued', hedges'.trans hedges, fun id hid => hindexed id ?_⟩
    rcases hid with hid | ⟨⟨n, hn, hid⟩, hmissing⟩
    · exact .inl (hkeep id hid)
    · by_cases hsame : id = node.id
      · rw [hsame] at hmissing ⊢
        exact .inl (hnew hmissing)
      · rcases List.mem_cons.mp hn with rfl | hn
        · exact absurd hid.symm hsame
        · refine .inr ⟨⟨n, hn, hid⟩, ?_⟩
          rw [Table.contains, hother id hsame]
          exact hmissing

/-- One edge of a graph that is merged, if the index is right about the function that it leaves. -/
theorem mergeEdge_queued {m : LiteMemory} (h : m.Queued W.env) {edge : GraphEdge}
    (hindexed : edge.edgeType = belongsTo → edge.parts ∉ m.edges.map GraphEdge.parts →
      m.Indexed edge.source) : (mergeEdge m edge).Queued W.env := by
  unfold mergeEdge
  split_ifs with hknown htype
  · exact h
  · refine ⟨h.functions, ?_, ?_, ?_, h.byNode.indexEdge edge⟩
    · intro e he hfree
      obtain ⟨hfree, hne⟩ := not_or.mp (mt List.mem_append.mpr hfree)
      rcases List.mem_append.mp he with he | he
      · exact h.checked e he hfree
      · exact absurd he hne
    · intro e he
      change _ ∧ e.parts ∈ (m.edges ++ [edge]).map GraphEdge.parts
      rw [List.map_append]
      rcases List.mem_append.mp he with he | he
      · exact ⟨(h.pending e he).1, List.mem_append_left _ (h.pending e he).2⟩
      · obtain rfl := List.mem_singleton.mp he
        exact ⟨htype, List.mem_append_right _ (List.mem_singleton_self _)⟩
    · intro e he
      rcases List.mem_append.mp he with he | he
      · exact h.indexed e he
      · obtain rfl := List.mem_singleton.mp he
        exact hindexed htype hknown
  · refine ⟨h.functions, ?_, ?_, h.indexed, h.byNode.indexEdge edge⟩
    · intro e he hfree
      rcases List.mem_append.mp he with he | he
      · exact h.checked e he hfree
      · obtain rfl := List.mem_singleton.mp he
        rw [validateBelongsToEdge, if_pos htype]
    · intro e he
      change _ ∧ e.parts ∈ (m.edges ++ [edge]).map GraphEdge.parts
      rw [List.map_append]
      exact ⟨(h.pending e he).1, List.mem_append_left _ (h.pending e he).2⟩

/-- The edges of a graph that is merged. -/
theorem foldl_mergeEdge_queued {edges : List GraphEdge} {m : LiteMemory} (h : m.Queued W.env)
    (hindexed : ∀ e ∈ edges, e.edgeType = belongsTo → e.parts ∉ m.edges.map GraphEdge.parts →
      m.Indexed e.source) : (edges.foldl mergeEdge m).Queued W.env := by
  induction edges generalizing m with
  | nil => exact h
  | cons edge edges ih =>
    obtain ⟨hedge, hedges⟩ := List.forall_mem_cons.mp hindexed
    refine ih (mergeEdge_queued h hedge) fun e he htype hfree => ?_
    unfold mergeEdge at hfree ⊢
    split_ifs at hfree ⊢ with hknown
    · exact hedges e he htype hfree
    all_goals
      refine hedges e he htype fun hmem => hfree ?_
      change e.parts ∈ (m.edges ++ [edge]).map GraphEdge.parts
      rw [List.map_append]
      exact List.mem_append_left _ hmem

theorem merge_leaves (nodes : List Function) (edges : List GraphEdge) :
    Leaves (fun m => m.Queued W.env ∧ MergeFits W nodes edges m) (W.merge moment nodes edges)
      (fun _ m => m.Queued W.env) (fun m => m.Queued W.env) := by
  unfold merge
  refine leaves_bind (leaves_validated fun m hfits => hfits) fun _ => ?_
  refine leaves_bind (leaves_check fun m hm => hm.1) fun _ => ?_
  refine leaves_bind (leaves_check fun m hm => hm.1.1) fun _ => ?_
  refine leaves_bind leaves_get fun m => ?_
  refine leaves_bind (leaves_check fun m hm => hm.1.1.1.1) fun _ => ?_
  refine leaves_bind (leaves_modify (Q := fun _ m => m.Queued W.env ∧ ∀ e ∈ edges,
    e.edgeType = belongsTo → e.parts ∉ m.edges.map GraphEdge.parts → m.Indexed e.source) ?_)
    fun _ => ?_
  · rintro _ ⟨⟨⟨⟨⟨hqueued, hnone, hfits⟩, hnodes⟩, -⟩, rfl⟩, hchecks⟩
    have haccepts := forM_ok.mp hchecks
    obtain ⟨hnodes, -⟩ := validateItems_ok.mp hnodes
    obtain ⟨hqueued', hedges, hindexed⟩ := foldl_mergeNode_queued moment hqueued hnone
      fun n hn => checkIncoming_ok (hnodes n hn)
    refine ⟨hqueued', fun e he htype hfree => hindexed _ ?_⟩
    rw [hedges] at hfree
    by_cases hcomes : ∀ n ∈ nodes, n.id = e.source → m.functions.contains n.id = true
    · exact .inl (hfits e he (haccepts e he) htype hfree hcomes)
    · push Not at hcomes
      obtain ⟨n, hn, hid, hmissing⟩ := hcomes
      rw [hid] at hmissing
      exact .inr ⟨⟨n, hn, hid⟩, Bool.eq_false_iff.mpr hmissing⟩
  · refine leaves_bind (leaves_modify (Q := fun _ m => m.Queued W.env) fun m hm =>
      foldl_mergeEdge_queued hm.1 hm.2) fun _ => ?_
    refine leaves_bind leaves_get fun merged => ?_
    exact Leaves.mono (leaves_check fun _ h => h.1) (fun _ h => h) (fun _ _ h => h.1.1) fun _ h => h

/-! ### Replacing -/

/-- The name of a function can be normalized. -/
def Named (W : LiteWriter) (func : Function) : Prop := ∃ norm, functionNameKey W.env func = .ok norm

/-- No function has the id of a domain. -/
theorem domainNodeId_ne {env : Env} {domain id : String} (h : validateFuncId id = .ok ()) :
    domainNodeId env domain ≠ id := by
  rintro rfl
  obtain ⟨_, hreserved, -⟩ := Except.bind_ok.mp h
  refine require_ok.mp hreserved ?_
  rw [domainNodeId, String.toList_append]
  exact List.prefix_append ..

/-- A function is replaced: its domain is indexed, and its edges are queued. -/
theorem replaced_queued {m : LiteMemory} (h : m.Queued W.env) {func : Function}
    (hvalid : validateGraphFunction func = .ok ()) (norm : String)
    (names : Table (Prod.fst : String × String → String)) :
    (((((m.setNames names).putFunction func).indexName norm func.id).indexResidentFunction func)
      |>.requeueOutgoingBelongsEdges func.id).Queued W.env := by
  have henters := (m.setNames names).enters func norm
  generalize (((m.setNames names).putFunction func).indexName norm func.id).indexResidentFunction
    func = m' at henters ⊢
  have hqueue : ∀ e, e ∈ (m'.requeueOutgoingBelongsEdges func.id).pendingBelongsEdges ↔
      e ∈ m.pendingBelongsEdges ∨
        (e ∈ m.edges ∧ (e.source = func.id ∨ e.target = func.id)) ∧ e.edgeType = belongsTo := by
    intro e
    have hpending : m'.pendingBelongsEdges = m.pendingBelongsEdges := henters.pending
    have hnode : m'.edgesByNode = m.edgesByNode := henters.byNode
    rw [LiteMemory.requeueOutgoingBelongsEdges, hpending, hnode, List.mem_append, List.mem_filter,
      h.byNode.mem, decide_eq_true_eq]
  refine h.put hvalid henters.functions henters.edges henters.byNode
    (fun e he => (hqueue e).mpr (.inl he)) (fun e he => ?_) (fun e he htype hsource hfree => ?_)
    fun e he => ?_
  · exact ((hqueue e).mp he).imp_right fun h => ⟨h.2, h.1.1⟩
  · exact absurd ((hqueue e).mpr (.inr ⟨⟨he, .inl hsource⟩, htype⟩)) hfree
  · rcases (hqueue e).mp he with he | ⟨⟨he, hend⟩, htype⟩
    · exact henters.keeps (h.indexed e he)
    · by_cases hmem : e ∈ m.pendingBelongsEdges
      · exact henters.keeps (h.indexed e hmem)
      · -- An edge that was checked leads to a domain, and not to a function.
        obtain ⟨f, -, -, htarget⟩ := (validateBelongsToEdge_ok htype).mp (h.checked e he hmem)
        obtain ⟨_, hid, -⟩ := Except.bind_ok.mp hvalid
        rcases hend with hsource | hend
        · rw [hsource]
          exact henters.self
        · exact absurd (htarget.symm.trans hend) (domainNodeId_ne hid)

/-- What `replace_function` has to find: the name can be normalized, which comes before the domain
is indexed and the edges are queued, or neither is needed. -/
def ReplaceFits (W : LiteWriter) (func : Function) (m : LiteMemory) : Prop :=
  Named W func ∨ PutFits W.env func m

theorem replaceFunction_leaves (func : Function) :
    Leaves (fun m => m.Queued W.env ∧ ReplaceFits W func m) (W.replaceFunction func)
      (fun _ m => m.Queued W.env) (fun m => m.Queued W.env) := by
  unfold replaceFunction
  refine leaves_bind leaves_get fun m => leaves_bind (leaves_check fun _ h => h.1.1) fun _ => ?_
  refine leaves_bind (leaves_check fun _ h => h.1.1.1) fun _ => ?_
  refine leaves_bind (leaves_check fun _ h => h.1.1.1.1) fun domain => ?_
  refine leaves_bind (leaves_modify (Q := fun _ m' => ∃ (m : LiteMemory)
    (names : Table (Prod.fst : String × String → String)), m.Queued W.env ∧
      validateGraphFunction func = .ok () ∧ ReplaceFits W func m ∧
      m' = (m.setNames names).putFunction func) ?_) fun _ => ?_
  · rintro m ⟨⟨⟨⟨⟨hqueued, hfits⟩, -⟩, -⟩, hid⟩, hdomain⟩
    exact ⟨m, _, hqueued, Except.bind_ok.mpr ⟨(), hid, Except.bind_ok.mpr ⟨domain, hdomain, rfl⟩⟩,
      hfits, rfl⟩
  · refine leaves_bind (leaves_orRaise (R := LiteMemory.Queued W.env) ?_) fun norm =>
      leaves_modify ?_
    · rintro e he _ ⟨m, names, hqueued, hvalid, ⟨norm, hnorm⟩ | hfits, rfl⟩
      · rw [hnorm] at he
        exact nomatch he
      · exact hqueued.putOnly hvalid hfits rfl rfl rfl rfl rfl
    · rintro _ ⟨⟨m, names, hqueued, hvalid, -, rfl⟩, -⟩
      exact replaced_queued hqueued hvalid norm names

theorem updateFunctionRole_leaves (memoryId : String) (edit : Function → Except PyError Function) :
    Leaves (fun m => m.Queued W.env ∧ ∀ current func, m.functions.get? memoryId = some current →
        edit current = .ok func → ReplaceFits W func m)
      (W.updateFunctionRole memoryId edit) (fun _ m => m.Queued W.env)
      (fun m => m.Queued W.env) := by
  unfold updateFunctionRole
  refine leaves_bind leaves_get fun m => ?_
  cases hget : m.functions.get? memoryId with
  | none => exact leaves_throw fun _ h => h.1.1
  | some current =>
    refine leaves_bind (leaves_check fun _ h => h.1.1) fun func => ?_
    refine Leaves.mono (replaceFunction_leaves func) ?_ (fun _ _ h => h) fun _ h => h
    rintro _ ⟨⟨⟨hqueued, hfits⟩, rfl⟩, hedit⟩
    exact ⟨hqueued, hfits current func hget hedit⟩

/-! ### Compaction -/

/-- What a compaction has to find: its replacements could be loaded, the edges that stay fit them,
and queued edges are not at a function that it deletes, nor at one that it gives a domain that is
not indexed. -/
structure CompactFits (W : LiteWriter) (replacements : List Function) (deleteIds : List String)
    (m : LiteMemory) : Prop where
  valid : ∀ f ∈ replacements, validateGraphFunction f = .ok () ∧ Named W f
  fits : ∀ f ∈ replacements, ∀ e ∈ m.edges, e.edgeType = belongsTo → e.source = f.id →
    e.target ∉ deleteIds → Fits W.env f e
  pending : ∀ e ∈ m.pendingBelongsEdges, incident deleteIds e = false ∧
    ∀ f ∈ replacements, e.source = f.id → m.domainById.get? f.id = some (f.id, f.domainText)

theorem incident_eq_false {ids : List String} {e : GraphEdge} :
    incident ids e = false ↔ e.source ∉ ids ∧ e.target ∉ ids := by
  simp [incident]

theorem mem_filter_incident {ids : List String} {edges : List GraphEdge} {e : GraphEdge} :
    e ∈ edges.filter (fun e => !incident ids e) ↔ e ∈ edges ∧ e.source ∉ ids ∧ e.target ∉ ids := by
  rw [List.mem_filter, ← incident_eq_false]
  simp

/-- The state after the deletions of a compaction, with its edges indexed again. -/
theorem compactDelete_queued {m m' : LiteMemory} (h : m.Queued W.env) {deleteIds : List String}
    (hpending : ∀ e ∈ m.pendingBelongsEdges, incident deleteIds e = false)
    (hfunctions : m'.functions = deleteIds.foldl Table.erase m.functions)
    (hedges : m'.edges = m.edges.filter fun e => !incident deleteIds e)
    (hnode : m'.edgesByNode.Indexes m'.edges)
    (hqueue : m'.pendingBelongsEdges = m.pendingBelongsEdges)
    (hdomains : m'.domainById = m.domainById) : m'.Queued W.env := by
  refine h.drop (fun id => id ∈ deleteIds) (fun f hf => ?_) (fun id hid => ?_) (fun e he => ?_)
    (fun e he _ => ?_) hqueue (fun e he => ?_) (fun id _ => by rw [hdomains]) hnode
  · have hkey := (Table.mem_rows_iff _ f).mp hf
    rw [hfunctions, Table.get?_foldl_erase] at hkey
    split_ifs at hkey
    exact (Table.mem_rows_iff _ f).mpr hkey
  · rw [hfunctions, Table.get?_foldl_erase, if_neg hid]
  · rw [hedges] at he
    exact (mem_filter_incident.mp he).1
  · rw [hedges] at he
    exact (mem_filter_incident.mp he).2.1
  · obtain ⟨e', he', hsame⟩ := List.mem_map.mp (h.pending e he).2
    refine List.mem_map.mpr ⟨e', ?_, hsame⟩
    obtain ⟨hsource, hrest⟩ := Prod.mk.inj hsame
    obtain ⟨htarget, -⟩ := Prod.mk.inj hrest
    rw [hedges]
    refine mem_filter_incident.mpr ⟨he', ?_⟩
    rw [hsource, htarget]
    exact incident_eq_false.mp (hpending e he)

/-- The state on the way of a compaction that began in a state: its edges are indexed again at the
end only, and the rest of the invariant holds all along. -/
structure Compacting (W : LiteWriter) (replacements : List Function) (deleteIds : List String)
    (m m' : LiteMemory) : Prop where
  fits : CompactFits W replacements deleteIds m
  queued : m'.rebuildEdgeIndex.Queued W.env
  edges : ∀ e ∈ m'.edges, e ∈ m.edges ∧ e.target ∉ deleteIds
  pending : m'.pendingBelongsEdges = m.pendingBelongsEdges
  domains : m'.domainById = m.domainById

/-- One replacement of a compaction. -/
theorem compactReplace_leaves {replacements : List Function} {deleteIds : List String}
    {m : LiteMemory} {f : Function} (hf : f ∈ replacements) :
    Leaves (Compacting W replacements deleteIds m) (W.compactReplace f)
      (fun _ => Compacting W replacements deleteIds m) (LiteMemory.Queued W.env) := by
  unfold compactReplace
  refine leaves_bind (leaves_modify (Q := fun _ => Compacting W replacements deleteIds m) ?_)
    fun _ => leaves_bind (leaves_orRaise ?_) fun norm => leaves_modify ?_
  · intro m' h
    have hqueued : (m'.putFunction f).rebuildEdgeIndex.Queued W.env := by
      refine h.queued.put (h.fits.valid f hf).1 rfl rfl rfl (fun _ h => h) (fun _ h => .inl h)
        (fun e he htype hsource _ => ?_) (fun e he => ?_)
      · exact h.fits.fits f hf e (h.edges e he).1 htype hsource (h.edges e he).2
      · refine (h.queued.indexed e he).put (f := f) rfl (fun _ => rfl) fun hsource => ?_
        change m'.domainById.get? f.id = _
        rw [h.domains]
        exact (h.fits.pending e (h.pending ▸ he)).2 f hf hsource
    exact ⟨h.fits, hqueued, h.edges, h.pending, h.domains⟩
  · intro e he m' h
    obtain ⟨norm, hnorm⟩ := (h.fits.valid f hf).2
    rw [hnorm] at he
    exact nomatch he
  · rintro m' ⟨h, -⟩
    have hedges : (m'.indexName norm f.id).edges = m'.edges := LiteMemory.indexName_edges ..
    refine ⟨h.fits, h.queued.same (LiteMemory.indexName_functions ..) hedges
      (congrArg EdgesByNode.rebuild hedges) (LiteMemory.indexName_pending ..)
      (LiteMemory.indexName_domainById ..), ?_, ?_, ?_⟩
    · rw [hedges]
      exact h.edges
    · rw [LiteMemory.indexName_pending]
      exact h.pending
    · rw [LiteMemory.indexName_domainById]
      exact h.domains

theorem applyCompaction_leaves (generation : ℤ) (replacements : List Function)
    (deleteIds : List String) (expectedGeneration : Option ℤ) :
    Leaves (fun m => m.Queued W.env ∧ CompactFits W replacements deleteIds m)
      (W.applyCompaction generation replacements deleteIds expectedGeneration)
      (fun _ m => m.Queued W.env) (fun m => m.Queued W.env) := by
  unfold applyCompaction
  refine leaves_bind leaves_get fun m => leaves_bind (leaves_check fun _ h => h.1.1) fun _ => ?_
  refine leaves_bind (leaves_check fun _ h => h.1.1.1) fun _ => ?_
  refine leaves_bind (leaves_set (Q := fun _ => Compacting W replacements deleteIds m) ?_)
    fun _ => ?_
  · rintro _ ⟨⟨⟨⟨hqueued, hfits⟩, rfl⟩, -⟩, -⟩
    refine ⟨hfits, compactDelete_queued hqueued (fun e he => (hfits.pending e he).1) rfl rfl
      (EdgesByNode.indexes_rebuild _) rfl rfl, fun e he => ?_, rfl, rfl⟩
    obtain ⟨hmem, -, htarget⟩ := mem_filter_incident.mp he
    exact ⟨hmem, htarget⟩
  · refine leaves_bind (leaves_forM fun f hf => compactReplace_leaves hf) fun _ => ?_
    refine leaves_bind (leaves_modify (Q := fun _ m => m.Queued W.env) fun _ h => h.queued)
      fun _ => ?_
    exact Leaves.mono (leaves_check fun _ h => h) (fun _ h => h) (fun _ _ h => h.1) fun _ h => h

/-! ### Events of peers -/

/-- What an event of a peer has to find. A function that comes is not indexed; one that goes has no
edges to domains, and an edge that goes is not queued. -/
def EventFits (W : LiteWriter) (now : String) (event : SyncEvent) (m : LiteMemory) : Prop :=
  match event.entityKey.shape, event.change with
  | .edge source target edgeType, .tombstone =>
    ∀ e ∈ m.pendingBelongsEdges, e.parts ≠ (source, target, edgeType)
  | .edge _ _ _, .upsert _ => True
  | .node nodeId, .tombstone =>
    event.nodeType = .function → ∀ e ∈ m.edges, e.edgeType = belongsTo → e.source ≠ nodeId
  | .node nodeId, .upsert payload =>
    ∀ f, normalise W.env now event.nodeType nodeId event.scope payload = .ok (.function f) →
      PutFits W.env f m

/-- The edges of the state are others, and indexed again. -/
theorem edges_queued {m : LiteMemory} (h : m.Queued W.env) {business : BusinessState}
    (hfunctions : business.functions = m.functions)
    (hedges : ∀ e ∈ business.edges, e ∈ m.edges ∨
      validateBelongsToEdge W.env m.functions e = .ok ())
    (hpending : ∀ e ∈ m.pendingBelongsEdges, e.parts ∈ business.edges.map GraphEdge.parts) :
    (m.setBusiness business).rebuildEdgeIndex.Queued W.env := by
  have hsame : (m.setBusiness business).rebuildEdgeIndex.functions = m.functions := hfunctions
  refine ⟨?_, fun e he hfree => ?_, fun e he => ⟨(h.pending e he).1, hpending e he⟩, fun e he => ?_,
    EdgesByNode.indexes_rebuild _⟩
  · rw [hsame]
    exact h.functions
  · rw [hsame]
    exact (hedges e he).elim (fun hold => h.checked e hold hfree) id
  · rw [LiteMemory.Indexed, hsame]
    exact h.indexed e he

/-- A function that is decoded passes the checks of the graph. -/
theorem normalise_function {env : Env} {now nodeId : String} {nodeType : SyncNodeType}
    {scope : SyncScope} {payload : Members} {f : Function}
    (h : normalise env now nodeType nodeId scope payload = .ok (.function f)) :
    validateGraphFunction f = .ok () := by
  obtain ⟨_, -, h⟩ := Except.bind_ok.mp h
  cases nodeType with
  | function =>
    obtain ⟨node, hnode, h⟩ := Except.bind_ok.mp h
    obtain ⟨_, -, heq⟩ := Except.bind_ok.mp h
    obtain rfl := NodeRecord.function.inj (Except.ok.inj heq)
    obtain ⟨raw, -, hinit⟩ := Except.bind_ok.mp hnode
    obtain ⟨_, hid, hrest⟩ := Except.bind_ok.mp hinit
    obtain ⟨domain, hdomain, -⟩ := Except.bind_ok.mp hrest
    rw [Function.postInit_ok hinit]
    exact Except.bind_ok.mpr ⟨(), hid, Except.bind_ok.mpr ⟨domain, hdomain, rfl⟩⟩
  | paragraph =>
    obtain ⟨_, -, heq⟩ := Except.bind_ok.mp h
    exact nomatch Except.ok.inj heq
  | _ =>
    obtain ⟨_, -, h⟩ := Except.bind_ok.mp h
    obtain ⟨_, -, heq⟩ := Except.bind_ok.mp h
    exact nomatch Except.ok.inj heq

/-- The state after an event that was applied. -/
theorem applyBusinessEvent_queued {m : LiteMemory} (h : m.Queued W.env) {now : String}
    {edgeTombstones : List SyncEntityKey} {event : SyncEvent}
    {out : BusinessState × List SyncEntityKey} (hfits : EventFits W now event m)
    (happly : applyBusinessEvent W.env now m.store.business edgeTombstones event = .ok out) :
    (if event.entityKey.isEdge then (m.setBusiness out.1).rebuildEdgeIndex
      else m.setBusiness out.1).Queued W.env := by
  unfold EventFits at hfits
  unfold applyBusinessEvent at happly
  unfold SyncEntityKey.isEdge SyncEntityKey.edgeParts
  split at happly
  next source target edgeType hshape hchange =>
    rw [hshape, hchange] at hfits
    rw [hshape]
    rw [← Except.ok.inj happly]
    refine edges_queued h rfl (fun e he => .inl (List.mem_filter.mp he).1) fun e he => ?_
    obtain ⟨e', he', hsame⟩ := List.mem_map.mp (h.pending e he).2
    refine List.mem_map.mpr ⟨e', List.mem_filter.mpr ⟨he', ?_⟩, hsame⟩
    rw [hsame]
    exact decide_eq_true (hfits e he)
  next source target edgeType payload hshape hchange =>
    rw [hshape]
    obtain ⟨b, hb, heq⟩ := Except.bind_ok.mp happly
    rw [← Except.ok.inj heq]
    obtain ⟨⟨weight, evidence, createdAt⟩, -, hb⟩ := Except.bind_ok.mp hb
    obtain ⟨_, -, hb⟩ := Except.bind_ok.mp hb
    obtain ⟨_, -, hb⟩ := Except.bind_ok.mp hb
    obtain ⟨_, hcheck, hb⟩ := Except.bind_ok.mp hb
    obtain ⟨-, hcheck⟩ := validateBelongsToEdges_ok.mp hcheck
    rw [← Except.ok.inj hb]
    refine edges_queued h rfl (fun e he => ?_) fun e he => ?_
    · exact (List.mem_append.mp he).imp (fun hold => (List.mem_filter.mp hold).1) (hcheck e)
    · rw [List.map_append, List.mem_append]
      by_cases hsame : e.parts = (source, target, edgeType)
      · exact .inr (List.mem_singleton.mpr hsame)
      · obtain ⟨e', he', hparts⟩ := List.mem_map.mp (h.pending e he).2
        refine .inl (List.mem_map.mpr ⟨e', List.mem_filter.mpr ⟨he', ?_⟩, hparts⟩)
        rw [hparts]
        exact decide_eq_true hsame
  next nodeId hshape hchange =>
    rw [hshape, hchange] at hfits
    rw [hshape]
    obtain ⟨_, -, heq⟩ := Except.bind_ok.mp happly
    rw [← Except.ok.inj heq]
    cases htype : event.nodeType with
    | function =>
      refine h.drop (fun id => id = nodeId) (fun f hf => (mem_eraseRow.mp hf).1) (fun id hid => ?_)
        (fun _ he => he) (hfits htype) rfl (fun e he => (h.pending e he).2) (fun _ _ => rfl)
        h.byNode
      change (m.functions.erase nodeId).get? id = _
      rw [Table.get?_erase, if_neg hid]
    | _ => exact h.same rfl rfl rfl rfl rfl
  next nodeId payload hshape hchange =>
    rw [hshape, hchange] at hfits
    rw [hshape]
    obtain ⟨record, hrecord, happly⟩ := Except.bind_ok.mp happly
    obtain ⟨b, hb, heq⟩ := Except.bind_ok.mp happly
    rw [← Except.ok.inj heq]
    cases record with
    | function f =>
      obtain ⟨_, -, heq⟩ := Except.bind_ok.mp hb
      rw [← Except.ok.inj heq]
      exact h.putOnly (normalise_function hrecord) (hfits f hrecord) rfl rfl rfl rfl rfl
    | _ =>
      obtain rfl := Except.ok.inj hb
      exact h.same rfl rfl rfl rfl rfl

theorem applyEvent_leaves (now : String) (edgeTombstones : List SyncEntityKey) (event : SyncEvent) :
    Leaves (fun m => m.Queued W.env ∧ EventFits W now event m)
      (W.applyEvent now edgeTombstones event) (fun _ m => m.Queued W.env)
      (fun m => m.Queued W.env) := by
  unfold applyEvent
  refine leaves_bind leaves_get fun m => leaves_bind (leaves_check fun _ h => h.1.1) fun out => ?_
  refine leaves_bind (leaves_set (Q := fun _ m => m.Queued W.env) ?_) fun _ =>
    leaves_pure fun _ h => h
  rintro _ ⟨⟨⟨hqueued, hfits⟩, rfl⟩, happly⟩
  exact applyBusinessEvent_queued hqueued hfits happly

/-! ## Runs -/

/-- A call that changes the resident graph. -/
inductive GraphCall where
  | add (moment : WriteMoment) (func : Function) (source : SourceDocument)
  | delete (funcId : String)
  | merge (moment : WriteMoment) (nodes : List Function) (edges : List GraphEdge)
  | clear
  | replaceFunction (func : Function)
  | updateFunctionRole (memoryId : String) (edit : Function → Except PyError Function)
  | annotate (ids : List String) (attributes : PyDict) (needsReview : Option Bool)
  | annotateNodes (ids : List String) (attributes : PyDict) (needsReview : Option Bool)
  | incrementAccess (moment : WriteMoment) (ids : List String)
  | applyCompaction (generation : ℤ) (replacements : List Function) (deleteIds : List String)
    (expectedGeneration : Option ℤ)
  | applyEvent (now : String) (edgeTombstones : List SyncEntityKey) (event : SyncEvent)

variable (W)

/-- The resident state that a call leaves, before its commit. -/
def leftBy (m : LiteMemory) : GraphCall → LiteMemory
  | .add moment func source => (W.addResident moment func source).left m
  | .delete funcId => (W.delete funcId).left m
  | .merge moment nodes edges => (W.merge moment nodes edges).left m
  | .clear => W.clear.left m
  | .replaceFunction func => (W.replaceFunction func).left m
  | .updateFunctionRole memoryId edit => (W.updateFunctionRole memoryId edit).left m
  | .annotate ids attributes needsReview => (annotate ids attributes needsReview).left m
  | .annotateNodes ids attributes needsReview => (W.annotateNodes ids attributes needsReview).left m
  | .incrementAccess moment ids => (W.incrementAccess moment ids).left m
  | .applyCompaction generation replacements deleteIds expectedGeneration =>
    (W.applyCompaction generation replacements deleteIds expectedGeneration).left m
  | .applyEvent now edgeTombstones event => (W.applyEvent now edgeTombstones event).left m

/-- What a call has to find. -/
def CallFits (m : LiteMemory) : GraphCall → Prop
  | .add _ func _ => AddFits W func m
  | .merge _ nodes edges => MergeFits W nodes edges m
  | .replaceFunction func => ReplaceFits W func m
  | .updateFunctionRole memoryId edit => ∀ current func, m.functions.get? memoryId = some current →
    edit current = .ok func → ReplaceFits W func m
  | .applyCompaction _ replacements deleteIds _ => CompactFits W replacements deleteIds m
  | .applyEvent now _ event => EventFits W now event m
  | _ => True

/-- The resident states of a store whose calls find what is asked of them. A pair that is loaded
takes the place of the state; a commit checks what is queued, folds in what a peer has committed if
there is such, checks everything on some occasions, and has the edges indexed again. Whatever else
happens leaves the graph, its indexes and its queue alone. -/
inductive Reached (finds : LiteMemory → GraphCall → Prop) : LiteMemory → Prop
  | published {now : Timestamp} {pair : LitePair} {d : Decoded} (paragraphs : Paragraphs)
    (hd : decodePair W.env now pair = .ok d) : Reached finds (LiteMemory.publish W.env d paragraphs)
  | called {m : LiteMemory} (h : Reached finds m) (call : GraphCall) (hfinds : finds m call) :
    Reached finds (W.leftBy m call)
  | checked {m m' : LiteMemory} (h : Reached finds m) (hm : W.validateResidentGraph m = .ok m') :
    Reached finds m'
  | audited {m m' : LiteMemory} (h : Reached finds m) (hm : W.validateWholeGraph m = .ok m') :
    Reached finds m'.rebuildEdgeIndex
  | folded {m m' : LiteMemory} (h : Reached finds m) (base : Decoded) (paragraphs : Paragraphs)
    (hm : W.validateWholeGraph (m.foldMissingFromBase base paragraphs) = .ok m') :
    Reached finds m'.rebuildEdgeIndex
  | reindexed {m : LiteMemory} (h : Reached finds m) : Reached finds m.rebuildEdgeIndex
  | other {m m' : LiteMemory} (h : Reached finds m) (hfunctions : m'.functions = m.functions)
    (hedges : m'.edges = m.edges) (hnode : m'.edgesByNode = m.edgesByNode)
    (hpending : m'.pendingBelongsEdges = m.pendingBelongsEdges)
    (hdomains : m'.domainById = m.domainById) : Reached finds m'

variable {W}

/-- A call that finds what is asked of it keeps the invariant. -/
theorem leftBy_queued {m : LiteMemory} (h : m.Queued W.env) {call : GraphCall}
    (hfits : W.CallFits m call) : (W.leftBy m call).Queued W.env := by
  cases call with
  | add moment func source => exact (addResident_leaves func source).left ⟨h, hfits⟩
  | delete funcId => exact (delete_leaves funcId).left h
  | merge moment nodes edges => exact (merge_leaves nodes edges).left ⟨h, hfits⟩
  | clear => exact clear_leaves.left h
  | replaceFunction func => exact (replaceFunction_leaves func).left ⟨h, hfits⟩
  | updateFunctionRole memoryId edit =>
    exact (updateFunctionRole_leaves memoryId edit).left ⟨h, hfits⟩
  | annotate ids attributes needsReview =>
    exact (annotate_leaves ids attributes needsReview).left h
  | annotateNodes ids attributes needsReview =>
    exact (annotateNodes_leaves ids attributes needsReview).left h
  | incrementAccess moment ids => exact (incrementAccess_leaves ids).left h
  | applyCompaction generation replacements deleteIds expectedGeneration =>
    exact (applyCompaction_leaves generation replacements deleteIds expectedGeneration).left
      ⟨h, hfits⟩
  | applyEvent now edgeTombstones event =>
    exact (applyEvent_leaves now edgeTombstones event).left ⟨h, hfits⟩

/-- The whole graph passed its check, and its edges are indexed again. -/
theorem audited_queued {m m' : LiteMemory} (hm : W.validateWholeGraph m = .ok m') :
    m'.rebuildEdgeIndex.Queued W.env := by
  obtain ⟨_, hfull, heq⟩ := Except.bind_ok.mp hm
  obtain rfl := Except.ok.inj heq
  exact LiteMemory.queued_of_full hfull rfl (EdgesByNode.indexes_rebuild _)

/-- The invariant holds in every state of such a run. -/
theorem Reached.queued {m : LiteMemory} (h : W.Reached W.CallFits m) : m.Queued W.env := by
  induction h with
  | published paragraphs hd =>
    exact LiteMemory.queued_of_full (decodePair_graph hd) rfl (EdgesByNode.indexes_rebuild _)
  | called _ call hfits ih => exact leftBy_queued ih hfits
  | checked _ hm ih => exact (ih.validated hm).1
  | audited _ hm => exact audited_queued hm
  | folded _ base paragraphs hm => exact audited_queued hm
  | @reindexed m _ ih =>
    exact ⟨ih.functions, ih.checked, ih.pending, ih.indexed, EdgesByNode.indexes_rebuild _⟩
  | other _ hfunctions hedges hnode hpending hdomains ih =>
    exact ih.same hfunctions hedges hnode hpending hdomains

/-- In every state of a run whose calls find what is asked of them, the incremental check accepts
exactly the graphs that the full check accepts. -/
theorem incremental_iff_full {m : LiteMemory} (h : W.Reached W.CallFits m) :
    (∃ m', W.validateResidentGraph m = .ok m') ↔
      validateBelongsToEdges W.env m.functions m.edges = .ok () :=
  h.queued.check

end LiteWriter

/-! ## Two runs -/

theorem graphCommit_keeps {m m' : LiteMemory} (h : (.ok m : Except PyError LiteMemory) = .ok m')
    {t : SyncNodeType} {id : String} {r : NodeRecord}
    (hr : m.store.business.record t id = some r) : m'.store.business.record t id = some r :=
  Except.ok.inj h ▸ hr

/-- A writer that captures nothing. -/
def graphWriter : LiteWriter where
  cfg := ⟨false, "local", 100000, 8, 900, 1000000, 2, 1, 86400, 86400⟩
  env := ⟨id, id, fun _ => none⟩
  format _ := ""
  commitCurrentState := .ok
  commit_keeps := graphCommit_keeps

theorem graphTime_valid : validTime 2026 1 1 0 0 0 0 := by decide

/-- A reading of the clock. -/
def graphTime : Timestamp := ⟨2026, 1, 1, 0, 0, 0, 0, graphTime_valid⟩

/-- One moment for all calls. -/
def graphMoment : WriteMoment := ⟨graphTime, graphTime, graphTime, ""⟩

/-- A function of a name and a domain. -/
def graphFunction (name domain : String) : Function where
  id := "login"
  memoryType := .str "function"
  name := .str name
  domain := .str domain
  confidence := .int 1
  sourceType := .known .wiki
  owner := .null
  tenantId := .null
  ownerSubjectId := .null
  workspaceId := .null
  visibility := .null
  provenance := []
  version := .int 1
  createdAt := .null
  updatedAt := .null
  originSession := .null
  accessCount := .int 0
  lastAccessedAt := .null
  sourceParagraphs := []
  needsReview := .bool false
  needsReviewUntil := .null
  contentHash := .null
  namespace_ := []
  knowledgeTier := .null
  trustTier := 3
  trigger := []
  condition := []
  action := []
  benefit := []
  nameNormalized := .str ""
  attributes := []
  crossReferences := []
  priorityFromSource := .null
  sourceAuthority := .null

/-- The edge of the function to the domain `auth`. -/
def graphEdge : GraphEdge := ⟨"login", "domain_auth", belongsTo, .int 1, [], none⟩

/-- The state of a store without files. -/
def graphStart : LiteMemory :=
  .publish graphWriter.env ⟨.empty, .empty, .empty, .empty, .empty, [], .empty⟩ .empty

/-- The function comes, and then its edge. -/
def graphMemory : LiteMemory :=
  graphWriter.leftBy
    (graphWriter.leftBy graphStart
      (.add graphMoment (graphFunction "Login" "auth") ⟨"text", none, none, .wiki⟩))
    (.merge graphMoment [] [graphEdge])

theorem graphStart_reached (finds : LiteMemory → LiteWriter.GraphCall → Prop) :
    graphWriter.Reached finds graphStart :=
  have hd : decodePair graphWriter.env graphMoment.updatedAt ⟨[], .empty, [], false⟩ =
      .ok ⟨.empty, .empty, .empty, .empty, .empty, [], .empty⟩ := rfl
  .published .empty hd

/-- The run of a function and its edge. -/
theorem graphMemory_checked :
    (∃ m', graphWriter.validateResidentGraph graphMemory = .ok m') ↔
      validateBelongsToEdges graphWriter.env graphMemory.functions graphMemory.edges = .ok () := by
  refine LiteWriter.incremental_iff_full (.called (.called (graphStart_reached _) _ ?_) _ ?_)
  · exact fun _ _ _ _ e he => (List.not_mem_nil he).elim
  · intro e he _ _ _ _
    obtain rfl := List.mem_singleton.mp he
    rfl

/-- The function is added again, under another name and with another domain. -/
def graphReadded : LiteMemory :=
  graphWriter.leftBy graphMemory
    (.add graphMoment (graphFunction "Sign in" "billing") ⟨"text", none, none, .wiki⟩)

theorem readd_not_checked :
    graphWriter.Reached (fun _ _ => True) graphReadded ∧
      ¬ ((∃ m', graphWriter.validateResidentGraph graphReadded = .ok m') ↔
        validateBelongsToEdges graphWriter.env graphReadded.functions graphReadded.edges =
          .ok ()) := by
  have hreached : graphWriter.Reached (fun _ _ => True) graphMemory :=
    .called (.called (graphStart_reached _) _ trivial) _ trivial
  refine ⟨.called hreached _ trivial, fun h => ?_⟩
  have hfull : validateBelongsToEdges graphWriter.env graphReadded.functions graphReadded.edges ≠
      .ok () := by decide +kernel
  exact hfull (h.mp ⟨graphReadded, rfl⟩)

end Memplex
