import Memplex.Processing.GraphBuilder

/-!
# Builders that are used again

A builder answers as a new one does, if what it keeps is right: the caches that are kept under the
fingerprints at which the call finds and leaves the store are those of the functions that the store
lists, and the vectors that are kept for functions of the batch and of the corpus are theirs. Then
the two builders run in step (`InStep`): every lookup in the corpus ends alike on each side, and the
two tables of vectors, of which one starts empty, keep giving the same vector for every function
that is looked up (`SameVectors`).

The first condition holds in a run of calls where the fingerprints tell the corpora of the calls
apart (`Tells`), since what a call keeps is right for the fingerprint under which it is kept.
-/

namespace Memplex

open Lib Lib.Mutator

/-! ## Edges up to their times -/

/-- An edge without its creation time. -/
def GraphEdge.undated (e : GraphEdge) : GraphEdge := { e with createdAt := none }

/-- Two lists of edges are the same up to the creation times. -/
def SameEdges (es es' : List GraphEdge) : Prop :=
  es.map GraphEdge.undated = es'.map GraphEdge.undated

theorem SameEdges.append {es es' fs fs' : List GraphEdge} (h : SameEdges es es')
    (h' : SameEdges fs fs') : SameEdges (es ++ fs) (es' ++ fs') := by
  unfold SameEdges at h h' ⊢
  rw [List.map_append, List.map_append, h, h']

/-- The creation times are no part of the keys. -/
theorem SameEdges.parts {es es' : List GraphEdge} (h : SameEdges es es') :
    es.map GraphEdge.parts = es'.map GraphEdge.parts := by
  have hparts : ∀ xs : List GraphEdge,
      xs.map GraphEdge.parts = (xs.map GraphEdge.undated).map GraphEdge.parts := by
    intro xs
    rw [List.map_map]
    rfl
  rw [hparts es, hparts es', h]

/-- Two drafts are the same up to the creation times. -/
def EdgeDraft.Same (d d' : EdgeDraft) : Prop := SameEdges d.edges d'.edges ∧ d.existing = d'.existing

namespace EdgeDraft

variable {d d' : EdgeDraft} {e e' : GraphEdge}

theorem Same.add (h : d.Same d') (he : e.undated = e'.undated) : (d.add e).Same (d'.add e') := by
  have hparts : e.undated.parts = e'.undated.parts := by rw [he]
  have hnew : SameEdges [e] [e'] := congrArg (fun x => [x]) he
  refine ⟨h.1.append hnew, ?_⟩
  change d.existing ++ [e.undated.parts] = d'.existing ++ [e'.undated.parts]
  rw [h.2, hparts]

theorem Same.knows (h : d.Same d') (keys : List (String × String × String)) :
    d.Knows keys ↔ d'.Knows keys := by
  unfold Knows
  rw [h.2]

theorem Same.offer (h : d.Same d') (keys : List (String × String × String))
    (he : e.undated = e'.undated) : (d.offer keys e).Same (d'.offer keys e') := by
  unfold EdgeDraft.offer
  by_cases hknows : d.Knows keys
  · rw [if_pos hknows, if_pos ((h.knows keys).mp hknows)]
    exact h
  · rw [if_neg hknows, if_neg fun h' => hknows ((h.knows keys).mpr h')]
    exact h.add he

/-- A loop that offers edges. -/
theorem Same.foldl {α : Type} {f f' : EdgeDraft → α → EdgeDraft}
    (hf : ∀ {d d' : EdgeDraft}, d.Same d' → ∀ a, (f d a).Same (f' d' a)) (xs : List α)
    (h : d.Same d') : (xs.foldl f d).Same (xs.foldl f' d') := by
  induction xs generalizing d d' with
  | nil => exact h
  | cons x xs ih => exact ih (hf h x)

end EdgeDraft

/-- Two graphs are the same up to the creation times. -/
def GraphData.Same (g g' : GraphData) : Prop := g.nodes = g'.nodes ∧ SameEdges g.edges g'.edges

/-! ## What a builder keeps -/

/-- What is kept is right for the fingerprint that it is kept under. -/
def Guarded.Sound {φ α : Type} (c : Guarded φ α) (value : φ → Except PyError α) : Prop :=
  ∀ row, c = some row → value row.1 = .ok row.2

theorem Guarded.Sound.none {φ α : Type} (value : φ → Except PyError α) :
    Guarded.Sound none value := by
  intro row hrow
  cases hrow

/-- The caches are right, where a fingerprint stands for the functions that were listed under it. -/
structure GraphBuilder.Coherent {φ ν : Type} (env : Env) (version : φ → List Function)
    (b : GraphBuilder φ ν) : Prop where
  funcs : b.funcsCache.Sound fun mark => .ok (version mark)
  entries : b.nameEntries.Sound fun mark => nameEntriesOf env (version mark)
  names : b.nameById.Sound fun mark => .ok (nameIndexOfFuncs (version mark))
  groups : b.conflictGroups.Sound fun mark => conflictGroupsOf env (version mark)

/-- A new builder keeps nothing. -/
theorem GraphBuilder.coherent_new {φ ν : Type} (env : Env) (version : φ → List Function) :
    (GraphBuilder.new : GraphBuilder φ ν).Coherent env version :=
  ⟨.none _, .none _, .none _, .none _⟩

namespace FunctionStore

variable {σ φ : Type} (S : FunctionStore σ φ)

/-- The functions that a builder gets from the store: none where the listing raises. -/
def corpus (store : σ) : List Function := (S.listFunctions 100000 store).1.toOption.getD []

/-- The store after a listing. -/
def refreshed (store : σ) : σ := (S.listFunctions 100000 store).2

/-- A second listing ends as the first one did, and leaves the store as it is. -/
def Settles : Prop := ∀ store, S.listFunctions 100000 (S.refreshed store) =
  S.listFunctions 100000 store

/-- The fingerprints at which a call finds and leaves the store stand for the functions that the
store lists. -/
structure Tells (version : φ → List Function) (store : σ) : Prop where
  found : version (S.pairFingerprint store) = S.corpus store
  left : version (S.pairFingerprint (S.refreshed store)) = S.corpus store

end FunctionStore

/-- The vector that a builder gives for a function: the kept one, or else that of the service. -/
def vectorOf {ν : Type} (service : EmbeddingService ν)
    (kept : Table (Prod.fst : String × Option ν → String)) (f : Function) : Option ν :=
  ((kept.get? f.id).map Prod.snd).getD (service.vector f)

/-- Two tables give the same vectors for the functions of a list. -/
def SameVectors {ν : Type} (service : Option (EmbeddingService ν)) (pool : List Function)
    (kept kept' : Table (Prod.fst : String × Option ν → String)) : Prop :=
  ∀ s, service = some s → ∀ f ∈ pool, vectorOf s kept f = vectorOf s kept' f

section Lookups

variable {σ φ ν : Type} {T : GraphTools ν} {S : FunctionStore σ φ} {version : φ → List Function}
  {store : σ} {kept : Table (Prod.fst : String × Option ν → String)}

/-- A coherent builder in the middle of a call on a store, with the vectors that it keeps. -/
structure Building.At (T : GraphTools ν) (S : FunctionStore σ φ) (version : φ → List Function)
    (store : σ) (kept : Table (Prod.fst : String × Option ν → String))
    (s : BuilderState σ φ ν) : Prop where
  store : s.store = store ∨ s.store = S.refreshed store
  coherent : s.builder.Coherent T.env version
  kept : s.builder.embeddingCache = kept

/-- The fingerprint that is read in the middle of a call stands for the corpus. -/
theorem Building.At.version_eq {s : BuilderState σ φ ν} (htells : S.Tells version store)
    (h : Building.At T S version store kept s) :
    version (S.pairFingerprint s.store) = S.corpus store := by
  rcases h.store with hstore | hstore
  · rw [hstore, htells.found]
  · rw [hstore, htells.left]

theorem answers_listStored (hsettles : S.Settles) :
    Answers (Building.At T S version store kept) (listStored S)
      (.ok (S.listFunctions 100000 store).1) := by
  intro s hs
  have hlisted : S.listFunctions 100000 s.store = S.listFunctions 100000 store := by
    rcases hs.store with hstore | hstore
    · rw [hstore]
    · rw [hstore, hsettles store]
  refine ⟨{ s with store := S.refreshed store }, ⟨.inr rfl, hs.coherent, hs.kept⟩, ?_⟩
  change EStateM.Result.ok (S.listFunctions 100000 s.store).1
    ({ s with store := (S.listFunctions 100000 s.store).2 } : BuilderState σ φ ν) = _
  rw [hlisted]
  rfl

variable [DecidableEq φ]

/-- A cache answers with what it stands for at the corpus. -/
theorem answers_guarded {α : Type} {field : GraphBuilder φ ν → Guarded φ α}
    {keep : GraphBuilder φ ν → Guarded φ α → GraphBuilder φ ν} {compute : Building σ φ ν α}
    {v : List Function → Except PyError α} (htells : S.Tells version store)
    (hfield : ∀ b, b.Coherent T.env version → (field b).Sound fun mark => v (version mark))
    (hkeep : ∀ b c, b.Coherent T.env version → (Guarded.Sound c fun mark => v (version mark)) →
      (keep b c).Coherent T.env version ∧ (keep b c).embeddingCache = b.embeddingCache)
    (hcompute : Answers (Building.At T S version store kept) compute (v (S.corpus store))) :
    Answers (Building.At T S version store kept) (guarded S field keep compute)
      (v (S.corpus store)) := by
  intro s hs
  have hmark := hs.version_eq htells
  unfold guarded
  rw [bind_returns (get_returns s)]
  cases hfound : (field s.builder).filter fun row => row.1 = S.pairFingerprint s.store with
  | some row =>
    obtain ⟨hrow, hunder⟩ := Option.filter_eq_some_iff.mp hfound
    have hvalue : v (version row.1) = .ok row.2 := hfield _ hs.coherent row hrow
    rw [of_decide_eq_true hunder, hmark] at hvalue
    exact ⟨s, hs, by rw [hvalue]; rfl⟩
  | none =>
    obtain ⟨s', hs', hrun⟩ := hcompute s hs
    cases hvalue : v (S.corpus store) with
    | error e =>
      rw [hvalue] at hrun
      exact ⟨s', hs', bind_raises hrun _⟩
    | ok a =>
      rw [hvalue] at hrun
      obtain ⟨hcoherent, hvectors⟩ := hkeep s'.builder (some (S.pairFingerprint s.store, a))
        hs'.coherent (by
          intro row hrow
          cases hrow
          exact (congrArg v hmark).trans hvalue)
      exact ⟨{ s' with builder := keep s'.builder (some (S.pairFingerprint s.store, a)) },
        ⟨hs'.store, hcoherent, hvectors.trans hs'.kept⟩, bind_returns hrun _⟩

theorem answers_getAllFuncs (hsettles : S.Settles) (htells : S.Tells version store) :
    Answers (Building.At T S version store kept) (getAllFuncs S) (.ok (S.corpus store)) :=
  answers_guarded (v := .ok) htells (fun _ h => h.funcs)
    (fun _ _ h hc => ⟨⟨hc, h.entries, h.names, h.groups⟩, rfl⟩)
    (answers_bind (answers_listStored hsettles) fun _ => answers_pure _)

theorem answers_loweredNameEntries (hsettles : S.Settles) (htells : S.Tells version store) :
    Answers (Building.At T S version store kept) (loweredNameEntries T S)
      (nameEntriesOf T.env (S.corpus store)) :=
  answers_guarded (v := nameEntriesOf T.env) htells (fun _ h => h.entries)
    (fun _ _ h hc => ⟨⟨h.funcs, hc, h.names, h.groups⟩, rfl⟩)
    (answers_bind (answers_getAllFuncs hsettles htells) fun _ => answers_orRaise _)

/-- The name that a function has for the builder. -/
theorem exists_answers_funcNameById (htells : S.Tells version store) (funcId : String) :
    ∃ name, ∀ kept, Answers (Building.At T S version store kept)
      (funcNameById S (S.corpus store) funcId) (.ok name) := by
  let finish (index : NameIndex) : Value :=
    ((index.get? funcId).filter fun row => row.2 ≠ .null).elim
      ((((S.corpus store).find? fun f => f.id = funcId).map fun f => f.name).getD (.str funcId))
      Prod.snd
  refine ⟨finish (nameIndexOfFuncs (S.corpus store)), fun kept => ?_⟩
  unfold funcNameById
  change Answers _ _ ((Except.ok (nameIndexOfFuncs (S.corpus store))).bind fun i => .ok (finish i))
  refine answers_bind (q := fun index => .ok (finish index)) ?_ fun index => ?_
  · exact answers_guarded (v := fun funcs => .ok (nameIndexOfFuncs funcs)) htells
      (fun _ h => h.names) (fun _ _ h hc => ⟨⟨h.funcs, h.entries, hc, h.groups⟩, rfl⟩)
      (answers_pure _)
  dsimp only [finish]
  cases (index.get? funcId).filter fun row => row.2 ≠ .null with
  | none => exact answers_pure _
  | some row => exact answers_pure _

/-- The candidates of a conflict that a builder finds, or the error of a text. -/
theorem exists_answers_conflictCandidates (hsettles : S.Settles) (htells : S.Tells version store)
    (batchNodes : List Function) (domain excludeId : String) :
    ∃ out, ∀ kept, Answers (Building.At T S version store kept)
      (conflictCandidates T S batchNodes domain excludeId) out :=
  ⟨_, fun _ => answers_bind
    (answers_guarded (v := conflictGroupsOf T.env) htells (fun _ h => h.groups)
      (fun _ _ h hc => ⟨⟨h.funcs, h.entries, h.names, hc⟩, rfl⟩)
      (answers_bind (answers_getAllFuncs hsettles htells) fun _ => answers_orRaise _))
    fun _ => answers_bind (answers_orRaise _) fun _ => answers_pure _⟩

end Lookups

/-! ## Two builders -/

section Builders

variable {σ φ ν : Type} {T : GraphTools ν} {S : FunctionStore σ φ} {version : φ → List Function}
  {store : σ} {pool : List Function}

/-- Two builders in the middle of a call on a store, with the same vectors for the functions of a
list. -/
def Together (T : GraphTools ν) (S : FunctionStore σ φ) (version : φ → List Function) (store : σ)
    (pool : List Function) (s t : BuilderState σ φ ν) : Prop :=
  ∃ kept kept', SameVectors T.embeddingService pool kept kept' ∧
    Building.At T S version store kept s ∧ Building.At T S version store kept' t

/-- A vector that is added for one function changes none of another id. -/
theorem vectorOf_embedded (service : EmbeddingService ν)
    (kept : Table (Prod.fst : String × Option ν → String)) (f g : Function)
    (hf : kept.get? f.id = none) :
    vectorOf service (kept.set (f.id, service.vector f)) g =
      if f.id = g.id then vectorOf service kept f else vectorOf service kept g := by
  unfold vectorOf
  rw [Table.get?_set]
  by_cases hid : f.id = g.id
  · rw [if_pos hid, if_pos hid, hf]
    rfl
  · rw [if_neg hid, if_neg hid]

/-- A function is embedded: the vector is the one that the builder gives for it, and stays so for
every function of its id. -/
theorem embedFunc_run (service : EmbeddingService ν) (f : Function) {s : BuilderState σ φ ν}
    {kept : Table (Prod.fst : String × Option ν → String)}
    (hs : Building.At T S version store kept s) :
    ∃ kept' s', Building.At T S version store kept' s' ∧
      embedFunc service f s = .ok (vectorOf service kept f) s' ∧
      ∀ g, vectorOf service kept' g =
        if f.id = g.id then vectorOf service kept f else vectorOf service kept g := by
  unfold embedFunc
  rw [bind_returns (get_returns s), hs.kept]
  cases hrow : kept.get? f.id with
  | some row =>
    have hvector : vectorOf service kept f = row.2 := by
      unfold vectorOf
      rw [hrow]
      rfl
    refine ⟨kept, s, hs, by rw [hvector]; rfl, fun g => ?_⟩
    by_cases hid : f.id = g.id
    · rw [if_pos hid, hvector]
      unfold vectorOf
      rw [← hid, hrow]
      rfl
    · rw [if_neg hid]
  | none =>
    have hvector : vectorOf service kept f = service.vector f := by
      unfold vectorOf
      rw [hrow]
      rfl
    let builder := { s.builder with embeddingCache := kept.set (f.id, service.vector f) }
    have hcoherent : builder.Coherent T.env version :=
      ⟨hs.coherent.funcs, hs.coherent.entries, hs.coherent.names, hs.coherent.groups⟩
    refine ⟨builder.embeddingCache, { s with builder := builder }, ⟨hs.store, hcoherent, rfl⟩, ?_,
      fun g => vectorOf_embedded service kept f g hrow⟩
    rw [hvector]
    rfl

/-- Two builders embed a function of the list together. -/
theorem inStep_embedFunc {service : EmbeddingService ν}
    (hservice : T.embeddingService = some service) {f : Function} (hf : f ∈ pool) :
    InStep (Together T S version store pool) (embedFunc service f) (embedFunc service f) Eq := by
  rintro s t ⟨kept, kept', hsame, hs, ht⟩
  obtain ⟨after, s', hs', hruns, hafter⟩ := embedFunc_run service f hs
  obtain ⟨after', t', ht', hrunt, hafter'⟩ := embedFunc_run service f ht
  refine .inl ⟨_, _, s', t', hruns, hrunt, hsame service hservice f hf, after, after', ?_, hs', ht'⟩
  intro other hother g hg
  obtain rfl : service = other := Option.some.inj (hservice.symm.trans hother)
  rw [hafter, hafter', hsame service hservice f hf, hsame service hservice g hg]

/-- A lookup in the corpus ends alike for two builders. -/
theorem inStep_lookup {α : Type} {x : Building σ φ ν α} {out : Except PyError α}
    (h : ∀ kept, Answers (Building.At T S version store kept) x out) :
    InStep (Together T S version store pool) x x fun a b => a = b ∧ out = .ok a :=
  inStep_of_answers h

variable {now now' : ℕ → PyDatetime} {g g' : GraphData} {func : Function}

theorem inStep_referenceEdge (hsettles : S.Settles) {d d' : EdgeDraft} (h : d.Same d') (ref : Value) :
    InStep (Together T S version store pool) (referenceEdge T S now g func d ref)
      (referenceEdge T S now' g' func d' ref) EdgeDraft.Same := by
  have hresolve : ∀ name kept, Answers (Building.At T S version store kept) (resolveByName S name)
      _ := fun name _ => answers_bind (answers_listStored hsettles) fun _ => answers_pure _
  unfold referenceEdge
  dsimp only
  split_ifs
  · exact inStep_pure (h.offer _ rfl)
  · refine (inStep_lookup (hresolve _)).bind ?_
    rintro resolved _ ⟨rfl, -⟩
    split
    · exact inStep_pure (h.offer _ rfl)
    · exact inStep_pure h
  · exact inStep_pure h

theorem inStep_scoreSimilar {service : EmbeddingService ν}
    (hservice : T.embeddingService = some service) (funcVec : ν) {d d' : EdgeDraft} (h : d.Same d')
    {other : Function} (hother : other ∈ pool) (scored : List (PyFloat × Function)) :
    InStep (Together T S version store pool) (scoreSimilar T func service funcVec d scored other)
      (scoreSimilar T func service funcVec d' scored other) Eq := by
  have hknows : d.Knows [(func.id, other.id, "SEMANTIC_SIMILAR"),
        (other.id, func.id, "SEMANTIC_SIMILAR")] ↔
      d'.Knows [(func.id, other.id, "SEMANTIC_SIMILAR"), (other.id, func.id, "SEMANTIC_SIMILAR")] :=
    h.knows _
  unfold scoreSimilar
  dsimp only
  simp only [hknows]
  split_ifs
  · exact inStep_pure rfl
  · refine (inStep_embedFunc hservice hother).bind ?_
    rintro vector _ rfl
    split <;> exact inStep_pure rfl

theorem inStep_detectSemanticSimilar (hfunc : func ∈ pool) {allFuncs : List Function}
    (hall : ∀ f ∈ allFuncs, f ∈ pool) {d d' : EdgeDraft} (h : d.Same d') :
    InStep (Together T S version store pool) (detectSemanticSimilar T now g func allFuncs d)
      (detectSemanticSimilar T now' g' func allFuncs d') EdgeDraft.Same := by
  unfold detectSemanticSimilar
  cases hservice : T.embeddingService with
  | none => exact inStep_pure h
  | some service =>
    refine (inStep_embedFunc hservice hfunc).bind ?_
    rintro vector _ rfl
    cases vector with
    | none => exact inStep_pure h
    | some funcVec =>
      have hscored : InStep (Together T S version store pool)
          (allFuncs.foldlM (scoreSimilar T func service funcVec d) [])
          (allFuncs.foldlM (scoreSimilar T func service funcVec d') []) Eq := by
        refine inStep_foldlM (fun other hother scored _ heq => ?_) rfl
        rw [← heq]
        exact inStep_scoreSimilar hservice funcVec h (hall other hother) scored
      refine hscored.bind ?_
      rintro scored _ rfl
      have hsimilar : ∀ {d d' : EdgeDraft}, d.Same d' → ∀ s,
          (similarEdge T now g func d s).Same (similarEdge T now' g' func d' s) :=
        fun h _ => h.add rfl
      exact inStep_pure (EdgeDraft.Same.foldl hsimilar _ h)

variable [DecidableEq φ]

theorem inStep_dependsOnEdge (htells : S.Tells version store) {d d' : EdgeDraft} (h : d.Same d')
    (otherId : String) :
    InStep (Together T S version store pool)
      (dependsOnEdge T S now g func (S.corpus store) d otherId)
      (dependsOnEdge T S now' g' func (S.corpus store) d' otherId) EdgeDraft.Same := by
  obtain ⟨name, hname⟩ := exists_answers_funcNameById (T := T) (ν := ν) htells otherId
  unfold dependsOnEdge
  by_cases hknows : d.Knows [(func.id, otherId, "DEPENDS_ON")]
  · rw [if_pos hknows, if_pos ((h.knows _).mp hknows)]
    exact inStep_pure h
  · rw [if_neg hknows, if_neg fun h' => hknows ((h.knows _).mpr h')]
    refine (inStep_lookup hname).bind ?_
    rintro otherName _ ⟨rfl, -⟩
    exact inStep_pure (h.add rfl)

theorem inStep_domainEdges (hsettles : S.Settles) (htells : S.Tells version store) (hg : g.Same g')
    {d d' : EdgeDraft} (h : d.Same d') :
    InStep (Together T S version store pool) (domainEdges T S now g func (S.corpus store) d)
      (domainEdges T S now' g' func (S.corpus store) d') EdgeDraft.Same := by
  obtain ⟨out, hout⟩ := exists_answers_conflictCandidates (T := T) hsettles htells g.nodes
    func.domainText func.id
  unfold domainEdges
  by_cases hdomain : func.domainText = ""
  · rw [if_pos hdomain, if_pos hdomain]
    exact inStep_pure h
  rw [if_neg hdomain, if_neg hdomain]
  refine (inStep_lookup fun _ => answers_orRaise _).bind ?_
  rintro triggers _ ⟨rfl, -⟩
  rw [← hg.1]
  refine (inStep_lookup hout).bind ?_
  rintro candidates _ ⟨rfl, -⟩
  have hconflicts : ∀ {d d' : EdgeDraft}, d.Same d' → ∀ c,
      (conflictEdge now g func triggers d c).Same (conflictEdge now' g' func triggers d' c) := by
    intro d d' h c
    unfold conflictEdge
    split_ifs
    · exact h.offer _ rfl
    · exact h
  have hfound := EdgeDraft.Same.foldl hconflicts candidates h
  have hbelongs : (belongsToEdge T now g func _).Same (belongsToEdge T now' g' func _) :=
    hfound.offer _ rfl
  have hassociated : ∀ {d d' : EdgeDraft}, d.Same d' → ∀ id,
      (associatedEdge now g func d id).Same (associatedEdge now' g' func d' id) :=
    fun h _ => h.offer _ rfl
  exact inStep_pure (EdgeDraft.Same.foldl hassociated _ hbelongs)

/-- Two builders process a function in step. -/
theorem inStep_process (hsettles : S.Settles) (htells : S.Tells version store) (hg : g.Same g')
    (hfunc : func ∈ pool) (hcorpus : ∀ f ∈ S.corpus store, f ∈ pool) :
    InStep (Together T S version store pool) (GraphBuilder.process T S now g func)
      (GraphBuilder.process T S now' g' func) SameEdges := by
  unfold GraphBuilder.process
  refine (inStep_lookup fun _ => answers_orRaise _).bind fun _ _ _ => ?_
  have hstart : EdgeDraft.Same ⟨[], g.edges.map GraphEdge.parts⟩ ⟨[], g'.edges.map GraphEdge.parts⟩ :=
    ⟨rfl, hg.2.parts⟩
  refine (inStep_foldlM (S := EdgeDraft.Same)
    (fun ref _ _ _ h => inStep_referenceEdge hsettles h ref) hstart).bind ?_
  intro d d' hrefs
  refine (inStep_lookup fun _ => answers_getAllFuncs hsettles htells).bind ?_
  rintro allFuncs _ ⟨rfl, hallFuncs⟩
  obtain rfl := Except.ok.inj hallFuncs
  refine (inStep_lookup fun _ => answers_orRaise _).bind ?_
  rintro texts _ ⟨rfl, -⟩
  refine (inStep_lookup fun _ => answers_loweredNameEntries hsettles htells).bind ?_
  rintro entries _ ⟨rfl, -⟩
  refine (inStep_foldlM (S := EdgeDraft.Same)
    (fun id _ _ _ h => inStep_dependsOnEdge htells h id) hrefs).bind ?_
  intro d d' hdepends
  refine (inStep_domainEdges hsettles htells hg hdepends).bind fun d d' hdomain => ?_
  refine (inStep_detectSemanticSimilar hfunc hcorpus hdomain).bind fun d d' hsimilar => ?_
  exact inStep_pure hsimilar.1

/-- Two builders build a batch in step. -/
theorem inStep_buildFromBatch {batch : List Function} (hsettles : S.Settles)
    (htells : S.Tells version store) :
    InStep (Together T S version store (batch ++ S.corpus store))
      (GraphBuilder.buildFromBatch T S now batch) (GraphBuilder.buildFromBatch T S now' batch)
      SameEdges := by
  unfold GraphBuilder.buildFromBatch
  have hstart : GraphData.Same ⟨[], []⟩ ⟨[], []⟩ := ⟨rfl, rfl⟩
  refine (inStep_foldlM (S := GraphData.Same) (fun func hfunc g g' hg => ?_) hstart).bind
    fun _ _ h => inStep_pure h.2
  have hnodes : GraphData.Same { g with nodes := g.nodes ++ [func] }
      { g' with nodes := g'.nodes ++ [func] } := ⟨by rw [hg.1], hg.2⟩
  refine (inStep_process hsettles htells hnodes (List.mem_append_left _ hfunc)
    fun f hf => List.mem_append_right _ hf).bind fun es es' hes => ?_
  exact inStep_pure ⟨hnodes.1, hg.2.append hes⟩

/-! ## One call -/

/-- A call of `build_from_batch`: the edges or the error, and what it leaves. -/
def GraphBuilder.call (T : GraphTools ν) (S : FunctionStore σ φ) (now : ℕ → PyDatetime)
    (batch : List Function) (s : BuilderState σ φ ν) :
    Except PyError (List GraphEdge) × BuilderState σ φ ν :=
  match GraphBuilder.buildFromBatch T S now batch s with
  | .ok edges s' => (.ok edges, s')
  | .error e s' => (.error e, s')

/-- Two calls end alike: with the same edges up to the creation times, or with the same error. -/
def SameOutcomes (x y : Except PyError (List GraphEdge)) : Prop :=
  x.map (List.map GraphEdge.undated) = y.map (List.map GraphEdge.undated)

/-- The vectors that a builder keeps are those of the functions that the call may look up. -/
def GraphBuilder.VectorsFit (T : GraphTools ν) (b : GraphBuilder φ ν) (funcs : List Function) :
    Prop :=
  ∀ service, T.embeddingService = some service → ∀ f ∈ funcs, ∀ row,
    b.embeddingCache.get? f.id = some row → row.2 = service.vector f

/-- A coherent builder whose vectors fit answers as a new one, and stays coherent. The store is at
most read. -/
theorem call_eq_new (hsettles : S.Settles) {s : BuilderState σ φ ν} {batch : List Function}
    (htells : S.Tells version s.store) (hcoherent : s.builder.Coherent T.env version)
    (hvectors : s.builder.VectorsFit T (batch ++ S.corpus s.store)) (now now' : ℕ → PyDatetime) :
    SameOutcomes (GraphBuilder.call T S now batch s).1
        (GraphBuilder.call T S now' batch ⟨.new, s.store⟩).1 ∧
      (GraphBuilder.call T S now batch s).2.builder.Coherent T.env version ∧
      ((GraphBuilder.call T S now batch s).2.store = s.store ∨
        (GraphBuilder.call T S now batch s).2.store = S.refreshed s.store) := by
  have hsame : SameVectors T.embeddingService (batch ++ S.corpus s.store)
      s.builder.embeddingCache .empty := by
    intro service hservice f hf
    unfold vectorOf
    cases hrow : s.builder.embeddingCache.get? f.id with
    | none => rfl
    | some row => exact hvectors service hservice f hf row hrow
  have htogether : Together T S version s.store (batch ++ S.corpus s.store) s ⟨.new, s.store⟩ :=
    ⟨_, _, hsame, ⟨.inl rfl, hcoherent, rfl⟩, ⟨.inl rfl, GraphBuilder.coherent_new _ _, rfl⟩⟩
  have hstep : InStep (Together T S version s.store (batch ++ S.corpus s.store))
      (GraphBuilder.buildFromBatch T S now batch) (GraphBuilder.buildFromBatch T S now' batch)
      SameEdges := inStep_buildFromBatch hsettles htells
  unfold GraphBuilder.call
  rcases hstep _ _ htogether with
    ⟨es, es', s', t', hs, ht, hes, _, _, -, hs', -⟩ | ⟨e, s', t', hs, ht, _, _, -, hs', -⟩
  · rw [hs, ht]
    exact ⟨congrArg Except.ok hes, hs'.coherent, hs'.store⟩
  · rw [hs, ht]
    exact ⟨rfl, hs'.coherent, hs'.store⟩

end Builders

/-! ## Runs -/

section Runs

variable {σ φ ν ι : Type} [DecidableEq φ] (T : GraphTools ν) (S : FunctionStore σ φ)
  (step : ι → σ → σ)

/-- What happens to a builder and its store, whose steps are given. -/
inductive BuilderEvent (ι : Type) where
  /-- A step of the store. -/
  | store (i : ι)
  /-- A call of `build_from_batch`, with the readings of the clock. -/
  | build (now : ℕ → PyDatetime) (batch : List Function)
  /-- A call of `invalidate_cache`. -/
  | invalidate

/-- A builder and its store after an event. -/
def BuilderState.after (s : BuilderState σ φ ν) : BuilderEvent ι → BuilderState σ φ ν
  | .store i => { s with store := step i s.store }
  | .build now batch => (GraphBuilder.call T S now batch s).2
  | .invalidate => { s with builder := .new }

/-- The condition on a call, in the state that it meets. -/
def BuilderEvent.Meets (version : φ → List Function) (s : BuilderState σ φ ν) :
    BuilderEvent ι → Prop
  | .build _ batch => S.Tells version s.store ∧
      s.builder.VectorsFit T (batch ++ S.corpus s.store)
  | _ => True

/-- The call ends as that of a new builder would, whenever that reads the clock. -/
def BuilderEvent.AsNew (s : BuilderState σ φ ν) : BuilderEvent ι → Prop
  | .build now batch => ∀ now', SameOutcomes (GraphBuilder.call T S now batch s).1
      (GraphBuilder.call T S now' batch ⟨.new, s.store⟩).1
  | _ => True

/-- A property holds of each event of a run, in the state that it meets. -/
def BuilderState.Along (P : BuilderState σ φ ν → BuilderEvent ι → Prop) :
    BuilderState σ φ ν → List (BuilderEvent ι) → Prop
  | _, [] => True
  | s, event :: events => P s event ∧ (s.after T S step event).Along P events

variable {T S step} {version : φ → List Function}

/-- One event leaves a coherent builder, and if it is a call it ends as that of a new builder. -/
theorem after_coherent (hsettles : S.Settles) {s : BuilderState σ φ ν}
    (hcoherent : s.builder.Coherent T.env version) {event : BuilderEvent ι}
    (hmeets : event.Meets T S version s) :
    event.AsNew T S s ∧ (s.after T S step event).builder.Coherent T.env version := by
  cases event with
  | store i => exact ⟨trivial, hcoherent⟩
  | build now batch =>
    obtain ⟨htells, hvectors⟩ := hmeets
    have hcall := call_eq_new hsettles htells hcoherent hvectors now
    exact ⟨fun now' => (hcall now').1, (hcall now).2.1⟩
  | invalidate => exact ⟨trivial, GraphBuilder.coherent_new _ _⟩

/-- In a run whose calls meet the condition every call ends as that of a new builder. -/
theorem along_asNew (hsettles : S.Settles) {s : BuilderState σ φ ν}
    (hcoherent : s.builder.Coherent T.env version) {events : List (BuilderEvent ι)}
    (hmeets : s.Along T S step (fun s e => e.Meets T S version s) events) :
    s.Along T S step (fun s e => e.AsNew T S s) events := by
  induction events generalizing s with
  | nil => exact trivial
  | cons event events ih =>
    obtain ⟨hevent, hrest⟩ := hmeets
    obtain ⟨hnew, hafter⟩ := after_coherent hsettles hcoherent hevent
    exact ⟨hnew, ih hafter hrest⟩

end Runs

end Memplex
