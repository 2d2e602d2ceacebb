import Memplex.Lib.Peaks
import Mathlib.Data.List.Perm.Basic
import Mathlib.Data.String.Basic
import Mathlib.Algebra.GroupWithZero.Nat

/-!
# The vector index

`VectorSearchIndex` keeps the vectors of documents under their ids, with the digests of the texts
that they were computed from. The dense search computes again what is missing and what has another
digest. The sparse search computes only what is missing: a document whose text has changed keeps its
old entry, does not match it, and is no longer found (`edited_not_found`).

`cached_agrees` is about runs of a store whose functions come, change and go between searches. The
embedder is deterministic: the vectors of a batch are those of its texts. The arithmetic of the
scores is a parameter, and so are the cosine of two vectors and the digest.
-/

namespace Memplex

open Lib

/-- `{token: weight}`. -/
abbrev Weights (F : Type) := List (String × F)

/-- The methods of an embedder that the index calls. -/
structure Embedder (F : Type) where
  /-- `embed_query(text)`, or `embed(text)` where there is none: empty where it fails. -/
  embedQuery : String → List F
  /-- `encode_query_batch`, or `embed_query_batch`. -/
  queryBatch : Option (List String → List (List F))
  /-- `embed_sparse_batch`, which returns `None` where its backend is missing. -/
  sparseBatch : Option (List String → Option (List (Weights F)))

/-- What the index uses besides the language. -/
structure VectorEnv (F : Type) where
  /-- `sha1(text.encode("utf-8")).hexdigest()`. -/
  digest : String → String
  /-- The cosine of two vectors of one length. -/
  cosine : List F → List F → F

/-- An entry of a cache. -/
structure Cached (α : Type) where
  docId : String
  digest : String
  value : α
deriving DecidableEq

/-- The entries by id. -/
abbrev Cache (α : Type) := Table (Cached.docId : Cached α → String)

/-- A document: its id and its text. -/
abbrev Document := String × String

/-- The documents by id. -/
abbrev Corpus := Table (Prod.fst : Document → String)

/-- `VectorSearchIndex`. -/
structure VectorSearchIndex (F : Type) where
  embedder : Option (Embedder F)
  cache : Cache (List F)
  sparseCache : Cache (Weights F)

variable {F : Type}

/-- `set_embedder`. -/
def VectorSearchIndex.setEmbedder (e : Embedder F) : VectorSearchIndex F := ⟨some e, .empty, .empty⟩

/-- The vectors of documents: in a batch, or one by one. -/
def Embedder.documentVectors (e : Embedder F) (texts : List String) : List (List F) :=
  match e.queryBatch with
  | some batch => batch texts
  | none => texts.map e.embedQuery

namespace VectorEnv

variable (V : VectorEnv F)

/-- The entry of a document, if it was computed from a text with the digest of its text. -/
def lookup {α : Type} (cache : Cache α) (doc : Document) : Option α :=
  (cache.get? doc.1).bind fun c => if c.digest = V.digest doc.2 then some c.value else none

/-- The entries of documents are written. -/
def store {α : Type} (cache : Cache α) (found : List (Document × α)) : Cache α :=
  (found.map fun x => (⟨x.1.1, V.digest x.1.2, x.2⟩ : Cached α)).foldl Table.set cache

/-- `_vectors_for`: the vectors by id, and the cache after it. -/
def vectorsFor (e : Embedder F) (cache : Cache (List F)) (documents : List Document) :
    Table (Prod.fst : String × List F → String) × Cache (List F) :=
  let hits := documents.filterMap fun doc => (V.lookup cache doc).map fun v => (doc.1, v)
  let misses := documents.filter fun doc => (V.lookup cache doc).isNone
  let found := (misses.zip (e.documentVectors (misses.map Prod.snd))).filter fun x =>
    !x.2.isEmpty
  ((hits ++ found.map fun x => (x.1.1, x.2)).foldl Table.set .empty, V.store cache found)

variable [LinearOrder F]

/-- `search`. -/
def search (index : VectorSearchIndex F) (documents : List Document) (queryText : String)
    (topK : ℤ) : VectorSearchIndex F × List (String × F) :=
  match index.embedder with
  | none => (index, [])
  | some e =>
    if topK ≤ 0 ∨ documents = [] ∨ e.embedQuery queryText = [] then (index, [])
    else
      let query := e.embedQuery queryText
      let vectors := V.vectorsFor e index.cache documents
      let scored := (vectors.1.rows.filter fun v => v.2.length = query.length).map fun v =>
        (v.1, V.cosine query v.2)
      ({ index with cache := vectors.2 }, (ranked scored).take topK.toNat)

variable [Zero F] [Add F] [Mul F] [Div F]

/-- The sum of the products of the weights of shared tokens. -/
def overlap (query weights : Weights F) : F :=
  (query.map fun q => q.2 * ((findRow Prod.fst q.1 weights).map Prod.snd).getD 0).foldl (· + ·) 0

/-- The scores of the documents whose weights are up to date. -/
def scoreSparse (cache : Cache (Weights F)) (documents : List Document) (query : Weights F)
    (topK : ℤ) : List (String × F) :=
  let scored := documents.filterMap fun doc => (V.lookup cache doc).bind fun weights =>
    if 0 < overlap query weights then some (doc.1, overlap query weights) else none
  let top := ((scored.map Prod.snd).max?).getD 0
  (ranked (scored.map fun x => (x.1, x.2 / top))).take topK.toNat

/-- The cache with an entry for every document that has none, or `none` where the backend fails. -/
def fillSparse (embedSparse : List String → Option (List (Weights F)))
    (cache : Cache (Weights F)) (documents : List Document) : Option (Cache (Weights F)) :=
  let missing := documents.filter fun doc => !cache.contains doc.1
  if missing = [] then some cache
  else (embedSparse (missing.map Prod.snd)).bind fun batch =>
    if batch.length = missing.length then some (V.store cache (missing.zip batch)) else none

/-- `sparse_search`. -/
def sparseSearch (index : VectorSearchIndex F) (documents : List Document) (queryText : String)
    (topK : ℤ) : VectorSearchIndex F × List (String × F) :=
  match index.embedder.bind Embedder.sparseBatch with
  | none => (index, [])
  | some embedSparse =>
    if topK ≤ 0 ∨ documents = [] then (index, [])
    else
      match V.fillSparse embedSparse index.sparseCache documents with
      | none => (index, [])
      | some sparse =>
        let query := ((embedSparse [queryText]).bind List.head?).getD []
        ({ index with sparseCache := sparse },
          if query = [] then [] else V.scoreSparse sparse documents query topK)

end VectorEnv

/-! ## Runs -/

/-- A change of the store, or a search. -/
inductive IndexOp where
  /-- A function comes, or its text is edited. -/
  | put (id text : String)
  | delete (id : String)
  | search (queryText : String) (topK : ℤ)
  | sparseSearch (queryText : String) (topK : ℤ)

/-- The functions of a store and its index. -/
structure IndexedStore (F : Type) where
  corpus : Corpus
  index : VectorSearchIndex F

namespace IndexedStore

/-- A store without functions, with a new index. -/
def start (e : Embedder F) : IndexedStore F := ⟨.empty, .setEmbedder e⟩

/-- The store with a new index. -/
def renewed (s : IndexedStore F) : IndexedStore F :=
  { s with index := ⟨s.index.embedder, .empty, .empty⟩ }

variable (V : VectorEnv F) [LinearOrder F] [Zero F] [Add F] [Mul F] [Div F]

/-- The store after an operation, and what it returns. -/
def step (s : IndexedStore F) : IndexOp → IndexedStore F × List (String × F)
  | .put id text => ({ s with corpus := s.corpus.set (id, text) }, [])
  | .delete id => ({ s with corpus := s.corpus.erase id }, [])
  | .search queryText topK =>
    let out := V.search s.index s.corpus.rows queryText topK
    ({ s with index := out.1 }, out.2)
  | .sparseSearch queryText topK =>
    let out := V.sparseSearch s.index s.corpus.rows queryText topK
    ({ s with index := out.1 }, out.2)

/-- Every search of a run returns what a new index returns. -/
def AgreesAlong : IndexedStore F → List IndexOp → Prop
  | _, [] => True
  | s, op :: ops => (s.step V op).2 = (s.renewed.step V op).2 ∧ AgreesAlong (s.step V op).1 ops

/-- What the sparse cache holds for the documents of a sparse search is of their present texts. -/
def Steady (s : IndexedStore F) : IndexOp → Prop
  | .sparseSearch _ _ => ∀ doc ∈ s.corpus.rows, ∀ c ∈ s.index.sparseCache.get? doc.1,
      c.digest = V.digest doc.2
  | _ => True

/-- It is so in every sparse search of a run. -/
def SteadyAlong : IndexedStore F → List IndexOp → Prop
  | _, [] => True
  | s, op :: ops => s.Steady V op ∧ SteadyAlong (s.step V op).1 ops

end IndexedStore

/-- The texts that come into a store. -/
def IndexOp.texts (ops : List IndexOp) : List String :=
  ops.filterMap fun op => match op with
    | .put _ text => some text
    | _ => none

/-- The embedder computes the vectors and the weights of a batch text by text. -/
structure Embedder.Computes (e : Embedder F) (document : String → List F)
    (weights : Option (String → Weights F)) : Prop where
  vectors : ∀ texts, e.documentVectors texts = texts.map document
  sparse : ∀ batch ∈ e.sparseBatch, ∀ texts, batch texts = weights.map fun w => texts.map w

/-! ## What the caches hold -/

namespace VectorEnv

variable {V : VectorEnv F} {α : Type}

/-- The entries of a cache come from known texts, and their values are right for these. -/
def Known (V : VectorEnv F) (texts : List String) (right : String → α → Prop) (cache : Cache α) :
    Prop :=
  ∀ c ∈ cache.rows, ∃ text ∈ texts, c.digest = V.digest text ∧ right text c.value

/-- Known texts have different digests. -/
def Distinguishes (V : VectorEnv F) (texts : List String) : Prop :=
  ∀ t ∈ texts, ∀ t' ∈ texts, V.digest t = V.digest t' → t = t'

theorem known_empty (texts : List String) (right : String → α → Prop) :
    V.Known texts right (.empty : Cache α) :=
  fun _ hc => (List.not_mem_nil hc).elim

theorem Known.mono {texts : List String} {right right' : String → α → Prop} {cache : Cache α}
    (h : V.Known texts right cache) (hright : ∀ text v, right text v → right' text v) :
    V.Known texts right' cache := by
  intro c hc
  obtain ⟨text, htext, hdigest, hvalue⟩ := h c hc
  exact ⟨text, htext, hdigest, hright text c.value hvalue⟩

theorem Known.store {texts : List String} {right : String → α → Prop} {cache : Cache α}
    (h : V.Known texts right cache) {found : List (Document × α)}
    (hfound : ∀ x ∈ found, x.1.2 ∈ texts ∧ right x.1.2 x.2) :
    V.Known texts right (V.store cache found) := by
  intro c hc
  rcases Table.mem_foldl_set hc with hnew | hold
  · obtain ⟨x, hx, rfl⟩ := List.mem_map.mp hnew
    exact ⟨x.1.2, (hfound x hx).1, rfl, (hfound x hx).2⟩
  · exact h c hold

/-- What is looked up for a known text is right for it. -/
theorem Known.lookup {texts : List String} {right : String → α → Prop} {cache : Cache α}
    (h : V.Known texts right cache) (hdistinct : V.Distinguishes texts) {doc : Document}
    (hdoc : doc.2 ∈ texts) {v : α} (hv : V.lookup cache doc = some v) : right doc.2 v := by
  obtain ⟨c, hget, hmatch⟩ := Option.bind_eq_some_iff.mp hv
  split_ifs at hmatch with hdigest
  obtain ⟨text, htext, hdigest', hright⟩ := h c (Table.mem_of_get? hget)
  have hsame := hdistinct text htext doc.2 hdoc (hdigest'.symm.trans hdigest)
  rw [← hsame, ← Option.some.inj hmatch]
  exact hright

theorem lookup_empty (doc : Document) : V.lookup (.empty : Cache α) doc = none := rfl

/-! ## The dense search -/

/-- The vectors of documents under their ids, as far as they have any. -/
def vectorsOf (document : String → List F) (documents : List Document) : List (String × List F) :=
  (documents.filter fun doc => !(document doc.2).isEmpty).map fun doc => (doc.1, document doc.2)

/-- What is computed for the documents that are missed. -/
theorem found_eq {e : Embedder F} {document : String → List F}
    (hvectors : ∀ texts, e.documentVectors texts = texts.map document) (misses : List Document) :
    (misses.zip (e.documentVectors (misses.map Prod.snd))).filter (fun x => !x.2.isEmpty) =
      (misses.filter fun doc => !(document doc.2).isEmpty).map fun doc =>
        (doc, document doc.2) := by
  rw [hvectors]
  induction misses with
  | nil => rfl
  | cons doc misses ih =>
    rw [List.map_cons, List.map_cons, List.zip_cons_cons, List.filter_cons, List.filter_cons, ih]
    split_ifs <;> rfl

/-- What is found in the cache. -/
theorem hits_eq {document : String → List F} {cache : Cache (List F)} {documents : List Document}
    (hlookup : ∀ doc ∈ documents, ∀ v, V.lookup cache doc = some v → v = document doc.2 ∧ v ≠ []) :
    documents.filterMap (fun doc => (V.lookup cache doc).map fun v => (doc.1, v)) =
      vectorsOf document (documents.filter fun doc => !(V.lookup cache doc).isNone) := by
  induction documents with
  | nil => rfl
  | cons doc documents ih =>
    obtain ⟨hdoc, hrest⟩ := List.forall_mem_cons.mp hlookup
    rw [List.filterMap_cons, ih hrest, List.filter_cons]
    cases hfound : V.lookup cache doc with
    | none => rfl
    | some v =>
      obtain ⟨rfl, hne⟩ := hdoc v hfound
      rw [vectorsOf, vectorsOf]
      simp only [Option.map_some, Option.isNone_some, Bool.not_false, if_true]
      rw [List.filter_cons_of_pos (by simpa using hne)]
      rfl

/-- The vectors of all documents are resolved. -/
theorem vectorsFor_rows {e : Embedder F} {document : String → List F}
    (hvectors : ∀ texts, e.documentVectors texts = texts.map document) {cache : Cache (List F)}
    {documents : List Document} (hnodup : (documents.map Prod.fst).Nodup)
    (hlookup : ∀ doc ∈ documents, ∀ v, V.lookup cache doc = some v → v = document doc.2 ∧ v ≠ []) :
    (V.vectorsFor e cache documents).1.rows.Perm (vectorsOf document documents) := by
  have hperm : (documents.filterMap (fun doc => (V.lookup cache doc).map fun v => (doc.1, v)) ++
      vectorsOf document (documents.filter fun doc => (V.lookup cache doc).isNone)).Perm
        (vectorsOf document documents) := by
    rw [hits_eq hlookup, vectorsOf, vectorsOf, vectorsOf, ← List.map_append, ← List.filter_append]
    refine ((List.perm_append_comm.trans ?_).filter _).map _
    exact List.filter_append_perm _ documents
  have hkeys : ((vectorsOf document documents).map Prod.fst).Nodup := by
    rw [vectorsOf, List.map_map]
    exact hnodup.sublist (List.filter_sublist.map Prod.fst)
  have hrows : (V.vectorsFor e cache documents).1.rows =
      documents.filterMap (fun doc => (V.lookup cache doc).map fun v => (doc.1, v)) ++
        vectorsOf document (documents.filter fun doc => (V.lookup cache doc).isNone) := by
    unfold vectorsFor
    dsimp only
    rw [found_eq hvectors, List.map_map]
    exact Table.rows_foldl_set_new ((hperm.map Prod.fst).nodup_iff.mpr hkeys)
  rw [hrows]
  exact hperm

/-- The entries that a dense search leaves are right. -/
theorem Known.vectorsFor {e : Embedder F} {document : String → List F}
    (hvectors : ∀ texts, e.documentVectors texts = texts.map document) {texts : List String}
    {cache : Cache (List F)} {documents : List Document}
    (hdocuments : ∀ doc ∈ documents, doc.2 ∈ texts)
    (h : V.Known texts (fun text v => v = document text ∧ v ≠ []) cache) :
    V.Known texts (fun text v => v = document text ∧ v ≠ [])
      (V.vectorsFor e cache documents).2 := by
  refine h.store fun x hx => ?_
  rw [found_eq hvectors] at hx
  obtain ⟨doc, hdoc, rfl⟩ := List.mem_map.mp hx
  obtain ⟨hmissed, hne⟩ := List.mem_filter.mp hdoc
  exact ⟨hdocuments doc (List.mem_of_mem_filter hmissed), rfl, by simpa using hne⟩

section Search

variable [LinearOrder F]

/-- A dense search returns what a new index returns. -/
theorem search_agrees {e : Embedder F} {document : String → List F}
    (hvectors : ∀ texts, e.documentVectors texts = texts.map document) {texts : List String}
    (hdistinct : V.Distinguishes texts) {index : VectorSearchIndex F}
    (hindex : index.embedder = some e)
    (hknown : V.Known texts (fun text v => v = document text ∧ v ≠ []) index.cache)
    {documents : List Document} (hnodup : (documents.map Prod.fst).Nodup)
    (hdocuments : ∀ doc ∈ documents, doc.2 ∈ texts) (queryText : String) (topK : ℤ) :
    (V.search index documents queryText topK).2 =
      (V.search ⟨index.embedder, .empty, .empty⟩ documents queryText topK).2 := by
  unfold search
  simp only [hindex]
  by_cases hnone : topK ≤ 0 ∨ documents = [] ∨ e.embedQuery queryText = []
  · rw [if_pos hnone, if_pos hnone]
  · rw [if_neg hnone, if_neg hnone]
    have hcached := vectorsFor_rows (V := V) hvectors hnodup
      fun doc hdoc v hv => hknown.lookup hdistinct (hdocuments doc hdoc) hv
    have hfresh := @vectorsFor_rows _ V _ _ hvectors .empty _ hnodup
      fun doc _ v hv => (Option.some_ne_none v (hv.symm.trans (lookup_empty doc))).elim
    dsimp only
    rw [ranked_perm (((hcached.trans hfresh.symm).filter _).map _)]

end Search

/-! ## The sparse search -/

/-- The entry that a document has after some documents are stored. -/
theorem lookup_store {α : Type} {cache : Cache α} {missing : List Document}
    (hnodup : (missing.map Prod.fst).Nodup) (right : String → α) {doc : Document}
    (hdoc : doc ∈ missing) :
    V.lookup (V.store cache (missing.map fun doc => (doc, right doc.2))) doc =
      some (right doc.2) := by
  have hstored : ∃ r ∈ (missing.map fun doc => (doc, right doc.2)).map fun x =>
      (⟨x.1.1, V.digest x.1.2, x.2⟩ : Cached α), r.docId = doc.1 :=
    ⟨_, List.mem_map_of_mem (List.mem_map_of_mem hdoc), rfl⟩
  obtain ⟨r, hr, hid, hget⟩ := Table.get?_foldl_set_mem (t := cache) (k := doc.1) hstored
  obtain ⟨x, hx, rfl⟩ := List.mem_map.mp hr
  obtain ⟨other, hother, rfl⟩ := List.mem_map.mp hx
  have hsame : other = doc := List.inj_on_of_nodup_map hnodup hother hdoc hid
  subst hsame
  unfold lookup store
  rw [hget, Option.bind_some, if_pos rfl]

/-- After the cache is filled, every document has the weights of its text, if the entries that were
there are of the present texts. -/
theorem fillSparse_lookup {right : String → Weights F} {texts : List String}
    {cache : Cache (Weights F)} (hdistinct : V.Distinguishes texts)
    (hknown : V.Known texts (fun text w => w = right text) cache) {documents : List Document}
    (hnodup : (documents.map Prod.fst).Nodup) (hdocuments : ∀ doc ∈ documents, doc.2 ∈ texts)
    (hsteady : ∀ doc ∈ documents, ∀ c ∈ cache.get? doc.1, c.digest = V.digest doc.2) :
    ∃ filled, V.fillSparse (fun ts => some (ts.map right)) cache documents = some filled ∧
      V.Known texts (fun text w => w = right text) filled ∧
      ∀ doc ∈ documents, V.lookup filled doc = some (right doc.2) := by
  have hkept : ∀ doc ∈ documents, cache.contains doc.1 = true →
      V.lookup cache doc = some (right doc.2) := by
    intro doc hdoc hcontains
    obtain ⟨c, hc⟩ := Table.contains_iff.mp hcontains
    have hfound : V.lookup cache doc = some c.value := by
      unfold lookup
      rw [hc, Option.bind_some, if_pos (hsteady doc hdoc c hc)]
    rw [hfound, hknown.lookup hdistinct (hdocuments doc hdoc) hfound]
  have hmissing : ∀ doc, doc ∈ documents.filter (fun doc => !cache.contains doc.1) ↔
      doc ∈ documents ∧ cache.contains doc.1 = false := fun doc => by
    rw [List.mem_filter, Bool.not_eq_true']
  unfold fillSparse
  dsimp only
  by_cases hnone : documents.filter (fun doc => !cache.contains doc.1) = []
  · rw [if_pos hnone]
    refine ⟨cache, rfl, hknown, fun doc hdoc => hkept doc hdoc ?_⟩
    by_contra hnot
    have hmem := (hmissing doc).mpr ⟨hdoc, Bool.eq_false_iff.mpr hnot⟩
    rw [hnone] at hmem
    exact List.not_mem_nil hmem
  · rw [if_neg hnone]
    set missing := documents.filter fun doc => !cache.contains doc.1
    have hzip : missing.zip ((missing.map Prod.snd).map right) =
        missing.map fun doc => (doc, right doc.2) := by
      have hpair := List.zip_map' (l := missing) (f := id) (g := right ∘ Prod.snd)
      rwa [List.map_id, ← List.map_map] at hpair
    refine ⟨_, by rw [Option.bind_some, if_pos (by simp)], ?_, fun doc hdoc => ?_⟩
    · refine hknown.store fun x hx => ?_
      rw [hzip] at hx
      obtain ⟨doc, hdoc, rfl⟩ := List.mem_map.mp hx
      exact ⟨hdocuments doc ((hmissing doc).mp hdoc).1, rfl⟩
    · rw [hzip]
      cases hcontains : cache.contains doc.1 with
      | false =>
        exact lookup_store (hnodup.sublist (List.filter_sublist.map Prod.fst)) right
          ((hmissing doc).mpr ⟨hdoc, hcontains⟩)
      | true =>
        have hother : (V.store cache (missing.map fun doc => (doc, right doc.2))).get? doc.1 =
            cache.get? doc.1 := by
          refine Table.get?_foldl_set_ne fun r hr => ?_
          obtain ⟨x, hx, rfl⟩ := List.mem_map.mp hr
          obtain ⟨other, hother, rfl⟩ := List.mem_map.mp hx
          intro hid
          have hnot := ((hmissing other).mp hother).2
          change other.1 = doc.1 at hid
          rw [hid, hcontains] at hnot
          cases hnot
        have hfound := hkept doc hdoc hcontains
        unfold lookup at hfound ⊢
        rw [hother]
        exact hfound

section Search

variable [LinearOrder F] [Zero F] [Add F] [Mul F] [Div F]

/-- The scores depend on what is looked up only. -/
theorem scoreSparse_congr {cache cache' : Cache (Weights F)} {documents : List Document}
    (h : ∀ doc ∈ documents, V.lookup cache doc = V.lookup cache' doc) (query : Weights F)
    (topK : ℤ) : V.scoreSparse cache documents query topK =
      V.scoreSparse cache' documents query topK := by
  unfold scoreSparse
  have hscored : documents.filterMap (fun doc => (V.lookup cache doc).bind fun weights =>
      if 0 < overlap query weights then some (doc.1, overlap query weights) else none) =
      documents.filterMap fun doc => (V.lookup cache' doc).bind fun weights =>
        if 0 < overlap query weights then some (doc.1, overlap query weights) else none :=
    List.filterMap_congr fun doc hdoc => by rw [h doc hdoc]
  rw [hscored]

/-- A sparse search returns what a new index returns, if the entries for its documents are of their
present texts; and the entries that it leaves are right. -/
theorem sparseSearch_agrees {e : Embedder F} {document : String → List F}
    {weights : Option (String → Weights F)} (he : e.Computes document weights)
    {texts : List String} (hdistinct : V.Distinguishes texts) {index : VectorSearchIndex F}
    (hindex : index.embedder = some e)
    (hknown : V.Known texts (fun text w => ∃ right ∈ weights, w = right text) index.sparseCache)
    {documents : List Document} (hnodup : (documents.map Prod.fst).Nodup)
    (hdocuments : ∀ doc ∈ documents, doc.2 ∈ texts)
    (hsteady : ∀ doc ∈ documents, ∀ c ∈ index.sparseCache.get? doc.1, c.digest = V.digest doc.2)
    (queryText : String) (topK : ℤ) :
    (V.sparseSearch index documents queryText topK).2 =
        (V.sparseSearch ⟨index.embedder, .empty, .empty⟩ documents queryText topK).2 ∧
      (V.sparseSearch index documents queryText topK).1.cache = index.cache ∧
      (V.sparseSearch index documents queryText topK).1.embedder = index.embedder ∧
      V.Known texts (fun text w => ∃ right ∈ weights, w = right text)
        (V.sparseSearch index documents queryText topK).1.sparseCache := by
  unfold sparseSearch
  simp only [hindex, Option.bind_some]
  cases hbatch : e.sparseBatch with
  | none => exact ⟨rfl, rfl, hindex, hknown⟩
  | some embedSparse =>
    dsimp only
    by_cases hnone : topK ≤ 0 ∨ documents = []
    · rw [if_pos hnone, if_pos hnone]
      exact ⟨rfl, rfl, hindex, hknown⟩
    rw [if_neg hnone, if_neg hnone]
    have hcompute : embedSparse = fun ts => weights.map fun w => ts.map w :=
      funext (he.sparse embedSparse hbatch)
    subst hcompute
    cases weights with
    | none =>
      -- The backend is missing, so that there are no entries and none are made.
      have hempty : index.sparseCache = .empty := by
        refine Table.ext (List.eq_nil_iff_forall_not_mem.mpr fun c hc => ?_)
        obtain ⟨-, -, -, right, hright, -⟩ := hknown c hc
        cases hright
      have hfill : V.fillSparse (fun ts => Option.map (fun w => ts.map w) none) .empty documents =
          none := by
        have hall : documents.filter (fun doc => !(.empty : Cache (Weights F)).contains doc.1) =
            documents := List.filter_eq_self.mpr fun _ _ => rfl
        unfold fillSparse
        dsimp only
        rw [hall, if_neg (not_or.mp hnone).2]
        rfl
      rw [hempty, hfill]
      exact ⟨rfl, rfl, hindex, hknown⟩
    | some right =>
      have hright : V.Known texts (fun text w => w = right text) index.sparseCache :=
        hknown.mono fun text w ⟨right', hsame, hw⟩ => Option.some.inj hsame ▸ hw
      obtain ⟨filled, hfilled, hknown', hlookup⟩ :=
        fillSparse_lookup hdistinct hright hnodup hdocuments hsteady
      obtain ⟨fresh, hfresh, -, hlookup'⟩ := fillSparse_lookup hdistinct
        (known_empty texts (fun text w => w = right text)) hnodup hdocuments
        fun _ _ c hc => (Option.some_ne_none c hc.symm).elim
      simp only [Option.map_some]
      rw [hfilled, hfresh]
      dsimp only
      refine ⟨?_, rfl, rfl, hknown'.mono fun text w hw => ⟨right, rfl, hw⟩⟩
      rw [scoreSparse_congr fun doc hdoc => (hlookup doc hdoc).trans (hlookup' doc hdoc).symm]

end Search

end VectorEnv

/-! ## Runs agree -/

namespace IndexedStore

variable {V : VectorEnv F} [LinearOrder F] [Zero F] [Add F] [Mul F] [Div F] {e : Embedder F}
  {document : String → List F} {weights : Option (String → Weights F)} {texts : List String}

/-- What a run keeps: the embedder, and what is known of the texts and the entries. -/
structure Sound (V : VectorEnv F) (e : Embedder F) (document : String → List F)
    (weights : Option (String → Weights F)) (texts : List String) (s : IndexedStore F) : Prop where
  embedder : s.index.embedder = some e
  corpus : ∀ doc ∈ s.corpus.rows, doc.2 ∈ texts
  cache : V.Known texts (fun text v => v = document text ∧ v ≠ []) s.index.cache
  sparseCache : V.Known texts (fun text w => ∃ right ∈ weights, w = right text) s.index.sparseCache

omit [LinearOrder F] [Zero F] [Add F] [Mul F] [Div F] in
theorem sound_start : Sound V e document weights texts (start e) :=
  ⟨rfl, fun _ hdoc => (List.not_mem_nil hdoc).elim, VectorEnv.known_empty _ _,
    VectorEnv.known_empty _ _⟩

/-- One operation: it keeps what is known, and a search agrees with a new index. -/
theorem Sound.step {s : IndexedStore F} (h : Sound V e document weights texts s)
    (he : e.Computes document weights) (hdistinct : V.Distinguishes texts) {op : IndexOp}
    (hop : ∀ text ∈ IndexOp.texts [op], text ∈ texts) (hsteady : s.Steady V op) :
    Sound V e document weights texts (s.step V op).1 ∧
      (s.step V op).2 = (s.renewed.step V op).2 := by
  cases op with
  | put id text =>
    refine ⟨⟨h.embedder, fun doc hdoc => ?_, h.cache, h.sparseCache⟩, rfl⟩
    rcases mem_upsertRow.mp hdoc with rfl | ⟨hdoc, -⟩
    · exact hop text (List.mem_singleton_self _)
    · exact h.corpus doc hdoc
  | delete id =>
    exact ⟨⟨h.embedder, fun doc hdoc => h.corpus doc (mem_eraseRow.mp hdoc).1, h.cache,
      h.sparseCache⟩, rfl⟩
  | search queryText topK =>
    have hagrees := VectorEnv.search_agrees he.vectors hdistinct h.embedder h.cache s.corpus.nodup
      h.corpus queryText topK
    refine ⟨?_, hagrees⟩
    have hkept := h.cache.vectorsFor (e := e) he.vectors h.corpus
    change Sound V e document weights texts
      ⟨s.corpus, (V.search s.index s.corpus.rows queryText topK).1⟩
    unfold VectorEnv.search
    simp only [h.embedder]
    split_ifs
    · exact ⟨h.embedder, h.corpus, h.cache, h.sparseCache⟩
    · exact ⟨rfl, h.corpus, hkept, h.sparseCache⟩
  | sparseSearch queryText topK =>
    obtain ⟨hagrees, hcache, hembedder, hsparse⟩ := VectorEnv.sparseSearch_agrees he hdistinct
      h.embedder h.sparseCache s.corpus.nodup h.corpus hsteady queryText topK
    refine ⟨⟨hembedder.trans h.embedder, h.corpus, ?_, hsparse⟩, hagrees⟩
    change V.Known texts _ (V.sparseSearch s.index s.corpus.rows queryText topK).1.cache
    rw [hcache]
    exact h.cache

/-- In a run whose sparse searches find their entries up to date, every search returns what a new
index returns. -/
theorem cached_agrees (he : e.Computes document weights) (ops : List IndexOp)
    (hdistinct : V.Distinguishes (IndexOp.texts ops)) (hsteady : (start e).SteadyAlong V ops) :
    (start e).AgreesAlong V ops := by
  suffices hrun : ∀ (texts : List String), V.Distinguishes texts → ∀ (ops : List IndexOp)
      (s : IndexedStore F), Sound V e document weights texts s →
      (∀ text ∈ IndexOp.texts ops, text ∈ texts) → s.SteadyAlong V ops → s.AgreesAlong V ops from
    hrun _ hdistinct ops (start e) sound_start (fun _ h => h) hsteady
  intro texts hdistinct ops
  induction ops with
  | nil => exact fun _ _ _ _ => trivial
  | cons op ops ih =>
    intro s hs hops hsteady
    have hfirst : ∀ text ∈ IndexOp.texts [op], text ∈ IndexOp.texts (op :: ops) := by
      intro text htext
      obtain ⟨o, ho, heq⟩ := List.mem_filterMap.mp htext
      obtain rfl := List.mem_singleton.mp ho
      exact List.mem_filterMap.mpr ⟨o, List.mem_cons_self, heq⟩
    have hrest : ∀ text ∈ IndexOp.texts ops, text ∈ IndexOp.texts (op :: ops) := by
      intro text htext
      obtain ⟨o, ho, heq⟩ := List.mem_filterMap.mp htext
      exact List.mem_filterMap.mpr ⟨o, List.mem_cons_of_mem _ ho, heq⟩
    obtain ⟨hs', hagrees⟩ := hs.step he hdistinct (fun text ht => hops text (hfirst text ht))
      hsteady.1
    exact ⟨hagrees, ih _ hs' (fun text ht => hops text (hrest text ht)) hsteady.2⟩

end IndexedStore

/-! ## An edited text -/

/-- An embedder whose vectors are the lengths of the texts, and whose one token is the text. -/
def lengthEmbedder : Embedder ℕ where
  embedQuery text := [text.length]
  queryBatch := none
  sparseBatch := some fun texts => some (texts.map fun text => [(text, 1)])

/-- A digest that tells all texts apart. -/
def plainVectors : VectorEnv ℕ := ⟨id, fun _ _ => 1⟩

theorem lengthEmbedder_computes : lengthEmbedder.Computes (fun text => [text.length])
    (some fun text => [(text, 1)]) where
  vectors _ := rfl
  sparse batch hbatch texts := by
    rw [← Option.some.inj hbatch]
    rfl

/-- A text that is edited between two dense searches, and before the first sparse one. -/
theorem edited_agrees : (IndexedStore.start lengthEmbedder).AgreesAlong plainVectors
    [.put "f" "Login", .search "Login" 5, .put "f" "Logout", .search "Logout" 5,
      .sparseSearch "Logout" 5] :=
  IndexedStore.cached_agrees lengthEmbedder_computes _ (fun _ _ _ _ h => h)
    ⟨trivial, trivial, trivial, trivial, fun _ _ c hc => (Option.some_ne_none c hc.symm).elim,
      trivial⟩

/-- A text that is edited between two sparse searches is not found by the second. -/
theorem edited_not_found : ¬ (IndexedStore.start lengthEmbedder).AgreesAlong plainVectors
    [.put "f" "Login", .sparseSearch "Login" 5, .put "f" "Logout", .sparseSearch "Logout" 5] := by
  intro h
  exact absurd h.2.2.2.1 (by decide)

end Memplex
