import Memplex.Auth.Visible
import Memplex.Models.Defaults
import Memplex.Sync.Bootstrap

/-!
# The cascade of a forgotten memory

`MemplexService.delete` forgets a node through its store and then deletes the verbatim paragraphs
that the node came from, unless another node still refers to them. The cascade looks for references
in the resident functions, facts and preferences. It does not look at the observations, so a
paragraph whose last reference is that of an observation is deleted under it.

The cascade takes whatever collections the store shows, and a deletion that raises is logged and
passed over. Both are part of the store here: the collections that it does not show are not
scanned, and the store answers each call of `delete_paragraph`.
-/

namespace Memplex.Service

open Lib

/-- `[str(ref) for ref in (node.source_paragraphs or []) if ref]`. -/
def references (text : Text) (n : MemoryNode) : List String :=
  (n.sourceParagraphs.filter Value.truthy).map text.str

/-- A store as the cascade finds it, after the node was deleted. -/
structure CascadeStore where
  business : BusinessState
  /-- Whether `_functions` is a dictionary of the store. -/
  showsFunctions : Bool
  /-- Whether `_facts` is a dictionary of the store. -/
  showsFacts : Bool
  /-- Whether `_preferences` is a dictionary of the store. -/
  showsPreferences : Bool
  /-- Whether the store has a `delete_paragraph`. -/
  deletes : Bool
  /-- Whether `delete_paragraph` returns for the `n`-th candidate; where it raises, the store has
  restored the row. -/
  answers : ℕ → Bool

namespace CascadeStore

/-- The nodes of the collections that the cascade goes through. -/
def scanned (s : CascadeStore) : List MemoryNode :=
  (if s.showsFunctions then s.business.functions.rows.map Function.toMemoryNode else []) ++
    (if s.showsFacts then s.business.facts.rows.map Fact.toMemoryNode else []) ++
    (if s.showsPreferences then s.business.preferences.rows.map Preference.toMemoryNode else [])

/-- The nodes that it does not go through: the observations, and what the store does not show. -/
def unscanned (s : CascadeStore) : List MemoryNode :=
  (if s.showsFunctions then [] else s.business.functions.rows.map Function.toMemoryNode) ++
    (if s.showsFacts then [] else s.business.facts.rows.map Fact.toMemoryNode) ++
    (if s.showsPreferences then [] else s.business.preferences.rows.map Preference.toMemoryNode) ++
    s.business.observations.map Observation.toMemoryNode

/-- Whether there is something to scan and something to delete with. -/
def hasSurface (s : CascadeStore) : Bool :=
  s.deletes && (s.showsFunctions || s.showsFacts || s.showsPreferences)

/-- `referenced`. -/
def referenced (text : Text) (s : CascadeStore) : List String :=
  s.scanned.flatMap (references text)

/-- The body of the last loop, for one candidate and its place. -/
def cascadeStep (text : Text) (s : CascadeStore) (paragraphs : Paragraphs)
    (candidate : String × ℕ) : Paragraphs :=
  if candidate.1 ∈ s.referenced text then paragraphs
  else if s.answers candidate.2 then paragraphs.erase candidate.1
  else paragraphs

/-- `_cascade_orphaned_paragraphs`: the paragraphs that it leaves. -/
def cascadeOrphanedParagraphs (text : Text) (s : CascadeStore) (deletedNode : MemoryNode) :
    Paragraphs :=
  let candidates := references text deletedNode
  if candidates.isEmpty then s.business.paragraphs
  else if !s.hasSurface then s.business.paragraphs
  else candidates.zipIdx.foldl (s.cascadeStep text) s.business.paragraphs

end CascadeStore

/-! ## What the cascade leaves -/

/-- The nodes of a store are those that the cascade goes through and those that it does not. -/
theorem mem_nodes {s : CascadeStore} {n : MemoryNode} :
    n ∈ s.business.nodes ↔ n ∈ s.scanned ∨ n ∈ s.unscanned := by
  unfold BusinessState.nodes CascadeStore.scanned CascadeStore.unscanned
  cases s.showsFunctions <;> cases s.showsFacts <;> cases s.showsPreferences <;>
    simp [List.mem_append, or_assoc, or_comm, or_left_comm]

theorem mem_referenced {text : Text} {s : CascadeStore} {id : String} :
    id ∈ s.referenced text ↔ ∃ n ∈ s.scanned, id ∈ references text n := List.mem_flatMap

/-- A deletion of the paragraph returns. -/
def CascadeStore.Reaches (text : Text) (s : CascadeStore) (deletedNode : MemoryNode)
    (id : String) : Prop :=
  s.hasSurface = true ∧
    ∃ n, (references text deletedNode)[n]? = some id ∧ s.answers n = true

/-- The rows that stay after one step. -/
theorem mem_cascadeStep {text : Text} {s : CascadeStore} {ps : Paragraphs} {c : String × ℕ}
    {row : String × Members} : row ∈ (s.cascadeStep text ps c).rows ↔
      row ∈ ps.rows ∧ ¬ (row.1 = c.1 ∧ c.1 ∉ s.referenced text ∧ s.answers c.2 = true) := by
  unfold CascadeStore.cascadeStep
  split_ifs with href hanswer
  · simp [href]
  · rw [Table.erase, mem_eraseRow]
    simp [href, hanswer]
  · simp [hanswer]

/-- The rows that stay after all steps. -/
theorem mem_foldl_cascadeStep {text : Text} {s : CascadeStore} {row : String × Members}
    (cs : List (String × ℕ)) (ps : Paragraphs) :
    row ∈ (cs.foldl (s.cascadeStep text) ps).rows ↔
      row ∈ ps.rows ∧ ∀ c ∈ cs,
        ¬ (row.1 = c.1 ∧ c.1 ∉ s.referenced text ∧ s.answers c.2 = true) := by
  induction cs generalizing ps with
  | nil => simp
  | cons c cs ih =>
    rw [List.foldl_cons, ih, mem_cascadeStep, List.forall_mem_cons, and_assoc]

/-- A row is deleted exactly when a deletion of it returns and no scanned node refers to it. -/
theorem mem_cascade {text : Text} {s : CascadeStore} {deletedNode : MemoryNode}
    {row : String × Members} :
    row ∈ (s.cascadeOrphanedParagraphs text deletedNode).rows ↔
      row ∈ s.business.paragraphs.rows ∧
        ¬ (s.Reaches text deletedNode row.1 ∧ row.1 ∉ s.referenced text) := by
  unfold CascadeStore.cascadeOrphanedParagraphs CascadeStore.Reaches
  cases hcandidates : references text deletedNode with
  | nil => simp
  | cons first rest =>
    cases hsurface : s.hasSurface with
    | false => simp
    | true =>
      rw [← hcandidates]
      simp only [hcandidates, List.isEmpty_cons, Bool.false_eq_true, if_false, Bool.not_true]
      rw [← hcandidates, mem_foldl_cascadeStep]
      refine and_congr_right fun _ => ?_
      constructor
      · rintro hkept ⟨⟨-, n, hget, hanswer⟩, hunreferenced⟩
        exact hkept (row.1, n) (List.mem_zipIdx_iff_getElem?.mpr hget)
          ⟨rfl, hunreferenced, hanswer⟩
      · rintro hkept ⟨id, n⟩ hmem ⟨rfl, hunreferenced, hanswer⟩
        exact hkept ⟨⟨trivial, n, List.mem_zipIdx_iff_getElem?.mp hmem, hanswer⟩, hunreferenced⟩

/-! ## Orphans -/

/-- No surviving node of any kind refers to the paragraph. -/
def Orphaned (text : Text) (s : CascadeStore) (id : String) : Prop :=
  ∀ n ∈ s.business.nodes, id ∉ references text n

/-- The cascade removes orphans only, and every orphan that the forgotten node leaves. -/
structure DeletesOrphans (text : Text) (s : CascadeStore) (deletedNode : MemoryNode) : Prop where
  /-- A paragraph that is removed is an orphan. -/
  only : ∀ row ∈ s.business.paragraphs.rows,
    row ∉ (s.cascadeOrphanedParagraphs text deletedNode).rows → Orphaned text s row.1
  /-- A paragraph of the forgotten node to which no other refers is removed. -/
  every : ∀ row ∈ s.business.paragraphs.rows, row.1 ∈ references text deletedNode →
    Orphaned text s row.1 → row ∉ (s.cascadeOrphanedParagraphs text deletedNode).rows

/-- What the cascade does not see makes no difference to it. -/
structure ScanSuffices (text : Text) (s : CascadeStore) (deletedNode : MemoryNode) : Prop where
  /-- A paragraph that can be deleted is not the source of an unscanned node alone. -/
  seen : ∀ row ∈ s.business.paragraphs.rows, s.Reaches text deletedNode row.1 →
    ∀ n ∈ s.unscanned, row.1 ∈ references text n →
      ∃ other ∈ s.scanned, row.1 ∈ references text other
  /-- A paragraph of the forgotten node that cannot be deleted is the source of another node. -/
  reached : ∀ row ∈ s.business.paragraphs.rows, row.1 ∈ references text deletedNode →
    ¬ s.Reaches text deletedNode row.1 → ∃ n ∈ s.business.nodes, row.1 ∈ references text n

/-- The cascade deletes the orphans exactly when what it does not see makes no difference. -/
theorem deletesOrphans_iff (text : Text) (s : CascadeStore) (deletedNode : MemoryNode) :
    DeletesOrphans text s deletedNode ↔ ScanSuffices text s deletedNode := by
  constructor
  · intro h
    refine ⟨fun row hrow hreaches n hn href => ?_, fun row hrow hcandidate hnot => ?_⟩
    · by_contra hnone
      have hunreferenced : row.1 ∉ s.referenced text := fun hmem => hnone (mem_referenced.mp hmem)
      have hgone : row ∉ (s.cascadeOrphanedParagraphs text deletedNode).rows :=
        fun hkept => (mem_cascade.mp hkept).2 ⟨hreaches, hunreferenced⟩
      exact h.only row hrow hgone n (mem_nodes.mpr (.inr hn)) href
    · by_contra hnone
      have horphaned : Orphaned text s row.1 := fun n hn href => hnone ⟨n, hn, href⟩
      exact h.every row hrow hcandidate horphaned
        (mem_cascade.mpr ⟨hrow, fun hdeleted => hnot hdeleted.1⟩)
  · intro h
    refine ⟨fun row hrow hgone n hn href => ?_, fun row hrow hcandidate horphaned hkept => ?_⟩
    · have hdeleted : s.Reaches text deletedNode row.1 ∧ row.1 ∉ s.referenced text := by
        by_contra hnot
        exact hgone (mem_cascade.mpr ⟨hrow, hnot⟩)
      rcases mem_nodes.mp hn with hn | hn
      · exact hdeleted.2 (mem_referenced.mpr ⟨n, hn, href⟩)
      · exact hdeleted.2 (mem_referenced.mpr (h.seen row hrow hdeleted.1 n hn href))
    · have hreaches : s.Reaches text deletedNode row.1 := by
        by_contra hnot
        obtain ⟨n, hn, href⟩ := h.reached row hrow hcandidate hnot
        exact horphaned n hn href
      refine (mem_cascade.mp hkept).2 ⟨hreaches, fun hmem => ?_⟩
      obtain ⟨n, hn, href⟩ := mem_referenced.mp hmem
      exact horphaned n (mem_nodes.mpr (.inl hn)) href

/-! ## A shared paragraph -/

/-- A fact and an observation came from one paragraph; the fact has been deleted. -/
def observedStore : CascadeStore where
  business :=
    { functions := .empty
      facts := .empty
      preferences := .empty
      observations := [{ Observation.make "o1" with sourceParagraphs := [.str "p1"] }]
      paragraphs := Table.empty.set ("p1", [("id", .str "p1"), ("raw_text", .str "coffee")])
      edges := []
      nameIndex := .empty }
  showsFunctions := true
  showsFacts := true
  showsPreferences := true
  deletes := true
  answers := fun _ => true

/-- The deleted fact. -/
def observedFact : Fact :=
  { Fact.make "f1" "user" "drinks" "coffee" with sourceParagraphs := [.str "p1"] }

/-- The paragraph goes with the fact, and the observation is left without it. -/
theorem observed_paragraph_deleted :
    ¬ DeletesOrphans sampleText observedStore observedFact.toMemoryNode := by
  intro h
  have hgone : ("p1", [("id", .str "p1"), ("raw_text", .str "coffee")]) ∉
      (observedStore.cascadeOrphanedParagraphs sampleText observedFact.toMemoryNode).rows := by
    decide
  refine h.only _ (List.mem_singleton_self _) hgone
    { Observation.make "o1" with sourceParagraphs := [.str "p1"] }.toMemoryNode ?_ (by decide)
  exact List.mem_singleton_self _

end Memplex.Service
