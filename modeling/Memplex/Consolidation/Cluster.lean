import Memplex.Lib.FirstFit
import Memplex.Auth.Visible
import Memplex.Sync.State
import Mathlib.Data.List.DropRight

/-!
# Clustering the episodic rows

The paragraph rows that have not been consolidated are clustered by their words, or by the vectors
of an embedder when there is one. The arithmetic of floats is a parameter, `Floats`; no theorem here
depends on what it computes.

`_cluster` falls back to the lexical clusters when the embedder fails. The consolidation pass does
not call it with the embedder: it goes through `_cluster_rows`, which calls `_cluster_embedded`
directly. There a failing embedder is an exception, and one that returns too few vectors leaves
rows out, as the rows are paired with the vectors as far as these go.
-/

namespace Memplex.Consolidation

open Lib

/-- The text functions of the standard library that the clustering uses. -/
structure Words extends Text where
  /-- `text.split()`. -/
  split : String → List String
  /-- `text.isalnum()`. -/
  isalnum : String → Bool

/-- The operations on floats. -/
structure Floats (F : Type) where
  zero : F
  ofNat : ℕ → F
  add : F → F → F
  mul : F → F → F
  /-- Division by a float that is not zero. -/
  div : F → F → F
  sqrt : F → F
  eq : F → F → Bool
  /-- Whether the first is at most the second. -/
  le : F → F → Bool

/-- A row of the paragraphs under its id. -/
abbrev Row := String × Members

/-- `str(row.get("raw_text") or "").strip()`. -/
def Words.rawText (w : Words) (row : Row) : String :=
  w.strip (w.str ((row.2.getD "raw_text" .null).or (.str "")))

/-- Whether the clusterings take a row: it has not been consolidated and its text is not empty. -/
def Words.eligible (w : Words) (row : Row) : Bool :=
  !(row.2.getD "consolidated_into" .null).truthy && w.rawText row ≠ ""

/-! ## Clusters of words -/

/-- `_STOPWORDS`. -/
def stopwords : List String :=
  ["the", "and", "for", "with", "that", "this", "from", "have", "has",
    "was", "are", "were", "been", "will", "would", "could", "should",
    "about", "after", "into", "over", "under", "your", "their", "them",
    "they", "you", "her", "his", "our", "its", "not", "but", "all",
    "any", "some", "just", "now", "then", "than", "also", "very", "get",
    "got", "did", "does", "each", "out", "off", "down", "what", "when",
    "where", "which", "who", "how", "why", "can", "may", "might", "must",
    "a", "i", "we", "he", "she", "it", "is", "am", "to", "of", "in",
    "on", "at", "by", "if", "or", "as", "an", "so", "do", "go", "up",
    "no", "me", "my", "be"]

/-- `raw.strip(".,;:!?\"'()[]")`. -/
def stripPunctuation (raw : String) : String :=
  let mark (c : Char) : Bool := ".,;:!?\"'()[]".toList.contains c
  String.ofList ((raw.toList.dropWhile mark).rdropWhile mark)

/-- `_content_tokens`. -/
def Words.contentTokens (w : Words) (text : String) : List String :=
  ((w.split (w.lower text)).map stripPunctuation).filter fun token =>
    let core := String.ofList (token.toList.filter (· ≠ '.'))
    token ≠ "" && !stopwords.contains token && core ≠ "" && w.isalnum core

/-- `_jaccard(a, b) >= _JACCARD_THRESHOLD`, on the elements of sets. The quotient of two lengths is
at least the float 0.4 exactly when it is at least two fifths: no other quotient of lengths that a
memory holds is rounded to that float. -/
def jaccardAtLeast (a b : List String) : Bool :=
  a ≠ [] && b ≠ [] && 2 * (a ∪ b).length ≤ 5 * (a ∩ b).length

/-- `_near_duplicate`. -/
def Words.nearDuplicate (w : Words) (text : String) (clusterTexts : List String) : Bool :=
  let tokens := (w.contentTokens text).dedup
  clusterTexts.any fun other =>
    let otherTokens := (w.contentTokens other).dedup
    jaccardAtLeast tokens otherTokens && 3 ≤ (tokens ∩ otherTokens).length

/-- The clustering by words: a row is compared with the texts of a cluster. -/
def Words.lexical (w : Words) : FirstFit Row (List String) where
  fits row texts := w.nearDuplicate (w.rawText row) texts
  start row := [w.rawText row]
  join _ texts row := texts ++ [w.rawText row]

/-! ## Clusters of vectors -/

variable {F : Type}

/-- `sum(x * y for x, y in zip(a, b))`. -/
def Floats.dot (fl : Floats F) (a b : List F) : F :=
  (a.zipWith fl.mul b).foldl fl.add fl.zero

/-- `_cosine`. -/
def Floats.cosine (fl : Floats F) (a b : List F) : F :=
  let normA := fl.sqrt (fl.dot a a)
  let normB := fl.sqrt (fl.dot b b)
  if fl.eq normA fl.zero || fl.eq normB fl.zero then fl.zero
  else fl.div (fl.dot a b) (fl.mul normA normB)

/-- `((n - 1) * m + v) / n` in each place. -/
def Floats.blend (fl : Floats F) (n : ℕ) (mean vector : List F) : List F :=
  mean.zipWith (fun m v => fl.div (fl.add (fl.mul (fl.ofNat (n - 1)) m) v) (fl.ofNat n)) vector

/-- The clustering by vectors: a row is compared with the running mean of a cluster. -/
def Floats.semantic (fl : Floats F) (threshold : F) : FirstFit (Row × List F) (List F) where
  fits row mean := fl.le threshold (fl.cosine row.2 mean)
  start row := row.2
  join n mean row := fl.blend n mean row.2

/-- `embedder.embed_batch`. -/
abbrev Embedder (F : Type) := List String → Except PyError (List (List F))

/-- The rows that the clusterings take, in the order of the dictionary. -/
def Words.pending (w : Words) (parseable : Paragraphs) : List Row :=
  parseable.rows.filter w.eligible

/-- `_cluster_embedded`: the clusters, and the vectors of their members. -/
def clusterEmbedded (w : Words) (fl : Floats F) (parseable : Paragraphs) (embedder : Embedder F)
    (threshold : F) : Except PyError (List (List Row) × List (List (List F))) := do
  let rows := w.pending parseable
  if rows.isEmpty then return ([], [])
  let vectors ← embedder (rows.map w.rawText)
  let groups := FirstFit.groups ((fl.semantic threshold).run (rows.zip vectors))
  return (groups.map (·.map Prod.fst), groups.map (·.map Prod.snd))

/-- `_cluster`. -/
def cluster (w : Words) (fl : Floats F) (parseable : Paragraphs) (embedder : Option (Embedder F))
    (threshold : F) : List (List Row) :=
  let lexical := FirstFit.groups (w.lexical.run (w.pending parseable))
  match embedder with
  | none => lexical
  | some embed => match clusterEmbedded w fl parseable embed threshold with
    | .ok (embedded, _) => embedded
    | .error _ => lexical

/-- `_cluster_rows`, with the threshold that `_cluster` defaults to. -/
def clusterRows (w : Words) (fl : Floats F) (parseable : Paragraphs)
    (embedder : Option (Embedder F)) (threshold defaultThreshold : F) :
    Except PyError (List (List Row) × List (List (List F))) :=
  match embedder with
  | none => .ok (cluster w fl parseable none defaultThreshold, [])
  | some embed => clusterEmbedded w fl parseable embed threshold

/-! ## The clusters are a partition -/

/-- The clusters are a partition of the eligible rows. -/
structure Partitions (w : Words) (parseable : Paragraphs) (clusters : List (List Row)) : Prop where
  /-- Each eligible row is in exactly one cluster. -/
  covers : ∀ row ∈ parseable.rows, w.eligible row = true →
    ∃! i : ℕ, ∃ c : List Row, clusters[i]? = some c ∧ row ∈ c
  /-- No row is in the clusters twice. -/
  once : (clusters.flatten.map Prod.fst).Nodup
  /-- Nothing else is clustered. -/
  only : ∀ c ∈ clusters, ∀ row ∈ c, row ∈ parseable.rows ∧ w.eligible row = true

theorem mem_pending {w : Words} {parseable : Paragraphs} {row : Row} :
    row ∈ w.pending parseable ↔ row ∈ parseable.rows ∧ w.eligible row = true := List.mem_filter

/-- The eligible rows are under distinct ids. -/
theorem nodup_pending (w : Words) (parseable : Paragraphs) :
    ((w.pending parseable).map Prod.fst).Nodup :=
  parseable.nodup.sublist (List.filter_sublist.map Prod.fst)

/-- In lists without a repetition among them, an element is in one list only. -/
theorem existsUnique_of_nodup_flatten {α : Type} {xss : List (List α)} (hd : xss.flatten.Nodup)
    {x : α} (hx : x ∈ xss.flatten) : ∃! i : ℕ, ∃ xs : List α, xss[i]? = some xs ∧ x ∈ xs := by
  obtain ⟨xs, hxs, hmem⟩ := List.mem_flatten.mp hx
  obtain ⟨i, hi⟩ := List.mem_iff_getElem?.mp hxs
  refine ⟨i, ⟨xs, hi, hmem⟩, ?_⟩
  rintro j ⟨ys, hj, hy⟩
  have hdisjoint := List.pairwise_iff_getElem.mp (List.nodup_flatten.mp hd).2
  obtain ⟨hilt, rfl⟩ := List.getElem?_eq_some_iff.mp hi
  obtain ⟨hjlt, rfl⟩ := List.getElem?_eq_some_iff.mp hj
  rcases Nat.lt_trichotomy j i with hlt | heq | hlt
  · exact absurd hmem (hdisjoint j i hjlt hilt hlt hy)
  · exact heq
  · exact absurd hy (hdisjoint i j hilt hjlt hlt hmem)

/-- Clusters whose members are the eligible rows, in any order, are a partition of them. -/
theorem partitions_of_perm {w : Words} {parseable : Paragraphs} {clusters : List (List Row)}
    (h : clusters.flatten.Perm (w.pending parseable)) : Partitions w parseable clusters := by
  have honce : (clusters.flatten.map Prod.fst).Nodup :=
    (h.map Prod.fst).nodup_iff.mpr (nodup_pending w parseable)
  refine ⟨fun row hrow heligible => ?_, honce, fun c hc row hrow => ?_⟩
  · have hmem : row ∈ clusters.flatten := h.mem_iff.mpr (mem_pending.mpr ⟨hrow, heligible⟩)
    exact existsUnique_of_nodup_flatten (List.Nodup.of_map _ honce) hmem
  · exact mem_pending.mp (h.mem_iff.mp (List.mem_flatten.mpr ⟨c, hc, hrow⟩))

/-- A partition has room for every eligible row. -/
theorem Partitions.length_le {w : Words} {parseable : Paragraphs} {clusters : List (List Row)}
    (h : Partitions w parseable clusters) :
    (w.pending parseable).length ≤ clusters.flatten.length := by
  refine List.Subperm.length_le (List.subperm_of_subset
    (List.Nodup.of_map _ (nodup_pending w parseable)) fun row hrow => ?_)
  obtain ⟨hmem, heligible⟩ := mem_pending.mp hrow
  obtain ⟨i, ⟨c, hc, hin⟩, -⟩ := h.covers row hmem heligible
  exact List.mem_flatten.mpr ⟨c, List.mem_of_getElem? hc, hin⟩

/-! ## Each clusterer -/

/-- The clusters by words are a partition. -/
theorem lexical_partitions (w : Words) (fl : Floats F) (parseable : Paragraphs) (threshold : F) :
    Partitions w parseable (cluster w fl parseable none threshold) :=
  partitions_of_perm (w.lexical.perm_run _)

/-- Pairing stops with the shorter list. -/
theorem map_fst_zip_take {α β : Type} (xs : List α) (ys : List β) :
    (xs.zip ys).map Prod.fst = xs.take ys.length := by
  induction xs generalizing ys with
  | nil => simp
  | cons x xs ih =>
    cases ys with
    | nil => rfl
    | cons y ys => rw [List.zip_cons_cons, List.map_cons, ih, List.length_cons, List.take_succ_cons]

/-- The semantic clusters of the rows that have a vector are those rows. -/
theorem flatten_semantic (fl : Floats F) (threshold : F) (rows : List Row)
    (vectors : List (List F)) :
    ((FirstFit.groups ((fl.semantic threshold).run (rows.zip vectors))).map
      (·.map Prod.fst)).flatten.Perm (rows.take vectors.length) := by
  have hperm := ((fl.semantic threshold).perm_run (rows.zip vectors)).map Prod.fst
  rw [map_fst_zip_take, List.map_flatten] at hperm
  exact hperm

/-- What `_cluster_embedded` does: nothing without rows, and else the embedder decides. -/
theorem clusterEmbedded_cases (w : Words) (fl : Floats F) (parseable : Paragraphs)
    (embed : Embedder F) (threshold : F) :
    (w.pending parseable = [] ∧ clusterEmbedded w fl parseable embed threshold = .ok ([], [])) ∨
    (w.pending parseable ≠ [] ∧ ∃ e, embed ((w.pending parseable).map w.rawText) = .error e ∧
      clusterEmbedded w fl parseable embed threshold = .error e) ∨
    (w.pending parseable ≠ [] ∧ ∃ vectors,
      embed ((w.pending parseable).map w.rawText) = .ok vectors ∧
      ∃ clusters memberVectors,
        clusterEmbedded w fl parseable embed threshold = .ok (clusters, memberVectors) ∧
        clusters.flatten.Perm ((w.pending parseable).take vectors.length)) := by
  by_cases hnil : w.pending parseable = []
  · refine .inl ⟨hnil, ?_⟩
    simp [clusterEmbedded, hnil]
    rfl
  · refine .inr ?_
    have hempty : (w.pending parseable).isEmpty = false := by simpa using hnil
    cases hembed : embed ((w.pending parseable).map w.rawText) with
    | error e =>
      refine .inl ⟨hnil, e, rfl, ?_⟩
      simp [clusterEmbedded, hempty, hembed]
    | ok vectors =>
      let groups := FirstFit.groups
        ((fl.semantic threshold).run ((w.pending parseable).zip vectors))
      refine .inr ⟨hnil, vectors, rfl, groups.map (·.map Prod.fst), groups.map (·.map Prod.snd), ?_,
        flatten_semantic fl threshold _ vectors⟩
      simp [clusterEmbedded, hempty, hembed, groups]

/-! ## The dispatch -/

/-- The clustering of the pass is a partition for this embedder, and falls back to the words. -/
structure ClustersSoftly (w : Words) (fl : Floats F) (parseable : Paragraphs)
    (embedder : Option (Embedder F)) (threshold defaultThreshold : F) : Prop where
  /-- It returns a partition of the eligible rows. -/
  partition : ∃ clusters vectors,
    clusterRows w fl parseable embedder threshold defaultThreshold = .ok (clusters, vectors) ∧
      Partitions w parseable clusters
  /-- It returns the lexical clusters when the embedder fails. -/
  fallback : ∀ embed e, embedder = some embed →
    embed ((w.pending parseable).map w.rawText) = .error e →
    ∃ vectors, clusterRows w fl parseable embedder threshold defaultThreshold =
      .ok (cluster w fl parseable none defaultThreshold, vectors)

/-- What the clustering needs of the embedder: that there is none, that there is nothing to embed,
or that it returns a vector for each text at least. -/
def Vectored (w : Words) (parseable : Paragraphs) (embedder : Option (Embedder F)) : Prop :=
  ∀ embed, embedder = some embed → w.pending parseable ≠ [] →
    ∃ vectors, embed ((w.pending parseable).map w.rawText) = .ok vectors ∧
      (w.pending parseable).length ≤ vectors.length

/-- Without eligible rows there are no clusters by words either. -/
theorem cluster_of_nil {w : Words} (fl : Floats F) {parseable : Paragraphs} (threshold : F)
    (h : w.pending parseable = []) : cluster w fl parseable none threshold = [] := by
  simp [cluster, h, FirstFit.run]

/-- The clustering is a partition that fails soft exactly when the embedder returns a vector for
every eligible row. -/
theorem clustersSoftly_iff (w : Words) (fl : Floats F) (parseable : Paragraphs)
    (embedder : Option (Embedder F)) (threshold defaultThreshold : F) :
    ClustersSoftly w fl parseable embedder threshold defaultThreshold ↔
      Vectored w parseable embedder := by
  constructor
  · rintro ⟨⟨clusters, memberVectors, hclusters, hpartitions⟩, -⟩ embed rfl hne
    rcases clusterEmbedded_cases w fl parseable embed threshold with
      ⟨hnil, -⟩ | ⟨-, e, -, herror⟩ | ⟨-, vectors, hembed, clusters', _, hok, hperm⟩
    · exact absurd hnil hne
    · rw [clusterRows, herror] at hclusters
      cases hclusters
    · rw [clusterRows, hok] at hclusters
      cases hclusters
      refine ⟨vectors, hembed, ?_⟩
      have hlen := hpartitions.length_le
      rw [hperm.length_eq, List.length_take] at hlen
      omega
  · intro hvectored
    cases embedder with
    | none =>
      exact ⟨⟨_, _, rfl, lexical_partitions w fl parseable defaultThreshold⟩,
        fun embed _ hsome => by cases hsome⟩
    | some embed =>
      rcases clusterEmbedded_cases w fl parseable embed threshold with
        ⟨hnil, hok⟩ | ⟨hne, e, herror, -⟩ | ⟨hne, vectors, hembed, clusters, _, hok, hperm⟩
      · refine ⟨⟨[], [], hok, partitions_of_perm (by simp [hnil])⟩, fun _ _ hsome _ => ⟨[], ?_⟩⟩
        rw [cluster_of_nil fl defaultThreshold hnil]
        exact hok
      · obtain ⟨vectors, hembed, -⟩ := hvectored embed rfl hne
        rw [hembed] at herror
        cases herror
      · obtain ⟨vectors', hembed', hlen⟩ := hvectored embed rfl hne
        rw [hembed] at hembed'
        cases hembed'
        rw [List.take_of_length_le hlen] at hperm
        refine ⟨⟨clusters, _, hok, partitions_of_perm hperm⟩, fun embed' e hsome herror => ?_⟩
        cases hsome
        rw [hembed] at herror
        cases herror

/-- Text functions that behave as those of the language on one lower-case word. -/
def oneWord : Words where
  toText := sampleText
  split := fun s => [s]
  isalnum := fun _ => true

/-- Floats that are rounded to integers, which is enough where nothing is compared. -/
def roundedFloats : Floats ℤ where
  zero := 0
  ofNat := Int.ofNat
  add := (· + ·)
  mul := (· * ·)
  div := (· / ·)
  sqrt := id
  eq := (· == ·)
  le := fun a b => a ≤ b

/-- The paragraphs with one row, whose text is one word. -/
def oneRow : Paragraphs := Table.empty.set ("p1", [("raw_text", .str "coffee")])

/-- A row is lost to an embedder that raises, and to one that returns no vector. -/
theorem failing_embedder_loses :
    ¬ ClustersSoftly oneWord roundedFloats oneRow
        (some fun _ => .error (valueError "offline")) 1 1 ∧
      ¬ ClustersSoftly oneWord roundedFloats oneRow (some fun _ => .ok []) 1 1 := by
  constructor
  · rintro ⟨⟨clusters, vectors, h, -⟩, -⟩
    cases h
  · rintro ⟨⟨clusters, vectors, h, hpartitions⟩, -⟩
    cases h
    exact absurd hpartitions.length_le (by decide)

end Memplex.Consolidation
