import Memplex.Auth.Scope
import Memplex.Core.Engine
import Memplex.Lib.Json.Reader

/-!
# Derivation lineage

`AuthorizationGate.bind_derivation_lineage` stamps a derived node with the ids of its sources and
the most restrictive of their visibilities; `_source_ids` reads the ids back. Of a node that a
factual capture made, `factual_sources_match` also asks that the sources still say what they said
then. A lookup gives the node of an id, nothing, or raises.
-/

namespace Memplex

open Lib

/-- A lookup of nodes by id. -/
abbrev NodeLookup := String → Except PyError (Option AclNode)

/-- `",".join(ids)`. -/
def joinComma (ids : List String) : String :=
  String.ofList ([','].intercalate (ids.map String.toList))

/-- Splitting what was joined gives back the parts, when no part has a comma. -/
theorem splitComma_joinComma {ids : List String} (hne : ids ≠ [])
    (hcomma : ∀ i ∈ ids, ',' ∉ i.toList) : splitComma (joinComma ids) = ids := by
  have hparts : ∀ l ∈ ids.map String.toList, ',' ∉ l := by
    intro l hl
    obtain ⟨i, hi, rfl⟩ := List.mem_map.mp hl
    exact hcomma i hi
  have hsplit : ([','].intercalate (ids.map String.toList)).splitOn ',' = ids.map String.toList :=
    List.splitOn_intercalate ',' hparts (by simpa using hne)
  unfold splitComma joinComma
  rw [String.toList_ofList, hsplit, List.map_map]
  simp

namespace PyDict

/-- A key is the string `key` when it compares equal to it. -/
theorem keyEq_str (k : Value) (key : String) : keyEq k (.str key) = decide (k = .str key) := by
  cases k with
  | num n => cases n with
    | int i => simp [keyEq, numericKey]
    | float x => cases x <;> simp [keyEq, numericKey]
  | _ => simp [keyEq, numericKey]

/-- Reading under a string key after a write under another, or the same. -/
theorem getStr_insertStr (d : PyDict) (key key' : String) (value : Value) :
    (d.insertStr key value).getStr key' = if key' = key then value else d.getStr key' := by
  unfold insertStr insert getStr
  simp only [keyEq_str]
  split_ifs with hany heq heq
  · subst heq
    induction d with
    | nil => simp at hany
    | cons m d ih =>
      by_cases hm : m.1 = .str key'
      · simp [hm]
      · have hrest : (d.any fun m => decide (m.1 = .str key')) = true := by simpa [hm] using hany
        simpa [hm] using ih hrest
  · clear hany
    induction d with
    | nil => rfl
    | cons m d ih =>
      by_cases hm : m.1 = .str key
      · simpa [hm, Ne.symm heq] using ih
      · by_cases hm' : m.1 = .str key'
        · simp [hm', heq]
        · simpa [hm, hm'] using ih
  · subst heq
    have hnone : d.find? (fun m => decide (m.1 = .str key')) = none := by
      rw [List.find?_eq_none]
      intro m hm htest
      exact hany (List.any_eq_true.mpr ⟨m, hm, htest⟩)
    rw [List.find?_append, hnone]
    simp
  · have hne : ¬ key = key' := Ne.symm heq
    rw [List.find?_append]
    cases d.find? (fun m => decide (m.1 = .str key')) with
    | some m => simp
    | none => simp [hne]

end PyDict

/-! ## Stamping -/

/-- The visibilities by their restrictiveness, the most restrictive first. -/
def visibilityRestrictiveness : List (String × ℤ) := [("user", 0), ("session", 1), ("workspace", 2)]

/-- The rank of a visibility; one that is not known ranks below all others. -/
def restrictiveness (visibility : String) : ℤ :=
  ((findRow Prod.fst visibility visibilityRestrictiveness).map Prod.snd).getD (-1)

/-- What the stamping reads of a source. -/
structure DerivationSource where
  id : String
  visibility : Value
  namespace_ : PyDict
deriving DecidableEq

variable (text : Text)

/-- The rank of the visibility of a source. -/
def DerivationSource.rank (source : DerivationSource) : ℤ :=
  let visibility := source.visibility.or (source.namespace_.getStr "memplex_visibility")
  restrictiveness (text.lower (text.strip (text.str (visibility.or (.str "")))))

/-- The visibility that a derived node is clamped to, from the smallest rank of its sources: the
first name of that rank, `user` where no source is known to be as open as that, and none where the
loop over the names ends without one. -/
def clampVisibility (mostRestrictive : ℤ) : Option String :=
  if mostRestrictive < 0 then some "user"
  else (visibilityRestrictiveness.find? fun v => v.2 = mostRestrictive).map Prod.fst

/-- `AuthorizationGate.bind_derivation_lineage`. -/
def bindDerivationLineage (node : AclNode) (sources : List DerivationSource)
    (derivationVersion : String) : Except PyError AclNode := do
  require (sources ≠ []) (valueError "derivation lineage requires at least one source")
  require (∀ s ∈ sources, s.id ≠ "") (valueError "derivation source is missing its id")
  let refs := joinComma (sources.map DerivationSource.id)
  let ranks := sources.map fun s => s.rank text
  let mostRestrictive := ranks.min?.getD 0
  return { node with
    namespace_ := (node.namespace_.insertStr "memplex_source_refs" (.str refs)).insertStr
      "memplex_derivation" (.str derivationVersion)
    visibility := match clampVisibility mostRestrictive with
      | some name => .str name
      | none => node.visibility }

/-- A known visibility has the rank of its place, and there is one for every rank but the lowest. -/
theorem clampVisibility_of_rank {visibility : String} (h : 0 ≤ restrictiveness visibility) :
    ∃ name, clampVisibility (restrictiveness visibility) = some name ∧
      restrictiveness name = restrictiveness visibility := by
  have hcases : restrictiveness visibility = -1 ∨ restrictiveness visibility = 0 ∨
      restrictiveness visibility = 1 ∨ restrictiveness visibility = 2 := by
    by_cases huser : visibility = "user"
    · exact .inr (.inl (huser ▸ rfl))
    by_cases hsession : visibility = "session"
    · exact .inr (.inr (.inl (hsession ▸ rfl)))
    by_cases hworkspace : visibility = "workspace"
    · exact .inr (.inr (.inr (hworkspace ▸ rfl)))
    · left
      simp [restrictiveness, visibilityRestrictiveness, findRow, Ne.symm huser,
        Ne.symm hsession, Ne.symm hworkspace]
  rcases hcases with hrank | hrank | hrank | hrank <;> rw [hrank] at h ⊢
  · omega
  · exact ⟨"user", rfl, rfl⟩
  · exact ⟨"session", rfl, rfl⟩
  · exact ⟨"workspace", rfl, rfl⟩

/-- `AuthorizationGate._source_ids`. -/
def sourceIds (node : AclNode) : List String :=
  let refs := node.namespace_.getStr "memplex_source_refs"
  if refs.truthy then ((splitComma (text.str refs)).filter (· ≠ "")).eraseDups else []

/-- The references of a stamped node are the ids of its sources, and all of them are stamped. -/
theorem refs_of_bind {node d : AclNode} {sources : List DerivationSource} {version : String}
    (h : bindDerivationLineage text node sources version = .ok d) :
    sources ≠ [] ∧ (∀ s ∈ sources, s.id ≠ "") ∧ d.namespace_.getStr "memplex_source_refs" =
      .str (joinComma (sources.map DerivationSource.id)) := by
  unfold bindDerivationLineage at h
  obtain ⟨_, hne, h⟩ := Except.bind_ok.mp h
  obtain ⟨_, hids, h⟩ := Except.bind_ok.mp h
  refine ⟨require_ok.mp hne, require_ok.mp hids, ?_⟩
  rw [← Except.ok.inj h]
  simp [PyDict.getStr_insertStr]

/-- Without a comma in them, the ids are read back as they were, each once. -/
theorem sourceIds_of_bind {node d : AclNode} {sources : List DerivationSource} {version : String}
    (h : bindDerivationLineage text node sources version = .ok d)
    (hcomma : ∀ s ∈ sources, ',' ∉ s.id.toList) :
    sourceIds text d = (sources.map DerivationSource.id).eraseDups := by
  obtain ⟨hne, hids, hrefs⟩ := refs_of_bind text h
  have hsplit : splitComma (joinComma (sources.map DerivationSource.id)) =
      sources.map DerivationSource.id := by
    refine splitComma_joinComma (by simpa using hne) fun j hj => ?_
    obtain ⟨s, hs, rfl⟩ := List.mem_map.mp hj
    exact hcomma s hs
  have htruthy : (Value.truthy (.str (joinComma (sources.map DerivationSource.id)))) = true := by
    have hjoin : joinComma (sources.map DerivationSource.id) ≠ "" := by
      intro hempty
      rw [hempty] at hsplit
      obtain ⟨s, rest, rfl⟩ := List.exists_cons_of_ne_nil hne
      have hid : s.id = "" := by
        have := congrArg List.head? hsplit
        simpa [splitComma] using this.symm
      exact hids s List.mem_cons_self hid
    simpa [Value.truthy] using hjoin
  have hkept : (sources.map DerivationSource.id).filter (· ≠ "") =
      sources.map DerivationSource.id := by
    refine List.filter_eq_self.mpr fun i hi => ?_
    obtain ⟨s, hs, rfl⟩ := List.mem_map.mp hi
    simpa using hids s hs
  unfold sourceIds
  simp only [hrefs, htruthy, if_true, Text.str, hsplit, hkept]

/-- The ids that a stamped node declares are those of the sources it was stamped with. -/
theorem mem_sourceIds_of_bind {node d : AclNode} {sources : List DerivationSource}
    {version : String} (h : bindDerivationLineage text node sources version = .ok d)
    (hcomma : ∀ s ∈ sources, ',' ∉ s.id.toList) (i : String) :
    i ∈ sourceIds text d ↔ ∃ s ∈ sources, s.id = i := by
  rw [sourceIds_of_bind text h hcomma, List.mem_eraseDups, List.mem_map]

/-- No part of a split text has the separator. -/
theorem not_mem_of_mem_splitOn {α : Type} [DecidableEq α] {a : α} {xs l : List α}
    (hl : l ∈ xs.splitOn a) : a ∉ l := by
  induction xs generalizing l with
  | nil =>
    rw [List.splitOn_nil, List.mem_singleton] at hl
    rw [hl]
    exact List.not_mem_nil
  | cons x xs ih =>
    rw [List.splitOn_cons_eq_if_modifyHead] at hl
    split_ifs at hl with hx
    · rcases List.mem_cons.mp hl with rfl | hl
      · exact List.not_mem_nil
      · exact ih hl
    · obtain ⟨part, parts, hparts⟩ := List.exists_cons_of_ne_nil (List.splitOn_ne_nil a xs)
      rw [hparts, List.modifyHead_cons] at hl
      rcases List.mem_cons.mp hl with rfl | hl
      · have hne : a ≠ x := fun heq => hx (by simp [heq])
        rw [List.mem_cons, not_or]
        exact ⟨hne, ih (hparts ▸ List.mem_cons_self)⟩
      · exact ih (hparts ▸ List.mem_cons_of_mem _ hl)

/-- No id that is read back has a comma. -/
theorem not_comma_of_mem_sourceIds {node : AclNode} {i : String} (h : i ∈ sourceIds text node) :
    ',' ∉ i.toList := by
  unfold sourceIds at h
  dsimp only at h
  split_ifs at h
  · obtain ⟨l, hl, rfl⟩ := List.mem_map.mp (List.mem_filter.mp (List.mem_eraseDups.mp h)).1
    rw [String.toList_ofList]
    exact not_mem_of_mem_splitOn hl
  · exact absurd h List.not_mem_nil

/-- The ids of the sources are read back, each once, exactly if none of them has a comma. -/
theorem sourceIds_eq_iff {node d : AclNode} {sources : List DerivationSource} {version : String}
    (h : bindDerivationLineage text node sources version = .ok d) :
    sourceIds text d = (sources.map DerivationSource.id).eraseDups ↔
      ∀ s ∈ sources, ',' ∉ s.id.toList := by
  constructor
  · intro heq s hs
    have hmem : s.id ∈ (sources.map DerivationSource.id).eraseDups :=
      List.mem_eraseDups.mpr (List.mem_map_of_mem hs)
    rw [← heq] at hmem
    exact not_comma_of_mem_sourceIds text hmem
  · exact sourceIds_of_bind text h

/-- A node, open to the workspace of its context. -/
def sampleDerived : AclNode where
  id := "hub"
  tenantId := .null
  ownerSubjectId := .null
  workspaceId := .null
  owner := .null
  visibility := .str "workspace"
  originSession := .null
  provenance := []
  namespace_ := []
  isCurrent := true
  fingerprint := ""

/-- The id of a paragraph is read back, and once where it was cited twice. -/
theorem sourceIds_sample : ∃ d,
    bindDerivationLineage ⟨⟨id, id, fun _ => none⟩, fun _ => "None"⟩ sampleDerived
        [⟨"wiki:para_001:01234567", .str "workspace", []⟩,
          ⟨"wiki:para_001:01234567", .str "workspace", []⟩] "v1" = .ok d ∧
      sourceIds ⟨⟨id, id, fun _ => none⟩, fun _ => "None"⟩ d = ["wiki:para_001:01234567"] := by
  obtain ⟨d, hd⟩ : ∃ d,
      bindDerivationLineage ⟨⟨id, id, fun _ => none⟩, fun _ => "None"⟩ sampleDerived
        [⟨"wiki:para_001:01234567", .str "workspace", []⟩,
          ⟨"wiki:para_001:01234567", .str "workspace", []⟩] "v1" = .ok d := ⟨_, rfl⟩
  exact ⟨d, hd, ((sourceIds_eq_iff _ hd).mpr (by decide)).trans (by decide)⟩

/-- The hint of a source may have a comma, and then the id of the paragraph is read back as two. -/
theorem paragraph_id_splits :
    ¬ ∀ (text : Text) (node d : AclNode) (sources : List DerivationSource) (version : String),
      bindDerivationLineage text node sources version = .ok d →
        (∀ s ∈ sources, ∃ hint rawText,
          s.id = persistedParagraphId (fun _ => "0123456789abcdef") hint "para_001" rawText) →
        sourceIds text d = (sources.map DerivationSource.id).eraseDups := by
  intro h
  obtain ⟨d, hd⟩ : ∃ d,
      bindDerivationLineage ⟨⟨id, id, fun _ => none⟩, fun _ => "None"⟩ sampleDerived
        [⟨"minutes, may.md:para_001:01234567", .str "workspace", []⟩] "v1" = .ok d := ⟨_, rfl⟩
  have heq := h _ _ d _ _ hd fun s hs => ⟨"minutes, may.md", "", by
    rw [List.mem_singleton.mp hs]
    decide +kernel⟩
  have hmem : "minutes, may.md:para_001:01234567" ∈ sourceIds _ d :=
    heq ▸ List.mem_eraseDups.mpr (List.mem_singleton_self _)
  exact absurd (not_comma_of_mem_sourceIds _ hmem) (by decide)

/-- The value of a key of a dictionary that was read from JSON, where the last member wins. -/
def lastMember {ν : Type} (members : List (String × Json ν)) (key : String) : Option (Json ν) :=
  (members.reverse.find? fun m => m.1 = key).map Prod.snd

/-- `factual_sources_match`. -/
def factualSourcesMatch (node : AclNode) (lookup : NodeLookup) : Bool :=
  if node.provenance.getStr "extraction" = .str "factual_capture_v1" then
    match node.provenance.getStr "source_snapshots",
        node.namespace_.getStr "memplex_source_refs" with
    | .str snapshots, .str sourceRefs =>
      match Json.loads snapshots.toList with
      | some (.obj expected) =>
        let refs := splitComma sourceRefs
        (∀ m ∈ expected, m.1 ∈ refs) ∧ (∀ r ∈ refs, ∃ m ∈ expected, m.1 = r) ∧
          expected.all fun m => match lookup m.1 with
            | .ok (some source) => source.id = m.1 ∧ source.isCurrent ∧
              lastMember expected m.1 = some (.str source.fingerprint)
            | _ => false
      | _ => false
    | _, _ => false
  else true

end Memplex
