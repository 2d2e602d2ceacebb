import Memplex.Lite.Documents

/-!
# What was read is read again

A record that was decoded from a document is written in full, and what is written decodes to the
same record: its keys are those of the present schema, its fields pass the checks that they have
passed before or have the defaults of absent ones, and `from_dict` finds in them what it has put
there. The keys of a dictionary of a document are distinct (`wellKeyed`), as `json.loads` leaves
them, and a time is written as a text that is read as this time (`Env.ReadsBack`).
-/

namespace Memplex

open Lib

/-- What `isoformat` writes is in the extended format, and `fromisoformat` reads it. -/
structure Env.ReadsBack (env : Env) : Prop where
  fromisoformat : ∀ s t, env.fromisoformat s = some t → env.fromisoformat t.isoformat = some t
  isoformat : ∀ s t, env.fromisoformat s = some t → 'T' ∈ t.isoformat.toList

/-! ## Fields -/

theorem checkField_ok {d : Members} {name : String} {ok : Value → Bool} {e : PyError} {u : Unit} :
    checkField d name ok e = .ok u ↔ (d.get? name).all ok = true := require_ok

/-- A field that was checked passes the check, and so does the default of an absent one. -/
theorem checked_getD {d : Members} {name : String} {ok : Value → Bool} (default : Value)
    (h : (d.get? name).all ok = true) (hdefault : ok default = true) :
    ok (d.getD name default) = true := by
  unfold Members.getD
  cases hget : d.get? name with
  | none => exact hdefault
  | some v =>
    rw [hget] at h
    exact h

/-- What is found in a dictionary with distinct keys has distinct keys itself. -/
theorem wellKeyed_getD {d : Members} (name : String) (default : Value)
    (h : (Json.obj d : Value).wellKeyed = true) (hdefault : default.wellKeyed = true) :
    (d.getD name default).wellKeyed = true := by
  unfold Members.getD Members.get?
  cases hfind : findRow Prod.fst name d with
  | none => exact hdefault
  | some m => exact ((Json.wellKeyed_obj d).mp h).2 m (findRow_some hfind).1

namespace PyDict

/-- A dictionary of a document is written as it was read. -/
theorem toMembers_of_pyDict {ms : Members} {d : PyDict} (h : pyDict (.obj ms) = .ok d)
    (hkeyed : (Json.obj ms : Value).wellKeyed = true) : d.Plain ∧ d.toMembers = ms := by
  obtain rfl : (ms.map fun m => ((Json.str m.1 : Value), m.2)) = d := Except.ok.inj h
  have hplain : PyDict.Plain (ms.map fun m => ((Json.str m.1 : Value), m.2)) := by
    refine ⟨?_, ?_⟩
    · rw [strKeys, List.all_eq_true]
      intro m hm
      obtain ⟨m', -, rfl⟩ := List.mem_map.mp hm
      rfl
    · rw [List.map_map]
      have hkeys := ((Json.wellKeyed_obj ms).mp hkeyed).1.map (f := (Json.str : String → Value))
        fun s t hst => Json.str.inj hst
      rwa [List.map_map] at hkeys
  refine ⟨hplain, ?_⟩
  have hreloaded := reloaded_eq_iff.mpr hplain
  refine List.map_injective_iff.mpr ?_ hreloaded
  rintro ⟨k, v⟩ ⟨k', v'⟩ hsame
  obtain ⟨hk, rfl⟩ := Prod.mk.inj hsame
  exact Prod.ext (Json.str.inj hk) rfl

end PyDict

theorem asString_isText {v : Value} (h : v.isText = true) : ∃ s, v = .str s := by
  cases v with
  | str s => exact ⟨s, rfl⟩
  | _ => exact absurd h (by simp [Value.isText, asString])

/-! ## Nodes -/

namespace MemoryNode

/-- A node that reads back, of a memory type, apart from what `readable` says of it. -/
structure Kept (n : MemoryNode) (memoryType : String) : Prop where
  type : n.memoryType = .str memoryType
  knowledge : inStrings n.knowledgeTier true knowledgeTiers = .ok true
  steady : n.Steady
  provenance : isStringDict (.obj n.provenance.toMembers) = true
  namespace_ : isStringDict (.obj n.namespace_.toMembers) = true

/-- A mapping of a record, of which a check was made that only dictionaries pass. -/
theorem mapping_kept (ok : Value → Bool) (hdict : ∀ v, ok v = true → v.isDict = true)
    (hempty : ok (.obj []) = true) {d : Members} {name : String} {p : PyDict}
    (hkeyed : (Json.obj d : Value).wellKeyed = true) (hcheck : (d.get? name).all ok = true)
    (h : pyDict (d.getD name (.obj [])) = .ok p) : p.Plain ∧ ok (.obj p.toMembers) = true := by
  have hok := checked_getD (.obj []) hcheck hempty
  have hwell := wellKeyed_getD name (.obj []) hkeyed rfl
  revert h hok hwell
  cases d.getD name (.obj []) with
  | obj ms =>
    intro h hok hwell
    obtain ⟨hplain, heq⟩ := PyDict.toMembers_of_pyDict h hwell
    exact ⟨hplain, heq ▸ hok⟩
  | _ => exact fun _ hok => absurd (hdict _ hok) (by simp [Value.isDict])

theorem isDict_of_isStringDict (v : Value) (h : isStringDict v = true) : v.isDict = true := by
  cases v with
  | obj ms => rfl
  | _ => exact absurd h (by simp [isStringDict])

theorem coerceTrustTier_bounds (v : Value) : 1 ≤ coerceTrustTier v ∧ coerceTrustTier v ≤ 4 := by
  unfold coerceTrustTier
  split
  · split_ifs with h
    · exact h
    · omega
  · omega

/-- The raw checks of a node. -/
theorem discriminators_ok {d : Members} {memoryType : String} {legacy : Bool} {u : Unit} :
    validateRawNodeDiscriminators d memoryType legacy = .ok u ↔
      (legacy = true ∨ d.has "memory_type" = true) ∧
      (d.get? "memory_type").all (fun v => v = .str memoryType) = true ∧
      (legacy = true ∨ d.has "source_type" = true) ∧
      (d.get? "source_type").all
        (fun v => (asString v).any fun s => (SourceType.ofValue s).isSome) = true ∧
      (∀ name ∈ ["id", "name"], (d.get? name).all Value.isText = true) ∧
      (∀ name ∈ optionalTextFields, (d.get? name).all isOptString = true) ∧
      (d.get? "confidence").all Value.isFinite = true ∧
      (∀ name ∈ ["version", "access_count"], (d.get? name).all Value.isCount = true) ∧
      (d.get? "needs_review").all Value.isBool = true ∧
      (d.get? "source_paragraphs").all Value.isTextList = true ∧
      ∀ name ∈ ["provenance", "namespace"], (d.get? name).all isStringDict = true := by
  simp only [validateRawNodeDiscriminators, Except.bind_ok, require_ok, checkField_ok, forM_ok]
  constructor
  · rintro ⟨-, h1, -, h2, -, h3, -, h4, -, h5, -, h6, -, h7, -, h8, -, h9, -, h10, h11⟩
    exact ⟨h1, h2, h3, h4, h5, h6, h7, h8, h9, h10, h11⟩
  · rintro ⟨h1, h2, h3, h4, h5, h6, h7, h8, h9, h10, h11⟩
    exact ⟨(), h1, (), h2, (), h3, (), h4, (), h5, (), h6, (), h7, (), h8, (), h9, (), h10, h11⟩

/-- What a dictionary that was checked decodes to is kept. -/
theorem baseFromDict_kept {d : Members} {id memoryType : String} {legacy : Bool} {n : MemoryNode}
    (hkeyed : (Json.obj d : Value).wellKeyed = true)
    (hraw : validateRawNodeDiscriminators d memoryType legacy = .ok ())
    (h : baseFromDict d id memoryType = .ok n) : n.Kept memoryType := by
  obtain ⟨-, htype, -, hsource, -, -, -, -, -, -, hmappings⟩ := discriminators_ok.mp hraw
  obtain ⟨_, -, h⟩ := Except.bind_ok.mp h
  obtain ⟨_, -, h⟩ := Except.bind_ok.mp h
  obtain ⟨tierOk, htierOk, h⟩ := Except.bind_ok.mp h
  obtain ⟨_, htier, h⟩ := Except.bind_ok.mp h
  obtain ⟨provenance, hprovenance, h⟩ := Except.bind_ok.mp h
  obtain ⟨paragraphs, -, h⟩ := Except.bind_ok.mp h
  obtain ⟨namespace_, hnamespace, heq⟩ := Except.bind_ok.mp h
  obtain rfl : tierOk = true := require_ok.mp htier
  obtain ⟨hprovPlain, hprov⟩ := mapping_kept _ isDict_of_isStringDict rfl hkeyed
    (hmappings "provenance" (List.mem_cons_self ..)) hprovenance
  obtain ⟨hnsPlain, hns⟩ := mapping_kept _ isDict_of_isStringDict rfl hkeyed
    (hmappings "namespace" (List.mem_cons_of_mem _ (List.mem_cons_self ..))) hnamespace
  rw [← Except.ok.inj heq]
  have htext := checked_getD (.str memoryType) htype (by simp)
  refine ⟨of_decide_eq_true htext, htierOk, ⟨?_, coerceTrustTier_bounds _, hprovPlain, hnsPlain⟩,
    hprov, hns⟩
  -- The source type was a text, which became one that is known.
  have hknown := checked_getD (.str "wiki") hsource (by decide)
  intro s
  dsimp only
  revert hknown
  cases d.getD "source_type" (.str "wiki") with
  | str text => simp
  | _ => exact fun hknown => absurd hknown (by simp [asString])

theorem readable_iff {n : MemoryNode} : n.readable = true ↔
    n.name.isText = true ∧ isOptString n.domain = true ∧ n.confidence.isFinite = true ∧
      (∃ t, n.sourceType = .known t) ∧
      (∀ v ∈ [n.owner, n.tenantId, n.ownerSubjectId, n.workspaceId, n.visibility, n.createdAt,
        n.updatedAt, n.originSession, n.lastAccessedAt, n.needsReviewUntil, n.contentHash],
        isOptString v = true) ∧
      n.version.isCount = true ∧ n.accessCount.isCount = true ∧ n.needsReview.isBool = true ∧
      n.sourceParagraphs.all Value.isText = true ∧ n.provenance.isText = true ∧
      n.namespace_.isText = true := by
  unfold readable
  cases n.sourceType <;> simp [and_assoc]

/-- The fields of a node that is written pass the raw checks. -/
theorem Kept.discriminators {n : MemoryNode} {memoryType : String} (h : n.Kept memoryType)
    (hread : n.readable = true) (rest : Members) :
    validateRawNodeDiscriminators (n.baseToDict ++ rest) memoryType false = .ok () := by
  obtain ⟨hname, hdomain, hconfidence, ⟨t, hsource⟩, htexts, hversion, haccess, hreview,
    hparagraphs, -, -⟩ := readable_iff.mp hread
  simp only [List.forall_mem_cons] at htexts
  obtain ⟨howner, htenant, hsubject, hworkspace, hvisibility, hcreated, hupdated, hsession,
    haccessed, huntil, hhash, -⟩ := htexts
  refine discriminators_ok.mpr ⟨.inr rfl, ?_, .inr rfl, ?_, ?_, ?_, hconfidence, ?_, hreview,
    hparagraphs, ?_⟩
  · change decide (n.memoryType = .str memoryType) = true
    exact decide_eq_true h.type
  · change (asString n.sourceType.toValue).any (fun s => (SourceType.ofValue s).isSome) = true
    rw [hsource]
    cases t <;> decide
  · simp only [List.forall_mem_cons]
    exact ⟨rfl, hname, nofun⟩
  · simp only [optionalTextFields, List.forall_mem_cons]
    exact ⟨hdomain, howner, htenant, hsubject, hworkspace, hvisibility, hcreated, hupdated,
      hsession, haccessed, huntil, hhash, nofun⟩
  · simp only [List.forall_mem_cons]
    exact ⟨hversion, haccess, nofun⟩
  · simp only [List.forall_mem_cons]
    exact ⟨h.provenance, h.namespace_, nofun⟩

/-- A node that is kept is read back. -/
theorem Kept.baseFromDict {n : MemoryNode} {memoryType : String} (h : n.Kept memoryType)
    (htype : memoryType ∈ memoryTypes) (rest : Members) (default : String) :
    MemoryNode.baseFromDict (n.baseToDict ++ rest) n.id default = .ok n := by
  have htypeOk : inStrings n.memoryType true memoryTypes = .ok true := by
    rw [h.type]
    exact congrArg Except.ok (decide_eq_true htype)
  obtain ⟨n', hn'⟩ : ∃ n', MemoryNode.baseFromDict (n.baseToDict ++ rest) n.id default = .ok n' :=
    ⟨_, Except.bind_ok.mpr ⟨true, htypeOk, Except.bind_ok.mpr ⟨(), require_ok.mpr rfl,
      Except.bind_ok.mpr ⟨true, h.knowledge, Except.bind_ok.mpr ⟨(), require_ok.mpr rfl,
      Except.bind_ok.mpr ⟨_, rfl, Except.bind_ok.mpr ⟨_, rfl, Except.bind_ok.mpr ⟨_, rfl,
        rfl⟩⟩⟩⟩⟩⟩⟩⟩
  rw [hn', baseFromDict_base hn', reloaded_eq_iff.mpr h.steady]

end MemoryNode

/-! ## Facts, preferences and observations -/

/-- The keys of what is written are those of the schema. -/
theorem validateNodeKeys_self (memoryType : String) {d : Members} {label : String}
    {keys : List String} (h : d.keys = keys) : validateNodeKeys d memoryType keys false false label = .ok () := by
  refine Except.bind_ok.mpr ⟨(), require_ok.mpr fun k hk => h ▸ hk, require_ok.mpr (.inr ?_)⟩
  rw [hasKeys, h]
  exact decide_eq_true ⟨fun _ hk => hk, fun _ hk => hk⟩

theorem requireDict_ok {v : Value} {e : PyError} {d : Members} :
    requireDict v e = .ok d ↔ v = .obj d := by
  cases v <;> simp [requireDict]

theorem requireExactStrings_ok {kind : String} {fields : List (String × Value)} {u : Unit} :
    requireExactStrings kind fields = .ok u ↔ ∀ field ∈ fields, field.2.isText = true := by
  simp only [requireExactStrings, forM_ok, require_ok]

/-- A node that is read from a dictionary is kept, if the dictionary was checked. -/
theorem validateNodeForRead_ok {n : MemoryNode} {u : Unit} :
    validateNodeForRead n = .ok u ↔ n.readable = true := require_ok

/-- What was checked of a raw fact that is read. -/
theorem validateRawFact_ok {legacy g002 : Bool} {raw : Value} {d : Members}
    (h : validateRawFact raw legacy g002 = .ok d) :
    raw = .obj d ∧ validateRawNodeDiscriminators d "fact" legacy = .ok () := by
  obtain ⟨d', hd', h⟩ := Except.bind_ok.mp h
  obtain ⟨_, -, h⟩ := Except.bind_ok.mp h
  obtain ⟨_, hdisc, h⟩ := Except.bind_ok.mp h
  obtain ⟨_, -, h⟩ := Except.bind_ok.mp h
  obtain ⟨_, -, h⟩ := Except.bind_ok.mp h
  obtain ⟨_, -, h⟩ := Except.bind_ok.mp h
  obtain ⟨_, -, h⟩ := Except.bind_ok.mp h
  obtain rfl : d' = d := Except.ok.inj h
  exact ⟨requireDict_ok.mp hd', hdisc⟩

/-- A fact that was decoded is read back. -/
theorem decodeFact_toDict {legacy g002 : Bool} {raw : Value} {f : Fact}
    (hkeyed : raw.wellKeyed = true) (h : decodeFact legacy g002 raw = .ok f) :
    decodeFact false false (.obj f.toDict) = .ok f := by
  obtain ⟨d, hraw, h⟩ := Except.bind_ok.mp h
  obtain ⟨fact, hfact, h⟩ := Except.bind_ok.mp h
  obtain ⟨_, hread, h⟩ := Except.bind_ok.mp h
  obtain ⟨_, hexact, h⟩ := Except.bind_ok.mp h
  obtain ⟨_, huntil, heq⟩ := Except.bind_ok.mp h
  obtain rfl : fact = f := Except.ok.inj heq
  have hkept : fact.toMemoryNode.Kept "fact" := by
    obtain ⟨rfl, hdisc⟩ := validateRawFact_ok hraw
    obtain ⟨base, hbase, heq⟩ := Except.bind_ok.mp hfact
    rw [← Except.ok.inj heq]
    exact MemoryNode.baseFromDict_kept hkeyed hdisc hbase
  have hread := validateNodeForRead_ok.mp hread
  have htexts := requireExactStrings_ok.mp hexact
  simp only [List.forall_mem_cons] at htexts
  obtain ⟨hsubject, hpredicate, hobject, -⟩ := htexts
  have hwritten : validateRawFact (.obj fact.toDict) false false = .ok fact.toDict := by
    refine Except.bind_ok.mpr ⟨_, rfl, Except.bind_ok.mpr ⟨(), validateNodeKeys_self _ rfl,
      Except.bind_ok.mpr ⟨(), hkept.discriminators hread _, Except.bind_ok.mpr ⟨(), ?_,
      Except.bind_ok.mpr ⟨(), require_ok.mpr rfl, Except.bind_ok.mpr ⟨(), ?_,
      Except.bind_ok.mpr ⟨(), checkField_ok.mpr (require_ok.mp huntil), rfl⟩⟩⟩⟩⟩⟩⟩
    · simp only [forM_ok, List.forall_mem_cons]
      exact ⟨checkField_ok.mpr hsubject, checkField_ok.mpr hpredicate, nofun⟩
    · change (["object"].forM fun name => _) = _
      simp only [forM_ok, List.forall_mem_cons]
      exact ⟨checkField_ok.mpr hobject, nofun⟩
  refine Except.bind_ok.mpr ⟨_, hwritten, Except.bind_ok.mpr ⟨fact, ?_,
    Except.bind_ok.mpr ⟨(), validateNodeForRead_ok.mpr hread, Except.bind_ok.mpr ⟨(), hexact,
    Except.bind_ok.mpr ⟨(), huntil, rfl⟩⟩⟩⟩⟩
  exact Except.bind_ok.mpr ⟨fact.toMemoryNode, hkept.baseFromDict (by decide) _ _, rfl⟩

/-- What was checked of a raw preference that is read. -/
theorem validateRawPreference_ok {legacy g002 : Bool} {raw : Value} {d : Members}
    (h : validateRawPreference raw legacy g002 = .ok d) :
    raw = .obj d ∧ validateRawNodeDiscriminators d "preference" legacy = .ok () := by
  obtain ⟨d', hd', h⟩ := Except.bind_ok.mp h
  obtain ⟨_, -, h⟩ := Except.bind_ok.mp h
  obtain ⟨_, hdisc, h⟩ := Except.bind_ok.mp h
  obtain ⟨_, -, h⟩ := Except.bind_ok.mp h
  obtain ⟨_, -, h⟩ := Except.bind_ok.mp h
  obtain rfl : d' = d := Except.ok.inj h
  exact ⟨requireDict_ok.mp hd', hdisc⟩

/-- A preference that was decoded is read back. -/
theorem decodePreference_toDict {legacy g002 : Bool} {raw : Value} {p : Preference}
    (hkeyed : raw.wellKeyed = true) (h : decodePreference legacy g002 raw = .ok p) :
    decodePreference false false (.obj p.toDict) = .ok p := by
  obtain ⟨d, hraw, h⟩ := Except.bind_ok.mp h
  obtain ⟨pref, hpref, h⟩ := Except.bind_ok.mp h
  obtain ⟨_, hread, h⟩ := Except.bind_ok.mp h
  obtain ⟨_, hexact, h⟩ := Except.bind_ok.mp h
  obtain ⟨_, hsubject, heq⟩ := Except.bind_ok.mp h
  obtain rfl : pref = p := Except.ok.inj heq
  have hkept : pref.toMemoryNode.Kept "preference" := by
    obtain ⟨rfl, hdisc⟩ := validateRawPreference_ok hraw
    obtain ⟨base, hbase, heq⟩ := Except.bind_ok.mp hpref
    rw [← Except.ok.inj heq]
    exact MemoryNode.baseFromDict_kept hkeyed hdisc hbase
  have hread := validateNodeForRead_ok.mp hread
  have htexts := requireExactStrings_ok.mp hexact
  simp only [List.forall_mem_cons] at htexts
  obtain ⟨haspect, hpreference, -⟩ := htexts
  have hwritten :
      validateRawPreference (.obj pref.toDict) false false = .ok pref.toDict := by
    refine Except.bind_ok.mpr ⟨_, rfl, Except.bind_ok.mpr ⟨(), validateNodeKeys_self _ rfl,
      Except.bind_ok.mpr ⟨(), hkept.discriminators hread _, Except.bind_ok.mpr ⟨(), ?_,
      Except.bind_ok.mpr ⟨(), checkField_ok.mpr (require_ok.mp hsubject), rfl⟩⟩⟩⟩⟩
    simp only [forM_ok, List.forall_mem_cons]
    exact ⟨checkField_ok.mpr haspect, checkField_ok.mpr hpreference, nofun⟩
  refine Except.bind_ok.mpr ⟨_, hwritten, Except.bind_ok.mpr ⟨pref, ?_,
    Except.bind_ok.mpr ⟨(), validateNodeForRead_ok.mpr hread, Except.bind_ok.mpr ⟨(), hexact,
    Except.bind_ok.mpr ⟨(), hsubject, rfl⟩⟩⟩⟩⟩
  exact Except.bind_ok.mpr ⟨pref.toMemoryNode, hkept.baseFromDict (by decide) _ _, rfl⟩

/-- What was checked of a raw observation that is read. -/
theorem validateRawObservation_ok {legacy g002 : Bool} {raw : Value} {d : Members}
    (h : validateRawObservation raw legacy g002 = .ok d) :
    raw = .obj d ∧ validateRawNodeDiscriminators d "observation" legacy = .ok () ∧
      (d.get? "category").all (fun v => v ∈ observationCategories.map Json.str) = true := by
  obtain ⟨d', hd', h⟩ := Except.bind_ok.mp h
  obtain ⟨_, -, h⟩ := Except.bind_ok.mp h
  obtain ⟨_, hdisc, h⟩ := Except.bind_ok.mp h
  obtain ⟨_, -, h⟩ := Except.bind_ok.mp h
  obtain ⟨_, -, h⟩ := Except.bind_ok.mp h
  obtain ⟨_, hcategory, h⟩ := Except.bind_ok.mp h
  obtain rfl : d' = d := Except.ok.inj h
  exact ⟨requireDict_ok.mp hd', hdisc, checkField_ok.mp hcategory⟩

/-- An observation that was decoded is read back. -/
theorem decodeObservation_toDict {legacy g002 : Bool} {raw : Value} {o : Observation}
    (hkeyed : raw.wellKeyed = true) (h : decodeObservation legacy g002 raw = .ok o) :
    decodeObservation false false (.obj o.toDict) = .ok o := by
  obtain ⟨d, hraw, h⟩ := Except.bind_ok.mp h
  obtain ⟨observation, hobs, h⟩ := Except.bind_ok.mp h
  obtain ⟨_, hread, h⟩ := Except.bind_ok.mp h
  obtain ⟨_, hexact, h⟩ := Except.bind_ok.mp h
  obtain ⟨_, hobserved, heq⟩ := Except.bind_ok.mp h
  obtain rfl : observation = o := Except.ok.inj heq
  obtain ⟨hkept, hcategory⟩ : observation.toMemoryNode.Kept "observation" ∧
      decide (observation.category ∈ observationCategories.map Json.str) = true := by
    obtain ⟨rfl, hdisc, hcategory⟩ := validateRawObservation_ok hraw
    obtain ⟨base, hbase, heq⟩ := Except.bind_ok.mp hobs
    rw [← Except.ok.inj heq]
    exact ⟨MemoryNode.baseFromDict_kept hkeyed hdisc hbase,
      checked_getD (.str "note") hcategory (by decide)⟩
  have hread := validateNodeForRead_ok.mp hread
  have htexts := requireExactStrings_ok.mp hexact
  simp only [List.forall_mem_cons] at htexts
  obtain ⟨hevent, hcontext, hactor, -⟩ := htexts
  have hwritten :
      validateRawObservation (.obj observation.toDict) false false = .ok observation.toDict := by
    refine Except.bind_ok.mpr ⟨_, rfl, Except.bind_ok.mpr ⟨(), validateNodeKeys_self _ rfl,
      Except.bind_ok.mpr ⟨(), hkept.discriminators hread _, Except.bind_ok.mpr ⟨(), ?_,
      Except.bind_ok.mpr ⟨(), checkField_ok.mpr (require_ok.mp hobserved),
      Except.bind_ok.mpr ⟨(), checkField_ok.mpr hcategory, rfl⟩⟩⟩⟩⟩⟩
    simp only [forM_ok, List.forall_mem_cons]
    exact ⟨checkField_ok.mpr hevent, checkField_ok.mpr hcontext, checkField_ok.mpr hactor, nofun⟩
  refine Except.bind_ok.mpr ⟨_, hwritten, Except.bind_ok.mpr ⟨observation, ?_,
    Except.bind_ok.mpr ⟨(), validateNodeForRead_ok.mpr hread, Except.bind_ok.mpr ⟨(), hexact,
    Except.bind_ok.mpr ⟨(), hobserved, rfl⟩⟩⟩⟩⟩
  exact Except.bind_ok.mpr ⟨observation.toMemoryNode, hkept.baseFromDict (by decide) _ _, rfl⟩

/-! ## Functions -/

/-- Elements that are written one by one are read back one by one. -/
theorem Except.mapM_map {ε α β : Type} {f : β → Except ε α} {g : α → β} {xs : List α}
    (h : ∀ x ∈ xs, f (g x) = .ok x) : (xs.map g).mapM f = .ok xs := by
  induction xs with
  | nil => rfl
  | cons x xs ih =>
    obtain ⟨hx, hxs⟩ := List.forall_mem_cons.mp h
    rw [List.map_cons, List.mapM_cons]
    exact Except.bind_ok.mpr ⟨x, hx, Except.bind_ok.mpr ⟨xs, ih hxs, rfl⟩⟩

namespace FieldValue

/-- A field value that reads back, apart from what `readable` says of it. -/
structure Kept (env : Env) (f : FieldValue) : Prop where
  status : decide (f.status ∈ ["active", "deprecated", "disputed"].map Json.str) = true
  steady : f.createdAt.Steady env

/-- What was checked of a raw field value, and of what it is read as. -/
theorem validateRawFieldValue_ok {legacy : Bool} {raw : Value} {u : Unit} :
    validateRawFieldValue legacy raw = .ok u ↔ ∃ d : Members, raw = .obj d ∧
      validateRawKeys d fieldValueKeys legacy "FieldValue" = .ok () ∧
      (d.get? "desc").all Value.isText = true ∧ (d.get? "sources").all Value.isTextList = true ∧
      (d.get? "source_method").all Value.isText = true ∧
      (d.get? "weight").all Value.isFinite = true ∧
      (d.get? "observation").all (fun v => v = .null || v.isFinite) = true ∧
      (d.get? "created_at").all isOptString = true ∧
      (d.get? "status").all
        (fun v => v ∈ ["active", "deprecated", "disputed"].map Json.str) = true := by
  simp only [validateRawFieldValue, Except.bind_ok, requireDict_ok, checkField_ok]
  constructor
  · rintro ⟨d, hd, _, hkeys, -, h1, -, h2, -, h3, -, h4, -, h5, -, h6, h7⟩
    exact ⟨d, hd, hkeys, h1, h2, h3, h4, h5, h6, h7⟩
  · rintro ⟨d, hd, hkeys, h1, h2, h3, h4, h5, h6, h7⟩
    exact ⟨d, hd, (), hkeys, (), h1, (), h2, (), h3, (), h4, (), h5, (), h6, h7⟩

/-- The status and the time that are read. -/
theorem fromDict_ok {env : Env} {d : Members} {f : FieldValue}
    (h : fromDict env (.obj d) = .ok f) : f.status = d.getD "status" (.str "active") ∧
      ((∃ s t, env.fromisoformat s = some t ∧ f.createdAt = .datetime t) ∨
        ∃ v, (∀ s, v ≠ .str s) ∧ f.createdAt = .raw v) := by
  unfold fromDict at h
  dsimp only at h
  split at h
  next s hs =>
    split at h
    next t ht =>
      obtain ⟨_, hcreated, h⟩ := Except.bind_ok.mp h
      obtain ⟨_, -, heq⟩ := Except.bind_ok.mp h
      rw [← Except.ok.inj heq, ← Except.ok.inj hcreated]
      exact ⟨rfl, .inl ⟨s, t, ht, rfl⟩⟩
    next => exact nomatch h
  next v hv =>
    obtain ⟨_, hcreated, h⟩ := Except.bind_ok.mp h
    obtain ⟨_, -, heq⟩ := Except.bind_ok.mp h
    rw [← Except.ok.inj heq, ← Except.ok.inj hcreated]
    exact ⟨rfl, .inr ⟨_, hv, rfl⟩⟩

/-- What a value that was checked decodes to is kept. -/
theorem fromDict_kept {env : Env} (henv : env.ReadsBack) {legacy : Bool} {raw : Value}
    {f : FieldValue} (hraw : validateRawFieldValue legacy raw = .ok ())
    (h : fromDict env raw = .ok f) : f.Kept env := by
  obtain ⟨d, rfl, -, -, -, -, -, -, -, hstatus⟩ := validateRawFieldValue_ok.mp hraw
  obtain ⟨hsame, htime⟩ := fromDict_ok h
  refine ⟨hsame ▸ checked_getD (.str "active") hstatus (by decide), ?_⟩
  obtain ⟨s, t, hread, hcreated⟩ | ⟨v, hv, hcreated⟩ := htime
  · rw [hcreated]
    exact henv.fromisoformat s t hread
  · rw [hcreated]
    cases v with
    | str s => exact hv s rfl
    | _ => trivial

theorem readable_iff {f : FieldValue} : f.readable = true ↔
    f.desc.isText = true ∧ f.sourceMethod.isText = true ∧ f.status.isText = true ∧
      f.sources.all Value.isText = true ∧ f.weight.isFinite = true ∧
      (f.observation = .null || f.observation.isFinite) = true ∧
      (∀ v, f.createdAt = .raw v → v = .null) := by
  unfold readable
  cases f.createdAt <;> simp [and_assoc]

/-- A field value that is kept passes the raw checks when it is written. -/
theorem Kept.written {env : Env} {f : FieldValue} (h : f.Kept env) (hread : f.readable = true) :
    validateRawFieldValue false (.obj f.toDict) = .ok () := by
  obtain ⟨hdesc, hmethod, -, hsources, hweight, hobservation, hcreated⟩ := readable_iff.mp hread
  refine validateRawFieldValue_ok.mpr ⟨_, rfl, ?_, hdesc, hsources, hmethod, hweight,
    hobservation, ?_, h.status⟩
  · exact validateNodeKeys_self "" rfl
  · unfold toDict
    generalize f.createdAt = createdAt at hcreated ⊢
    cases createdAt with
    | datetime t => rfl
    | raw v =>
      obtain rfl := hcreated v rfl
      rfl

/-- A field value that is kept is read back. -/
theorem Kept.fromDict {env : Env} {f : FieldValue} (h : f.Kept env) :
    fromDict env (.obj f.toDict) = .ok f := by
  rw [fromDict_toDict]
  obtain ⟨desc, sources, method, weight, observation, createdAt, status⟩ := f
  have hsteady : createdAt.Steady env := h.steady
  have hreread : createdAt.reread env = .ok createdAt := by
    cases createdAt with
    | datetime t =>
      change FieldTime.ofText env t.isoformat = _
      have hback : env.fromisoformat t.isoformat = some t := hsteady
      rw [FieldTime.ofText, hback]
    | raw v =>
      cases v with
      | str s => exact hsteady.elim
      | _ => rfl
  exact congrArg (Except.map _) hreread

end FieldValue

/-- A time that is written is not the empty text. -/
theorem Timestamp.isoformat_ne (t : Timestamp) : t.isoformat ≠ "" := by
  intro h
  have hlength := congrArg String.length h
  rw [isoformat, String.length_append] at hlength
  exact absurd hlength (by simp)

namespace Function

/-- A function that reads back, apart from what `readable` says of it. -/
structure Kept (env : Env) (f : Function) : Prop where
  node : f.toMemoryNode.Kept "function"
  created : f.createdAt.truthy = true
  updated : f.updatedAt.truthy = true
  values : ∀ v ∈ f.values, v.Kept env
  attributes : f.attributes.Plain
  attributesJson : isJsonValue (.obj f.attributes.toMembers) = true
  referenceDicts : f.crossReferences.all Value.isDict = true
  referencesJson : isJsonValue (.arr f.crossReferences) = true
  priority : isOptString f.priorityFromSource = true
  authority : isOptString f.sourceAuthority = true

/-- The check of `cross_references`. -/
def dictsOnly : Value → Bool
  | .arr items => items.all Value.isDict
  | _ => false

/-- What was checked of a raw function. -/
theorem validateRawFunction_ok {legacy g002 : Bool} {raw : Value} {d : Members} :
    validateRawFunction raw legacy g002 = .ok d ↔ raw = .obj d ∧
      validateNodeKeys d "function" functionKeys legacy g002 "Function" = .ok () ∧
      validateRawNodeDiscriminators d "function" legacy = .ok () ∧
      (∀ role ∈ ["trigger", "condition", "action", "benefit"],
        validateRawRole d legacy role = .ok ()) ∧
      (d.get? "attributes").all Value.isDict = true ∧
      (d.get? "attributes").all isJsonValue = true ∧
      (d.get? "cross_references").all dictsOnly = true ∧
      (d.get? "cross_references").all isJsonValue = true ∧
      ∀ name ∈ ["priority_from_source", "source_authority"],
        (d.get? name).all isOptString = true := by
  simp only [validateRawFunction, Except.bind_ok, requireDict_ok, checkField_ok, forM_ok]
  constructor
  · rintro ⟨d', hd, _, hkeys, _, hdisc, -, h1, -, h2, -, h3, -, h4, -, h5, -, h6, heq⟩
    obtain rfl : d' = d := Except.ok.inj heq
    exact ⟨hd, hkeys, hdisc, h1, h2, h3, h4, h5, h6⟩
  · rintro ⟨hd, hkeys, hdisc, h1, h2, h3, h4, h5, h6⟩
    exact ⟨d, hd, (), hkeys, (), hdisc, (), h1, (), h2, (), h3, (), h4, (), h5, (), h6, rfl⟩

/-- The values of a role that was checked are kept. -/
theorem fieldValues_kept {env : Env} (henv : env.ReadsBack) {d : Members} {legacy : Bool}
    {role : String} {values : List FieldValue} (hraw : validateRawRole d legacy role = .ok ())
    (h : fieldValues env d role = .ok values) : ∀ v ∈ values, v.Kept env := by
  obtain ⟨items, hitems, hvalues⟩ := Except.bind_ok.mp h
  have hchecked : ∀ item ∈ items, validateRawFieldValue legacy item = .ok () := by
    unfold validateRawRole at hraw
    unfold Members.getD at hitems
    split at hraw
    next hget =>
      rw [hget] at hitems
      obtain rfl : [] = items := Except.ok.inj hitems
      exact nofun
    next items' hget =>
      rw [hget] at hitems
      obtain rfl : items' = items := Except.ok.inj hitems
      exact forM_ok.mp hraw
    next => exact nomatch hraw
  have hall := Except.mapM_ok hvalues
  clear h hitems hvalues
  induction hall with
  | nil => exact nofun
  | cons hv _ ih =>
    obtain ⟨hitem, hitems⟩ := List.forall_mem_cons.mp hchecked
    exact List.forall_mem_cons.mpr ⟨FieldValue.fromDict_kept henv hitem hv, ih hitems⟩

/-- What a dictionary that was checked decodes to is kept. -/
theorem fromDict_kept {env : Env} (henv : env.ReadsBack) {legacy g002 : Bool} {raw : Value}
    {d : Members} {id : String} {now : Timestamp} {f : Function} (hkeyed : raw.wellKeyed = true)
    (hraw : validateRawFunction raw legacy g002 = .ok d)
    (h : fromDict env d id now.isoformat = .ok f) : f.Kept env := by
  obtain ⟨rfl, -, hdisc, hroles, hattr, hattrJson, hrefs, hrefsJson, hopts⟩ :=
    validateRawFunction_ok.mp hraw
  simp only [List.forall_mem_cons] at hroles hopts
  obtain ⟨hr1, hr2, hr3, hr4, -⟩ := hroles
  obtain ⟨f₀, hf₀, hinit⟩ := Except.bind_ok.mp h
  obtain ⟨base, hbase, h⟩ := Except.bind_ok.mp hf₀
  obtain ⟨trigger, htrigger, h⟩ := Except.bind_ok.mp h
  obtain ⟨condition, hcondition, h⟩ := Except.bind_ok.mp h
  obtain ⟨action, haction, h⟩ := Except.bind_ok.mp h
  obtain ⟨benefit, hbenefit, h⟩ := Except.bind_ok.mp h
  obtain ⟨attributes, hattributes, h⟩ := Except.bind_ok.mp h
  obtain ⟨references, hreferences, heq⟩ := Except.bind_ok.mp h
  obtain rfl := Except.ok.inj heq
  have hnode := MemoryNode.baseFromDict_kept hkeyed hdisc hbase
  have hclock : Value.truthy (.str now.isoformat) = true := decide_eq_true now.isoformat_ne
  obtain ⟨hplain, hjson⟩ := MemoryNode.mapping_kept
    (fun v => v.isDict && isJsonValue v) (fun v hv => (Bool.and_eq_true_iff.mp hv).1) rfl
    hkeyed (by cases hget : d.get? "attributes" <;> simp_all) hattributes
  obtain ⟨hdicts, hrefJson⟩ : references.all Value.isDict = true ∧
      isJsonValue (.arr references) = true := by
    have h1 := checked_getD (.arr []) hrefs rfl
    have h2 := checked_getD (.arr []) hrefsJson rfl
    revert hreferences h1 h2
    cases d.getD "cross_references" (.arr []) with
    | arr items =>
      intro hreferences h1 h2
      obtain rfl : items = references := Except.ok.inj hreferences
      exact ⟨h1, h2⟩
    | _ => exact fun _ h1 => absurd h1 (by simp [dictsOnly])
  rw [postInit_ok hinit]
  refine ⟨⟨hnode.type, hnode.knowledge, ⟨hnode.steady.source, hnode.steady.tier,
    hnode.steady.provenance, hnode.steady.namespace_⟩, hnode.provenance, hnode.namespace_⟩, ?_, ?_,
    ?_, hplain, (Bool.and_eq_true_iff.mp hjson).2, hdicts, hrefJson,
    checked_getD .null hopts.1 rfl, checked_getD .null hopts.2.1 rfl⟩
  · dsimp only
    split_ifs with hcreated
    · exact hcreated
    · exact hclock
  · dsimp only
    split_ifs with hupdated hcreated
    · exact hupdated
    · exact hcreated
    · exact hclock
  · simp only [values, List.mem_append]
    rintro v (((hv | hv) | hv) | hv)
    · exact fieldValues_kept henv hr1 htrigger v hv
    · exact fieldValues_kept henv hr2 hcondition v hv
    · exact fieldValues_kept henv hr3 haction v hv
    · exact fieldValues_kept henv hr4 hbenefit v hv

/-- The values of a role that are written pass the raw checks. -/
theorem Kept.role {env : Env} {values : List FieldValue} (h : ∀ v ∈ values, v.Kept env)
    (hread : ∀ v ∈ values, v.readable = true) {d : Members} {role : String}
    (hget : d.get? role = some (.arr (values.map fun v => .obj v.toDict))) :
    validateRawRole d false role = .ok () := by
  unfold validateRawRole
  rw [hget]
  refine forM_ok.mpr fun item hitem => ?_
  obtain ⟨v, hv, rfl⟩ := List.mem_map.mp hitem
  exact (h v hv).written (hread v hv)

/-- A function that is kept passes the raw checks when it is written. -/
theorem Kept.written {env : Env} {f : Function} (h : f.Kept env) (hread : f.readable = true) :
    validateRawFunction (.obj f.toDict) false false = .ok f.toDict := by
  unfold readable at hread
  simp only [Bool.and_eq_true, List.all_eq_true] at hread
  obtain ⟨⟨hnode, -⟩, hvalues⟩ := hread
  have hall : ∀ vs : List FieldValue, vs ⊆ f.values →
      (∀ v ∈ vs, v.Kept env) ∧ ∀ v ∈ vs, v.readable = true := fun vs hvs =>
    ⟨fun v hv => h.values v (hvs hv), fun v hv => hvalues v (hvs hv)⟩
  refine validateRawFunction_ok.mpr ⟨rfl, validateNodeKeys_self _ rfl,
    h.node.discriminators hnode _, ?_, rfl, h.attributesJson, h.referenceDicts, h.referencesJson,
    ?_⟩
  · simp only [List.forall_mem_cons]
    obtain ⟨h1, r1⟩ := hall f.trigger fun v hv => by simp [Function.values, hv]
    obtain ⟨h2, r2⟩ := hall f.condition fun v hv => by simp [Function.values, hv]
    obtain ⟨h3, r3⟩ := hall f.action fun v hv => by simp [Function.values, hv]
    obtain ⟨h4, r4⟩ := hall f.benefit fun v hv => by simp [Function.values, hv]
    exact ⟨Kept.role h1 r1 rfl, Kept.role h2 r2 rfl, Kept.role h3 r3 rfl, Kept.role h4 r4 rfl,
      fun _ hrole => (List.not_mem_nil hrole).elim⟩
  · simp only [List.forall_mem_cons]
    exact ⟨h.priority, h.authority, fun _ hkey => (List.not_mem_nil hkey).elim⟩

/-- The values of a role that are kept are read back. -/
theorem fieldValues_map {env : Env} {values : List FieldValue} (h : ∀ v ∈ values, v.Kept env)
    {d : Members} {role : String}
    (hget : d.getD role (.arr []) = .arr (values.map fun v => .obj v.toDict)) :
    fieldValues env d role = .ok values := by
  unfold fieldValues
  rw [hget]
  exact Except.mapM_map fun v hv => (h v hv).fromDict

/-- A function that is kept is read back. -/
theorem Kept.decode {env : Env} {f : Function} (h : f.Kept env) :
    decode env f.toDict f.id = .ok f := by
  have hvalues := h.values
  simp only [Function.values, List.mem_append] at hvalues
  have h1 : fieldValues env f.toDict "trigger" = .ok f.trigger :=
    fieldValues_map (fun v hv => hvalues v (.inl (.inl (.inl hv)))) rfl
  have h2 : fieldValues env f.toDict "condition" = .ok f.condition :=
    fieldValues_map (fun v hv => hvalues v (.inl (.inl (.inr hv)))) rfl
  have h3 : fieldValues env f.toDict "action" = .ok f.action :=
    fieldValues_map (fun v hv => hvalues v (.inl (.inr hv))) rfl
  have h4 : fieldValues env f.toDict "benefit" = .ok f.benefit :=
    fieldValues_map (fun v hv => hvalues v (.inr hv)) rfl
  have hattr : pyDict (Members.getD f.toDict "attributes" (.obj [])) = .ok f.attributes :=
    congrArg Except.ok (PyDict.reloaded_eq_iff.mpr h.attributes)
  exact Except.bind_ok.mpr ⟨f.toMemoryNode, h.node.baseFromDict (by decide) _ _,
    Except.bind_ok.mpr ⟨_, h1, Except.bind_ok.mpr ⟨_, h2, Except.bind_ok.mpr ⟨_, h3,
    Except.bind_ok.mpr ⟨_, h4, Except.bind_ok.mpr ⟨_, hattr, Except.bind_ok.mpr ⟨_, rfl, rfl⟩⟩⟩⟩⟩⟩⟩

/-- A function that was decoded is read back. -/
theorem decodeFunction_toDict {env : Env} (henv : env.ReadsBack) {now now' : Timestamp}
    {legacy g002 : Bool} {raw : Value} {f : Function} (hkeyed : raw.wellKeyed = true)
    (h : decodeFunction env now legacy g002 raw = .ok f) :
    decodeFunction env now' false false (.obj f.toDict) = .ok f := by
  obtain ⟨d, hraw, h⟩ := Except.bind_ok.mp h
  obtain ⟨func, hfunc, h⟩ := Except.bind_ok.mp h
  obtain ⟨_, hid, h⟩ := Except.bind_ok.mp h
  obtain ⟨domain, hdomain, h⟩ := Except.bind_ok.mp h
  obtain ⟨_, hread, heq⟩ := Except.bind_ok.mp h
  obtain rfl : func = f := Except.ok.inj heq
  have hread := require_ok.mp hread
  have hkept := fromDict_kept henv hkeyed hraw hfunc
  have hinit : func.postInit now'.isoformat = .ok func := by
    refine Except.bind_ok.mpr ⟨(), hid, Except.bind_ok.mpr ⟨domain, hdomain, ?_⟩⟩
    dsimp only
    rw [if_pos hkept.created, if_pos hkept.updated]
    rfl
  exact Except.bind_ok.mpr ⟨_, hkept.written hread, Except.bind_ok.mpr ⟨func,
    Except.bind_ok.mpr ⟨func, hkept.decode, hinit⟩, Except.bind_ok.mpr ⟨(), hid,
    Except.bind_ok.mpr ⟨domain, hdomain, Except.bind_ok.mpr ⟨(), require_ok.mpr hread, rfl⟩⟩⟩⟩⟩

end Function

/-! ## Edges and events -/

/-- The time of an edge. -/
def edgeTime (env : Env) (v : Value) : Except PyError (Option PyDatetime) :=
  match asString v with
  | some s => (parseTime env s).map some
  | none => .ok none

/-- The fields of an edge, beside its time. -/
def edgeOf (d : Members) (createdAt : Option PyDatetime) : GraphEdge where
  source := textOf (d.getD "source" .null)
  target := textOf (d.getD "target" .null)
  edgeType := textOf (d.getD "edge_type" .null)
  weight := numOf (d.getD "weight" (.float (.finite (Dec.ofInt 1))))
  evidence := textsOf (d.getD "evidence" (.arr []))
  createdAt := createdAt

theorem deserializeEdge_eq (env : Env) (d : Members) :
    deserializeEdge env d = (edgeTime env (d.getD "created_at" .null)).map (edgeOf d) := by
  unfold deserializeEdge edgeTime
  cases asString (d.getD "created_at" .null) with
  | none => rfl
  | some s =>
    dsimp only
    cases parseTime env s <;> rfl

/-- A time that was read is read back. -/
theorem edgeTime_written {env : Env} (henv : env.ReadsBack) {v : Value} {createdAt : Option PyDatetime}
    (h : edgeTime env v = .ok createdAt) :
    edgeTime env (.ofOptStr (createdAt.map PyDatetime.isoformat)) = .ok createdAt := by
  unfold edgeTime at h
  split at h
  next s hs =>
    obtain ⟨t, hparse, rfl⟩ := Except.map_ok h
    unfold parseTime at hparse
    split at hparse
    next t' hread =>
      obtain rfl : t' = t := Except.ok.inj hparse
      change (parseTime env t'.isoformat).map some = _
      rw [parseTime, henv.fromisoformat s t' hread]
      rfl
    next => exact nomatch hparse
  next =>
    obtain rfl : none = createdAt := Except.ok.inj h
    rfl

/-- An edge that was decoded is read back. -/
theorem decodeEdge_serialize {env : Env} (henv : env.ReadsBack) {legacy : Bool} {raw : Value}
    {e : GraphEdge} (h : decodeEdge env legacy raw = .ok e) :
    decodeEdge env false (.obj (serializeEdge e)) = .ok e := by
  obtain ⟨d, -, h⟩ := Except.bind_ok.mp h
  obtain ⟨edge, hedge, h⟩ := Except.bind_ok.mp h
  obtain ⟨_, hfinite, heq⟩ := Except.bind_ok.mp h
  obtain rfl : edge = e := Except.ok.inj heq
  rw [deserializeEdge_eq] at hedge
  obtain ⟨createdAt, hcreated, rfl⟩ := Except.map_ok hedge
  have htime : edgeTime env (.ofOptStr ((edgeOf d createdAt).createdAt.map PyDatetime.isoformat)) =
      .ok (edgeOf d createdAt).createdAt := edgeTime_written henv hcreated
  generalize edgeOf d createdAt = edge at *
  have hwritten : validateRawEdge (.obj (serializeEdge edge)) false = .ok (serializeEdge edge) := by
    refine Except.bind_ok.mpr ⟨_, rfl, Except.bind_ok.mpr ⟨(), ?_,
      Except.bind_ok.mpr ⟨(), require_ok.mpr ?_, Except.bind_ok.mpr ⟨(), checkField_ok.mpr
        (require_ok.mp hfinite), Except.bind_ok.mpr ⟨(), checkField_ok.mpr ?_,
      Except.bind_ok.mpr ⟨(), checkField_ok.mpr ?_, rfl⟩⟩⟩⟩⟩⟩
    · exact validateNodeKeys_self "" rfl
    · simp only [List.forall_mem_cons]
      exact ⟨rfl, rfl, rfl, nofun⟩
    · change (edge.evidence.map Json.str).all Value.isText = true
      simp [Value.isText, asString]
    · change isOptString (.ofOptStr (edge.createdAt.map PyDatetime.isoformat)) = true
      cases edge.createdAt <;> simp [isOptString, Value.ofOptStr, asString]
  refine Except.bind_ok.mpr ⟨_, hwritten, Except.bind_ok.mpr ⟨edge, ?_,
    Except.bind_ok.mpr ⟨(), hfinite, rfl⟩⟩⟩
  rw [deserializeEdge_eq]
  change (edgeTime env (.ofOptStr (edge.createdAt.map PyDatetime.isoformat))).map _ = _
  rw [htime]
  have hevidence : textsOf (.arr (edge.evidence.map .str)) = edge.evidence :=
    (List.map_map ..).trans (List.map_id'' (fun _ => rfl) _)
  exact congrArg (fun texts => Except.ok { edge with evidence := texts }) hevidence

/-- What a decoded event is known to be. -/
theorem deserializeEvent_ok {env : Env} {raw : Value} {e : ChangelogEvent}
    (h : deserializeEvent env raw = .ok e) :
    (∃ s, env.fromisoformat s = some e.timestamp) ∧
      ∀ text ∈ [e.funcId, e.eventType, e.description, e.actor], text ≠ "" := by
  obtain ⟨d, -, h⟩ := Except.bind_ok.mp h
  obtain ⟨_, -, h⟩ := Except.bind_ok.mp h
  obtain ⟨_, htexts, h⟩ := Except.bind_ok.mp h
  obtain ⟨_, hnonempty, h⟩ := Except.bind_ok.mp h
  obtain ⟨_, -, h⟩ := Except.bind_ok.mp h
  have htexts := fun name hname => require_ok.mp (forM_ok.mp htexts name hname)
  have hnonempty := require_ok.mp hnonempty
  have htext : ∀ name, (d.getD name .null).isText = true → d.getD name .null ≠ .str "" →
      textOf (d.getD name .null) ≠ "" := by
    intro name hname hne hempty
    obtain ⟨s, hs⟩ := asString_isText hname
    rw [hs] at hempty hne
    exact hne (congrArg Json.str hempty)
  dsimp only at h
  split at h
  next t hread =>
    rw [← Except.ok.inj h]
    refine ⟨⟨_, hread⟩, ?_⟩
    simp only [List.forall_mem_cons] at htexts hnonempty ⊢
    obtain ⟨h1, h2, h3, -, h5, -⟩ := htexts
    obtain ⟨n1, n2, n3, n5, -⟩ := hnonempty
    exact ⟨htext _ h1 n1, htext _ h2 n2, htext _ h3 n3, htext _ h5 n5, nofun⟩
  next => exact nomatch h

/-- An event that was decoded is read back. -/
theorem deserializeEvent_serialize {env : Env} (henv : env.ReadsBack) {raw : Value}
    {e : ChangelogEvent} (h : deserializeEvent env raw = .ok e) :
    deserializeEvent env (.obj (serializeEvent e)) = .ok e := by
  obtain ⟨⟨s, hread⟩, hnonempty⟩ := deserializeEvent_ok h
  have hback := henv.fromisoformat s e.timestamp hread
  have hkeys : hasKeys (serializeEvent e) eventKeys = true := by
    rw [hasKeys]
    exact decide_eq_true ⟨fun _ hk => hk, fun _ hk => hk⟩
  refine Except.bind_ok.mpr ⟨serializeEvent e, rfl, Except.bind_ok.mpr ⟨(), require_ok.mpr hkeys,
    Except.bind_ok.mpr ⟨(), forM_ok.mpr ?_, Except.bind_ok.mpr ⟨(), require_ok.mpr ?_,
    Except.bind_ok.mpr ⟨(), require_ok.mpr ⟨rfl, henv.isoformat s e.timestamp hread⟩, ?_⟩⟩⟩⟩⟩
  · simp only [List.forall_mem_cons]
    exact ⟨rfl, rfl, rfl, rfl, rfl, fun _ hkey => (List.not_mem_nil hkey).elim⟩
  · simp only [List.forall_mem_cons] at hnonempty ⊢
    obtain ⟨n1, n2, n3, n4, -⟩ := hnonempty
    exact ⟨fun h => n1 (Json.str.inj h), fun h => n2 (Json.str.inj h),
      fun h => n3 (Json.str.inj h), fun h => n4 (Json.str.inj h),
      fun _ hkey => (List.not_mem_nil hkey).elim⟩
  · have htext : textOf (Members.getD (serializeEvent e) "timestamp" .null) =
        e.timestamp.isoformat := rfl
    rw [htext, hback]
    rfl

end Memplex
