import Memplex.Models.Defaults
import Memplex.Models.Graph

/-!
# Records that are read back

What `from_dict` makes of the dictionary that `to_dict` wrote. The two are inverse to each other on
steady records only: reading coerces the trust tier, turns the text of a source type into the source
type, fills the missing times of a function from the clock, and gets texts for the keys of a mapping.
-/

namespace Memplex

open Lib

/-! ## Mappings -/

namespace PyDict

/-- The dictionary that is read back: its keys are texts. -/
def reloaded (d : PyDict) : PyDict := d.toMembers.map fun m => (.str m.1, m.2)

/-- The keys are texts, and distinct. -/
def Plain (d : PyDict) : Prop := d.strKeys = true ∧ (d.map Prod.fst).Nodup

instance (d : PyDict) : Decidable d.Plain := inferInstanceAs (Decidable (_ ∧ _))

theorem toMembers_nodup (d : PyDict) : (d.toMembers.map Prod.fst).Nodup := by
  have hfold : ∀ (ms : Members), (ms.map Prod.fst).Nodup →
      ((d.foldl (fun ms m => Members.set ms (jsonKey m.1) m.2) ms).map Prod.fst).Nodup := by
    induction d with
    | nil => exact fun ms h => h
    | cons m d ih => exact fun ms h => ih _ (nodup_upsertRow h)
  exact hfold [] List.nodup_nil

/-- A plain dictionary is written member by member. -/
theorem foldl_set_plain {d : PyDict} (hstr : d.strKeys = true) (hnodup : (d.map Prod.fst).Nodup)
    (ms : Members) (hnew : ∀ m ∈ d, ∀ m' ∈ ms, m.1 ≠ .str m'.1) :
    (d.foldl (fun ms m => Members.set ms (jsonKey m.1) m.2) ms).map
      (fun m => ((Json.str m.1 : Value), m.2)) =
      ms.map (fun m => ((Json.str m.1 : Value), m.2)) ++ d := by
  induction d generalizing ms with
  | nil => rw [List.foldl_nil, List.append_nil]
  | cons m d ih =>
    obtain ⟨key, value⟩ := m
    rw [strKeys, List.all_cons, Bool.and_eq_true] at hstr
    rw [List.map_cons, List.nodup_cons] at hnodup
    obtain ⟨s, rfl⟩ : ∃ s, key = .str s := by
      cases key with
      | str s => exact ⟨s, rfl⟩
      | _ => exact absurd hstr.1 (by simp)
    have hkey : jsonKey (.str s) = s := rfl
    have hset : Members.set ms s value = ms ++ [(s, value)] := by
      rw [Members.set, upsertRow, if_neg]
      rintro ⟨m', hm', hsame⟩
      exact hnew _ (List.mem_cons_self ..) m' hm' (congrArg Json.str hsame.symm)
    rw [List.foldl_cons, hkey, hset, ih hstr.2 hnodup.2, List.map_append, List.append_assoc]
    · rfl
    · intro m hm m' hm'
      rcases List.mem_append.mp hm' with hm' | hm'
      · exact hnew m (List.mem_cons_of_mem _ hm) m' hm'
      · rw [List.mem_singleton.mp hm']
        rintro hsame
        exact hnodup.1 (List.mem_map.mpr ⟨m, hm, hsame⟩)

/-- The dictionaries that read back as they were. -/
theorem reloaded_eq_iff {d : PyDict} : d.reloaded = d ↔ d.Plain := by
  constructor
  · intro h
    rw [← h]
    refine ⟨?_, ?_⟩
    · rw [strKeys, List.all_eq_true]
      intro m hm
      obtain ⟨m', -, rfl⟩ := List.mem_map.mp hm
      rfl
    · have hkeys : d.reloaded.map Prod.fst = (d.toMembers.map Prod.fst).map Json.str := by
        rw [reloaded, List.map_map, List.map_map]
        rfl
      rw [hkeys]
      exact d.toMembers_nodup.map fun s t hst => Json.str.inj hst
  · rintro ⟨hstr, hnodup⟩
    have hfold := foldl_set_plain hstr hnodup [] (by simp)
    rw [List.map_nil, List.nil_append] at hfold
    exact hfold

end PyDict

/-! ## Nodes -/

/-- The source type that is read back. -/
def SourceTag.reloaded (t : SourceTag) : SourceTag :=
  match t.toValue with
  | .str s => .known ((SourceType.ofValue s).getD .wiki)
  | v => .raw v

theorem SourceTag.reloaded_eq_iff {t : SourceTag} : t.reloaded = t ↔ ∀ s, t ≠ .raw (.str s) := by
  cases t with
  | known t => cases t <;> exact iff_of_true rfl (by simp)
  | raw v =>
    cases v with
    | str s => exact iff_of_false (by simp [reloaded, toValue]) fun h => h s rfl
    | _ => exact iff_of_true rfl (by simp)

/-- The trust tiers are the ones that are read as they are. -/
theorem coerceTrustTier_eq_iff {i : ℤ} : coerceTrustTier (.int i) = i ↔ 1 ≤ i ∧ i ≤ 4 := by
  rw [coerceTrustTier]
  split_ifs with h
  · exact iff_of_true rfl h
  · refine iff_of_false (fun heq => h ?_) h
    omega

namespace MemoryNode

/-- The fields that are read back. -/
def reloaded (n : MemoryNode) : MemoryNode :=
  { n with
    sourceType := n.sourceType.reloaded
    provenance := n.provenance.reloaded
    namespace_ := n.namespace_.reloaded
    trustTier := coerceTrustTier (.int n.trustTier) }

/-- A node whose fields read back as they were. -/
structure Steady (n : MemoryNode) : Prop where
  /-- The source type is not its text. -/
  source : ∀ s, n.sourceType ≠ .raw (.str s)
  tier : 1 ≤ n.trustTier ∧ n.trustTier ≤ 4
  provenance : n.provenance.Plain
  namespace_ : n.namespace_.Plain

theorem reloaded_eq_iff {n : MemoryNode} : n.reloaded = n ↔ n.Steady := by
  constructor
  · intro h
    exact ⟨SourceTag.reloaded_eq_iff.mp (congrArg MemoryNode.sourceType h),
      coerceTrustTier_eq_iff.mp (congrArg MemoryNode.trustTier h),
      PyDict.reloaded_eq_iff.mp (congrArg MemoryNode.provenance h),
      PyDict.reloaded_eq_iff.mp (congrArg MemoryNode.namespace_ h)⟩
  · intro h
    rw [reloaded, SourceTag.reloaded_eq_iff.mpr h.source, coerceTrustTier_eq_iff.mpr h.tier,
      PyDict.reloaded_eq_iff.mpr h.provenance, PyDict.reloaded_eq_iff.mpr h.namespace_]

/-- The base fields of a dictionary that begins with those of a node. -/
theorem baseFromDict_base {n n' : MemoryNode} {rest : Members} {memoryType : String}
    (h : baseFromDict (n.baseToDict ++ rest) n.id memoryType = .ok n') : n' = n.reloaded := by
  obtain ⟨_, -, h⟩ := Except.bind_ok.mp h
  obtain ⟨_, -, h⟩ := Except.bind_ok.mp h
  obtain ⟨_, -, h⟩ := Except.bind_ok.mp h
  obtain ⟨_, -, h⟩ := Except.bind_ok.mp h
  obtain ⟨provenance, hprovenance, h⟩ := Except.bind_ok.mp h
  obtain ⟨paragraphs, hparagraphs, h⟩ := Except.bind_ok.mp h
  obtain ⟨namespace_, hnamespace, heq⟩ := Except.bind_ok.mp h
  have hp : n.provenance.reloaded = provenance := Except.ok.inj hprovenance
  have hs : n.sourceParagraphs = paragraphs := Except.ok.inj hparagraphs
  have hn : n.namespace_.reloaded = namespace_ := Except.ok.inj hnamespace
  rw [← Except.ok.inj heq, ← hp, ← hs, ← hn]
  rfl

end MemoryNode

/-! ## Functions -/

/-- A text is read as a time. -/
def FieldTime.ofText (env : Env) (text : String) : Except PyError FieldTime :=
  match env.fromisoformat text with
  | some t => .ok (.datetime t)
  | none => .error (valueError "Invalid isoformat string")

/-- The time that is read back. -/
def FieldTime.reread (env : Env) : FieldTime → Except PyError FieldTime
  | .datetime t => ofText env t.isoformat
  | .raw (.str s) => ofText env s
  | .raw v => .ok (.raw v)

/-- A time that is read back as it was. -/
def FieldTime.Steady (env : Env) : FieldTime → Prop
  | .datetime t => env.fromisoformat t.isoformat = some t
  | .raw (.str _) => False
  | .raw _ => True

theorem FieldTime.ofText_ok {env : Env} {text : String} {time : FieldTime}
    (h : ofText env text = .ok time) : ∃ t, env.fromisoformat text = some t ∧ .datetime t = time := by
  unfold ofText at h
  cases hparse : env.fromisoformat text with
  | none =>
    rw [hparse] at h
    exact absurd h (by simp)
  | some t =>
    rw [hparse] at h
    exact ⟨t, rfl, Except.ok.inj h⟩

theorem FieldTime.reread_eq_iff {env : Env} {time time' : FieldTime}
    (h : time.reread env = .ok time') : time' = time ↔ time.Steady env := by
  cases time with
  | datetime t =>
    obtain ⟨t', ht', rfl⟩ := ofText_ok h
    rw [Steady, ht', FieldTime.datetime.injEq, Option.some.injEq]
  | raw v =>
    cases v with
    | str s =>
      obtain ⟨t', -, rfl⟩ := ofText_ok h
      exact iff_of_false (by simp) id
    | _ => exact iff_of_true (Except.ok.inj h).symm trivial

namespace FieldValue

/-- A field value is read back but for its time. -/
theorem fromDict_toDict (env : Env) (f : FieldValue) :
    fromDict env (.obj f.toDict) =
      (f.createdAt.reread env).map fun time => { f with createdAt := time } := by
  obtain ⟨desc, sources, method, weight, observation, createdAt, status⟩ := f
  unfold fromDict
  dsimp only
  cases createdAt with
  | datetime t =>
    have hget : Members.getD (toDict ⟨desc, sources, method, weight, observation, .datetime t,
        status⟩) "created_at" .null = .str t.isoformat := rfl
    rw [hget]
    dsimp only [FieldTime.reread, FieldTime.ofText]
    cases hparse : env.fromisoformat t.isoformat with
    | none => rfl
    | some t' => rfl
  | raw v =>
    have hget : Members.getD (toDict ⟨desc, sources, method, weight, observation, .raw v,
        status⟩) "created_at" .null = v := rfl
    rw [hget]
    cases v with
    | str s =>
      dsimp only [FieldTime.reread, FieldTime.ofText]
      cases hparse : env.fromisoformat s with
      | none => rfl
      | some t' => rfl
    | _ => rfl

end FieldValue

namespace Function

/-- The field values of a function. -/
def values (f : Function) : List FieldValue := f.trigger ++ f.condition ++ f.action ++ f.benefit

/-- A function that reads back as it was. -/
structure Steady (env : Env) (f : Function) : Prop where
  node : f.toMemoryNode.Steady
  created : f.createdAt.truthy = true
  updated : f.updatedAt.truthy = true
  values : ∀ v ∈ f.values, v.createdAt.Steady env
  attributes : f.attributes.Plain

/-- Field values that are read back one by one. -/
theorem mapM_fromDict {env : Env} {vs vs' : List FieldValue}
    (h : (vs.map fun v => (Json.obj v.toDict : Value)).mapM (FieldValue.fromDict env) = .ok vs') :
    vs' = vs ↔ ∀ v ∈ vs, v.createdAt.Steady env := by
  induction vs generalizing vs' with
  | nil =>
    cases Except.ok.inj h
    simp
  | cons v vs ih =>
    rw [List.map_cons, List.mapM_cons] at h
    obtain ⟨v', hv, h⟩ := Except.bind_ok.mp h
    obtain ⟨rest, hrest, heq⟩ := Except.bind_ok.mp h
    cases Except.ok.inj heq
    rw [FieldValue.fromDict_toDict] at hv
    obtain ⟨time, htime, rfl⟩ := Except.map_ok hv
    have hhead : { v with createdAt := time } = v ↔ v.createdAt.Steady env := by
      rw [← FieldTime.reread_eq_iff htime]
      exact ⟨fun h => congrArg FieldValue.createdAt h, fun h => by rw [h]⟩
    rw [List.cons.injEq, hhead, ih hrest, List.forall_mem_cons]

/-- The function that is read back. -/
theorem fromDict_fields {env : Env} {f f' : Function} {now : String}
    (h : fromDict env f.toDict f.id now = .ok f') :
    ∃ trigger condition action benefit,
      (trigger = f.trigger ↔ ∀ v ∈ f.trigger, v.createdAt.Steady env) ∧
      (condition = f.condition ↔ ∀ v ∈ f.condition, v.createdAt.Steady env) ∧
      (action = f.action ↔ ∀ v ∈ f.action, v.createdAt.Steady env) ∧
      (benefit = f.benefit ↔ ∀ v ∈ f.benefit, v.createdAt.Steady env) ∧
      f' = { f with
        toMemoryNode := { f.toMemoryNode.reloaded with
          createdAt := if f.createdAt.truthy then f.createdAt else .str now
          updatedAt := if f.updatedAt.truthy then f.updatedAt
            else if f.createdAt.truthy then f.createdAt else .str now }
        trigger := trigger
        condition := condition
        action := action
        benefit := benefit
        attributes := f.attributes.reloaded } := by
  obtain ⟨f₀, hf₀, hinit⟩ := Except.bind_ok.mp h
  obtain ⟨base, hbase, h⟩ := Except.bind_ok.mp hf₀
  obtain ⟨trigger, htrigger, h⟩ := Except.bind_ok.mp h
  obtain ⟨condition, hcondition, h⟩ := Except.bind_ok.mp h
  obtain ⟨action, haction, h⟩ := Except.bind_ok.mp h
  obtain ⟨benefit, hbenefit, h⟩ := Except.bind_ok.mp h
  obtain ⟨attributes, hattributes, h⟩ := Except.bind_ok.mp h
  obtain ⟨references, hreferences, heq⟩ := Except.bind_ok.mp h
  have hnode := MemoryNode.baseFromDict_base hbase
  have hattr : f.attributes.reloaded = attributes := Except.ok.inj hattributes
  have hrefs : f.crossReferences = references := Except.ok.inj hreferences
  obtain rfl := Except.ok.inj heq
  subst hnode hattr hrefs
  refine ⟨trigger, condition, action, benefit, mapM_fromDict htrigger, mapM_fromDict hcondition,
    mapM_fromDict haction, mapM_fromDict hbenefit, ?_⟩
  rw [postInit_ok hinit]
  rfl

/-- A function reads back as it was exactly when it is steady; the clock shows some time. -/
theorem fromDict_toDict {env : Env} {f f' : Function} {now : String} (hnow : now ≠ "")
    (h : fromDict env f.toDict f.id now = .ok f') : f' = f ↔ f.Steady env := by
  obtain ⟨trigger, condition, action, benefit, ht, hc, ha, hb, rfl⟩ := fromDict_fields h
  have hclock : Value.truthy (.str now) = true := decide_eq_true hnow
  constructor
  · intro h
    have hcreated : f.createdAt.truthy = true := by
      have hsame := congrArg (fun g : Function => g.createdAt) h
      dsimp only at hsame
      split_ifs at hsame with htruthy
      · exact htruthy
      · rw [← hsame]
        exact hclock
    refine ⟨?_, hcreated, ?_, ?_, PyDict.reloaded_eq_iff.mp (congrArg Function.attributes h)⟩
    · exact ⟨SourceTag.reloaded_eq_iff.mp (congrArg (fun g : Function => g.sourceType) h),
        coerceTrustTier_eq_iff.mp (congrArg (fun g : Function => g.trustTier) h),
        PyDict.reloaded_eq_iff.mp (congrArg (fun g : Function => g.provenance) h),
        PyDict.reloaded_eq_iff.mp (congrArg (fun g : Function => g.namespace_) h)⟩
    · have hsame := congrArg (fun g : Function => g.updatedAt) h
      dsimp only at hsame
      split_ifs at hsame with htruthy
      · exact htruthy
      · rw [← hsame]
        exact hcreated
    · simp only [Function.values, List.mem_append]
      rintro v (((hv | hv) | hv) | hv)
      · exact ht.mp (congrArg Function.trigger h) v hv
      · exact hc.mp (congrArg Function.condition h) v hv
      · exact ha.mp (congrArg Function.action h) v hv
      · exact hb.mp (congrArg Function.benefit h) v hv
  · intro h
    have hvalues := h.values
    simp only [Function.values, List.mem_append] at hvalues
    rw [ht.mpr fun v hv => hvalues v (.inl (.inl (.inl hv))),
      hc.mpr fun v hv => hvalues v (.inl (.inl (.inr hv))),
      ha.mpr fun v hv => hvalues v (.inl (.inr hv)), hb.mpr fun v hv => hvalues v (.inr hv),
      PyDict.reloaded_eq_iff.mpr h.attributes, MemoryNode.reloaded_eq_iff.mpr h.node,
      if_pos h.created, if_pos h.updated]

end Function

/-! ## The other nodes -/

theorem Fact.fromDict_toDict {f f' : Fact} (h : fromDict f.toDict f.id = .ok f') :
    f' = f ↔ f.toMemoryNode.Steady := by
  obtain ⟨base, hbase, heq⟩ := Except.bind_ok.mp h
  rw [MemoryNode.baseFromDict_base hbase] at heq
  rw [← MemoryNode.reloaded_eq_iff, ← Except.ok.inj heq]
  exact ⟨fun h => congrArg Fact.toMemoryNode h, fun h => by rw [h]; rfl⟩

theorem Preference.fromDict_toDict {p p' : Preference} (h : fromDict p.toDict p.id = .ok p') :
    p' = p ↔ p.toMemoryNode.Steady := by
  obtain ⟨base, hbase, heq⟩ := Except.bind_ok.mp h
  rw [MemoryNode.baseFromDict_base hbase] at heq
  rw [← MemoryNode.reloaded_eq_iff, ← Except.ok.inj heq]
  exact ⟨fun h => congrArg Preference.toMemoryNode h, fun h => by rw [h]; rfl⟩

theorem Observation.fromDict_toDict {o o' : Observation} (h : fromDict o.toDict o.id = .ok o') :
    o' = o ↔ o.toMemoryNode.Steady := by
  obtain ⟨base, hbase, heq⟩ := Except.bind_ok.mp h
  rw [MemoryNode.baseFromDict_base hbase] at heq
  rw [← MemoryNode.reloaded_eq_iff, ← Except.ok.inj heq]
  exact ⟨fun h => congrArg Observation.toMemoryNode h, fun h => by rw [h]; rfl⟩

end Memplex
