import Memplex.Auth.Lineage
import Memplex.Models.Reload
import Memplex.Lite.Erasure

/-!
# What a commit writes of a node

A node is written as a dictionary and read again from it. Its namespace comes back member by member
under the texts of its keys (`PyDict.reloaded`), so that what stands under a text is found under it
again, as long as no other key is written as that text. Every function, fact, preference and
observation of a store that is written is read, where the files are read at all.
-/

namespace Memplex

open Lib Lib.Mutator Lib.Json

/-! ## The keys of a dictionary -/

namespace PyDict

theorem isDigit_ne_p {c : Char} (h : c.isDigit = true) : c ≠ 'p' := by
  rintro rfl
  exact absurd h (by decide)

theorem toDigits_ne_p {n : ℕ} {c : Char} (h : c ∈ Nat.toDigits 10 n) : c ≠ 'p' :=
  isDigit_ne_p (Nat.isDigit_of_mem_toDigits (by decide) (by decide) h)

theorem signText_ne_p {neg : Bool} {c : Char} (h : c ∈ NumTok.signText neg) : c ≠ 'p' := by
  unfold NumTok.signText at h
  split_ifs at h
  · rw [List.mem_singleton.mp h]
    decide
  · exact (List.not_mem_nil h).elim

theorem strInt_ne_p {i : ℤ} {c : Char} (h : c ∈ strInt i) : c ≠ 'p' := by
  rcases List.mem_append.mp h with h | h
  · exact signText_ne_p h
  · exact toDigits_ne_p h

theorem mantissaText_ne_p {cs : List Char} (h : ∀ c ∈ cs, c ≠ 'p') {c : Char}
    (hc : c ∈ mantissaText cs) : c ≠ 'p' := by
  match cs with
  | [] => exact (List.not_mem_nil hc).elim
  | [_] => exact h c hc
  | x :: y :: cs =>
    rcases List.mem_cons.mp hc with rfl | hc
    · exact h _ List.mem_cons_self
    · rcases List.mem_cons.mp hc with rfl | hc
      · decide
      · exact h c (List.mem_cons_of_mem _ hc)

theorem reprExponent_ne_p {e : ℤ} {c : Char} (h : c ∈ reprExponent e) : c ≠ 'p' := by
  unfold reprExponent at h
  rcases List.mem_cons.mp h with rfl | h
  · split_ifs <;> decide
  · split_ifs at h
    · rcases List.mem_cons.mp h with rfl | h
      · decide
      · exact toDigits_ne_p h
    · exact toDigits_ne_p h

theorem reprFloat_ne_p {d : Dec} {c : Char} (h : c ∈ reprFloat d) : c ≠ 'p' := by
  have hdigits : ∀ c ∈ d.digits, c ≠ 'p' := fun c hc => isDigit_ne_p (d.digits_isDigit c hc)
  have hzeros : ∀ n, ∀ c ∈ List.replicate n '0', c ≠ 'p' := by
    intro n c hc
    rw [List.eq_of_mem_replicate hc]
    decide
  unfold reprFloat at h
  dsimp only at h
  split_ifs at h <;> simp only [List.mem_append, List.mem_cons, List.not_mem_nil, or_false] at h
  · rcases h with h | rfl | rfl | rfl
    · exact signText_ne_p h
    all_goals decide
  · rcases h with (h | h) | rfl | h
    · exact signText_ne_p h
    · exact mantissaText_ne_p hdigits h
    · decide
    · exact reprExponent_ne_p h
  · rcases h with h | rfl | rfl | h | h
    · exact signText_ne_p h
    · decide
    · decide
    · exact hzeros _ c h
    · exact hdigits c h
  · rcases h with ((h | h) | h) | rfl | rfl
    · exact signText_ne_p h
    · exact hdigits c h
    · exact hzeros _ c h
    all_goals decide
  · rcases h with (h | h) | rfl | h
    · exact signText_ne_p h
    · exact hdigits c (List.mem_of_mem_take h)
    · decide
    · exact hdigits c (List.mem_of_mem_drop h)

/-- A key with this letter is written for that text only: no number and no constant has it. -/
theorem jsonKey_eq {v : Value} {key : String} (hp : 'p' ∈ key.toList) (h : jsonKey v = key) :
    v = .str key := by
  have hchars : ∀ cs : List Char, String.ofList cs = key → (∀ c ∈ cs, c ≠ 'p') →
      v = .str key := by
    intro cs hcs hne
    rw [← hcs, String.toList_ofList] at hp
    exact absurd rfl (hne 'p' hp)
  have hconst : ∀ s : String, s = key → 'p' ∉ s.toList → v = .str key := by
    intro s hs hnot
    exact absurd (hs ▸ hp) hnot
  cases v with
  | null => exact hconst _ h (by decide)
  | bool b => cases b <;> exact hconst _ h (by decide)
  | num n =>
    cases n with
    | int i => exact hchars _ h fun _ => strInt_ne_p
    | float x =>
      cases x with
      | finite d => exact hchars _ h fun _ => reprFloat_ne_p
      | inf neg => cases neg <;> exact hconst _ h (by decide)
      | nan => exact hconst _ h (by decide)
  | str s => exact congrArg Json.str h
  | arr items => exact hconst "" h (by decide)
  | obj members => exact hconst "" h (by decide)

/-- The members of a dictionary that is written are those that it had. -/
theorem mem_toMembers {d : PyDict} {key : String} {v : Value} (h : (key, v) ∈ d.toMembers) :
    ∃ m ∈ d, jsonKey m.1 = key ∧ m.2 = v := by
  induction d using List.reverseRecOn with
  | nil => exact (List.not_mem_nil h).elim
  | append_singleton d m ih =>
    unfold toMembers at h ih
    rw [List.foldl_append, List.foldl_cons, List.foldl_nil] at h
    rcases mem_upsertRow.mp h with heq | ⟨h, -⟩
    · obtain ⟨hkey, hv⟩ := Prod.mk.inj heq
      exact ⟨m, List.mem_append_right _ (List.mem_singleton_self m), hkey.symm, hv.symm⟩
    · obtain ⟨m', hm', hboth⟩ := ih h
      exact ⟨m', List.mem_append_left _ hm', hboth⟩

/-- Every key of a dictionary is written. -/
theorem exists_mem_toMembers {d : PyDict} {m : Value × Value} (h : m ∈ d) :
    ∃ v, (jsonKey m.1, v) ∈ d.toMembers := by
  induction d using List.reverseRecOn with
  | nil => exact (List.not_mem_nil h).elim
  | append_singleton d last ih =>
    unfold toMembers at ih ⊢
    rw [List.foldl_append, List.foldl_cons, List.foldl_nil]
    rcases List.mem_append.mp h with h | h
    · obtain ⟨v, hv⟩ := ih h
      by_cases hkey : jsonKey m.1 = jsonKey last.1
      · exact ⟨last.2, mem_upsertRow.mpr (.inl (Prod.ext hkey rfl))⟩
      · exact ⟨v, mem_upsertRow.mpr (.inr ⟨hv, hkey⟩)⟩
    · rw [List.mem_singleton.mp h]
      exact ⟨last.2, mem_upsertRow.mpr (.inl rfl)⟩

/-- What stands under a text is the first row under it. -/
theorem getStr_eq (d : PyDict) (key : String) :
    d.getStr key = ((findRow Prod.fst (.str key) d).map Prod.snd).getD .null := by
  unfold getStr findRow
  simp only [keyEq_str]

/-- What stands under a text is found there when the dictionary has been written and read. -/
theorem getStr_reloaded {d : PyDict} (hnodup : (d.map Prod.fst).Nodup) {key : String}
    (hp : 'p' ∈ key.toList) : d.reloaded.getStr key = d.getStr key := by
  have hback : ∀ m ∈ d.reloaded, m.1 = .str key → (.str key, m.2) ∈ d := by
    intro m hm hkey
    obtain ⟨⟨s, v⟩, hmem, rfl⟩ := List.mem_map.mp hm
    obtain ⟨m, hold, hjson, rfl⟩ := mem_toMembers hmem
    have hsame : s = key := Json.str.inj hkey
    rw [← jsonKey_eq hp (hjson.trans hsame)]
    exact hold
  rw [getStr_eq, getStr_eq]
  cases hfind : findRow Prod.fst (.str key) d.reloaded with
  | none =>
    cases hold : findRow Prod.fst (.str key) d with
    | none => rfl
    | some m =>
      obtain ⟨hmem, hkey⟩ := findRow_some hold
      obtain ⟨v, hv⟩ := exists_mem_toMembers hmem
      rw [hkey] at hv
      exact absurd rfl (findRow_eq_none.mp hfind (.str key, v) (List.mem_map.mpr ⟨_, hv, rfl⟩))
  | some m =>
    obtain ⟨hmem, hkey⟩ := findRow_some hfind
    rw [findRow_of_mem hnodup (hback m hmem hkey)]
    rfl

end PyDict

/-! ## Reading nodes -/

namespace MemoryNode

/-- A node that is read from what was written of another one, as far as whose it is and who may see
it goes. -/
structure Reread (n n' : MemoryNode) : Prop where
  id : n'.id = n.id
  namespace_ : n'.namespace_ = n.namespace_.reloaded
  visibility : n'.visibility = n.visibility
  knowledgeTier : n'.knowledgeTier = n.knowledgeTier
  tenantId : n'.tenantId = n.tenantId

theorem baseFromDict_reread {n n' : MemoryNode} {id memoryType : String} {rest : Members}
    (h : baseFromDict (n.baseToDict ++ rest) id memoryType = .ok n') (hid : id = n.id) :
    n.Reread n' := by
  obtain ⟨_, -, h⟩ := Except.bind_ok.mp h
  obtain ⟨_, -, h⟩ := Except.bind_ok.mp h
  obtain ⟨_, -, h⟩ := Except.bind_ok.mp h
  obtain ⟨_, -, h⟩ := Except.bind_ok.mp h
  obtain ⟨_, -, h⟩ := Except.bind_ok.mp h
  obtain ⟨_, -, h⟩ := Except.bind_ok.mp h
  obtain ⟨ns, hns, h⟩ := Except.bind_ok.mp h
  rw [← Except.ok.inj h]
  exact ⟨hid, (Except.ok.inj hns).symm, rfl, rfl, rfl⟩

end MemoryNode

/-- A fold that does not raise takes a step at every element. -/
theorem Except.foldlM_step {ε σ α : Type} {f : σ → α → Except ε σ} {xs : List α} {s s' : σ}
    (h : xs.foldlM f s = .ok s') {x : α} (hx : x ∈ xs) : ∃ t t', f t x = .ok t' := by
  induction xs generalizing s with
  | nil => exact (List.not_mem_nil hx).elim
  | cons y xs ih =>
    rw [List.foldlM_cons] at h
    obtain ⟨t, hstep, hrest⟩ := Except.bind_ok.mp h
    rcases List.mem_cons.mp hx with rfl | hx
    · exact ⟨s, t, hstep⟩
    · exact ih hrest hx

section Decode

variable {env : Env} {now : Timestamp} {legacy g002 : Bool}

/-- A function that is read is what was written. -/
theorem decodeFunction_reread {f f' : Function}
    (h : decodeFunction env now legacy g002 (.obj f.toDict) = .ok f') :
    f.Reread f'.toMemoryNode := by
  obtain ⟨d, hd, h⟩ := Except.bind_ok.mp h
  obtain ⟨func, hfunc, h⟩ := Except.bind_ok.mp h
  obtain ⟨_, -, h⟩ := Except.bind_ok.mp h
  obtain ⟨_, -, h⟩ := Except.bind_ok.mp h
  obtain ⟨_, -, h⟩ := Except.bind_ok.mp h
  obtain rfl : func = f' := Except.ok.inj h
  obtain rfl : f.toDict = d := Json.obj.inj (Function.validateRawFunction_ok.mp hd).1
  obtain ⟨decoded, hdecoded, hinit⟩ := Except.bind_ok.mp hfunc
  have hread := MemoryNode.baseFromDict_reread (Function.decode_base hdecoded) rfl
  -- The clock fills in times only.
  rw [Function.postInit_ok hinit]
  exact ⟨hread.id, hread.namespace_, hread.visibility, hread.knowledgeTier, hread.tenantId⟩

/-- A fact that is read is what was written. -/
theorem decodeFact_reread {f f' : Fact}
    (h : decodeFact legacy g002 (.obj f.toDict) = .ok f') : f.Reread f'.toMemoryNode := by
  obtain ⟨d, hd, h⟩ := Except.bind_ok.mp h
  obtain ⟨fact, hfact, h⟩ := Except.bind_ok.mp h
  obtain ⟨_, -, h⟩ := Except.bind_ok.mp h
  obtain ⟨_, -, h⟩ := Except.bind_ok.mp h
  obtain ⟨_, -, h⟩ := Except.bind_ok.mp h
  obtain rfl : fact = f' := Except.ok.inj h
  obtain rfl : f.toDict = d := Json.obj.inj (validateRawFact_ok hd).1
  obtain ⟨base, hbase, heq⟩ := Except.bind_ok.mp hfact
  rw [← Except.ok.inj heq]
  exact MemoryNode.baseFromDict_reread hbase rfl

/-- A preference that is read is what was written. -/
theorem decodePreference_reread {p p' : Preference}
    (h : decodePreference legacy g002 (.obj p.toDict) = .ok p') : p.Reread p'.toMemoryNode := by
  obtain ⟨d, hd, h⟩ := Except.bind_ok.mp h
  obtain ⟨pref, hpref, h⟩ := Except.bind_ok.mp h
  obtain ⟨_, -, h⟩ := Except.bind_ok.mp h
  obtain ⟨_, -, h⟩ := Except.bind_ok.mp h
  obtain ⟨_, -, h⟩ := Except.bind_ok.mp h
  obtain rfl : pref = p' := Except.ok.inj h
  obtain rfl : p.toDict = d := Json.obj.inj (validateRawPreference_ok hd).1
  obtain ⟨base, hbase, heq⟩ := Except.bind_ok.mp hpref
  rw [← Except.ok.inj heq]
  exact MemoryNode.baseFromDict_reread hbase rfl

/-- An observation that is read is what was written. -/
theorem decodeObservation_reread {o o' : Observation}
    (h : decodeObservation legacy g002 (.obj o.toDict) = .ok o') : o.Reread o'.toMemoryNode := by
  obtain ⟨d, hd, h⟩ := Except.bind_ok.mp h
  obtain ⟨observation, hobservation, h⟩ := Except.bind_ok.mp h
  obtain ⟨_, -, h⟩ := Except.bind_ok.mp h
  obtain ⟨_, -, h⟩ := Except.bind_ok.mp h
  obtain ⟨_, -, h⟩ := Except.bind_ok.mp h
  obtain rfl : observation = o' := Except.ok.inj h
  obtain rfl : o.toDict = d := Json.obj.inj (validateRawObservation_ok hd).1
  obtain ⟨base, hbase, heq⟩ := Except.bind_ok.mp hobservation
  rw [← Except.ok.inj heq]
  exact MemoryNode.baseFromDict_reread hbase rfl

end Decode

/-! ## Reading a store -/

namespace LiteMemory

section Written

variable {env : Env} {now : Timestamp} {m : LiteMemory} {d : Decoded}

/-- Each element of a collection that was loaded was decoded. -/
theorem loadItems_decoded {ν κ : Type} [DecidableEq κ] {key : ν → κ} {duplicate : PyError}
    {decode : Value → Except PyError ν} {t t' : Table key} {items : List Value}
    (h : loadItems duplicate decode t items = .ok t') {raw : Value} (hraw : raw ∈ items) :
    ∃ r, decode raw = .ok r := by
  obtain ⟨_, _, hstep⟩ := Except.foldlM_step h hraw
  obtain ⟨r, hr, -⟩ := Except.bind_ok.mp hstep
  exact ⟨r, hr⟩

/-- All nodes that were written are read, each from its document. -/
structure Rereads (env : Env) (now : Timestamp) (m : LiteMemory) : Prop where
  functions : ∀ f ∈ m.functions.rows,
    ∃ f', decodeFunction env now false false (.obj f.toDict) = .ok f'
  facts : ∀ f ∈ m.facts.rows, ∃ f', decodeFact false false (.obj f.toDict) = .ok f'
  preferences : ∀ p ∈ m.preferences.rows,
    ∃ p', decodePreference false false (.obj p.toDict) = .ok p'
  observations : ∀ o ∈ m.observations,
    ∃ o', decodeObservation false false (.obj o.toDict) = .ok o'

theorem decodePair_rereads (h : decodePair env now m.rawPair.pair = .ok d) : m.Rereads env now := by
  obtain ⟨nodes, hnodes, h⟩ := Except.bind_ok.mp h
  obtain ⟨acc, hacc, h⟩ := Except.bind_ok.mp h
  obtain ⟨_, -, h⟩ := Except.bind_ok.mp h
  obtain ⟨_, -, h⟩ := Except.bind_ok.mp h
  obtain ⟨_, -, h⟩ := Except.bind_ok.mp h
  obtain ⟨observationItems, hobservationItems, h⟩ := Except.bind_ok.mp h
  obtain ⟨observations, hobservations, h⟩ := Except.bind_ok.mp h
  obtain ⟨factItems, hfactItems, h⟩ := Except.bind_ok.mp h
  obtain ⟨facts, hfacts, h⟩ := Except.bind_ok.mp h
  obtain ⟨prefItems, hprefItems, h⟩ := Except.bind_ok.mp h
  obtain ⟨prefs, hprefs, h⟩ := Except.bind_ok.mp h
  refine ⟨fun f hf => ?_, fun f hf => ?_, fun p hp => ?_, fun o ho => ?_⟩
  · obtain rfl : m.functions.rows.map (fun f => (.obj f.toDict : Value)) = nodes :=
      Except.ok.inj hnodes
    obtain ⟨acc₀, acc₁, hstep⟩ := Except.foldlM_step hacc (List.mem_map_of_mem hf)
    -- What is written is no historical document.
    change loadNode env now false false acc₀ (.obj f.toDict) = .ok acc₁ at hstep
    simp only [loadNode, Bool.false_and, Bool.false_eq_true, if_false] at hstep
    obtain ⟨f', hf', -⟩ := Except.bind_ok.mp hstep
    exact ⟨f', hf'⟩
  · obtain rfl : m.facts.rows.map (fun f => (.obj f.toDict : Value)) = factItems :=
      Except.ok.inj hfactItems
    exact loadItems_decoded hfacts (List.mem_map_of_mem hf)
  · obtain rfl : m.preferences.rows.map (fun p => (.obj p.toDict : Value)) = prefItems :=
      Except.ok.inj hprefItems
    exact loadItems_decoded hprefs (List.mem_map_of_mem hp)
  · obtain rfl : m.observations.map (fun o => (.obj o.toDict : Value)) = observationItems :=
      Except.ok.inj hobservationItems
    exact loadItems_decoded hobservations (List.mem_map_of_mem ho)

end Written

end LiteMemory

end Memplex
