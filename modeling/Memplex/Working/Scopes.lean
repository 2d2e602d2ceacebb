import Memplex.Working.Memory
import Mathlib.Data.Set.Basic

/-!
# Scopes of the working memory

Reading a scope back and writing it agree on the keys and scopes that are `Plain` only
(`plain_iff`). A memory to which only plain keys are added keeps its scopes apart in every run, and
every key that is not plain is recalled under a scope it was not added under (`isolated_iff`). The
induction is over the run: an entry is the one that the last call under its text has put there
(`rows_exec`), as every other call keeps entries or drops them (`kept_apply`).
-/

namespace Memplex.Working

open Lib

/-! ## Reading a scope back -/

/-- The keys and scopes that are read back: without a scope, the key has no separator after its
first character; with one, the key neither has a separator nor starts with a colon, and the scope
does not end with a colon unless it is one. -/
def Plain (key : String) (scope : Option String) : Prop :=
  match givenScope scope with
  | none => ¬ separator <:+: key.toList.tail
  | some s =>
    ¬ separator <:+: ':' :: key.toList ∧ (s.toList.getLast? = some ':' → s = ":")

section Separators

/-- A text with a separator has a last one. -/
theorem exists_last_separator {text : List Char} (h : separator <:+: text) :
    ∃ front rest, text = front ++ separator ++ rest ∧ ¬ separator <:+: rest := by
  induction text with
  | nil => exact absurd h (by decide)
  | cons c text ih =>
    by_cases htext : separator <:+: text
    · obtain ⟨front, rest, rfl, hrest⟩ := ih htext
      exact ⟨c :: front, rest, rfl, hrest⟩
    · rcases List.infix_cons_iff.mp h with ⟨rest, hrest⟩ | hin
      · -- The only separator is the one at the front.
        refine ⟨[], rest, by simpa using hrest.symm, fun hin => htext ?_⟩
        have htail : ':' :: rest = text := (List.cons.inj hrest).2
        exact htail ▸ hin.trans ((List.suffix_cons ':' rest).isInfix)
      · exact absurd hin htext

/-- Two ways to split a text at a separator agree, where the rests have no separator, the first rest
does not start with a colon and the second front does not go on with one. -/
theorem split_unique {s k s' rest : List Char} (hk : ¬ separator <:+: ':' :: k)
    (hs : s.getLast? = some ':' → s = [':']) (hs' : s' ≠ []) (hrest : ¬ separator <:+: rest)
    (heq : s ++ separator ++ k = s' ++ separator ++ rest) : s' = s := by
  rw [List.append_assoc, List.append_assoc] at heq
  rcases List.append_eq_append_iff.mp heq with ⟨more, hmore, hk'⟩ | ⟨more, hmore, hrest'⟩
  · -- The second separator stands further to the right.
    cases more with
    | nil => simpa using hmore
    | cons c more =>
      have htail : ':' :: k = more ++ separator ++ rest := by
        rw [List.append_assoc]
        exact (List.cons.inj hk').2
      exact absurd ⟨more, rest, htail.symm⟩ hk
  · -- The second separator stands further to the left: at most by one, as its rest has none.
    match more, hmore, hrest' with
    | [], hmore, _ => simpa using hmore.symm
    | [c], hmore, hrest' =>
      obtain rfl : ':' = c := (List.cons.inj hrest').1
      have hlast : s.getLast? = some ':' := by rw [hmore, List.getLast?_concat]
      have hone : s' ++ [':'] = [':'] := hmore.symm.trans (hs hlast)
      exact absurd (List.append_left_eq_self.mp hone) hs'
    | c :: c' :: more, _, hrest' =>
      have htail : rest = more ++ separator ++ k := by
        rw [List.append_assoc]
        exact (List.cons.inj (List.cons.inj hrest').2).2
      exact absurd ⟨more, k, htail.symm⟩ hrest

end Separators

/-- A scope that is given is not empty. -/
theorem givenScope_ne {scope : Option String} {s : String} (h : givenScope scope = some s) :
    s.toList ≠ [] := by
  have hne : s ≠ "" := by simpa using (Option.filter_eq_some_iff.mp h).2
  exact fun heq => hne (String.toList_inj.mp heq)

/-- A given scope is recalled where it stands before a separator, and the last one. -/
theorem recalls_iff {scope : Option String} {s key : String} (hs : givenScope scope = some s) :
    Recalls scope key ↔
      ∃ rest, key.toList = s.toList ++ separator ++ rest ∧ ¬ separator <:+: rest := by
  have hprefix : (s ++ "::").toList = s.toList ++ separator := String.toList_append
  have hunfold : Recalls scope key ↔ (s ++ "::").toList <+: key.toList ∧
      ¬ separator <:+: key.toList.drop (s ++ "::").toList.length := by
    rw [Recalls, hs]
  rw [hunfold, hprefix]
  constructor
  · rintro ⟨⟨rest, hrest⟩, hnone⟩
    rw [← hrest, List.drop_left] at hnone
    exact ⟨rest, hrest.symm, hnone⟩
  · rintro ⟨rest, hrest, hnone⟩
    rw [hrest, List.drop_left]
    exact ⟨List.prefix_append _ _, hnone⟩

/-- The text of a scope and a key. -/
theorem toList_scopedKey {key s : String} {scope : Option String} (hs : givenScope scope = some s) :
    (scopedKey key scope).toList = s.toList ++ separator ++ key.toList := by
  rw [scopedKey, hs, String.toList_append, String.toList_append]
  rfl

/-- Without a scope, the text is the key. -/
theorem scopedKey_of_none {key : String} {scope : Option String} (hs : givenScope scope = none) :
    scopedKey key scope = key := by
  rw [scopedKey, hs]

/-- A recall without a scope takes no key that has one. -/
theorem not_recalls_none {key s : String} {scope scope' : Option String}
    (hs : givenScope scope = some s) (hs' : givenScope scope' = none) :
    ¬ Recalls scope' (scopedKey key scope) := by
  rw [Recalls, hs', not_not, toList_scopedKey hs]
  exact ⟨s.toList, key.toList, rfl⟩

/-- A scope that is given as a list of characters. -/
theorem exists_scope {front : List Char} (h : front ≠ []) :
    givenScope (some (String.ofList front)) = some (String.ofList front) := by
  refine Option.filter_eq_some_iff.mpr ⟨rfl, ?_⟩
  have hne : String.ofList front ≠ "" := fun heq =>
    h (by simpa using congrArg String.toList heq)
  simpa using hne

/-- The plain keys and scopes are those that are recalled under no other scope. -/
theorem plain_iff (key : String) (scope : Option String) :
    Plain key scope ↔
      ∀ scope', Recalls scope' (scopedKey key scope) → givenScope scope' = givenScope scope := by
  cases hs : givenScope scope with
  | none =>
    rw [Plain, hs, scopedKey_of_none hs]
    constructor
    · intro hplain scope' hrecall
      cases hs' : givenScope scope' with
      | none => rfl
      | some s' =>
        obtain ⟨rest, hkey, -⟩ := (recalls_iff hs').mp hrecall
        obtain ⟨c, front, hfront⟩ := List.exists_cons_of_ne_nil (givenScope_ne hs')
        exact absurd ⟨front, rest, by rw [hkey, hfront]; rfl⟩ hplain
    · -- A separator after the first character makes a scope of what is before it.
      rintro hown hin
      obtain ⟨front, rest, htail, hrest⟩ := exists_last_separator hin
      cases hkey : key.toList with
      | nil =>
        rw [hkey] at hin
        exact absurd hin (by decide)
      | cons c tail =>
        rw [hkey, List.tail_cons] at htail
        have hgiven := exists_scope (List.cons_ne_nil c front)
        have hrecall : Recalls _ key := (recalls_iff hgiven).mpr
          ⟨rest, by rw [hkey, htail, String.toList_ofList]; rfl, hrest⟩
        exact absurd (hgiven.symm.trans (hown _ hrecall)) (Option.some_ne_none _)
  | some s =>
    rw [Plain, hs]
    constructor
    · rintro ⟨hkey, hlast⟩ scope' hrecall
      cases hs' : givenScope scope' with
      | none => exact absurd hrecall (not_recalls_none hs hs')
      | some s' =>
        obtain ⟨rest, heq, hrest⟩ := (recalls_iff hs').mp hrecall
        rw [toList_scopedKey hs] at heq
        have hone : s.toList.getLast? = some ':' → s.toList = [':'] := fun h => by
          rw [hlast h]
          rfl
        have hsame := split_unique hkey hone (givenScope_ne hs') hrest heq
        rw [String.toList_inj.mp hsame]
    · intro hown
      have hkey : ¬ separator <:+: ':' :: key.toList := by
        -- A later separator makes a longer scope.
        intro hin
        obtain ⟨front, rest, hfront, hrest⟩ := exists_last_separator hin
        have hgiven := exists_scope (List.append_ne_nil_of_right_ne_nil s.toList (List.cons_ne_nil ':' front))
        have hcolons : separator ++ key.toList = ':' :: (front ++ separator ++ rest) := by
          rw [← hfront]
          rfl
        have hrecall : Recalls _ (scopedKey key scope) := (recalls_iff hgiven).mpr
          ⟨rest, by
            rw [toList_scopedKey hs, String.toList_ofList, List.append_assoc, hcolons]
            simp, hrest⟩
        have hsame := congrArg String.toList (Option.some.inj (hgiven.symm.trans (hown _ hrecall)))
        rw [String.toList_ofList] at hsame
        exact absurd (List.append_right_eq_self.mp hsame) (List.cons_ne_nil _ _)
      refine ⟨hkey, fun hlast => ?_⟩
      -- A colon at its end makes a shorter scope, where something is left.
      by_contra hne
      obtain ⟨front, hfront⟩ := List.getLast?_eq_some_iff.mp hlast
      have hnil : front ≠ [] := by
        rintro rfl
        exact hne (String.toList_inj.mp (by rw [hfront]; rfl))
      have hgiven := exists_scope hnil
      have hrecall : Recalls _ (scopedKey key scope) := (recalls_iff hgiven).mpr
        ⟨':' :: key.toList, by
          rw [toList_scopedKey hs, String.toList_ofList, hfront]
          simp [separator], hkey⟩
      have hsame := congrArg String.toList (Option.some.inj (hgiven.symm.trans (hown _ hrecall)))
      rw [String.toList_ofList, hfront] at hsame
      exact absurd (List.append_right_eq_self.mp hsame.symm) (List.cons_ne_nil _ _)

/-- A plain key with a scope is recalled under it. -/
theorem recalls_of_plain {key s : String} {scope : Option String} (hs : givenScope scope = some s)
    (h : Plain key scope) : Recalls scope (scopedKey key scope) := by
  rw [Plain, hs] at h
  exact (recalls_iff hs).mpr ⟨key.toList, toList_scopedKey hs, fun hin =>
    h.1 (hin.trans (List.suffix_cons ':' key.toList).isInfix)⟩

/-- Plain keys that give one text have one scope. -/
theorem plain_unique {key key' : String} {scope scope' : Option String} (h : Plain key scope)
    (h' : Plain key' scope') (heq : scopedKey key scope = scopedKey key' scope') :
    givenScope scope = givenScope scope' := by
  cases hs : givenScope scope with
  | some s =>
    rw [← hs]
    exact (plain_iff key' scope').mp h' scope (heq ▸ recalls_of_plain hs h)
  | none =>
    cases hs' : givenScope scope' with
    | some s' =>
      rw [← hs, ← hs']
      exact ((plain_iff key scope).mp h scope' (heq ▸ recalls_of_plain hs' h')).symm
    | none => rfl

/-! ## Runs -/

/-- A call of a method, with its arguments and its readings of the clock. -/
inductive Call (τ : Type)
  | add (call : AddCall τ)
  | addReference (memoryId storageNamespace tenantId : String) (pinned : Bool)
      (ttlSeconds : Option τ) (pruneNow deadlineNow : τ)
  | recallReferences (storageNamespace tenantId : String) (limit : ℤ) (now : τ)
  | removeReference (memoryId storageNamespace tenantId : String)
  | setReferencePinned (memoryId storageNamespace tenantId : String) (pinned : Bool)
      (ttlSeconds : Option τ) (pruneNow deadlineNow : τ)
  | pin (key : String)
  | unpin (key : String) (ttlSeconds : Option τ) (now : τ)
  | remove (key : String)
  | clear
  | recallContext (limit : ℤ) (scope : Option String) (acl : Option (Entry τ → Bool)) (now : τ)
  | len (now : τ)

namespace Memory

variable {τ : Type} (clock : Clock τ)

/-- The memory after a call. -/
def apply (m : Memory τ) : Call τ → Memory τ
  | .add call => m.add clock call
  | .addReference memoryId storageNamespace tenantId pinned ttlSeconds pruneNow deadlineNow =>
    (m.addReference clock memoryId storageNamespace tenantId pinned ttlSeconds pruneNow
      deadlineNow).1
  | .recallReferences storageNamespace tenantId limit now =>
    (m.recallReferences clock storageNamespace tenantId limit now).1
  | .removeReference memoryId storageNamespace tenantId =>
    (m.removeReference memoryId storageNamespace tenantId).1
  | .setReferencePinned memoryId storageNamespace tenantId pinned ttlSeconds pruneNow
      deadlineNow =>
    (m.setReferencePinned clock memoryId storageNamespace tenantId pinned ttlSeconds pruneNow
      deadlineNow).1
  | .pin key => (m.pin key).1
  | .unpin key ttlSeconds now => (m.unpin clock key ttlSeconds now).1
  | .remove key => (m.remove key).1
  | .clear => m.clear
  | .recallContext limit scope acl now => (m.recallContext clock limit scope acl now).1
  | .len now => (m.len clock now).1

/-- The memory after a run. -/
def exec (m : Memory τ) (run : List (Call τ)) : Memory τ := run.foldl (apply clock) m

/-- The call of `add`, if the call is one, that puts an entry under a text. -/
def wrote (m : Memory τ) : Call τ → String → Option (AddCall τ)
  | .add call, key =>
    if call.scopedKey = key ∧ (m.roomFor clock call).isSome then some call else none
  | _, _ => none

/-- The last call of a run that put an entry under a text. -/
def writer (m : Memory τ) : List (Call τ) → String → Option (AddCall τ)
  | [], _ => none
  | call :: run, key => (writer (m.apply clock call) run key).or (m.wrote clock call key)

end Memory

/-- In a run from `m` the scopes are kept apart: a recall returns only entries that were added under
its own scope, and an `add` only replaces entries that were added under its own. -/
structure Isolated {τ : Type} (clock : Clock τ) (m : Memory τ) (run : List (Call τ)) : Prop where
  recalled : ∀ before limit scope acl now after,
    run = before ++ .recallContext limit scope acl now :: after →
      ∀ row ∈ (m.exec clock before).recalled clock limit scope acl now,
        ∃ call, m.writer clock before row.key = some call ∧
          row.entry.content = call.content ∧ givenScope call.scope = givenScope scope
  replaced : ∀ before call after, run = before ++ .add call :: after →
    ∀ row ∈ (m.exec clock before).entries.rows,
      (m.exec clock before).wrote clock (.add call) row.key = some call →
        ∃ old, m.writer clock before row.key = some old ∧
          row.entry.content = old.content ∧ givenScope old.scope = givenScope call.scope

section Runs

variable {τ : Type} (clock : Clock τ)

/-- Every entry of `m'` is one of `m`, under the same key and with the same text. -/
def Kept (m m' : Memory τ) : Prop :=
  ∀ row ∈ m'.entries.rows, ∃ old ∈ m.entries.rows,
    old.key = row.key ∧ old.entry.content = row.entry.content

theorem Kept.of_subset {m m' : Memory τ} (h : m'.entries.rows ⊆ m.entries.rows) : Kept m m' :=
  fun row hrow => ⟨row, h hrow, rfl, rfl⟩

theorem Kept.trans {m m' m'' : Memory τ} (h : Kept m m') (h' : Kept m' m'') : Kept m m'' := by
  intro row hrow
  obtain ⟨mid, hmid, hkey, hcontent⟩ := h' row hrow
  obtain ⟨old, hold, hkey', hcontent'⟩ := h mid hmid
  exact ⟨old, hold, hkey'.trans hkey, hcontent'.trans hcontent⟩

/-- Pruning only drops entries. -/
theorem kept_prune (now : τ) (m : Memory τ) : Kept m (m.prune clock now) :=
  .of_subset fun _ hrow => (List.mem_filter.mp hrow).1

/-- Making room only drops entries. -/
theorem kept_makeRoom {m room : Memory τ} (h : m.makeRoom = some room) : Kept m room := by
  have herase : ∀ key, eraseRow Row.key key m.entries.rows ⊆ m.entries.rows :=
    fun _ _ hrow => (mem_eraseRow.mp hrow).1
  unfold Memory.makeRoom at h
  split_ifs at h
  · exact Option.some.inj h ▸ .of_subset (List.Subset.refl _)
  · cases hl : m.oldestLegacy <;> cases hr : m.oldestReference <;> rw [hl, hr] at h
    · exact absurd h.symm (Option.some_ne_none _)
    · exact Option.some.inj h ▸ .of_subset (List.Subset.refl _)
    · exact Option.some.inj h ▸ .of_subset (herase _)
    · dsimp only at h
      split_ifs at h
      · exact Option.some.inj h ▸ .of_subset (List.Subset.refl _)
      · exact Option.some.inj h ▸ .of_subset (herase _)

/-- The pruned memory, with room for an item that may be there already. -/
theorem kept_room {m room : Memory τ} {now : τ} {there : Bool}
    (h : (if there then some (m.prune clock now) else (m.prune clock now).makeRoom) = some room) :
    Kept m room := by
  cases there with
  | true => exact Option.some.inj h ▸ kept_prune clock now m
  | false => exact (kept_prune clock now m).trans (kept_makeRoom h)

/-- A change of an entry keeps its key, and its text where the change does. -/
theorem kept_update {m : Memory τ} {key : String} {change : Entry τ → Entry τ}
    (hchange : ∀ entry, (change entry).content = entry.content) :
    Kept m (m.update key change).1 := by
  unfold Memory.update
  cases hrow : m.entries.get? key with
  | none => exact .of_subset (List.Subset.refl _)
  | some old =>
    intro row hmem
    rcases mem_upsertRow.mp hmem with rfl | ⟨hold, -⟩
    · exact ⟨old, (findRow_some hrow).1, rfl, (hchange old.entry).symm⟩
    · exact ⟨row, hold, rfl, rfl⟩

/-- A call that is not `add` keeps entries or drops them. -/
theorem kept_apply {call : Call τ} (h : ∀ c, call ≠ .add c) (m : Memory τ) :
    Kept m (m.apply clock call) := by
  cases call with
  | add c => exact absurd rfl (h c)
  | addReference memoryId storageNamespace tenantId pinned ttlSeconds pruneNow deadlineNow =>
    by_cases hempty : memoryId = "" ∨ storageNamespace = "" ∨ tenantId = ""
    · rw [Memory.apply, Memory.addReference, if_pos hempty]
      exact .of_subset (List.Subset.refl _)
    · rw [Memory.apply, Memory.addReference, if_neg hempty]
      dsimp only
      split
      · exact kept_prune clock pruneNow m
      · next room hroom =>
        have hkept : Kept m room := kept_room clock hroom
        exact hkept
  | recallReferences storageNamespace tenantId limit now => exact kept_prune clock now m
  | removeReference memoryId storageNamespace tenantId =>
    exact .of_subset (List.Subset.refl _)
  | setReferencePinned memoryId storageNamespace tenantId pinned ttlSeconds pruneNow deadlineNow =>
    unfold Memory.apply Memory.setReferencePinned
    dsimp only
    split <;> exact kept_prune clock pruneNow m
  | pin key => exact kept_update fun _ => rfl
  | unpin key ttlSeconds now => exact kept_update fun _ => rfl
  | remove key => exact .of_subset fun _ hrow => (mem_eraseRow.mp hrow).1
  | clear => exact .of_subset (List.nil_subset _)
  | recallContext limit scope acl now => exact kept_prune clock now m
  | len now => exact kept_prune clock now m

/-- The memory with room for an entry has no more entries than before. -/
theorem kept_roomFor {m room : Memory τ} {call : AddCall τ}
    (h : m.roomFor clock call = some room) : Kept m room ∧ call.key ≠ "" := by
  unfold Memory.roomFor at h
  by_cases hempty : call.key = "" ∨ call.content = ""
  · rw [if_pos hempty] at h
    exact absurd h.symm (Option.some_ne_none _)
  · rw [if_neg hempty] at h
    exact ⟨kept_room clock h, fun he => hempty (.inl he)⟩

/-- A call of `add` writes under its own text, and only with a key. -/
theorem wrote_add {m : Memory τ} {call : AddCall τ} {key : String}
    (h : m.wrote clock (.add call) key = some call) : call.scopedKey = key ∧ call.key ≠ "" := by
  rw [Memory.wrote] at h
  split_ifs at h with hc
  obtain ⟨room, hroom⟩ := Option.isSome_iff_exists.mp hc.2
  exact ⟨hc.1, (kept_roomFor clock hroom).2⟩

/-- An entry after a call is the one that the call wrote, or an old one under a text that the call
wrote nothing under. -/
theorem rows_apply {m : Memory τ} {call : Call τ} {row : Row τ}
    (hrow : row ∈ (m.apply clock call).entries.rows) :
    (∃ c, call = .add c ∧ m.wrote clock call row.key = some c ∧ c.key ≠ "" ∧
      c.scopedKey = row.key ∧ row.entry.content = c.content) ∨
    (m.wrote clock call row.key = none ∧ ∃ old ∈ m.entries.rows,
      old.key = row.key ∧ old.entry.content = row.entry.content) := by
  by_cases hadd : ∃ c, call = .add c
  · obtain ⟨c, rfl⟩ := hadd
    cases hroom : m.roomFor clock c with
    | none =>
      have hnone : m.wrote clock (.add c) row.key = none := by
        rw [Memory.wrote, hroom, Option.isSome_none, if_neg (fun h => Bool.noConfusion h.2)]
      rw [Memory.apply, Memory.add, hroom] at hrow
      dsimp only at hrow
      split_ifs at hrow
      · exact .inr ⟨hnone, row, hrow, rfl, rfl⟩
      · exact .inr ⟨hnone, kept_prune clock c.pruneNow m row hrow⟩
    | some room =>
      obtain ⟨hkept, hne⟩ := kept_roomFor clock hroom
      rw [Memory.apply, Memory.add, hroom] at hrow
      rcases mem_upsertRow.mp hrow with rfl | ⟨hold, hkey⟩
      · refine .inl ⟨c, rfl, ?_, hne, rfl, rfl⟩
        rw [Memory.wrote, hroom]
        exact if_pos ⟨rfl, rfl⟩
      · refine .inr ⟨?_, hkept row hold⟩
        rw [Memory.wrote, if_neg (fun h => hkey h.1.symm)]
  · have hnone : m.wrote clock call row.key = none := by
      cases call with
      | add c => exact absurd ⟨c, rfl⟩ hadd
      | _ => rfl
    exact .inr ⟨hnone, kept_apply clock (fun c h => hadd ⟨c, h⟩) m row hrow⟩

/-- An entry after a run is the one that the last call that wrote under its text has put there, or,
where there was no such call, one from before the run. -/
theorem rows_exec {m : Memory τ} {run : List (Call τ)} {row : Row τ}
    (hrow : row ∈ (m.exec clock run).entries.rows) :
    (∃ c, .add c ∈ run ∧ m.writer clock run row.key = some c ∧ c.key ≠ "" ∧
      c.scopedKey = row.key ∧ row.entry.content = c.content) ∨
    (m.writer clock run row.key = none ∧ ∃ old ∈ m.entries.rows,
      old.key = row.key ∧ old.entry.content = row.entry.content) := by
  induction run generalizing m with
  | nil => exact .inr ⟨rfl, row, hrow, rfl, rfl⟩
  | cons call run ih =>
    rcases ih hrow with ⟨c, hmem, hwriter, hc⟩ | ⟨hnone, mid, hmid, hkey, hcontent⟩
    · exact .inl ⟨c, List.mem_cons_of_mem _ hmem, by rw [Memory.writer, hwriter]; rfl, hc⟩
    · -- Nothing was written later, so that the row is there after the first call.
      rw [Memory.writer, hnone, Option.none_or, ← hkey, ← hcontent]
      rcases rows_apply clock hmid with ⟨c, rfl, hc⟩ | hold
      · exact .inl ⟨c, List.mem_cons_self, hc⟩
      · exact .inr hold

variable (maxEntries : ℤ) (defaultTtl : τ)

/-- A memory to which only plain keys are added keeps the scopes apart. -/
theorem isolated_of_plain {run : List (Call τ)}
    (h : ∀ c, .add c ∈ run → c.key ≠ "" → Plain c.key c.scope) :
    Isolated clock (.new maxEntries defaultTtl) run where
  recalled := by
    rintro before limit scope acl now after rfl row hrow
    -- The row is in the memory, and its text is recalled under the scope.
    have hallowed := List.mem_of_mem_take hrow
    have hsorted := (List.mem_filter.mp hallowed).1
    have hin := List.mem_filter.mp ((List.mergeSort_perm _ _).mem_iff.mp hsorted)
    have hthere := (List.mem_filter.mp hin.1).1
    have hrecall : Recalls scope row.key := of_decide_eq_true hin.2
    rcases rows_exec clock hthere with ⟨c, hmem, hwriter, hne, hkey, hcontent⟩ | ⟨-, old, hold, -⟩
    · have hplain := h c (List.mem_append_left _ hmem) hne
      rw [← hkey] at hrecall
      exact ⟨c, hwriter, hcontent, ((plain_iff _ _).mp hplain scope hrecall).symm⟩
    · exact absurd hold List.not_mem_nil
  replaced := by
    rintro before call after rfl row hrow hwrote
    obtain ⟨hkey, hne'⟩ := wrote_add clock hwrote
    rcases rows_exec clock hrow with ⟨c, hmem, hwriter, hne, hkey', hcontent⟩ | ⟨-, old, hold, -⟩
    · have hplain := h c (List.mem_append_left _ hmem) hne
      have hplain' := h call (List.mem_append_right _ List.mem_cons_self) hne'
      exact ⟨c, hwriter, hcontent, plain_unique hplain hplain' (hkey'.trans hkey.symm)⟩
    · exact absurd hold List.not_mem_nil

/-- The only entry, where it does not expire, is returned under the scopes that its text is recalled
under. -/
theorem recalled_singleton {m : Memory τ} {row : Row τ} {scope : Option String} {now : τ}
    (hrows : m.entries.rows = [row]) (hexpires : row.entry.expiresAt = none)
    (hrecall : Recalls scope row.key) : m.recalled clock 1 scope none now = [row] := by
  have hpruned : (m.prune clock now).entries.rows = [row] := by
    have hlive : (!Memory.expired clock now row.entry.expiresAt) = true := by
      rw [hexpires]
      rfl
    exact (congrArg (List.filter _) hrows).trans (List.filter_cons_of_pos hlive)
  unfold Memory.recalled
  simp [hpruned, hrecall]

/-- One entry that is pinned, and a recall under some scope. -/
def recallOne (key : String) (scope scope' : Option String) (t : τ) : List (Call τ) :=
  [.add ⟨key, "text", "note", none, true, scope, none, none, "tenant", t, t, t⟩,
    .recallContext 1 scope' none t]

/-- An entry is returned under every scope that its text is recalled under. -/
theorem not_isolated {key : String} {scope scope' : Option String} (hkey : key ≠ "")
    (h : Recalls scope' (scopedKey key scope)) (hne : givenScope scope' ≠ givenScope scope) :
    ¬ Isolated clock (.new maxEntries defaultTtl) (recallOne key scope scope' defaultTtl) := by
  intro hisolated
  let call : AddCall τ := ⟨key, "text", "note", none, true, scope, none, none, "tenant", defaultTtl,
    defaultTtl, defaultTtl⟩
  let start : Memory τ := .new maxEntries defaultTtl
  have hlt : 0 < start.maxEntries := start.maxEntries_pos
  have hroom : start.roomFor clock call = some start := by
    have hargs : ¬ (key = "" ∨ "text" = "") := by
      rintro (h | h)
      · exact hkey h
      · exact absurd h (by decide)
    rw [Memory.roomFor, if_neg hargs]
    exact (if_neg Bool.false_ne_true).trans (if_pos hlt)
  have hentries : (start.exec clock [.add call]).entries.rows = [start.newRow clock call] := by
    rw [Memory.exec, List.foldl_cons, List.foldl_nil, Memory.apply, Memory.add, hroom]
    rfl
  have hwriter : start.writer clock [.add call] call.scopedKey = some call := by
    rw [Memory.writer, Memory.writer, Memory.wrote, hroom, if_pos ⟨rfl, rfl⟩]
    rfl
  have hrow : (start.exec clock [.add call]).recalled clock 1 scope' none defaultTtl =
      [start.newRow clock call] := recalled_singleton clock hentries rfl h
  obtain ⟨old, hold, -, hscope⟩ := hisolated.recalled [.add call] 1 scope' none defaultTtl [] rfl _
    (hrow ▸ List.mem_singleton_self _)
  obtain rfl : call = old := Option.some.inj (hwriter.symm.trans hold)
  exact hne hscope.symm

/-- The scopes are kept apart in every run that only adds certain keys under certain scopes, exactly
if these are all plain. -/
theorem isolated_iff (calls : Set (String × Option String)) :
    (∀ run : List (Call τ), (∀ c, .add c ∈ run → (c.key, c.scope) ∈ calls) →
        Isolated clock (.new maxEntries defaultTtl) run) ↔
      ∀ call ∈ calls, call.1 ≠ "" → Plain call.1 call.2 := by
  constructor
  · intro h call hcall hkey
    rw [plain_iff]
    intro scope' hrecall
    by_contra hne
    refine not_isolated clock maxEntries defaultTtl hkey hrecall hne (h _ fun c hc => ?_)
    rcases List.mem_cons.mp hc with heq | hc
    · obtain rfl := Call.add.inj heq
      exact hcall
    · exact nomatch List.mem_singleton.mp hc
  · intro h run hrun
    exact isolated_of_plain clock maxEntries defaultTtl fun c hc hne => h _ (hrun c hc) hne

end Runs

/-- A key with a separator, added without a scope, is returned under the scope that stands before
its separator. -/
theorem separator_leaks :
    ¬ ∀ run : List (Call ℕ), Isolated ⟨Nat.ble, Nat.add, id⟩ (.new 64 900) run := fun h =>
  not_isolated _ 64 900 (by decide : "a::b" ≠ "") (by decide : Recalls (some "a") _)
    (by decide : _ ≠ givenScope none) (h _)

end Memplex.Working
