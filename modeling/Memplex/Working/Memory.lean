import Memplex.Lib.Rows
import Mathlib.Data.List.MinMax
import Mathlib.Data.List.Infix
import Mathlib.Order.Lattice

/-!
# Working memory

The hot tier of texts and source references, which share one capacity: pruning drops what has
expired, and where the tier is full the oldest item that is not pinned makes room, from either
container. The scope of an entry is kept in front of its key, with `::` between the two, and a
recall reads the scope back from the text: it takes the keys that start with its own scope and have
no further `::`.
-/

namespace Memplex.Working

open Lib

/-! ## The two containers -/

/-- What the memory does with its readings of the monotonic clock. -/
structure Clock (τ : Type) where
  le : τ → τ → Bool
  add : τ → τ → τ
  /-- `max(0.0, seconds)`. -/
  nonnegative : τ → τ

/-- `WorkingMemoryEntry`. -/
structure Entry (τ : Type) where
  content : String
  category : String
  pinned : Bool
  expiresAt : Option τ
  createdAt : τ
  ownerSubjectId : Option String
  workspaceId : Option String
  visibility : String

/-- A row of `_entries`, together with its number in `_entry_sequences`: the two are set and dropped
together. -/
structure Row (τ : Type) where
  key : String
  entry : Entry τ
  sequence : ℕ

/-- `WorkingMemoryReference`, under its namespace and tenant. -/
structure Reference (τ : Type) where
  storageNamespace : String
  tenantId : String
  memoryId : String
  ttlSeconds : τ
  pinned : Bool
  expiresAt : Option τ
  insertionSequence : ℕ

/-- The key of a reference. -/
def Reference.key {τ : Type} (r : Reference τ) : String × String × String :=
  (r.storageNamespace, r.tenantId, r.memoryId)

/-- `WorkingMemory`. -/
structure Memory (τ : Type) where
  maxEntries : ℕ
  maxEntries_pos : 0 < maxEntries
  defaultTtl : τ
  entries : Table (Row.key : Row τ → String)
  references : Table (Reference.key : Reference τ → String × String × String)
  insertionSequence : ℕ

/-- `WorkingMemory.__init__`. -/
def Memory.new {τ : Type} (maxEntries : ℤ) (defaultTtl : τ) : Memory τ where
  maxEntries := max 1 maxEntries.toNat
  maxEntries_pos := Nat.lt_of_lt_of_le Nat.one_pos (le_max_left _ _)
  defaultTtl := defaultTtl
  entries := .empty
  references := .empty
  insertionSequence := 0

/-- The characters between a scope and a key. -/
def separator : List Char := [':', ':']

/-- `scope` is given: neither `None` nor empty. -/
def givenScope (scope : Option String) : Option String := scope.filter (· ≠ "")

/-- `_scoped_key`. -/
def scopedKey (key : String) (scope : Option String) : String :=
  match givenScope scope with
  | none => key
  | some s => s ++ "::" ++ key

/-- The arguments of `add`, and the readings of the clock: for the deadline, for the creation and
for the pruning. -/
structure AddCall (τ : Type) where
  key : String
  content : String
  category : String
  ttlSeconds : Option τ
  pinned : Bool
  scope : Option String
  ownerSubjectId : Option String
  workspaceId : Option String
  visibility : String
  deadlineNow : τ
  createdNow : τ
  pruneNow : τ

/-- The text under which a call of `add` puts its entry. -/
def AddCall.scopedKey {τ : Type} (call : AddCall τ) : String :=
  Working.scopedKey call.key call.scope

namespace Memory

variable {τ : Type} (clock : Clock τ)

/-- An item with a deadline that has come. -/
def expired (now : τ) (expiresAt : Option τ) : Bool :=
  expiresAt.any fun deadline => clock.le deadline now

/-- `_prune_locked`. -/
def prune (now : τ) (m : Memory τ) : Memory τ :=
  { m with
    entries := m.entries.filter fun row => !expired clock now row.entry.expiresAt
    references := m.references.filter fun r => !expired clock now r.expiresAt }

/-- The oldest entry that is not pinned. -/
def oldestLegacy (m : Memory τ) : Option (Row τ) :=
  (m.entries.rows.filter fun row => !row.entry.pinned).argmin Row.sequence

/-- The oldest reference that is not pinned. -/
def oldestReference (m : Memory τ) : Option (Reference τ) :=
  (m.references.rows.filter fun r => !r.pinned).argmin Reference.insertionSequence

/-- `_make_room_locked`: the memory with room for one more item, or `none` where every item is
pinned. -/
def makeRoom (m : Memory τ) : Option (Memory τ) :=
  if m.entries.rows.length + m.references.rows.length < m.maxEntries then some m
  else
    match m.oldestLegacy, m.oldestReference with
    | none, none => none
    | none, some r => some { m with references := m.references.erase r.key }
    | some row, none => some { m with entries := m.entries.erase row.key }
    | some row, some r =>
      if r.insertionSequence < row.sequence then
        some { m with references := m.references.erase r.key }
      else some { m with entries := m.entries.erase row.key }

/-- The deadline of an item that lives for `ttl` from `now`. -/
def deadline (pinned : Bool) (now ttl : τ) : Option τ :=
  if pinned then none else some (clock.add now (clock.nonnegative ttl))

/-- The entry that `add` makes. -/
def newEntry (m : Memory τ) (call : AddCall τ) : Entry τ where
  content := call.content
  category := call.category
  pinned := call.pinned
  expiresAt := deadline clock call.pinned call.deadlineNow (call.ttlSeconds.getD m.defaultTtl)
  createdAt := call.createdNow
  ownerSubjectId := call.ownerSubjectId.filter (· ≠ "")
  workspaceId := call.workspaceId.filter (· ≠ "")
  visibility :=
    if call.visibility ∈ ["tenant", "workspace", "private"] then call.visibility else "tenant"

/-- The pruned memory in which `add` puts its entry, or `none` where it puts none. -/
def roomFor (m : Memory τ) (call : AddCall τ) : Option (Memory τ) :=
  if call.key = "" ∨ call.content = "" then none
  else if (m.prune clock call.pruneNow).entries.contains call.scopedKey then
    some (m.prune clock call.pruneNow)
  else (m.prune clock call.pruneNow).makeRoom

/-- The row that `add` writes. -/
def newRow (m : Memory τ) (call : AddCall τ) : Row τ :=
  ⟨call.scopedKey, m.newEntry clock call, m.insertionSequence + 1⟩

/-- `add`. -/
def add (m : Memory τ) (call : AddCall τ) : Memory τ :=
  match m.roomFor clock call with
  | some room =>
    { room with
      entries := room.entries.set (room.newRow clock call)
      insertionSequence := room.insertionSequence + 1 }
  | none =>
    if call.key = "" ∨ call.content = "" then m else m.prune clock call.pruneNow

/-- `add_reference`. -/
def addReference (m : Memory τ) (memoryId storageNamespace tenantId : String) (pinned : Bool)
    (ttlSeconds : Option τ) (pruneNow deadlineNow : τ) : Memory τ × Bool :=
  if memoryId = "" ∨ storageNamespace = "" ∨ tenantId = "" then (m, false)
  else
    let pruned := m.prune clock pruneNow
    let room := if pruned.references.contains (storageNamespace, tenantId, memoryId) then
      some pruned else pruned.makeRoom
    match room with
    | none => (pruned, false)
    | some room =>
      let ttl := clock.nonnegative (ttlSeconds.getD m.defaultTtl)
      ({ room with
        references := room.references.set
          ⟨storageNamespace, tenantId, memoryId, ttl, pinned,
            if pinned then none else some (clock.add deadlineNow ttl),
            room.insertionSequence + 1⟩
        insertionSequence := room.insertionSequence + 1 }, true)

/-- `recall_references`. -/
def recallReferences (m : Memory τ) (storageNamespace tenantId : String) (limit : ℤ) (now : τ) :
    Memory τ × List String :=
  let pruned := m.prune clock now
  let references := pruned.references.rows.filter fun r =>
    r.storageNamespace = storageNamespace ∧ r.tenantId = tenantId
  let sorted := references.mergeSort fun a b => b.insertionSequence ≤ a.insertionSequence
  (pruned, (sorted.take limit.toNat).map Reference.memoryId)

/-- `remove_reference`. -/
def removeReference (m : Memory τ) (memoryId storageNamespace tenantId : String) :
    Memory τ × Bool :=
  ({ m with references := m.references.erase (storageNamespace, tenantId, memoryId) },
    m.references.contains (storageNamespace, tenantId, memoryId))

/-- `set_reference_pinned`. -/
def setReferencePinned (m : Memory τ) (memoryId storageNamespace tenantId : String) (pinned : Bool)
    (ttlSeconds : Option τ) (pruneNow deadlineNow : τ) : Memory τ × Bool :=
  let pruned := m.prune clock pruneNow
  match pruned.references.get? (storageNamespace, tenantId, memoryId) with
  | none => (pruned, false)
  | some r =>
    let ttl := (ttlSeconds.map clock.nonnegative).getD r.ttlSeconds
    ({ pruned with
      references := pruned.references.set
        { r with
          ttlSeconds := ttl
          pinned := pinned
          expiresAt := if pinned then none else some (clock.add deadlineNow ttl) } }, true)

/-- Changes the entry under a key, where there is one. -/
def update (m : Memory τ) (key : String) (change : Entry τ → Entry τ) : Memory τ × Bool :=
  match m.entries.get? key with
  | none => (m, false)
  | some row => ({ m with entries := m.entries.set { row with entry := change row.entry } }, true)

/-- `pin`. -/
def pin (m : Memory τ) (key : String) : Memory τ × Bool :=
  m.update key fun entry => { entry with pinned := true, expiresAt := none }

/-- `unpin`. -/
def unpin (m : Memory τ) (key : String) (ttlSeconds : Option τ) (now : τ) : Memory τ × Bool :=
  m.update key fun entry =>
    { entry with
      pinned := false
      expiresAt := deadline clock false now (ttlSeconds.getD m.defaultTtl) }

/-- `remove`. -/
def remove (m : Memory τ) (key : String) : Memory τ × Bool :=
  ({ m with entries := m.entries.erase key }, m.entries.contains key)

/-- `clear`. -/
def clear (m : Memory τ) : Memory τ := { m with entries := .empty, references := .empty }

/-- `__len__`. -/
def len (m : Memory τ) (now : τ) : Memory τ × ℕ :=
  (m.prune clock now,
    (m.prune clock now).entries.rows.length + (m.prune clock now).references.rows.length)

end Memory

/-- The keys that a recall under `scope` takes: those that start with the scope and have no further
separator, or without a scope those that have no separator. -/
def Recalls (scope : Option String) (key : String) : Prop :=
  match givenScope scope with
  | none => ¬ separator <:+: key.toList
  | some s =>
    (s ++ "::").toList <+: key.toList ∧
      ¬ separator <:+: key.toList.drop (s ++ "::").toList.length

/-- The two forms of a recall, as one condition. -/
theorem recalls_iff_forall (scope : Option String) (key : String) :
    ((givenScope scope = none → ¬ separator <:+: key.toList) ∧
      ∀ s ∈ givenScope scope, (s ++ "::").toList <+: key.toList ∧
        ¬ separator <:+: key.toList.drop (s ++ "::").toList.length) ↔ Recalls scope key := by
  unfold Recalls
  cases givenScope scope with
  | none => simp
  | some s => simp

instance (scope : Option String) (key : String) : Decidable (Recalls scope key) :=
  decidable_of_iff _ (recalls_iff_forall scope key)

namespace Memory

variable {τ : Type} (clock : Clock τ)

/-- The entries that `recall_context` returns the texts of. -/
def recalled (m : Memory τ) (limit : ℤ) (scope : Option String) (acl : Option (Entry τ → Bool))
    (now : τ) : List (Row τ) :=
  let inScope := (m.prune clock now).entries.rows.filter fun row => Recalls scope row.key
  let sorted := inScope.mergeSort fun a b => clock.le b.entry.createdAt a.entry.createdAt
  let allowed := sorted.filter fun row => acl.all fun allows => allows row.entry
  allowed.take limit.toNat

/-- `recall_context`. -/
def recallContext (m : Memory τ) (limit : ℤ) (scope : Option String)
    (acl : Option (Entry τ → Bool)) (now : τ) : Memory τ × List String :=
  (m.prune clock now, (m.recalled clock limit scope acl now).map fun row => row.entry.content)

end Memory

end Memplex.Working
