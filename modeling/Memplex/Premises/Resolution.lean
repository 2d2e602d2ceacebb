import Memplex.Lite.Erasure

/-!
# The resolution of premises

`resolve_premises` is a maintenance pass over a lite store. It lists copies of the functions, the
facts and the preferences, orders them from the newest to the oldest, and asks a model about pairs
of one topic whether the newer node supersedes the older one. Where the answer is yes it stamps the
copy, hands the copy to the store, and then marks the resident paragraphs that the node came from.

`_persist` tries the methods of the store in one order for every node, so that a node may be handed
to the method of another kind: a preference is taken in among the facts, unless its name is empty or
the commit audits what it writes. The typed records have no place for that, and what it leaves is a
parameter.
-/

namespace Memplex

open Lib Lib.Mutator

/-- `_SUPERSEDED_KEY`. -/
def supersededKey : String := "premise_superseded"

namespace MemoryNode

/-- `_superseded`. -/
def superseded (n : MemoryNode) : Bool := (n.namespace_.getStr supersededKey).truthy

/-- The node with a stamp. -/
def supersede (n : MemoryNode) (stamp : String) : MemoryNode :=
  { n with namespace_ := n.namespace_.insertStr supersededKey (.str stamp) }

end MemoryNode

/-- A copy of a node of the store. -/
inductive PremiseNode where
  | function (f : Function)
  | fact (f : Fact)
  | preference (p : Preference)

namespace PremiseNode

/-- The fields that every node has. -/
def base : PremiseNode → MemoryNode
  | function f => f.toMemoryNode
  | fact f => f.toMemoryNode
  | preference p => p.toMemoryNode

/-- The copy with a stamp. -/
def supersede (stamp : String) : PremiseNode → PremiseNode
  | function f => .function { f with toMemoryNode := f.toMemoryNode.supersede stamp }
  | fact f => .fact { f with toMemoryNode := f.toMemoryNode.supersede stamp }
  | preference p => .preference { p with toMemoryNode := p.toMemoryNode.supersede stamp }

end PremiseNode

/-- What a pass meets beside the store. -/
structure PremiseEnv where
  writer : LiteWriter
  /-- `text.split()`. -/
  split : String → List String
  /-- `text.upper()`. -/
  upper : String → String
  /-- `repr(node)[:200]`. -/
  reprHead : PremiseNode → String
  /-- The namespace is further back in the text of a node. -/
  reprHead_supersede : ∀ node stamp, reprHead (node.supersede stamp) = reprHead node
  /-- The text of the answer to the `n`-th question, by its prompt. -/
  answer : ℕ → String → Except PyError String
  /-- The clock at the `n`-th stamp. -/
  stampedAt : ℕ → Timestamp
  /-- The clock when its paragraphs are marked. -/
  markedAt : ℕ → Timestamp
  /-- What the `n`-th write to the store meets. -/
  run : ℕ → ClearRun × WriteMoment
  /-- What it meets when it is tried once more. -/
  retry : ℕ → ClearRun × WriteMoment
  /-- What is left when the `n`-th write hands a node to the methods of other kinds. -/
  misfile : ℕ → PremiseNode → LiteInstance × LiteDisk → LiteInstance × LiteDisk

/-! ## Writes -/

namespace LiteWriter

variable (W : LiteWriter) (moment : WriteMoment)

/-- The resident state that `add_fact` captures and commits, and the fact in it. -/
def residentFact (m : LiteMemory) (fact : Fact) : LiteMemory × Fact :=
  let known := m.store.business.facts.contains fact.id
  let fact := { fact with toMemoryNode := fillTimes moment fact.toMemoryNode }
  ({ m.setBusiness { m.store.business with facts := m.store.business.facts.set fact } with
    changelog := m.changelog ++
      [W.typedEvent moment known fact.toMemoryNode "fact" fact.subject] }, fact)

/-- The resident state that `add_preference` captures and commits, and the preference in it. -/
def residentPreference (m : LiteMemory) (pref : Preference) : LiteMemory × Preference :=
  let known := m.store.business.preferences.contains pref.id
  let pref := { pref with toMemoryNode := fillTimes moment pref.toMemoryNode }
  ({ m.setBusiness { m.store.business with
      preferences := m.store.business.preferences.set pref } with
    changelog := m.changelog ++
      [W.typedEvent moment known pref.toMemoryNode "preference" pref.aspect] }, pref)

end LiteWriter

namespace LiteInstance

variable (W : LiteWriter) (run : ClearRun × WriteMoment) (inst : LiteInstance) (disk : LiteDisk)

/-- `_refresh_for_read`. -/
def refreshForRead : Except PyError LiteInstance := do
  if inst.pairFilesUnchanged disk then return inst
  else
    let m ← publishPair W.env run.1.now disk.files
    return ⟨m, true, some disk.stamp⟩

/-- An instance after a call that raised: the next one loads the files again. -/
def abandoned : LiteInstance := ⟨inst.memory, false, none⟩

/-- `_commit_sync_changes` of one node, with the state that it changed. -/
def commitNode (m : LiteMemory) (node : MemoryNode) (nodeType : SyncNodeType) (data : Members) :
    Except PyError (LiteInstance × LiteDisk) := do
  let sync ← m.store.sync.captureNode W.cfg run.2 node nodeType data
  { inst with memory := { m with store := { m.store with sync := sync } } }
    |>.commitCurrentState W run.1 disk

/-- `replace_function`. -/
def replaceFunction (f : Function) : Except PyError (LiteInstance × LiteDisk) := do
  let inst ← inst.reloadForMutation W run.1 disk
  let out ← (W.replaceFunction f).result inst.memory
  inst.commitNode W run disk out.2 f.toMemoryNode .function f.toDict

/-- `add_fact`. -/
def addFact (f : Fact) : Except PyError (LiteInstance × LiteDisk) := do
  let inst ← inst.reloadForMutation W run.1 disk
  let m ← W.validateResidentGraph inst.memory
  let out := W.residentFact run.2 m f
  inst.commitNode W run disk out.1 out.2.toMemoryNode .fact out.2.toDict

/-- `add_preference`. -/
def addPreference (p : Preference) : Except PyError (LiteInstance × LiteDisk) := do
  let inst ← inst.reloadForMutation W run.1 disk
  let m ← W.validateResidentGraph inst.memory
  let out := W.residentPreference run.2 m p
  inst.commitNode W run disk out.1 out.2.toMemoryNode .preference out.2.toDict

end LiteInstance

/-- One paragraph that a node came from is marked. -/
def LiteMemory.markParagraph (stamp : String) (m : LiteMemory) (ref : String) : LiteMemory :=
  match m.paragraphs.get? ref with
  | none => m
  | some row => m.setBusiness { m.store.business with
      paragraphs := m.paragraphs.set (row.1, row.2.set supersededKey (.str stamp)) }

/-! ## The pass -/

/-- One question to the model, with the nodes as they were. -/
structure PremiseQuestion where
  /-- The place of the older node among the candidates. -/
  place : ℕ
  newer : PremiseNode
  older : PremiseNode
  answer : Except PyError String

/-- A pass under way. -/
structure PremisePass where
  /-- `candidates`. -/
  nodes : List PremiseNode
  inst : LiteInstance
  disk : LiteDisk
  checked : ℕ
  stamped : ℕ
  questions : List PremiseQuestion
  /-- The places of the nodes that were stamped, in order. -/
  places : List ℕ
  /-- The paragraphs that were marked. -/
  marked : List String

/-- The prompt of a question. -/
def pairPrompt (earlier later : String) : String :=
  "You are auditing a personal memory store for stale entries. Given " ++
  "two memories from the same person's history, determine whether the " ++
  "LATER one supersedes the EARLIER one.\n\n" ++
  "Supersession means: the later information REPLACES the earlier " ++
  "statement as the person's current state. Common patterns:\n" ++
  "- Moving to a new city/address (earlier home is outdated)\n" ++
  "- Starting a new job (earlier employer is outdated)\n" ++
  "- Switching tools/products/preferences (earlier choice outdated)\n" ++
  "- Schedule/route changes (earlier plan outdated)\n" ++
  "- Relationship/role changes (earlier contact outdated)\n\n" ++
  "NOT supersession: complementary details, unrelated topics, or the " ++
  "later merely adding context to the earlier.\n\n" ++
  "EARLIER (older timestamp):\n" ++ earlier ++ "\n\n" ++
  "LATER (newer timestamp):\n" ++ later ++ "\n\n" ++
  "Does the later statement replace the earlier as current? YES or NO only:"

/-- The pairs of places of `n` candidates, each with every later one. -/
def placePairs (n : ℕ) : List (ℕ × ℕ) :=
  (List.range n).flatMap fun i => (List.range' (i + 1) (n - (i + 1))).map fun j => (i, j)

namespace PremiseEnv

variable (E : PremiseEnv)

/-- `_timestamp_of`. -/
def timestampOf (node : PremiseNode) : String :=
  E.writer.format (pyOr (pyOr node.base.updatedAt node.base.createdAt) (.str ""))

/-- `_node_text`. -/
def nodeText (node : PremiseNode) : String :=
  if node.base.name.truthy then E.writer.format node.base.name else E.reprHead node

/-- The words of a node. -/
def words (node : PremiseNode) : List String := E.split (E.writer.env.lower (E.nodeText node))

/-- `_same_topic`, with the threshold that it defaults to. -/
def sameTopic (a b : PremiseNode) : Bool :=
  if E.words a = [] ∨ E.words b = [] then false
  else (E.words a).any fun w => (E.words b).contains w

/-- Whether an answer is a yes. -/
def saysYes : Except PyError String → Bool
  | .ok verdict => decide ("YES".toList <:+: (E.upper verdict).toList.take 8)
  | .error _ => false

/-- The listing of a store. A store that cannot be read lists nothing. -/
def listNodes (inst : LiteInstance) (disk : LiteDisk) : LiteInstance × List PremiseNode :=
  match inst.refreshForRead E.writer (E.run 0) disk with
  | .error _ => (inst.abandoned, [])
  | .ok inst => (inst,
      (pageOf 0 100000 inst.memory.functions.rows).map .function ++
      (pageOf 0 100000 inst.memory.facts.rows).map .fact ++
      (pageOf 0 100000 inst.memory.preferences.rows).map .preference)

/-- A pass before its first question. -/
def start (inst : LiteInstance) (disk : LiteDisk) : PremisePass where
  nodes := ((E.listNodes inst disk).2.filter fun node => !node.base.superseded).mergeSort
    fun a b => E.timestampOf b ≤ E.timestampOf a
  inst := (E.listNodes inst disk).1
  disk := disk
  checked := 0
  stamped := 0
  questions := []
  places := []
  marked := []

/-- The write that stores a node as what it is. `replace_function` has no function for a fact or a
preference, and `add` raises for the lack of a source, so that `add_fact` is next. -/
def store (n : ℕ) (inst : LiteInstance) (disk : LiteDisk) :
    PremiseNode → Except PyError (LiteInstance × LiteDisk)
  | .function f => inst.replaceFunction E.writer (E.run n) disk f
  | .fact f => inst.abandoned.addFact E.writer (E.run n) disk f
  | .preference p =>
    -- `add_fact` looks for the subject of a preference without a name, and finds none.
    if p.name.truthy = true ∧ (E.run n).1.audit = false then
      .error (typeError "add_fact takes the preference")
    else inst.abandoned.addPreference E.writer (E.retry n) disk p

/-- `_persist`. -/
def persist (n : ℕ) (inst : LiteInstance) (disk : LiteDisk) (node : PremiseNode) :
    LiteInstance × LiteDisk :=
  match E.store n inst disk node with
  | .ok out => out
  | .error _ => E.misfile n node (inst.abandoned, disk)

/-- The node at a place is stamped and stored; the marks of its paragraphs stay resident. -/
def stamp (place : ℕ) (older : PremiseNode) (s : PremisePass) : PremisePass :=
  let n := s.stamped + 1
  let node := older.supersede (E.stampedAt n).isoformat
  let out := E.persist n s.inst s.disk node
  let refs := node.base.sourceParagraphs.filterMap asString
  { s with
    nodes := s.nodes.set place node
    inst := { out.1 with
      memory := refs.foldl (LiteMemory.markParagraph (E.markedAt n).isoformat) out.1.memory }
    disk := out.2
    stamped := n
    places := s.places ++ [place]
    marked := s.marked ++ refs.filter fun ref => out.1.memory.paragraphs.contains ref }

/-- The question about a pair, if there is to be one. -/
def question (maxPairs : ℤ) (s : PremisePass) (pair : ℕ × ℕ) : Option PremiseQuestion :=
  match s.nodes[pair.1]?, s.nodes[pair.2]? with
  | some newer, some older =>
    if maxPairs ≤ s.checked then none
    else if E.timestampOf newer ≤ E.timestampOf older then none
    else if E.sameTopic newer older = false then none
    else some ⟨pair.2, newer, older,
      E.answer s.checked (pairPrompt (E.nodeText older) (E.nodeText newer))⟩
  | _, _ => none

/-- One pair. Once all questions are spent no further pair is looked at: both loops end. -/
def checkPair (maxPairs : ℤ) (s : PremisePass) (pair : ℕ × ℕ) : PremisePass :=
  match E.question maxPairs s pair with
  | none => s
  | some q =>
    let s := { s with checked := s.checked + 1, questions := s.questions ++ [q] }
    if E.saysYes q.answer then E.stamp q.place q.older s else s

/-- `resolve_premises`; it returns `stamped`. -/
def resolvePremises (maxPairs : ℤ) (inst : LiteInstance) (disk : LiteDisk) : PremisePass :=
  (placePairs (E.start inst disk).nodes.length).foldl (E.checkPair maxPairs) (E.start inst disk)

end PremiseEnv

end Memplex
