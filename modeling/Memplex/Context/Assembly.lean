import Memplex.Lib.Counter
import Memplex.Facts.Temporal
import Memplex.Retrieval.Fusion
import Mathlib.Data.List.DropRight
import Mathlib.Data.List.Infix

/-!
# The assembly of a context

`assemble_context` turns candidates, in their order of priority, into one text for a model. Each
candidate that is neither a duplicate nor beyond the limit is judged by itself: its source is
resolved, authorized, checked for validity and scanned, and framed as a whole. What was framed is
added unless the text would exceed the budget. Every candidate ends as a fragment or under one
reason in the counts of what was dropped.

The scanner's patterns and the text that it collects of a node are parameters: no theorem here
depends on what is flagged.
-/

namespace Memplex

open Lib

/-! ## Nodes and candidates -/

/-- `_RawParagraphView`: what the assembly reads of a paragraph row. -/
structure RawParagraphView where
  id : Value
  name : Value
  sourceType : SourceTag
  provenance : PyDict
  rawText : Value
  contextHistorical : Bool
deriving DecidableEq

/-- A resolved source. -/
inductive ContextNode where
  | function (f : Function)
  | fact (f : Fact)
  | preference (p : Preference)
  | observation (o : Observation)
  | paragraph (view : RawParagraphView)

namespace ContextNode

/-- The fields that all memory nodes have, of a node that is no paragraph. -/
def base : ContextNode → Option MemoryNode
  | function f => some f.toMemoryNode
  | fact f => some f.toMemoryNode
  | preference p => some p.toMemoryNode
  | observation o => some o.toMemoryNode
  | paragraph _ => none

/-- `node.id`. -/
def id : ContextNode → Value
  | paragraph view => view.id
  | node => (node.base.map fun n => .str n.id).getD .null

/-- `getattr(node, "name", "")`. -/
def name : ContextNode → Value
  | paragraph view => view.name
  | node => (node.base.map MemoryNode.name).getD (.str "")

/-- `getattr(node, "domain", "")`: a paragraph has none. -/
def domain (node : ContextNode) : Value := (node.base.map MemoryNode.domain).getD (.str "")

/-- `getattr(node, "source_type", "wiki")`. -/
def sourceType : ContextNode → SourceTag
  | paragraph view => view.sourceType
  | node => (node.base.map MemoryNode.sourceType).getD (.raw (.str "wiki"))

/-- `getattr(node, "provenance", {}) or {}`. -/
def provenance : ContextNode → PyDict
  | paragraph view => view.provenance
  | node => (node.base.map MemoryNode.provenance).getD []

/-- Whether `attributes` marks the node as suspected. -/
def marked : ContextNode → Bool
  | function f => f.attributes.getStr "memplex_injection_suspected" = .str "true"
  | _ => false

end ContextNode

/-- Where a candidate comes from. -/
inductive CandidateOrigin where
  | hot
  | retrieval
deriving DecidableEq

/-- A source reference. -/
structure ContextCandidate where
  memoryId : String
  origin : CandidateOrigin
deriving DecidableEq

/-- `MAX_CONTEXT_CANDIDATES`. -/
def maxContextCandidates : ℕ := 500

/-- An accepted source with its frame. -/
structure ContextFragment where
  memoryId : String
  name : String
  domain : String
  sourceType : SourceTag
  context : String
  tokensUsed : ℕ
deriving DecidableEq

/-- How often each reason dropped a candidate. -/
abbrev DropCounts := Counter String

/-- The final context. -/
structure ContextAssembly where
  context : String
  memoryIds : List String
  tokensUsed : ℕ
  truncated : Bool
  dropped : DropCounts
  fragments : List ContextFragment

/-- What the assembly uses besides the language. -/
structure ContextEnv extends TemporalEnv where
  /-- `unicodedata.category(char)`. -/
  category : Char → String
  /-- `f"{value}"`. -/
  format : Value → String
  /-- `IndirectInjectionGuard.scan`. -/
  scan : String → Bool
  /-- `IndirectInjectionGuard._extract_model_visible_text`; `none` where it raises. -/
  visibleText : ContextNode → Option String

/-! ## Texts -/

/-- `estimate_context_tokens`. -/
def estimateContextTokens (text : String) : ℕ := if text = "" then 0 else text.length / 4 + 1

/-- The characters that `str.strip()` removes. -/
def isBlank (c : Char) : Bool :=
  [9, 10, 11, 12, 13, 28, 29, 30, 31, 32, 133, 160, 5760, 8192, 8193, 8194, 8195, 8196, 8197, 8198,
    8199, 8200, 8201, 8202, 8232, 8233, 8239, 8287, 12288].contains c.toNat

/-- `text.strip()`. -/
def stripBlanks (s : String) : String :=
  String.ofList ((s.toList.dropWhile isBlank).rdropWhile isBlank)

/-- What one value adds to a projected text. -/
def textPart : Value → Except PyError (Option String)
  | .null => .ok none
  | .str s => .ok (if stripBlanks s = "" then none else some (stripBlanks s))
  | _ => .error (typeError "context text fields must be strings")

/-- `_join_text`. -/
def joinText (values : List Value) (separator : String) : Except PyError String := do
  return separator.intercalate (← values.mapM textPart).reduceOption

/-- `first or second`, of texts that may fail. -/
def firstText (first second : Except PyError String) : Except PyError String := do
  let text ← first
  if text ≠ "" then return text else second

/-- `current_node_text`. -/
def currentNodeText : ContextNode → Except PyError String
  | .function f =>
    joinText ([f.name, f.domain] ++ ((f.trigger ++ f.condition ++ f.action ++ f.benefit).filter
      fun v => v.status = .str "active").map FieldValue.desc) "\n"
  | .fact f => firstText (joinText [f.subject, f.predicate, f.object_] " ") (joinText [f.name] " ")
  | .preference p => firstText (joinText [p.aspect, p.preference] " ") (joinText [p.name] " ")
  | .observation o => firstText (joinText [o.event, o.context] " ") (joinText [o.name] " ")
  | .paragraph view => if view.contextHistorical then .ok "" else joinText [view.rawText] " "

/-! ## The injection guard -/

/-- `InjectionRiskRegistry`: the ids that were judged unsafe, the oldest first. -/
structure InjectionRiskRegistry where
  order : List String
deriving DecidableEq

namespace InjectionRiskRegistry

/-- `MAX_ENTRIES`. -/
def maxEntries : ℕ := 4096

/-- `contains`. -/
def contains (r : InjectionRiskRegistry) (nodeId : String) : Bool :=
  nodeId ≠ "" && r.order.contains nodeId

/-- `mark`. -/
def mark (r : InjectionRiskRegistry) (nodeId : String) : InjectionRiskRegistry :=
  if nodeId = "" ∨ nodeId ∈ r.order then r
  else ⟨(if maxEntries ≤ r.order.length then r.order.tail else r.order) ++ [nodeId]⟩

end InjectionRiskRegistry

/-- `TRUST_LEVELS`. -/
def trustLevels : List (String × String) :=
  [("requirement", "HIGH"), ("meeting", "MEDIUM"), ("code", "MEDIUM"), ("wiki", "LOW")]

/-- The trust label of a node: generated claims never inherit a source's authority. -/
def trustLabel (node : ContextNode) : String :=
  let sourceType := match node.sourceType with
    | .known t => t.value
    | .raw v => textOf (pyOr v (.str "wiki"))
  if node.provenance.getStr "extraction" = .str "factual_capture_v1" then "LOW"
  else ((findRow Prod.fst sourceType trustLevels).map Prod.snd).getD "LOW"

/-- The frame of one memory. -/
def frameText (trust memoryId body : String) : String :=
  "[MEMORY START | trust=" ++ trust ++ " | id=" ++ memoryId ++ "]\n" ++ body ++ "\n[MEMORY END]"

namespace ContextEnv

variable (E : ContextEnv)

/-- `IndirectInjectionGuard.is_suspected`. -/
def isSuspected (node : ContextNode) (fallbackText : String) : Bool :=
  node.marked ||
    match E.visibleText node with
    | some text => E.scan text
    | none => if fallbackText ≠ "" then E.scan fallbackText else true

/-- `_result_is_injection_suspected`. -/
def resultSuspected (r : SearchResult) (node : Option ContextNode)
    (registry : Option InjectionRiskRegistry) : Bool × Option InjectionRiskRegistry :=
  if registry.any fun risks => risks.contains r.funcId then (true, registry)
  else
    let suspected := node.elim (E.scan r.summary) fun node => E.isSuspected node r.summary
    (suspected, if suspected then registry.map fun risks => risks.mark r.funcId else registry)

/-- One memory of `wrap_for_context`. -/
def wrapOne (lookup : String → Option ContextNode)
    (acc : List String × Option InjectionRiskRegistry) (r : SearchResult) :
    List String × Option InjectionRiskRegistry :=
  let verdict := E.resultSuspected r (lookup r.funcId) acc.2
  match lookup r.funcId with
  | none => (acc.1, verdict.2)
  | some node =>
    if verdict.1 then (acc.1, verdict.2)
    else
      let summary := if r.summary ≠ "" then r.summary else E.format node.name
      (acc.1 ++ [frameText (trustLabel node) r.funcId summary], verdict.2)

/-- `filter_and_wrap`. -/
def filterAndWrap (memories : List SearchResult) (lookup : String → Option ContextNode)
    (registry : Option InjectionRiskRegistry) : String × Option InjectionRiskRegistry :=
  let out := memories.foldl (E.wrapOne lookup) ([], registry)
  ("\n\n".intercalate out.1, out.2)

end ContextEnv

/-! ## One candidate -/

/-- What is projected of a node before its text is scanned. -/
structure Draft where
  name : String
  domain : String
  sourceType : SourceTag
  text : String
  projected : String

/-- An exception of a node drops it. -/
def orLookupError {α : Type} : Except PyError α → Except String α :=
  Except.mapError fun _ => "lookup_error"

/-- Drops a candidate for a reason. -/
def dropUnless (p : Prop) [Decidable p] (reason : String) : Except String Unit :=
  if p then .ok () else .error reason

/-- What a call of `assemble_context` is given besides the candidates. -/
structure AssemblyCall where
  /-- `resolve`. -/
  resolve : List String → Except PyError (String → Option ContextNode)
  /-- `allow`. -/
  allow : ContextNode → Except PyError Bool
  maxTokens : ℤ
  now : Instant

/-- A source type that is a text or a member of the enumeration. -/
def SourceTag.isPlain : SourceTag → Bool
  | .known _ => true
  | .raw v => v.isText

namespace ContextEnv

variable (E : ContextEnv)

/-- Whether a fact holds, where its stamps can be read; all other nodes do. -/
def nodeValid (now : Instant) : ContextNode → Except PyError Bool
  | .fact f => do
    -- `datetime.fromisoformat` raises a `TypeError` for what is no text.
    require ([f.validFrom, f.invalidAt, f.validUntil].all fun v => !v.truthy || v.isText)
      (typeError "fromisoformat: argument must be str")
    return E.isValidAt f now
  | _ => .ok true

/-- Whether an id can stand in a header. -/
def plainId (memoryId : String) : Bool :=
  memoryId.toList.all fun c =>
    !("[]|\"'".toList.contains c) && !(["Cc", "Cf", "Zl", "Zp"].contains (E.category c))

/-- `text in projected`, at the places where `text` may start. -/
def occursIn (text projected : String) : Bool :=
  projected.toList.tails.any fun rest => text.toList.isPrefixOf rest

/-- Whether a projected text has no marker. -/
def markerFree (projected : String) : Bool :=
  !occursIn "[MEMORY START" projected && !occursIn "[MEMORY END]" projected

/-- `_current_fragment`, up to the scan of the projected text. -/
def currentDraft (call : AssemblyCall) (memoryId : String) (node : Option ContextNode) :
    Except String (ContextNode × Draft) :=
  match node with
  | none => .error "missing"
  | some node => do
    dropUnless (memoryId ≠ "" ∧ node.id = .str memoryId) "missing"
    let allowed ← orLookupError (call.allow node)
    dropUnless (allowed = true) "denied"
    let valid ← orLookupError (E.nodeValid call.now node)
    dropUnless (valid = true) "expired"
    let text ← orLookupError (currentNodeText node)
    dropUnless (text ≠ "") "empty"
    let name ← orLookupError (joinText [node.name] " ")
    let domain ← orLookupError (joinText [node.domain] " ")
    dropUnless (node.sourceType.isPlain = true) "lookup_error"
    let projected ← orLookupError
      (joinText [.str name, .str domain, .str text, node.sourceType.toValue] "\n")
    dropUnless (E.plainId memoryId = true ∧ markerFree projected = true) "unsafe"
    return (node, ⟨name, domain, node.sourceType, text, projected⟩)

/-- The result that `_current_fragment` has wrapped. -/
def draftResult (memoryId text : String) : SearchResult :=
  { funcId := memoryId, name := "", domain := "", relevanceScore := 0, summary := text }

/-- `_current_fragment`: a fragment or the reason for its drop, and the registry after it. -/
def currentFragment (call : AssemblyCall) (lookup : String → Option ContextNode)
    (memoryId : String) (registry : Option InjectionRiskRegistry) :
    Except String ContextFragment × Option InjectionRiskRegistry :=
  match E.currentDraft call memoryId (lookup memoryId) with
  | .error reason => (.error reason, registry)
  | .ok (_, draft) =>
    if E.scan draft.projected then
      (.error "unsafe", registry.map fun risks => risks.mark memoryId)
    else
      let out := E.filterAndWrap [draftResult memoryId draft.text] lookup registry
      if out.1 = "" then (.error "unsafe", out.2)
      else
        (.ok ⟨memoryId, draft.name, draft.domain, draft.sourceType, out.1,
          estimateContextTokens out.1⟩, out.2)

end ContextEnv

/-! ## The loop -/

/-- One candidate of `_candidate_ids`. -/
def candidateStep (acc : List String × DropCounts) (candidate : ContextCandidate) :
    List String × DropCounts :=
  if candidate.memoryId ∈ acc.1 then (acc.1, Counter.bump acc.2 "duplicate")
  else if maxContextCandidates ≤ acc.1.length then (acc.1, Counter.bump acc.2 "candidate_limit")
  else (acc.1 ++ [candidate.memoryId], acc.2)

/-- `_candidate_ids`. -/
def candidateIds (candidates : List ContextCandidate) : List String × DropCounts :=
  candidates.foldl candidateStep ([], Counter.zero)

/-- The state of the loop. -/
structure Assembling where
  context : String
  fragments : List ContextFragment
  dropped : DropCounts
  registry : Option InjectionRiskRegistry

/-- `proposed`. -/
def Assembling.propose (s : Assembling) (fragment : ContextFragment) : String :=
  if s.context ≠ "" then s.context ++ "\n\n" ++ fragment.context else fragment.context

namespace ContextEnv

variable (E : ContextEnv)

/-- One round of the loop. -/
def assembleStep (call : AssemblyCall) (lookup : String → Option ContextNode) (s : Assembling)
    (memoryId : String) : Assembling :=
  let out := E.currentFragment call lookup memoryId s.registry
  match out.1 with
  | .error reason => { s with dropped := Counter.bump s.dropped reason, registry := out.2 }
  | .ok fragment =>
    if call.maxTokens < estimateContextTokens (s.propose fragment) then
      { s with dropped := Counter.bump s.dropped "budget", registry := out.2 }
    else
      { s with context := s.propose fragment, fragments := s.fragments ++ [fragment],
               registry := out.2 }

/-- `assemble_context`. -/
def assembleContext (call : AssemblyCall) (candidates : List ContextCandidate)
    (registry : Option InjectionRiskRegistry) :
    Except PyError (ContextAssembly × Option InjectionRiskRegistry) := do
  require (0 ≤ call.maxTokens) (valueError "max_tokens must be non-negative")
  let ids := candidateIds candidates
  let lookup ← if ids.1 = [] then .ok fun _ => none else call.resolve ids.1
  let s := ids.1.foldl (E.assembleStep call lookup) ⟨"", [], ids.2, registry⟩
  return (⟨s.context, s.fragments.map ContextFragment.memoryId, estimateContextTokens s.context,
    Counter.count s.dropped "budget" ≠ 0 || Counter.count s.dropped "candidate_limit" ≠ 0,
    s.dropped, s.fragments⟩, s.registry)

end ContextEnv

end Memplex
