import Memplex.Auth.Scope
import Memplex.Backup.Manifest
import Memplex.Models.Graph
import Mathlib.Data.List.Find

/-!
# The identities of a capture

What is extracted from a conversation is rekeyed twice before it is stored. `scopeEvidence` makes
the id of a node from the write identity, the kind of the source, the role of its author, the
visibility and the id that the extractor gave; `scopeCapturedData` makes the id that is stored from
that one and from who may overwrite the node. Both work on node objects that several lists share,
and rewrite the ends of the edges.

The first id is made from texts with slashes between them, and nodes are renamed by their id, so the
stored ids tell two nodes apart where the joined texts do and where no other node of an extraction
has the id of one of them: `keepApart_iff` is the exact condition. The edges keep up with their
nodes in every capture.
-/

namespace Memplex

open Lib

/-- SHA-256 of the UTF-8 bytes of a text, in hexadecimal digits. -/
structure Sha256 where
  /-- `hashlib.sha256(text.encode()).hexdigest()`. -/
  hexdigest : String → List Char
  /-- A digest has 64 digits. -/
  length : ∀ text, (hexdigest text).length = 64

/-- The kinds of a typed node. -/
inductive CaptureKind where
  | function
  | fact
  | preference
deriving DecidableEq

/-- `memory_type`. -/
def CaptureKind.memoryType : CaptureKind → String
  | .function => "function"
  | .fact => "fact"
  | .preference => "preference"

/-- `prefixes[memory_type]`. -/
def CaptureKind.short : CaptureKind → String
  | .function => "func"
  | .fact => "fact"
  | .preference => "pref"

/-- The attributes of a node that the passes read or set. -/
structure CaptureNode where
  kind : CaptureKind
  id : String
  name : String
  nameNormalized : String
  sourceParagraphs : List String
  tenantId : Option String
  ownerSubjectId : Option String
  workspaceId : Option String
  visibility : Option String
  originSession : Option String
  /-- `provenance.get("agent_id")`. -/
  agentId : Option String
deriving DecidableEq

/-- A raw paragraph. -/
structure CaptureParagraph where
  id : String
  rawText : Option String
deriving DecidableEq

/-- An extraction: its lists refer to node objects, and one object may be in several of them. -/
structure Extraction where
  /-- The object that a reference refers to. -/
  heap : ℕ → CaptureNode
  functions : List ℕ
  facts : List ℕ
  preferences : List ℕ
  graphNodes : List ℕ
  edges : List GraphEdge
  paragraphs : List CaptureParagraph

namespace Extraction

/-- `nodes`: the objects of all lists, each once. -/
def refs (E : Extraction) : List ℕ :=
  (E.functions ++ E.facts ++ E.preferences ++ E.graphNodes).eraseDups

/-- The last of the objects with an id. -/
def lastWith (E : Extraction) (id : String) : Option CaptureNode :=
  (E.refs.map E.heap).reverse.find? fun n => n.id = id

/-- Every object of the lists is updated. -/
def update (E : Extraction) (f : CaptureNode → CaptureNode) : Extraction :=
  { E with heap := fun r => if r ∈ E.refs then f (E.heap r) else E.heap r }

end Extraction

/-- What the passes read of a source document. -/
structure CaptureSource where
  type : String
  authorRole : Option String
deriving DecidableEq

/-- `author_role or "unknown"`. -/
def CaptureSource.role (s : CaptureSource) : String :=
  (s.authorRole.filter fun role => role ≠ "").getD "unknown"

/-- `a or b`, of texts. -/
def nameOr (a b : String) : String := if a = "" then b else a

section Passes

variable (sha : Sha256)

/-- `json.dumps(values, ensure_ascii=False, separators=(",", ":"))`, of texts. -/
def digestText (values : List String) : String :=
  String.ofList (Json.write (fun _ : Num => []) (.arr (values.map .str)))

/-- `_digest`. -/
def digestOf (values : List String) : String := String.ofList (sha.hexdigest (digestText values))

/-- The first digits of a digest. -/
def shortDigest (n : ℕ) (text : String) : String := String.ofList ((sha.hexdigest text).take n)

/-- The tenant, subject, workspace, agent and session of a write. -/
def writeIdentity (context : AuthorizationContext) : List String :=
  [context.principal.tenantId, context.principal.subjectId, context.workspaceId, context.agentId,
    context.sessionId]

/-- `capture_source_hint`. -/
def captureSourceHint (context : AuthorizationContext) : String :=
  "observation/capture-v1/" ++ digestOf sha ("capture-raw-v1" :: writeIdentity context)

/-- `persisted_paragraph_id`. -/
def hashedParagraphId (sourceHint paragraphId rawText : String) : String :=
  sourceHint ++ ":" ++ paragraphId ++ ":" ++ shortDigest sha 8 rawText

/-- What stands after the hint in the evidence scope. -/
def scopeTail (source : CaptureSource) (visibility : String) : String :=
  "/" ++ source.type ++ "/" ++ source.role ++ "/" ++ visibility

/-- `scoped.type`. -/
def evidenceScope (source : CaptureSource) (context : AuthorizationContext) (visibility : String) :
    String := captureSourceHint sha context ++ scopeTail source visibility

/-- The text that the first id of a node is made from. -/
def evidenceKey (scope id : String) : String := scope ++ "\x00" ++ id

/-- `identities[id]`, from the last node with the id. -/
def evidenceId (scope : String) (n : CaptureNode) : String :=
  n.kind.memoryType ++ "_evidence_" ++ shortDigest sha 32 (evidenceKey scope n.id)

/-- `mapping`, of the raw references. -/
def rawReference (E : Extraction) (type scope value : String) : String :=
  let ids := E.paragraphs.map fun p =>
    let text := String.ofList (strip (p.rawText.getD "").toList)
    (hashedParagraphId sha type p.id text, hashedParagraphId sha scope p.id text)
  ((ids.reverse.find? fun m => m.1 = value).map Prod.snd).getD value

/-- `identities.get(id, id)`. -/
def evidenceRename (E : Extraction) (scope id : String) : String :=
  ((E.lastWith id).map (evidenceId sha scope)).getD id

/-- A node under its evidence scope. -/
def scopedNode (E : Extraction) (type scope : String) (n : CaptureNode) : CaptureNode :=
  { n with
    sourceParagraphs := n.sourceParagraphs.map (rawReference sha E type scope)
    id := evidenceRename sha E scope n.id
    nameNormalized :=
      if n.kind = .function then
        "evidence:" ++ shortDigest sha 16 scope ++ ":" ++ nameOr n.nameNormalized n.name
      else n.nameNormalized }

/-- `scope_evidence`. -/
def scopeEvidence (E : Extraction) (source : CaptureSource) (context : AuthorizationContext)
    (visibility : String) : Extraction :=
  let scope := evidenceScope sha source context visibility
  { E.update (scopedNode sha E source.type scope) with
    edges := E.edges.map fun e =>
      { e with
        source := evidenceRename sha E scope e.source
        target := evidenceRename sha E scope e.target } }

/-- What `bind_node_identity` sets of these attributes, where it accepts the node. -/
def bindNode (context : AuthorizationContext) (visibility : String) (n : CaptureNode) :
    CaptureNode :=
  { n with
    tenantId := some context.principal.tenantId
    ownerSubjectId := some context.principal.subjectId
    workspaceId := some context.workspaceId
    visibility := some (String.ofList (strip visibility.toList))
    originSession := if context.sessionId = "" then none else some context.sessionId
    agentId := some context.agentId }

/-- `capture_scope`. -/
def CaptureNode.captureScope (n : CaptureNode) : Option (List String) := do
  let visibility ← n.visibility
  guard (["user", "workspace", "session"].contains visibility)
  let values := [n.tenantId, n.ownerSubjectId, some visibility] ++
    (if visibility = "user" then [] else [n.workspaceId]) ++
    (if visibility = "session" then [n.agentId, n.originSession] else [])
  values.mapM fun value => value.filter fun s => strip s.toList ≠ []

/-- The scope of a node as it is hashed: a function adds its writer. -/
def hashedScope (n : CaptureNode) : Option (List String) :=
  n.captureScope.map fun scope =>
    if n.kind = .function then
      scope ++ [n.workspaceId.getD "", n.agentId.getD "", n.originSession.getD ""]
    else scope

/-- `mapping[id]`, from the last node with the id. -/
def captureId (n : CaptureNode) : String :=
  n.kind.short ++ "_capture_v1_" ++
    shortDigest sha 32 (digestText ((hashedScope n).getD [] ++ [n.id]))

/-- `mapping.get(id, id)`. -/
def captureRename (E : Extraction) (id : String) : String :=
  ((E.lastWith id).map (captureId sha)).getD id

/-- A node under its final id. -/
def capturedNode (E : Extraction) (n : CaptureNode) : CaptureNode :=
  { n with
    id := captureRename sha E n.id
    nameNormalized :=
      if n.kind = .function then
        "capture-v1:" ++ digestOf sha ("capture-scope-v1" :: (hashedScope n).getD []) ++ ":" ++
          nameOr n.nameNormalized n.name
      else n.nameNormalized }

/-- `scope_captured_data`. -/
def scopeCapturedData (E : Extraction) : Except PyError Extraction := do
  require (∀ r ∈ E.refs, (E.heap r).captureScope.isSome = true)
    (valueError "captured memory requires complete canonical identity")
  let renamed := E.edges.map fun e =>
    { e with source := captureRename sha E e.source, target := captureRename sha E e.target }
  return { E.update (capturedNode sha E) with
    edges := (renamed.filter fun e => e.source ≠ e.target).foldl (appendNew GraphEdge.parts) [] }

/-- An extraction, and what it is captured under. -/
structure Capture where
  extraction : Extraction
  source : CaptureSource
  context : AuthorizationContext
  visibility : String

/-- The capture: the evidence scope, the identity of the writer, the final ids. -/
def Capture.run (c : Capture) : Except PyError Extraction :=
  scopeCapturedData sha
    ((scopeEvidence sha c.extraction c.source c.context c.visibility).update
      (bindNode c.context c.visibility))

/-! ## What a capture must keep -/

namespace Capture

/-- The texts of a capture whose digests are cut to 32 digits. -/
def hashed (c : Capture) : List String :=
  let scope := evidenceScope sha c.source c.context c.visibility
  digestText ("capture-raw-v1" :: writeIdentity c.context) ::
    c.extraction.refs.flatMap fun r =>
      let n := c.extraction.heap r
      [evidenceKey scope n.id,
        digestText ((hashedScope (bindNode c.context c.visibility n)).getD [] ++
          [evidenceId sha scope n])]

/-- A node of one capture and a node of another are of one kind, were extracted with one id, and
come from one write identity, kind of source, role and visibility. -/
structure SameOrigin (c c' : Capture) (n n' : CaptureNode) : Prop where
  kind : n.kind = n'.kind
  id : n.id = n'.id
  identity : writeIdentity c.context = writeIdentity c'.context
  type : c.source.type = c'.source.type
  role : c.source.role = c'.source.role
  visibility : c.visibility = c'.visibility

/-- The ids of two captures agree exactly where the origins do. -/
def KeepApart (c c' : Capture) (E E' : Extraction) : Prop :=
  ∀ r ∈ c.extraction.refs, ∀ r' ∈ c'.extraction.refs,
    (E.heap r).id = (E'.heap r').id ↔
      SameOrigin c c' (c.extraction.heap r) (c'.extraction.heap r')

/-- The edges of a capture have kept up with its nodes. -/
structure EdgesKept (c : Capture) (E : Extraction) : Prop where
  /-- An edge between nodes whose ids differ connects their new ids. -/
  kept : ∀ e ∈ c.extraction.edges, ∀ r ∈ c.extraction.refs, ∀ s ∈ c.extraction.refs,
    e.source = (c.extraction.heap r).id → e.target = (c.extraction.heap s).id →
      (E.heap r).id ≠ (E.heap s).id →
        ((E.heap r).id, (E.heap s).id, e.edgeType) ∈ E.edges.map GraphEdge.parts
  /-- Every edge was one, and connects the new ids of the nodes that it connected. -/
  image : ∀ e' ∈ E.edges, ∃ e ∈ c.extraction.edges, e'.edgeType = e.edgeType ∧
    ∀ r ∈ c.extraction.refs,
      (e.source = (c.extraction.heap r).id → e'.source = (E.heap r).id) ∧
        (e.target = (c.extraction.heap r).id → e'.target = (E.heap r).id)
  /-- There is no self loop. -/
  noLoop : ∀ e' ∈ E.edges, e'.source ≠ e'.target
  /-- There is no duplicate. -/
  distinct : (E.edges.map GraphEdge.parts).Nodup

/-- The kind under which a node is renamed: that of the last node with its id. -/
def renamedKind (c : Capture) (n : CaptureNode) : Option CaptureKind :=
  (c.extraction.lastWith n.id).map CaptureNode.kind

/-- Nothing of two captures is mixed up: where write identity, joined text, stripped visibility and
renamed kind agree, the parts of the text do; and where the parts agree, two nodes are renamed under
one kind exactly if they are of one kind. -/
structure Unmixed (c c' : Capture) : Prop where
  joint : ∀ r ∈ c.extraction.refs, ∀ r' ∈ c'.extraction.refs,
    let n := c.extraction.heap r
    let n' := c'.extraction.heap r'
    writeIdentity c.context = writeIdentity c'.context →
      evidenceKey (scopeTail c.source c.visibility) n.id =
        evidenceKey (scopeTail c'.source c'.visibility) n'.id →
      strip c.visibility.toList = strip c'.visibility.toList →
      c.renamedKind n = c'.renamedKind n' →
        c.source.type = c'.source.type ∧ c.source.role = c'.source.role ∧
          c.visibility = c'.visibility ∧ n.id = n'.id
  kinds : ∀ r ∈ c.extraction.refs, ∀ r' ∈ c'.extraction.refs,
    let n := c.extraction.heap r
    let n' := c'.extraction.heap r'
    writeIdentity c.context = writeIdentity c'.context → c.source.type = c'.source.type →
      c.source.role = c'.source.role → c.visibility = c'.visibility → n.id = n'.id →
        (n.kind = n'.kind ↔ c.renamedKind n = c'.renamedKind n')

end Capture

/-- No two of the texts have digests with the same 32 first digits. -/
def Distinguishes (texts : List String) : Prop :=
  ∀ a ∈ texts, ∀ b ∈ texts, shortDigest sha 32 a = shortDigest sha 32 b → a = b

/-! ## Digests -/

variable {sha}

/-- Lists with one text are one list. -/
theorem digestText_injective : Function.Injective digestText := by
  intro vs ws h
  have hreads : ∀ xs : List String,
      (.arr (xs.map .str) : Value).All (Json.Reads (fun _ => []) fun _ => .nan) := by
    intro xs
    rw [Json.all_arr]
    intro v hv
    obtain ⟨x, -, rfl⟩ := List.mem_map.mp hv
    trivial
  have hlist := String.ofList_injective h
  have hv := Json.loads_write _ (hreads vs)
  have hw := Json.loads_write _ (hreads ws)
  rw [hlist, hw, Option.some_inj, Json.map_arr, Json.map_arr, Json.arr.injEq, List.map_map,
    List.map_map] at hv
  have hstr : Function.Injective fun s : String => (Json.str s : Json Json.Token) :=
    fun a b hab => Json.str.inj hab
  refine (List.map_injective_iff.mpr hstr ?_).symm
  simpa [Function.comp_def] using hv

/-! ## Names of objects -/

namespace Extraction

variable {E : Extraction} {f : CaptureNode → CaptureNode}

@[simp] theorem refs_update : (E.update f).refs = E.refs := rfl

theorem heap_update {r : ℕ} (hr : r ∈ E.refs) : (E.update f).heap r = f (E.heap r) := if_pos hr

/-- There is a last object with the id of an object. -/
theorem exists_lastWith {r : ℕ} (hr : r ∈ E.refs) :
    ∃ s ∈ E.refs, E.lastWith (E.heap r).id = some (E.heap s) ∧ (E.heap s).id = (E.heap r).id := by
  have hsome : (E.lastWith (E.heap r).id).isSome = true := by
    rw [lastWith, List.find?_isSome]
    exact ⟨E.heap r, by simpa using ⟨r, hr, rfl⟩, by simp⟩
  obtain ⟨n, hn⟩ := Option.isSome_iff_exists.mp hsome
  have hmem := List.mem_of_find?_eq_some hn
  rw [List.mem_reverse, List.mem_map] at hmem
  obtain ⟨s, hs, rfl⟩ := hmem
  exact ⟨s, hs, hn, by simpa using List.find?_some hn⟩

/-- The last object with an id stays it, where ids that differ are renamed apart. -/
theorem lastWith_image {F : Extraction} {id id' : String} (hrefs : F.refs = E.refs)
    (hheap : ∀ r ∈ E.refs, F.heap r = f (E.heap r))
    (h : ∀ r ∈ E.refs, (F.heap r).id = id' ↔ (E.heap r).id = id) :
    F.lastWith id' = (E.lastWith id).map f := by
  have hnodes : F.refs.map F.heap = (E.refs.map E.heap).map f := by
    rw [hrefs, List.map_map]
    exact List.map_congr_left hheap
  rw [lastWith, hnodes, ← List.map_reverse, List.find?_map, lastWith]
  congr 1
  refine List.find?_congr fun n hn => ?_
  rw [List.mem_reverse, List.mem_map] at hn
  obtain ⟨r, hr, rfl⟩ := hn
  simpa [hheap r hr] using h r hr

end Extraction

/-! ## The ids that are stored -/

/-- Two texts of which the first parts are equally long are equal part by part. -/
theorem append_inj_of_length {a b x y : String} (h : a ++ x = b ++ y)
    (hlen : a.toList.length = b.toList.length) : a = b ∧ x = y := by
  have hlist := congrArg String.toList h
  rw [String.toList_append, String.toList_append] at hlist
  obtain ⟨hab, hxy⟩ := List.append_inj hlist hlen
  exact ⟨String.toList_injective hab, String.toList_injective hxy⟩

theorem append_left_inj {a x y : String} (h : a ++ x = a ++ y) : x = y :=
  (append_inj_of_length h rfl).2

/-- The kinds differ in the first two letters of their names. -/
theorem memoryType_append_inj {k k' : CaptureKind} {x x' : String}
    (h : k.memoryType ++ x = k'.memoryType ++ x') : k = k' := by
  have htake : ∀ (k : CaptureKind) (x : String),
      (k.memoryType ++ x).toList.take 2 = k.memoryType.toList.take 2 := by
    intro k x
    rw [String.toList_append]
    exact List.take_append_of_le_length (by cases k <;> decide)
  have hletters : k.memoryType.toList.take 2 = k'.memoryType.toList.take 2 := by
    rw [← htake k x, ← htake k' x', h]
  revert hletters
  cases k <;> cases k' <;> decide

/-- The short names of the kinds are equally long. -/
theorem short_append_inj {k k' : CaptureKind} {x x' : String}
    (h : k.short ++ x = k'.short ++ x') : k = k' ∧ x = x' := by
  have hlen : ∀ k : CaptureKind, k.short.toList.length = 4 := by
    intro k
    cases k <;> decide
  obtain ⟨hk, hx⟩ := append_inj_of_length h ((hlen k).trans (hlen k').symm)
  refine ⟨?_, hx⟩
  revert hk
  cases k <;> cases k' <;> decide

/-- An evidence id tells the kind and the digest. -/
theorem evidenceId_inj {scope scope' : String} {n n' : CaptureNode}
    (h : evidenceId sha scope n = evidenceId sha scope' n') :
    n.kind = n'.kind ∧
      shortDigest sha 32 (evidenceKey scope n.id) =
        shortDigest sha 32 (evidenceKey scope' n'.id) := by
  rw [evidenceId, evidenceId, String.append_assoc, String.append_assoc] at h
  have hkind := memoryType_append_inj h
  rw [hkind] at h
  exact ⟨hkind, append_left_inj (append_left_inj h)⟩

/-- A scope of a bound node begins with the tenant, the subject and the visibility. -/
theorem captureScope_bindNode {context : AuthorizationContext} {visibility : String}
    {n : CaptureNode} {scope : List String}
    (h : (bindNode context visibility n).captureScope = some scope) :
    ∃ rest, scope = context.principal.tenantId :: context.principal.subjectId ::
      String.ofList (strip visibility.toList) :: rest := by
  simp only [CaptureNode.captureScope, bindNode, Option.bind_eq_bind, Option.bind_some,
    List.cons_append, List.nil_append, List.mapM_cons, Option.bind_eq_some_iff,
    Option.filter_eq_some_iff, Option.some.injEq, Option.pure_def] at h
  obtain ⟨-, -, tenant, ⟨rfl, -⟩, rest, ⟨subject, ⟨rfl, -⟩, rest', ⟨seen, ⟨rfl, -⟩, rest'', -, rfl⟩,
    rfl⟩, rfl⟩ := h
  exact ⟨rest'', rfl⟩

/-- The hashed scope of a bound node depends on who writes and on its visibility and kind only. -/
theorem hashedScope_bindNode {context context' : AuthorizationContext}
    {visibility visibility' : String} {n n' : CaptureNode}
    (hidentity : writeIdentity context = writeIdentity context')
    (hvisibility : strip visibility.toList = strip visibility'.toList) (hkind : n.kind = n'.kind) :
    hashedScope (bindNode context visibility n) =
      hashedScope (bindNode context' visibility' n') := by
  simp only [writeIdentity, List.cons.injEq, and_true] at hidentity
  obtain ⟨htenant, hsubject, hworkspace, hagent, hsession⟩ := hidentity
  have hscope : (bindNode context visibility n).captureScope =
      (bindNode context' visibility' n').captureScope := by
    simp only [CaptureNode.captureScope, bindNode, htenant, hsubject, hworkspace, hagent, hsession,
      hvisibility]
  have hbound : (bindNode context visibility n).kind = (bindNode context' visibility' n').kind :=
    hkind
  have hplace : (bindNode context visibility n).workspaceId =
      (bindNode context' visibility' n').workspaceId := congrArg some hworkspace
  have hwriter : (bindNode context visibility n).agentId =
      (bindNode context' visibility' n').agentId := congrArg some hagent
  have horigin : (bindNode context visibility n).originSession =
      (bindNode context' visibility' n').originSession := by
    simp only [bindNode, hsession]
  rw [hashedScope, hashedScope, hscope, hbound, hplace, hwriter, horigin]

theorem length_append_congr (a : String) {b b' : String}
    (h : b.toList.length = b'.toList.length) :
    (a ++ b).toList.length = (a ++ b').toList.length := by
  rw [String.toList_append, String.toList_append, List.length_append, List.length_append, h]

/-- All hints are equally long. -/
theorem length_captureSourceHint (context context' : AuthorizationContext) :
    (captureSourceHint sha context).toList.length =
      (captureSourceHint sha context').toList.length := by
  have hdigest : ∀ values, (digestOf sha values).toList.length = 64 := by
    intro values
    rw [digestOf, String.toList_ofList, sha.length]
  unfold captureSourceHint
  exact length_append_congr _ ((hdigest _).trans (hdigest _).symm)

theorem captureSourceHint_congr {context context' : AuthorizationContext}
    (h : writeIdentity context = writeIdentity context') :
    captureSourceHint sha context = captureSourceHint sha context' := by
  unfold captureSourceHint
  rw [h]

/-- The hint stands in front. -/
theorem evidenceKey_scope (source : CaptureSource) (context : AuthorizationContext)
    (visibility id : String) : evidenceKey (evidenceScope sha source context visibility) id =
      captureSourceHint sha context ++ evidenceKey (scopeTail source visibility) id := by
  rw [evidenceKey, evidenceKey, evidenceScope, String.append_assoc, String.append_assoc,
    String.append_assoc]

/-- The hint tells the write identity. -/
theorem evidenceKey_inj {texts : List String} (hsha : Distinguishes sha texts)
    {c c' : Capture} {id id' : String}
    (hc : digestText ("capture-raw-v1" :: writeIdentity c.context) ∈ texts)
    (hc' : digestText ("capture-raw-v1" :: writeIdentity c'.context) ∈ texts)
    (h : evidenceKey (evidenceScope sha c.source c.context c.visibility) id =
      evidenceKey (evidenceScope sha c'.source c'.context c'.visibility) id') :
    writeIdentity c.context = writeIdentity c'.context ∧
      evidenceKey (scopeTail c.source c.visibility) id =
        evidenceKey (scopeTail c'.source c'.visibility) id' := by
  rw [evidenceKey_scope, evidenceKey_scope] at h
  obtain ⟨hhint, htail⟩ := append_inj_of_length h (length_captureSourceHint _ _)
  refine ⟨?_, htail⟩
  have hdigest := String.ofList_injective (append_left_inj hhint)
  have htext := hsha _ hc _ hc' (by rw [shortDigest, shortDigest, hdigest])
  exact (List.cons.inj (digestText_injective htext)).2

namespace Capture

variable {c c' : Capture} {E E' : Extraction}

/-- The stored id of the nodes that are renamed with a node. -/
def storedId (sha : Sha256) (c : Capture) (n : CaptureNode) : String :=
  n.kind.short ++ "_capture_v1_" ++ shortDigest sha 32
    (digestText ((hashedScope (bindNode c.context c.visibility n)).getD [] ++
      [evidenceId sha (evidenceScope sha c.source c.context c.visibility) n]))

/-- The extraction between the two passes. -/
def bound (sha : Sha256) (c : Capture) : Extraction :=
  (scopeEvidence sha c.extraction c.source c.context c.visibility).update
    (bindNode c.context c.visibility)

theorem refs_bound : (c.bound sha).refs = c.extraction.refs := rfl

/-- What a capture returned. -/
theorem run_ok (h : c.run sha = .ok E) :
    (∀ r ∈ c.extraction.refs, ((c.bound sha).heap r).captureScope.isSome = true) ∧
      (∀ r ∈ c.extraction.refs, (E.heap r).id = captureRename sha (c.bound sha)
        ((c.bound sha).heap r).id) ∧
      E.edges = (((c.bound sha).edges.map fun e =>
        { e with
          source := captureRename sha (c.bound sha) e.source
          target := captureRename sha (c.bound sha) e.target }).filter
            fun e => e.source ≠ e.target).foldl (appendNew GraphEdge.parts) [] := by
  unfold run scopeCapturedData at h
  simp only [Except.bind_ok, require_ok] at h
  obtain ⟨-, hscope, heq⟩ := h
  cases Except.ok.inj heq
  refine ⟨hscope, fun r hr => ?_, rfl⟩
  have hheap : ((c.bound sha).update (capturedNode sha (c.bound sha))).heap r =
      capturedNode sha (c.bound sha) ((c.bound sha).heap r) := Extraction.heap_update hr
  exact congrArg CaptureNode.id hheap

theorem identity_mem_hashed (c : Capture) :
    digestText ("capture-raw-v1" :: writeIdentity c.context) ∈ c.hashed sha := List.mem_cons_self

/-- The hashed texts that belong to a node. -/
theorem mem_hashed {r : ℕ} (hr : r ∈ c.extraction.refs) :
    evidenceKey (evidenceScope sha c.source c.context c.visibility) (c.extraction.heap r).id ∈
        c.hashed sha ∧
      digestText ((hashedScope (bindNode c.context c.visibility (c.extraction.heap r))).getD [] ++
        [evidenceId sha (evidenceScope sha c.source c.context c.visibility)
          (c.extraction.heap r)]) ∈ c.hashed sha := by
  constructor
  · exact List.mem_cons_of_mem _ (List.mem_flatMap.mpr ⟨r, hr, by simp⟩)
  · exact List.mem_cons_of_mem _ (List.mem_flatMap.mpr ⟨r, hr, by simp⟩)

/-- The scope of the evidence. -/
def scope (sha : Sha256) (c : Capture) : String :=
  evidenceScope sha c.source c.context c.visibility

/-- A node between the passes. -/
theorem bound_heap {r : ℕ} (hr : r ∈ c.extraction.refs) :
    (c.bound sha).heap r = bindNode c.context c.visibility
      (scopedNode sha c.extraction c.source.type (c.scope sha) (c.extraction.heap r)) := by
  have hscoped : (scopeEvidence sha c.extraction c.source c.context c.visibility).heap r =
      scopedNode sha c.extraction c.source.type (c.scope sha) (c.extraction.heap r) :=
    Extraction.heap_update hr
  have hbound : (c.bound sha).heap r = bindNode c.context c.visibility
      ((scopeEvidence sha c.extraction c.source c.context c.visibility).heap r) :=
    Extraction.heap_update hr
  rw [hbound, hscoped]

variable (sha) in
/-- The evidence id of a node is that of the last node with its id. -/
theorem evidenceRename_heap (scope : String) {r : ℕ} (hr : r ∈ c.extraction.refs) :
    ∃ s ∈ c.extraction.refs,
      c.extraction.lastWith (c.extraction.heap r).id = some (c.extraction.heap s) ∧
        (c.extraction.heap s).id = (c.extraction.heap r).id ∧
        evidenceRename sha c.extraction scope (c.extraction.heap r).id =
          evidenceId sha scope (c.extraction.heap s) := by
  obtain ⟨s, hs, hlast, hid⟩ := Extraction.exists_lastWith hr
  exact ⟨s, hs, hlast, hid, by rw [evidenceRename, hlast]; rfl⟩

/-- Two nodes have one evidence id exactly if they were extracted with one id. -/
theorem evidenceRename_inj (hsha : Distinguishes sha (c.hashed sha)) {r t : ℕ}
    (hr : r ∈ c.extraction.refs) (ht : t ∈ c.extraction.refs) :
    evidenceRename sha c.extraction (c.scope sha) (c.extraction.heap t).id =
        evidenceRename sha c.extraction (c.scope sha) (c.extraction.heap r).id ↔
      (c.extraction.heap t).id = (c.extraction.heap r).id := by
  constructor
  · intro heq
    obtain ⟨s, hs, -, hsid, hrename⟩ := evidenceRename_heap sha (c.scope sha) hr
    obtain ⟨u, hu, -, huid, hurename⟩ := evidenceRename_heap sha (c.scope sha) ht
    rw [hurename, hrename] at heq
    have hkey := hsha _ (mem_hashed hu).1 _ (mem_hashed hs).1 (evidenceId_inj heq).2
    have hids : "\x00" ++ (c.extraction.heap u).id = "\x00" ++ (c.extraction.heap s).id := by
      rw [evidenceKey, evidenceKey, String.append_assoc, String.append_assoc] at hkey
      exact append_left_inj hkey
    rw [← huid, append_left_inj hids, hsid]
  · intro heq
    rw [heq]

/-- The stored id of a node is that of the last node with its extracted id. -/
theorem run_id (hsha : Distinguishes sha (c.hashed sha)) (h : c.run sha = .ok E) {r : ℕ}
    (hr : r ∈ c.extraction.refs) :
    ∃ s ∈ c.extraction.refs,
      c.extraction.lastWith (c.extraction.heap r).id = some (c.extraction.heap s) ∧
        (c.extraction.heap s).id = (c.extraction.heap r).id ∧
        (E.heap r).id = c.storedId sha (c.extraction.heap s) := by
  obtain ⟨s, hs, hlast, hid, hrename⟩ := evidenceRename_heap sha (c.scope sha) hr
  refine ⟨s, hs, hlast, hid, ?_⟩
  have hbound : (c.bound sha).lastWith ((c.bound sha).heap r).id =
      (c.extraction.lastWith (c.extraction.heap r).id).map fun n =>
        bindNode c.context c.visibility
          (scopedNode sha c.extraction c.source.type (c.scope sha) n) := by
    refine Extraction.lastWith_image refs_bound (fun t ht => bound_heap ht) fun t ht => ?_
    rw [bound_heap ht, bound_heap hr]
    exact evidenceRename_inj hsha hr ht
  rw [(run_ok h).2.1 r hr, captureRename, hbound, hlast]
  have hscope : hashedScope (bindNode c.context c.visibility
      (scopedNode sha c.extraction c.source.type (c.scope sha) (c.extraction.heap s))) =
        hashedScope (bindNode c.context c.visibility (c.extraction.heap s)) :=
    hashedScope_bindNode rfl rfl rfl
  have hevidence : (bindNode c.context c.visibility
      (scopedNode sha c.extraction c.source.type (c.scope sha) (c.extraction.heap s))).id =
        evidenceId sha (c.scope sha) (c.extraction.heap s) := by
    rw [← hrename, ← hid]
    rfl
  rw [Option.map_some, Option.map_some, Option.getD_some, captureId, hscope, hevidence]
  rfl

/-- The hashed scope of a node of a capture that returned. -/
theorem run_hashedScope (h : c.run sha = .ok E) {r : ℕ} (hr : r ∈ c.extraction.refs) :
    ∃ rest, (hashedScope (bindNode c.context c.visibility (c.extraction.heap r))).getD [] =
      c.context.principal.tenantId :: c.context.principal.subjectId ::
        String.ofList (strip c.visibility.toList) :: rest := by
  have hsome := (run_ok h).1 r hr
  rw [bound_heap hr] at hsome
  obtain ⟨scope, hscope⟩ := Option.isSome_iff_exists.mp hsome
  obtain ⟨rest, rfl⟩ := captureScope_bindNode hscope
  have hscope' : (bindNode c.context c.visibility (c.extraction.heap r)).captureScope = some _ :=
    hscope
  rw [hashedScope, hscope', Option.map_some, Option.getD_some]
  split_ifs
  · exact ⟨_, rfl⟩
  · exact ⟨rest, rfl⟩

/-- Two stored ids are one exactly if kind, write identity, joined text and visibility agree. -/
theorem storedId_eq_iff (hsha : Distinguishes sha (c.hashed sha ++ c'.hashed sha))
    (h : c.run sha = .ok E) (h' : c'.run sha = .ok E') {s s' : ℕ} (hs : s ∈ c.extraction.refs)
    (hs' : s' ∈ c'.extraction.refs) :
    c.storedId sha (c.extraction.heap s) = c'.storedId sha (c'.extraction.heap s') ↔
      (c.extraction.heap s).kind = (c'.extraction.heap s').kind ∧
        writeIdentity c.context = writeIdentity c'.context ∧
        evidenceKey (scopeTail c.source c.visibility) (c.extraction.heap s).id =
          evidenceKey (scopeTail c'.source c'.visibility) (c'.extraction.heap s').id ∧
        strip c.visibility.toList = strip c'.visibility.toList := by
  constructor
  · intro heq
    rw [storedId, storedId, String.append_assoc, String.append_assoc] at heq
    obtain ⟨hkind, hdigest⟩ := short_append_inj heq
    have htext := hsha _ (List.mem_append_left _ (mem_hashed hs).2) _
      (List.mem_append_right _ (mem_hashed hs').2) (append_left_inj hdigest)
    have hlist := digestText_injective htext
    obtain ⟨rest, hrest⟩ := run_hashedScope h hs
    obtain ⟨rest', hrest'⟩ := run_hashedScope h' hs'
    rw [hrest, hrest', List.cons_append, List.cons_append, List.cons_append, List.cons_append,
      List.cons_append, List.cons_append] at hlist
    simp only [List.cons.injEq] at hlist
    obtain ⟨-, -, hvisibility, hends⟩ := hlist
    have hone : ∀ x : String, [x].length = 1 := fun x => List.length_singleton
    have hevidence := List.cons.inj
      (List.append_inj_right' hends ((hone _).trans (hone _).symm))
    have hkey := hsha _ (List.mem_append_left _ (mem_hashed hs).1) _
      (List.mem_append_right _ (mem_hashed hs').1) (evidenceId_inj hevidence.1).2
    have hmem : digestText ("capture-raw-v1" :: writeIdentity c.context) ∈
        c.hashed sha ++ c'.hashed sha := List.mem_append_left _ (identity_mem_hashed c)
    have hmem' : digestText ("capture-raw-v1" :: writeIdentity c'.context) ∈
        c.hashed sha ++ c'.hashed sha := List.mem_append_right _ (identity_mem_hashed c')
    obtain ⟨hidentity, htail⟩ := evidenceKey_inj hsha hmem hmem' hkey
    exact ⟨hkind, hidentity, htail, String.ofList_injective hvisibility⟩
  · rintro ⟨hkind, hidentity, htail, hvisibility⟩
    have hkey : evidenceKey (evidenceScope sha c.source c.context c.visibility)
        (c.extraction.heap s).id =
          evidenceKey (evidenceScope sha c'.source c'.context c'.visibility)
            (c'.extraction.heap s').id := by
      rw [evidenceKey_scope, evidenceKey_scope, htail, captureSourceHint_congr hidentity]
    rw [storedId, storedId, hashedScope_bindNode hidentity hvisibility hkind, evidenceId,
      evidenceId, hkey, hkind]

/-! ## Captures -/

/-- The kind under which a node is renamed is that of the node that gives it its id. -/
theorem renamedKind_eq {n m : CaptureNode} (h : c.extraction.lastWith n.id = some m) :
    c.renamedKind n = some m.kind := by
  rw [renamedKind, h]
  rfl

/-- The edges keep up with their nodes. -/
theorem edgesKept (h : c.run sha = .ok E) : EdgesKept c E := by
  obtain ⟨-, hids, hedges⟩ := run_ok h
  have hend : ∀ r ∈ c.extraction.refs, ∀ id, id = (c.extraction.heap r).id →
      captureRename sha (c.bound sha) (evidenceRename sha c.extraction (c.scope sha) id) =
        (E.heap r).id := by
    intro r hr id hid
    rw [hids r hr, bound_heap hr, hid]
    rfl
  refine ⟨fun e he r hr s hs hsource htarget hne => ?_, fun e' he' => ?_, fun e' he' => ?_, ?_⟩
  · rw [hedges, mem_map_foldl_appendNew]
    refine .inr (List.mem_map.mpr ⟨_, List.mem_filter.mpr ⟨List.mem_map.mpr
      ⟨_, List.mem_map.mpr ⟨e, he, rfl⟩, rfl⟩, ?_⟩, ?_⟩)
    · have hsource' := hend r hr _ hsource
      have htarget' := hend s hs _ htarget
      dsimp only
      rw [show evidenceScope sha c.source c.context c.visibility = c.scope sha from rfl, hsource',
        htarget']
      simpa using hne
    · have hsource' := hend r hr _ hsource
      have htarget' := hend s hs _ htarget
      rw [GraphEdge.parts]
      dsimp only
      rw [show evidenceScope sha c.source c.context c.visibility = c.scope sha from rfl, hsource',
        htarget']
  · rw [hedges] at he'
    have hmem := (mem_of_mem_foldl_appendNew he').resolve_left List.not_mem_nil
    obtain ⟨e₁, he₁, rfl⟩ := List.mem_map.mp (List.mem_filter.mp hmem).1
    obtain ⟨e, he, rfl⟩ := List.mem_map.mp he₁
    exact ⟨e, he, rfl, fun r hr => ⟨hend r hr _, hend r hr _⟩⟩
  · rw [hedges] at he'
    have hmem := (mem_of_mem_foldl_appendNew he').resolve_left List.not_mem_nil
    simpa using (List.mem_filter.mp hmem).2
  · rw [hedges]
    exact nodup_foldl_appendNew _ List.nodup_nil

/-- Two captures keep their nodes apart, and their edges with their nodes, exactly when nothing of
them is mixed up. -/
theorem keepApart_iff (c c' : Capture) (E E' : Extraction) (h : c.run sha = .ok E)
    (h' : c'.run sha = .ok E') (hsha : Distinguishes sha (c.hashed sha ++ c'.hashed sha)) :
    (KeepApart c c' E E' ∧ EdgesKept c E ∧ EdgesKept c' E') ↔ Unmixed c c' := by
  rw [and_iff_left ⟨edgesKept h, edgesKept h'⟩]
  have hleft : Distinguishes sha (c.hashed sha) := fun a ha b hb =>
    hsha a (List.mem_append_left _ ha) b (List.mem_append_left _ hb)
  have hright : Distinguishes sha (c'.hashed sha) := fun a ha b hb =>
    hsha a (List.mem_append_right _ ha) b (List.mem_append_right _ hb)
  -- The ids agree where identity, joined text, visibility and renamed kind do.
  have hstored : ∀ r ∈ c.extraction.refs, ∀ r' ∈ c'.extraction.refs,
      (E.heap r).id = (E'.heap r').id ↔
        c.renamedKind (c.extraction.heap r) = c'.renamedKind (c'.extraction.heap r') ∧
          writeIdentity c.context = writeIdentity c'.context ∧
          evidenceKey (scopeTail c.source c.visibility) (c.extraction.heap r).id =
            evidenceKey (scopeTail c'.source c'.visibility) (c'.extraction.heap r').id ∧
          strip c.visibility.toList = strip c'.visibility.toList := by
    intro r hr r' hr'
    obtain ⟨s, hs, hlast, hid, hstored⟩ := run_id hleft h hr
    obtain ⟨s', hs', hlast', hid', hstored'⟩ := run_id hright h' hr'
    rw [hstored, hstored', storedId_eq_iff hsha h h' hs hs', renamedKind_eq hlast,
      renamedKind_eq hlast', Option.some_inj, hid, hid']
  constructor
  · intro hapart
    refine ⟨fun r hr r' hr' hidentity htext hvisibility hkind => ?_,
      fun r hr r' hr' hidentity htype hrole hvisibility hid => ?_⟩
    · have horigin := (hapart r hr r' hr').mp
        ((hstored r hr r' hr').mpr ⟨hkind, hidentity, htext, hvisibility⟩)
      exact ⟨horigin.type, horigin.role, horigin.visibility, horigin.id⟩
    · have htext : evidenceKey (scopeTail c.source c.visibility) (c.extraction.heap r).id =
          evidenceKey (scopeTail c'.source c'.visibility) (c'.extraction.heap r').id := by
        rw [scopeTail, scopeTail, htype, hrole, hvisibility, hid]
      constructor
      · intro hkind
        exact ((hstored r hr r' hr').mp ((hapart r hr r' hr').mpr
          ⟨hkind, hid, hidentity, htype, hrole, hvisibility⟩)).1
      · intro hkind
        exact ((hapart r hr r' hr').mp ((hstored r hr r' hr').mpr
          ⟨hkind, hidentity, htext, by rw [hvisibility]⟩)).kind
  · intro hunmixed r hr r' hr'
    rw [hstored r hr r' hr']
    constructor
    · rintro ⟨hkind, hidentity, htext, hvisibility⟩
      obtain ⟨htype, hrole, hvis, hid⟩ :=
        hunmixed.joint r hr r' hr' hidentity htext hvisibility hkind
      exact ⟨(hunmixed.kinds r hr r' hr' hidentity htype hrole hvis hid).mpr hkind, hid, hidentity,
        htype, hrole, hvis⟩
    · rintro ⟨hkind, hid, hidentity, htype, hrole, hvisibility⟩
      refine ⟨(hunmixed.kinds r hr r' hr' hidentity htype hrole hvisibility hid).mp hkind,
        hidentity, ?_, by rw [hvisibility]⟩
      rw [scopeTail, scopeTail, htype, hrole, hvisibility, hid]

end Capture

end Passes

namespace Capture

/-- A capture returns where every node is bound to a scope. -/
theorem exists_run (sha : Sha256) {c : Capture}
    (h : ∀ r ∈ c.extraction.refs,
      (bindNode c.context c.visibility (c.extraction.heap r)).captureScope.isSome = true) :
    ∃ E, c.run sha = .ok E := by
  have hscope : ∀ r ∈ (c.bound sha).refs, ((c.bound sha).heap r).captureScope.isSome = true := by
    intro r hr
    rw [bound_heap hr]
    exact h r hr
  have hrequire : ∀ e, require (∀ r ∈ (c.bound sha).refs,
      ((c.bound sha).heap r).captureScope.isSome = true) e = .ok () :=
    fun e => require_ok.mpr hscope
  have hrun : c.run sha = scopeCapturedData sha (c.bound sha) := rfl
  rw [hrun, scopeCapturedData, hrequire]
  exact ⟨_, rfl⟩

end Capture

/-- A digest of the digits of the last characters of a text. -/
def lastSha : Sha256 where
  hexdigest text :=
    let digits := (text.toList.reverse.take 16).flatMap fun c => fixedDigits 2 (c.toNat % 100)
    (digits ++ List.replicate 32 '0').take 32 ++ List.replicate 32 '0'
  length := by simp

theorem distinguishes_of_nodup {sha : Sha256} {texts all : List String}
    (hsub : ∀ t ∈ all, t ∈ texts) (h : (texts.map (shortDigest sha 32)).Nodup) :
    Distinguishes sha all :=
  fun a ha b hb heq => List.inj_on_of_nodup_map h (hsub a ha) (hsub b hb) heq

/-- One fact. -/
def sampleExtraction : Extraction where
  heap _ :=
    { kind := .fact, id := "f", name := "build", nameNormalized := "", sourceParagraphs := []
      tenantId := none, ownerSubjectId := none, workspaceId := none, visibility := none
      originSession := none, agentId := none }
  functions := []
  facts := [0]
  preferences := []
  graphNodes := []
  edges := []
  paragraphs := []

/-- A capture of it by one writer. -/
def sampleCapture (type role : String) : Capture :=
  ⟨sampleExtraction, ⟨type, some role⟩, ⟨⟨"t", "a", []⟩, "w", "g", "s", []⟩, "user"⟩

namespace Capture

theorem exists_sampleRun (type role : String) :
    ∃ E, (sampleCapture type role).run lastSha = .ok E := by
  have hbound : ∀ r ∈ sampleExtraction.refs, (bindNode ⟨⟨"t", "a", []⟩, "w", "g", "s", []⟩ "user"
      (sampleExtraction.heap r)).captureScope.isSome = true := by decide +kernel
  exact exists_run lastSha hbound

/-- Two speakers of one conversation. -/
theorem speakers_keepApart : ∃ E E' : Extraction,
    (sampleCapture "observation" "user").run lastSha = .ok E ∧
      (sampleCapture "observation" "assistant").run lastSha = .ok E' ∧
      ((KeepApart (sampleCapture "observation" "user") (sampleCapture "observation" "assistant")
          E E' ∧ EdgesKept (sampleCapture "observation" "user") E ∧
            EdgesKept (sampleCapture "observation" "assistant") E') ↔
        Unmixed (sampleCapture "observation" "user")
          (sampleCapture "observation" "assistant")) := by
  obtain ⟨E, hE⟩ := exists_sampleRun "observation" "user"
  obtain ⟨E', hE'⟩ := exists_sampleRun "observation" "assistant"
  have hnodup : (((sampleCapture "observation" "user").hashed lastSha ++
      ((sampleCapture "observation" "assistant").hashed lastSha).tail).map
        (shortDigest lastSha 32)).Nodup := by decide +kernel
  have hsub : ∀ t ∈ (sampleCapture "observation" "user").hashed lastSha ++
      (sampleCapture "observation" "assistant").hashed lastSha,
      t ∈ (sampleCapture "observation" "user").hashed lastSha ++
        ((sampleCapture "observation" "assistant").hashed lastSha).tail := by
    intro t ht
    rcases List.mem_append.mp ht with ht | ht
    · exact List.mem_append_left _ ht
    · -- Both captures hash the identity of their one writer.
      rcases List.mem_cons.mp ht with rfl | ht
      · exact List.mem_append_left _ (identity_mem_hashed (sampleCapture "observation" "user"))
      · exact List.mem_append_right _ ht
  exact ⟨E, E', hE, hE', keepApart_iff _ _ E E' hE hE' (distinguishes_of_nodup hsub hnodup)⟩

/-- A slash in the kind of the source, and the same slash in the role of the author. -/
theorem slash_mixed : ∃ (sha : Sha256) (c c' : Capture) (E E' : Extraction),
    c.run sha = .ok E ∧ c'.run sha = .ok E' ∧ Distinguishes sha (c.hashed sha ++ c'.hashed sha) ∧
      ¬ KeepApart c c' E E' := by
  let c := sampleCapture "file" "agent/reviewer"
  let c' := sampleCapture "file/agent" "reviewer"
  obtain ⟨E, hE⟩ := exists_sampleRun "file" "agent/reviewer"
  obtain ⟨E', hE'⟩ := exists_sampleRun "file/agent" "reviewer"
  have hnodup : ((c.hashed lastSha).map (shortDigest lastSha 32)).Nodup := by decide +kernel
  have hone : Distinguishes lastSha (c.hashed lastSha) :=
    distinguishes_of_nodup (fun _ => id) hnodup
  have htail : scopeTail c.source c.visibility = scopeTail c'.source c'.visibility := by decide
  have hsame : c'.hashed lastSha = c.hashed lastSha := by decide +kernel
  have hboth : Distinguishes lastSha (c.hashed lastSha ++ c'.hashed lastSha) := by
    rw [hsame]
    exact distinguishes_of_nodup (fun t ht => (List.mem_append.mp ht).elim id id) hnodup
  refine ⟨lastSha, c, c', E, E', hE, hE', hboth, fun h => ?_⟩
  obtain ⟨s, hs, -, -, hid⟩ := run_id hone hE (show 0 ∈ c.extraction.refs by decide)
  obtain ⟨s', hs', -, -, hid'⟩ := run_id (hsame ▸ hone) hE' (show 0 ∈ c'.extraction.refs by decide)
  have hids : (E.heap 0).id = (E'.heap 0).id := by
    rw [hid, hid', storedId_eq_iff hboth hE hE' hs hs', htail]
    exact ⟨rfl, rfl, rfl, rfl⟩
  exact absurd ((h 0 (by decide) 0 (by decide)).mp hids).type (by decide)

end Capture

end Memplex
