import Memplex.Models.Memory

/-!
# Nodes of extracted paragraphs

The engine turns a paragraph that states a fact or a preference into a node. The id of the node is
taken from a digest of the text, so that one text always gives one id, whoever has written it: the
identity of the writer is bound to the node later, and does not enter into the id.
-/

namespace Memplex

/-- A paragraph of a text. -/
structure Paragraph where
  id : String
  section_ : String
  rawText : String

/-- Where a text comes from. -/
structure SourceDocument where
  type : String
  sourcePath : Option String
  url : Option String
  sourceType : SourceType

/-- The first characters of a text. -/
def textPrefix (n : ℕ) (text : String) : String := String.ofList (text.toList.take n)

/-- `persisted_paragraph_id`. -/
def persistedParagraphId (hexdigest : String → String) (sourceHint paraId rawText : String) :
    String :=
  sourceHint ++ ":" ++ paraId ++ ":" ++ textPrefix 8 (hexdigest rawText)

/-- The characters that end a sentence. -/
def sentenceEnds : List Char := ['。', '.', '!', '?', '！', '？', '\n']

/-- The first sentence of a text, or all of it where that is empty. -/
def firstSentence (env : Env) (raw : String) : String :=
  let sentence := env.strip (String.ofList (raw.toList.takeWhile fun c => c ∉ sentenceEnds))
  if sentence = "" then raw else sentence

/-- `text.partition(separator)`: what stands before and after the first separator. -/
def partitionAt (separator : List Char) : List Char → Option (List Char × List Char)
  | [] => none
  | c :: cs =>
    if separator.isPrefixOf (c :: cs) then some ([], (c :: cs).drop separator.length)
    else (partitionAt separator cs).map fun p => (c :: p.1, p.2)

/-- The words that part the subject of a fact from its object. -/
def copulas : List String :=
  [" is ", " are ", " means ", "是", "指的是", "定义为", "意味着"]

/-- The subject, predicate and object of a sentence, with no subject where there is no copula. -/
def splitFact (env : Env) (sentence : String) : String × String × String :=
  let parts := copulas.findSome? fun copula =>
    (partitionAt copula.toList sentence.toList).map fun p =>
      (env.strip (String.ofList p.1), env.strip copula, env.strip (String.ofList p.2))
  parts.getD ("", "states", sentence)

/-- The name of the node of a paragraph. -/
def Paragraph.nodeName (para : Paragraph) (raw : String) : String :=
  if para.section_ ≠ "" then para.section_ else textPrefix 50 raw

/-- The fields that a fact and a preference of a paragraph share: the digest and the start of the id
come from the text alone, and everything about a principal is left out. -/
def extractedNode (env : Env) (hexdigest : String → String) (now idPrefix memoryType : String)
    (para : Paragraph) (source : SourceDocument) : MemoryNode :=
  let raw := env.strip para.rawText
  { id := idPrefix ++ textPrefix 16 (hexdigest raw)
    memoryType := .str memoryType
    name := .str (para.nodeName raw)
    domain := .null
    confidence := .float (.finite (Lib.Dec.ofInt 1))
    sourceType := .known source.sourceType
    owner := .null
    tenantId := .null
    ownerSubjectId := .null
    workspaceId := .null
    visibility := .null
    provenance := []
    version := .int 1
    createdAt := .str now
    updatedAt := .str now
    originSession := .null
    accessCount := .int 0
    lastAccessedAt := .null
    sourceParagraphs := [.str (persistedParagraphId hexdigest source.type para.id para.rawText)]
    needsReview := .bool false
    needsReviewUntil := .null
    contentHash := .str (hexdigest raw)
    namespace_ := []
    knowledgeTier := .null
    trustTier := 3 }

/-- `_build_fact_from_paragraph`. -/
def buildFactFromParagraph (env : Env) (hexdigest : String → String) (now : String)
    (para : Paragraph) (source : SourceDocument) : Fact :=
  let raw := env.strip para.rawText
  let (subject, predicate, obj) := splitFact env (firstSentence env raw)
  { toMemoryNode := extractedNode env hexdigest now "fact_" "fact" para source
    subject := .str (if subject = "" then para.nodeName raw else subject)
    predicate := .str predicate
    object_ := .str obj
    validUntil := .null
    validFrom := .null
    invalidAt := .null }

/-- `_build_preference_from_paragraph`. -/
def buildPreferenceFromParagraph (env : Env) (hexdigest : String → String) (now : String)
    (para : Paragraph) (source : SourceDocument) : Preference :=
  let raw := env.strip para.rawText
  { toMemoryNode := extractedNode env hexdigest now "pref_" "preference" para source
    aspect := .str (para.nodeName raw)
    preference := .str raw
    subjectId := .null }

end Memplex
