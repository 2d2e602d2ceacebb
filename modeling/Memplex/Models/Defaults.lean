import Memplex.Models.Memory

/-!
# Nodes as their classes build them

The constructor of each kind of node, with every field that is not given at the default of its
class. A function is built with its times: `__post_init__` has filled them.
-/

namespace Memplex

/-- `MemoryNode(id=id)`, with the memory type of a class. -/
def MemoryNode.make (id memoryType : String) : MemoryNode where
  id := id
  memoryType := .str memoryType
  name := .str ""
  domain := .null
  confidence := .float (.finite (Lib.Dec.ofInt 1))
  sourceType := .known .wiki
  owner := .null
  tenantId := .null
  ownerSubjectId := .null
  workspaceId := .null
  visibility := .null
  provenance := []
  version := .int 1
  createdAt := .null
  updatedAt := .null
  originSession := .null
  accessCount := .int 0
  lastAccessedAt := .null
  sourceParagraphs := []
  needsReview := .bool false
  needsReviewUntil := .null
  contentHash := .null
  namespace_ := []
  knowledgeTier := .null
  trustTier := 3

/-- `Function(id=id)`, created at a time. -/
def Function.make (id createdAt : String) : Function where
  toMemoryNode := { MemoryNode.make id "function" with
    createdAt := .str createdAt
    updatedAt := .str createdAt }
  trigger := []
  condition := []
  action := []
  benefit := []
  nameNormalized := .str ""
  attributes := []
  crossReferences := []
  priorityFromSource := .null
  sourceAuthority := .null

/-- `Fact(id=id, subject=subject, predicate=predicate, object_=object_)`. -/
def Fact.make (id subject predicate object_ : String) : Fact where
  toMemoryNode := .make id "fact"
  subject := .str subject
  predicate := .str predicate
  object_ := .str object_
  validUntil := .null
  validFrom := .null
  invalidAt := .null

/-- `Preference(id=id)`. -/
def Preference.make (id : String) : Preference where
  toMemoryNode := .make id "preference"
  aspect := .str ""
  preference := .str ""
  subjectId := .null

/-- `Observation(id=id)`. -/
def Observation.make (id : String) : Observation where
  toMemoryNode := .make id "observation"
  event := .str ""
  context := .str ""
  observedAt := .null
  actor := .str "system"
  category := .str "note"

end Memplex
