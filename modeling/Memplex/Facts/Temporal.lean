import Memplex.Lite.Documents
import Memplex.Models.Defaults

/-!
# The validity of facts

A fact holds from its `valid_from` to its `invalid_at`, and no longer than its shelf life
`valid_until`; a time that is missing or that does not parse sets no bound. Facts of the same
subject and predicate, up to case and outer blanks, are in one slot, where a new fact supersedes the
others. A fact that was captured from a conversation may supersede only facts of its own capture
scope, and be superseded only by such.

The fields of a stored fact are texts, or missing where they may be; a reading of the clock is a
number of microseconds.
-/

namespace Memplex

open Lib

/-- The functions of the standard library that the temporal code uses. -/
structure TemporalEnv extends Env where
  /-- The instant of `datetime.fromisoformat(text)`, in UTC where the text names no zone; `none` is
  its `ValueError`. -/
  instant : String → Option Instant

/-- `value or ""`, of an optional text. -/
def textOr (v : Value) : String := textOf (pyOr v (.str ""))

/-- `_key`, and `_slot` of the maintenance pass: the subject and the predicate of a fact. -/
def factSlot (env : Env) (f : Fact) : String × String :=
  (env.lower (env.strip (textOr f.subject)), env.lower (env.strip (textOr f.predicate)))

namespace TemporalEnv

variable (te : TemporalEnv)

/-- The local `parse`. -/
def parse (value : Value) : Option Instant :=
  if value.truthy then te.instant (textOf value) else none

/-- `is_valid_at`. -/
def isValidAt (f : Fact) (when : Instant) : Bool :=
  (te.parse f.validFrom).all (fun start => start ≤ when) &&
    (te.parse f.invalidAt).all (fun stop => when < stop) &&
    (te.parse f.validUntil).all fun shelf => when < shelf

end TemporalEnv

/-! ## Capture scopes -/

/-- `_CAPTURE_PREFIXES`. -/
def capturePrefixes : List String := ["func_capture_v1_", "fact_capture_v1_", "pref_capture_v1_"]

/-- `is_captured`. -/
def isCaptured (n : MemoryNode) : Bool :=
  capturePrefixes.any fun p => p.toList.isPrefixOf n.id.toList

/-- `capture_scope`. -/
def captureScope (env : Env) (n : MemoryNode) : Option (List String) :=
  let visibility := textOf n.visibility
  if !n.visibility.isText || !(["user", "workspace", "session"].contains visibility) then none
  else
    let values := [n.tenantId, n.ownerSubjectId, n.visibility] ++
      (if visibility = "user" then [] else [n.workspaceId]) ++
      (if visibility = "session" then [n.provenance.getStr "agent_id", n.originSession] else [])
    if values.all fun v => (asString v).any fun s => env.strip s ≠ "" then
      some (values.map textOf)
    else none

/-- `capture_scopes_match`. -/
def captureScopesMatch (env : Env) (left right : MemoryNode) : Bool :=
  if !isCaptured left && !isCaptured right then true
  else
    let scope := captureScope env left
    scope.isSome && scope = captureScope env right

/-- Two nodes match in either order. -/
theorem captureScopesMatch_comm (env : Env) (left right : MemoryNode) :
    captureScopesMatch env left right = captureScopesMatch env right left := by
  unfold captureScopesMatch
  rw [Bool.and_comm (!isCaptured left)]
  by_cases h : captureScope env left = captureScope env right
  · rw [h]
  · simp [h, Ne.symm h]

end Memplex
