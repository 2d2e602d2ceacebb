import Memplex.Py.Value
import Mathlib.Data.List.Sort
import Mathlib.Data.String.Basic

/-!
# Documents as `json.dumps` writes them

`canonicalJson` is the document that `json.dumps(value, sort_keys=True, allow_nan=False)` writes, as
`json.loads` returns it: the members of every object in the order of the code points of their keys.
Two values have the same canonical text exactly when they have the same canonical document, so the
model compares documents where the program compares bytes.
-/

namespace Memplex

open Lib

/-- Members in the order of their keys' code points. -/
def sortMembers {α : Type} (members : List (String × α)) : List (String × α) :=
  members.insertionSort fun m n => m.1 ≤ n.1

theorem sortMembers_perm {α : Type} (members : List (String × α)) :
    (sortMembers members).Perm members := List.perm_insertionSort _ _

/-- Sorting does not change what is found under a key. -/
theorem get?_sortMembers {members : Members} (hnodup : (members.map Prod.fst).Nodup)
    (key : String) : Members.get? (sortMembers members) key = members.get? key := by
  have hperm := sortMembers_perm members
  have hnodup' : ((sortMembers members).map Prod.fst).Nodup :=
    (hperm.map Prod.fst).nodup_iff.mpr hnodup
  unfold Members.get?
  congr 1
  cases hfind : findRow Prod.fst key members with
  | none =>
    rw [findRow_eq_none] at hfind ⊢
    exact fun m hm => hfind m (hperm.mem_iff.mp hm)
  | some m =>
    obtain ⟨hm, rfl⟩ := findRow_some hfind
    exact findRow_of_mem hnodup' (hperm.mem_iff.mpr hm)

mutual

/-- `_canonical_json`: the document that is written, unless a float has no JSON text. -/
def canonicalJson : Value → Except PyError Value
  | .num (.float (.finite d)) => .ok (.float (.finite d))
  | .num (.float _) => .error (valueError "Out of range float values are not JSON compliant")
  | .arr items => (canonicalItems items).map .arr
  | .obj members => (canonicalMembers members).map fun ms => .obj (sortMembers ms)
  | v => .ok v

/-- `canonicalJson` on the elements of a list. -/
def canonicalItems : List Value → Except PyError (List Value)
  | [] => .ok []
  | x :: xs => do
    let x ← canonicalJson x
    return x :: (← canonicalItems xs)

/-- `canonicalJson` on the values of a dictionary. -/
def canonicalMembers : Members → Except PyError Members
  | [] => .ok []
  | (k, x) :: ms => do
    let x ← canonicalJson x
    return (k, x) :: (← canonicalMembers ms)

end

end Memplex
