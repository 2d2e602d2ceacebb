import Mathlib.Order.Defs.LinearOrder
import Mathlib.Data.Set.Insert
import Mathlib.Logic.Function.Basic
import Mathlib.Tactic.Tauto

/-!
# Last-writer-wins registers

A register holds, for each key, the latest write it was offered, where writes carry a version from a
linear order. `IsLatest seen k cur` says what the register must hold at `k` when it was offered the
writes of `seen`. A further write either takes the place (`IsLatest.insert_above`) or changes
nothing (`IsLatest.insert_of_le`, `IsLatest.insert_of_ne`). Since a latest write is unique wherever
key and version determine a write (`IsLatest.unique`), two registers that were offered the same set
hold the same writes, whatever the order and the repetitions.
-/

namespace Memplex.Lib

variable {κ ω ε : Type*} [LinearOrder ω]

/-- `cur` is the write with the largest version among the writes of `seen` at the key `k`, or
`none` when `seen` has no write there. -/
def IsLatest (key : ε → κ) (ver : ε → ω) (seen : Set ε) (k : κ) : Option ε → Prop
  | none => ∀ e ∈ seen, key e ≠ k
  | some c => c ∈ seen ∧ key c = k ∧ ∀ e ∈ seen, key e = k → ver e ≤ ver c

/-- Key and version determine a write of `seen`. -/
def VersionsDetermine (key : ε → κ) (ver : ε → ω) (seen : Set ε) : Prop :=
  ∀ e ∈ seen, ∀ e' ∈ seen, key e = key e' → ver e = ver e' → e = e'

section Latest

variable {key : ε → κ} {ver : ε → ω} {seen : Set ε} {k : κ}

theorem isLatest_empty : IsLatest key ver (∅ : Set ε) k none := fun _ he => he.elim

/-- A write that is not below the one held is the latest at its key. -/
theorem IsLatest.insert_above {cur : Option ε} (h : IsLatest key ver seen k cur) {e : ε}
    (hk : key e = k) (hle : ∀ c, cur = some c → ver c ≤ ver e) :
    IsLatest key ver (insert e seen) k (some e) := by
  refine ⟨Set.mem_insert _ _, hk, fun x hx hxk => ?_⟩
  rcases Set.mem_insert_iff.mp hx with rfl | hx
  · exact le_rfl
  · cases cur with
    | none => exact absurd hxk (h x hx)
    | some c => exact (h.2.2 x hx hxk).trans (hle c rfl)

/-- A write not above the one held leaves the latest in place. -/
theorem IsLatest.insert_of_le {c : ε} (h : IsLatest key ver seen k (some c)) {e : ε}
    (hle : ver e ≤ ver c) : IsLatest key ver (insert e seen) k (some c) := by
  refine ⟨Set.mem_insert_of_mem _ h.1, h.2.1, fun x hx hxk => ?_⟩
  rcases Set.mem_insert_iff.mp hx with rfl | hx
  · exact hle
  · exact h.2.2 x hx hxk

/-- A write at another key leaves the latest in place. -/
theorem IsLatest.insert_of_ne {cur : Option ε} (h : IsLatest key ver seen k cur) {e : ε}
    (hk : key e ≠ k) : IsLatest key ver (insert e seen) k cur := by
  cases cur with
  | none =>
    intro x hx
    rcases Set.mem_insert_iff.mp hx with rfl | hx
    · exact hk
    · exact h x hx
  | some c =>
    refine ⟨Set.mem_insert_of_mem _ h.1, h.2.1, fun x hx hxk => ?_⟩
    rcases Set.mem_insert_iff.mp hx with rfl | hx
    · exact absurd hxk hk
    · exact h.2.2 x hx hxk

/-- The latest write of a set is unique where key and version determine a write. -/
theorem IsLatest.unique (hd : VersionsDetermine key ver seen) {cur cur' : Option ε}
    (h : IsLatest key ver seen k cur) (h' : IsLatest key ver seen k cur') : cur = cur' := by
  cases cur with
  | none =>
    cases cur' with
    | none => rfl
    | some c' => exact absurd h'.2.1 (h c' h'.1)
  | some c =>
    cases cur' with
    | none => exact absurd h.2.1 (h' c h.1)
    | some c' =>
      have hv : ver c = ver c' := le_antisymm (h'.2.2 c h.1 h.2.1) (h.2.2 c' h'.1 h'.2.1)
      rw [hd c h.1 c' h'.1 (h.2.1.trans h'.2.1.symm) hv]

end Latest

end Memplex.Lib
