import Mathlib.Logic.Relation

/-!
# Systems that run

A system is a set of states to start in and a step relation. Everything that may happen at once is
one step, so that a run is one interleaving of what several parties do. A property of the states that
the start has and every step keeps holds wherever a run may get (`System.Inductive.holds`); what a
step never undoes holds from then on (`System.Stable.later`).
-/

namespace Memplex.Lib

/-- Where a system starts, and what one step does. -/
structure System (σ : Type*) where
  start : σ → Prop
  step : σ → σ → Prop

namespace System

variable {σ : Type*} (S : System σ)

/-- Any number of steps. -/
def Run : σ → σ → Prop := Relation.ReflTransGen S.step

/-- The states that a run from the start gets into. -/
def Reachable (s : σ) : Prop := ∃ s₀, S.start s₀ ∧ S.Run s₀ s

/-- A property that the start has and that every step keeps. -/
structure Inductive (P : σ → Prop) : Prop where
  start : ∀ s, S.start s → P s
  step : ∀ s s', P s → S.step s s' → P s'

/-- A property that no step from a reachable state undoes. -/
def Stable (P : σ → Prop) : Prop := ∀ s s', S.Reachable s → P s → S.step s s' → P s'

variable {S} {P : σ → Prop} {s s' : σ}

theorem Reachable.of_start (h : S.start s) : S.Reachable s := ⟨s, h, .refl⟩

theorem Reachable.next (h : S.Reachable s) (hstep : S.step s s') : S.Reachable s' := by
  obtain ⟨s₀, hstart, hrun⟩ := h
  exact ⟨s₀, hstart, hrun.tail hstep⟩

theorem Reachable.run (h : S.Reachable s) (hrun : S.Run s s') : S.Reachable s' := by
  obtain ⟨s₀, hstart, hrun₀⟩ := h
  exact ⟨s₀, hstart, hrun₀.trans hrun⟩

/-- Run rule: what the start has and every step keeps holds in every reachable state. -/
theorem Inductive.holds (h : S.Inductive P) (hs : S.Reachable s) : P s := by
  obtain ⟨s₀, hstart, hrun⟩ := hs
  induction hrun with
  | refl => exact h.start _ hstart
  | tail _ hstep ih => exact h.step _ _ ih hstep

/-- What no step undoes holds for the rest of a run. -/
theorem Stable.later (h : S.Stable P) (hs : S.Reachable s) (hP : P s) (hrun : S.Run s s') : P s' := by
  induction hrun with
  | refl => exact hP
  | tail hrun hstep ih => exact h _ _ (hs.run hrun) ih hstep

end System

end Memplex.Lib
