import Mathlib.Data.Set.Finite.Basic
import Mathlib.Logic.Relation
import Mathlib.Order.WellFounded

/-!
# Grounded nodes of a graph

A graph whose nodes declare their sources by id, where an id may name a node or nothing. A node is
grounded when it is acceptable and every source it declares exists and is grounded: the least such
predicate, so a grounded node stands on no cycle. In a graph of finitely many nodes that is all
there is to it (`grounded_iff`): a node is grounded exactly when every node it reaches is acceptable
and has all its sources, and it reaches no cycle.
-/

namespace Memplex.Lib

/-- A graph of nodes that declare their sources by id. -/
structure SourceGraph (ν ι : Type) where
  /-- The node of an id. -/
  lookup : ι → Option ν
  /-- The ids that a node declares. -/
  sources : ν → List ι
  /-- Whether a node is acceptable on its own. -/
  Accepts : ν → Prop

namespace SourceGraph

variable {ν ι : Type} (g : SourceGraph ν ι)

/-- `m` is a source of `n`. -/
def Edge (n m : ν) : Prop := ∃ s ∈ g.sources n, g.lookup s = some m

/-- `m` is `n`, or a source of it through any number of others. -/
def Reaches : ν → ν → Prop := Relation.ReflTransGen g.Edge

/-- Some way along sources leads from `n` back to `n`. -/
def OnCycle (n : ν) : Prop := Relation.TransGen g.Edge n n

/-- A node is acceptable and each of its sources exists. -/
def Sourced (n : ν) : Prop := g.Accepts n ∧ ∀ s ∈ g.sources n, (g.lookup s).isSome

/-- The least predicate that holds of a node when it is acceptable and each of its sources exists
and satisfies it. -/
inductive Grounded : ν → Prop where
  | intro (n : ν) (haccepts : g.Accepts n)
      (hexists : ∀ s ∈ g.sources n, (g.lookup s).isSome)
      (hsources : ∀ s ∈ g.sources n, ∀ m, g.lookup s = some m → Grounded m) : Grounded n

variable {g}

theorem Grounded.accepts {n : ν} (h : g.Grounded n) : g.Accepts n := by
  cases h with
  | intro _ haccepts _ _ => exact haccepts

theorem Grounded.sourced {n : ν} (h : g.Grounded n) : g.Sourced n := by
  cases h with
  | intro _ haccepts hexists _ => exact ⟨haccepts, hexists⟩

theorem Grounded.source {n m : ν} (h : g.Grounded n) (hedge : g.Edge n m) : g.Grounded m := by
  cases h with
  | intro _ _ _ hsources =>
    obtain ⟨s, hs, hm⟩ := hedge
    exact hsources s hs m hm

/-- A node is grounded exactly when it is acceptable and its sources exist and are grounded. -/
theorem grounded_iff_sources {n : ν} : g.Grounded n ↔
    g.Accepts n ∧ ∀ s ∈ g.sources n, ∃ m, g.lookup s = some m ∧ g.Grounded m := by
  constructor
  · intro h
    refine ⟨h.accepts, fun s hs => ?_⟩
    obtain ⟨m, hm⟩ := Option.isSome_iff_exists.mp (h.sourced.2 s hs)
    exact ⟨m, hm, h.source ⟨s, hs, hm⟩⟩
  · rintro ⟨haccepts, hsources⟩
    refine .intro n haccepts (fun s hs => ?_) fun s hs m hm => ?_
    · obtain ⟨m, hm, -⟩ := hsources s hs
      exact Option.isSome_iff_exists.mpr ⟨m, hm⟩
    · obtain ⟨m', hm', hgrounded⟩ := hsources s hs
      rw [hm] at hm'
      exact (Option.some.inj hm') ▸ hgrounded

/-- Every node that a grounded node reaches is grounded. -/
theorem Grounded.reaches {n m : ν} (h : g.Grounded n) (hreach : g.Reaches n m) :
    g.Grounded m := by
  induction hreach with
  | refl => exact h
  | tail _ hedge ih => exact ih.source hedge

/-- A grounded node is on no cycle: the way back would pass through one of its sources, and be a
cycle of that source. -/
theorem Grounded.not_onCycle {n : ν} (h : g.Grounded n) : ¬ g.OnCycle n := by
  induction h with
  | intro n _ _ _ ih =>
    intro hcycle
    obtain ⟨m, ⟨s, hs, hm⟩, hback⟩ := Relation.TransGen.head'_iff.mp hcycle
    exact ih s hs m hm (Relation.TransGen.tail' hback ⟨s, hs, hm⟩)

/-- A node grounded in one graph is so in another with the same edges, where the other accepts the
nodes on the way. -/
theorem Grounded.transfer {g' : SourceGraph ν ι} (K : ν → Prop)
    (hlookup : ∀ s, g'.lookup s = g.lookup s) (hsources : ∀ n, K n → g'.sources n = g.sources n)
    (haccepts : ∀ n, K n → g.Accepts n → g'.Accepts n)
    (hclosed : ∀ n m, K n → g.Edge n m → K m) {n : ν} (h : g.Grounded n) (hn : K n) :
    g'.Grounded n := by
  induction h with
  | intro n haccept hexists _ ih =>
    refine .intro n (haccepts n hn haccept) (fun s hs => ?_) fun s hs m hm => ?_
    · rw [hlookup]
      exact hexists s (hsources n hn ▸ hs)
    · rw [hlookup] at hm
      rw [hsources n hn] at hs
      exact ih s hs m hm (hclosed n m hn ⟨s, hs, hm⟩)

/-- Sources of sources, among the nodes that a node reaches. -/
private def below (g : SourceGraph ν ι) (n : ν) (m m' : {m : ν // g.Reaches n m}) : Prop :=
  Relation.TransGen g.Edge m'.1 m.1

/-- In a finite graph, a node from which every node reached has its sources and no cycle is reached
is grounded. -/
theorem grounded_of_reaches {n : ν} (hfinite : {m | ∃ s, g.lookup s = some m}.Finite)
    (hsourced : ∀ m, g.Reaches n m → g.Sourced m)
    (hacyclic : ∀ m, g.Reaches n m → ¬ g.OnCycle m) : g.Grounded n := by
  have hreached : {m | g.Reaches n m}.Finite := by
    refine (hfinite.insert n).subset fun m hm => ?_
    rcases Relation.ReflTransGen.cases_tail hm with heq | ⟨_, _, s, _, hs⟩
    · exact Set.mem_insert_iff.mpr (.inl heq)
    · exact Set.mem_insert_of_mem _ ⟨s, hs⟩
  have hfin : Finite {m : ν // g.Reaches n m} := hreached
  have htrans : IsTrans _ (below g n) := ⟨fun _ _ _ h h' => h'.trans h⟩
  have hirrefl : Std.Irrefl (below g n) := ⟨fun m h => hacyclic m.1 m.2 h⟩
  have hwf : WellFounded (below g n) := Finite.wellFounded_of_trans_of_irrefl _
  have hall : ∀ m : {m : ν // g.Reaches n m}, g.Grounded m.1 := by
    intro m
    induction m using hwf.induction with
    | _ m ih =>
      refine .intro m.1 (hsourced m.1 m.2).1 (hsourced m.1 m.2).2 fun s hs m' hm' => ?_
      have hedge : g.Edge m.1 m' := ⟨s, hs, hm'⟩
      exact ih ⟨m', m.2.tail hedge⟩ (Relation.TransGen.single hedge)
  exact hall ⟨n, Relation.ReflTransGen.refl⟩

/-- A node of a finite graph is grounded exactly when every node it reaches is acceptable and has
all its sources, and it reaches no cycle. -/
theorem grounded_iff {n : ν} (hfinite : {m | ∃ s, g.lookup s = some m}.Finite) :
    g.Grounded n ↔
      (∀ m, g.Reaches n m → g.Sourced m) ∧ ∀ m, g.Reaches n m → ¬ g.OnCycle m := by
  constructor
  · intro h
    exact ⟨fun m hm => (h.reaches hm).sourced, fun m hm => (h.reaches hm).not_onCycle⟩
  · rintro ⟨hsourced, hacyclic⟩
    exact grounded_of_reaches hfinite hsourced hacyclic

end SourceGraph

end Memplex.Lib
