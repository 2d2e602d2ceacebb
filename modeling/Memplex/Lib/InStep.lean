import Memplex.Lib.Exits

/-!
# Computations in step

Two computations, each on a state of its own, run in step if from related states they end alike:
both return, with values that are related, or both raise the same error, and the states that they
leave are related again. There is one rule for each way to build a computation, loops included, so
that two runs of one method are compared line by line.

`Answers` is the case of a line whose outcome is known on each side by itself: from every state with
a property it ends as is said, and leaves a state with the property.
-/

namespace Memplex.Lib.Mutator

variable {ε σ τ α β γ δ : Type}

/-- The end of a computation: its outcome, and the state that it leaves. -/
def exit (out : Except ε α) (s : σ) : EStateM.Result ε σ α :=
  match out with
  | .ok a => .ok a s
  | .error e => .error e s

/-- After a computation that returns, the next one goes on. -/
theorem bind_returns {x : Mutator ε σ α} {s s' : σ} {a : α} (h : x s = .ok a s')
    (f : α → Mutator ε σ β) : (x >>= f) s = f a s' := by
  change EStateM.bind x f s = _
  unfold EStateM.bind
  rw [h]

/-- After a computation that raises, the next one does not run. -/
theorem bind_raises {x : Mutator ε σ α} {s s' : σ} {e : ε} (h : x s = .error e s')
    (f : α → Mutator ε σ β) : (x >>= f) s = .error e s' := by
  change EStateM.bind x f s = _
  unfold EStateM.bind
  rw [h]

theorem get_returns (s : σ) : (get : Mutator ε σ σ) s = .ok s s := rfl

/-! ## One computation -/

/-- From every state with `G` the computation ends with the outcome, in a state with `G`. -/
def Answers (G : σ → Prop) (x : Mutator ε σ α) (out : Except ε α) : Prop :=
  ∀ s, G s → ∃ s', G s' ∧ x s = exit out s'

variable {G : σ → Prop}

theorem answers_pure (a : α) : Answers (ε := ε) G (pure a) (.ok a) := fun s hs => ⟨s, hs, rfl⟩

theorem answers_orRaise (x : Except ε α) : Answers G (orRaise x) x := by
  intro s hs
  refine ⟨s, hs, ?_⟩
  cases x <;> rfl

theorem answers_bind {x : Mutator ε σ α} {f : α → Mutator ε σ β} {out : Except ε α}
    {q : α → Except ε β} (hx : Answers G x out) (hf : ∀ a, Answers G (f a) (q a)) :
    Answers G (x >>= f) (out.bind q) := by
  intro s hs
  obtain ⟨s', hs', hrun⟩ := hx s hs
  cases out with
  | ok a =>
    rw [bind_returns hrun]
    exact hf a s' hs'
  | error e => exact ⟨s', hs', bind_raises hrun f⟩

/-! ## Two computations -/

/-- From states in `R` both return, with values in `S`, or both raise the same error, and the states
that they leave are in `R`. -/
def InStep (R : σ → τ → Prop) (x : Mutator ε σ α) (y : Mutator ε τ β) (S : α → β → Prop) : Prop :=
  ∀ s t, R s t →
    (∃ a b s' t', x s = .ok a s' ∧ y t = .ok b t' ∧ S a b ∧ R s' t') ∨
      ∃ e s' t', x s = .error e s' ∧ y t = .error e t' ∧ R s' t'

variable {R : σ → τ → Prop}

theorem inStep_pure {S : α → β → Prop} {a : α} {b : β} (h : S a b) :
    InStep (ε := ε) R (pure a) (pure b) S := fun s t hst => .inl ⟨a, b, s, t, rfl, rfl, h, hst⟩

theorem InStep.bind {x : Mutator ε σ α} {y : Mutator ε τ β} {f : α → Mutator ε σ γ}
    {g : β → Mutator ε τ δ} {S : α → β → Prop} {S' : γ → δ → Prop} (hxy : InStep R x y S)
    (hfg : ∀ a b, S a b → InStep R (f a) (g b) S') : InStep R (x >>= f) (y >>= g) S' := by
  intro s t hst
  rcases hxy s t hst with ⟨a, b, s', t', hx, hy, hab, hst'⟩ | ⟨e, s', t', hx, hy, hst'⟩
  · rw [bind_returns hx, bind_returns hy]
    exact hfg a b hab s' t' hst'
  · exact .inr ⟨e, s', t', bind_raises hx f, bind_raises hy g, hst'⟩

/-- Two loops over one list run in step if their rounds do. -/
theorem inStep_foldlM {f : α → γ → Mutator ε σ α} {g : β → γ → Mutator ε τ β}
    {S : α → β → Prop} {xs : List γ}
    (h : ∀ x ∈ xs, ∀ a b, S a b → InStep R (f a x) (g b x) S) {a : α} {b : β} (hab : S a b) :
    InStep R (xs.foldlM f a) (xs.foldlM g b) S := by
  induction xs generalizing a b with
  | nil => exact inStep_pure hab
  | cons x xs ih =>
    obtain ⟨hx, hxs⟩ := List.forall_mem_cons.mp h
    rw [List.foldlM_cons, List.foldlM_cons]
    exact (hx a b hab).bind fun _ _ => ih hxs

/-- A line that ends in the same way on each side by itself. -/
theorem inStep_of_answers {κ : Type} {G : κ → σ → Prop} {A : κ → κ → Prop} {x : Mutator ε σ α}
    {out : Except ε α} (h : ∀ k, Answers (G k) x out) :
    InStep (fun s t => ∃ k l, A k l ∧ G k s ∧ G l t) x x fun a b => a = b ∧ out = .ok a := by
  rintro s t ⟨k, l, hkl, hs, ht⟩
  obtain ⟨s', hs', hx⟩ := h k s hs
  obtain ⟨t', ht', hy⟩ := h l t ht
  cases out with
  | ok a => exact .inl ⟨a, a, s', t', hx, hy, ⟨rfl, rfl⟩, k, l, hkl, hs', ht'⟩
  | error e => exact .inr ⟨e, s', t', hx, hy, k, l, hkl, hs', ht'⟩

end Memplex.Lib.Mutator
