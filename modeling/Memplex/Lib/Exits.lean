import Mathlib.Init

/-!
# Computations that raise and keep what they have changed

A method of an imperative language changes the state of its object, and may raise on the way: what
it has changed by then stays changed. `Mutator` is such a computation, and `Leaves` says what holds
of the state on each of its two exits. There is one rule for each way to build a computation, so that
the proof about a method goes through it line by line.
-/

namespace Memplex.Lib

/-- A computation that changes a state and may raise. -/
abbrev Mutator (ε σ α : Type) := EStateM ε σ α

namespace Mutator

variable {ε σ α β : Type}

/-- The state that is left, whether the computation returns or raises. -/
def left (x : Mutator ε σ α) (s : σ) : σ :=
  match x s with
  | .ok _ s' => s'
  | .error _ s' => s'

/-- The value and the state of a computation that returns. -/
def result (x : Mutator ε σ α) (s : σ) : Except ε (α × σ) :=
  match x s with
  | .ok a s' => .ok (a, s')
  | .error e _ => .error e

/-- A computation that does not look at the state. -/
def orRaise (x : Except ε α) : Mutator ε σ α := fun s =>
  match x with
  | .ok a => .ok a s
  | .error e => .error e s

/-- A step to another state, or none. -/
def ofStep (f : σ → Except ε σ) : Mutator ε σ Unit := fun s =>
  match f s with
  | .ok s' => .ok () s'
  | .error e => .error e s

/-! ## Computations that return -/

theorem result_bind (x : Mutator ε σ α) (f : α → Mutator ε σ β) (s : σ) :
    (x >>= f).result s = (x.result s).bind fun out => (f out.1).result out.2 := by
  change (match EStateM.bind x f s with
    | .ok b s' => Except.ok (b, s')
    | .error e _ => .error e) = _
  unfold EStateM.bind result
  cases x s with
  | ok a s' => rfl
  | error e s' => rfl

theorem result_orRaise (x : Except ε α) (s : σ) :
    (orRaise x).result s = x.bind fun a => .ok (a, s) := by cases x <;> rfl

theorem result_ofStep (f : σ → Except ε σ) (s : σ) :
    (ofStep f).result s = (f s).bind fun s' => .ok ((), s') := by
  simp only [ofStep, result]
  cases f s <;> rfl

theorem result_pure (a : α) (s : σ) : (pure a : Mutator ε σ α).result s = .ok (a, s) := rfl

theorem result_get (s : σ) : (get : Mutator ε σ σ).result s = .ok (s, s) := rfl

theorem result_set (s s' : σ) : (set s' : Mutator ε σ PUnit).result s = .ok (.unit, s') := rfl

/-! ## Conditions on both exits -/

/-- From a state with `P` the computation returns with `Q`, or raises with `R`. -/
def Leaves (P : σ → Prop) (x : Mutator ε σ α) (Q : α → σ → Prop) (R : σ → Prop) : Prop :=
  ∀ s, P s → match x s with
    | .ok a s' => Q a s'
    | .error _ s' => R s'

variable {P : σ → Prop} {Q : α → σ → Prop} {R : σ → Prop}

/-- What holds on both exits holds of the state that is left. -/
theorem Leaves.left {x : Mutator ε σ α} (h : Leaves P x (fun _ => R) R) {s : σ} (hs : P s) :
    R (x.left s) := by
  have hexit := h s hs
  unfold Mutator.left
  split at hexit <;> assumption

theorem leaves_pure {a : α} (h : ∀ s, P s → Q a s) :
    Leaves (ε := ε) P (pure a) Q R := h

theorem leaves_throw {e : ε} (h : ∀ s, P s → R s) :
    Leaves P (throw e : Mutator ε σ α) Q R := h

theorem leaves_bind {x : Mutator ε σ α} {f : α → Mutator ε σ β} {Q' : β → σ → Prop}
    (hx : Leaves P x Q R) (hf : ∀ a, Leaves (Q a) (f a) Q' R) : Leaves P (x >>= f) Q' R := by
  intro s hs
  have hexit := hx s hs
  change match EStateM.bind x f s with
    | .ok a s' => Q' a s'
    | .error _ s' => R s'
  unfold EStateM.bind
  cases hrun : x s with
  | ok a s' =>
    rw [hrun] at hexit
    exact hf a s' hexit
  | error e s' =>
    rw [hrun] at hexit
    exact hexit

/-- A state that is read is the present one. -/
theorem leaves_get : Leaves (ε := ε) P get (fun a s => P s ∧ a = s) R := fun _ hs => ⟨hs, rfl⟩

theorem leaves_set {s' : σ} {Q : Unit → σ → Prop} (h : ∀ s, P s → Q () s') :
    Leaves (ε := ε) P (set s') Q R := h

theorem leaves_modify {f : σ → σ} {Q : Unit → σ → Prop} (h : ∀ s, P s → Q () (f s)) :
    Leaves (ε := ε) P (modify f) Q R := h

/-- A check leaves the state alone. -/
theorem leaves_orRaise {x : Except ε α} (h : ∀ e, x = .error e → ∀ s, P s → R s) :
    Leaves P (orRaise x) (fun a s => P s ∧ x = .ok a) R := by
  intro s hs
  unfold orRaise
  cases x with
  | ok a => exact ⟨hs, rfl⟩
  | error e => exact h e rfl s hs

theorem leaves_ofStep {f : σ → Except ε σ} {Q : Unit → σ → Prop}
    (hstep : ∀ s s', P s → f s = .ok s' → Q () s') (hraise : ∀ s, P s → R s) :
    Leaves P (ofStep f) Q R := by
  intro s hs
  unfold ofStep
  cases hrun : f s with
  | ok s' => exact hstep s s' hs hrun
  | error e => exact hraise s hs

/-- A loop keeps what each of its rounds keeps. -/
theorem leaves_forM {xs : List β} {f : β → Mutator ε σ Unit}
    (h : ∀ x ∈ xs, Leaves P (f x) (fun _ => P) R) : Leaves P (xs.forM f) (fun _ => P) R := by
  induction xs with
  | nil => exact leaves_pure fun _ hs => hs
  | cons x xs ih =>
    obtain ⟨hx, hxs⟩ := List.forall_mem_cons.mp h
    exact leaves_bind hx fun _ => ih hxs

/-- A stronger condition before, and weaker ones after. -/
theorem Leaves.mono {x : Mutator ε σ α} {P' : σ → Prop} {Q' : α → σ → Prop} {R' : σ → Prop}
    (h : Leaves P x Q R) (hP : ∀ s, P' s → P s) (hQ : ∀ a s, Q a s → Q' a s)
    (hR : ∀ s, R s → R' s) : Leaves P' x Q' R' := by
  intro s hs
  have hexit := h s (hP s hs)
  split at hexit
  · exact hQ _ _ hexit
  · exact hR _ hexit

/-- What does not depend on the state is known before the computation. -/
theorem leaves_of_and {x : Mutator ε σ α} {p : Prop} (h : p → Leaves P x Q R) :
    Leaves (fun s => P s ∧ p) x Q R := fun s hs => h hs.2 s hs.1

theorem leaves_of_exists {ι : Type} {x : Mutator ε σ α} {P : ι → σ → Prop}
    (h : ∀ i, Leaves (P i) x Q R) : Leaves (fun s => ∃ i, P i s) x Q R :=
  fun s ⟨i, hs⟩ => h i s hs

end Mutator

end Memplex.Lib
