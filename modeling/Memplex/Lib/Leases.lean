import Mathlib.Data.Finset.Card
import Mathlib.Data.List.Nodup
import Mathlib.Order.Basic

/-!
# Leases on keyed records

A board keeps a record under each key. A record waits, is worked on under a lease that runs out at a
time, or has ended. Whoever takes a record up gets a new lease on it, and may settle it as long as it
is the lease on the record; a record whose lease has run out may be taken up by someone else.

`Step` says what may be done to a board at a reading of the clock, which may be older than the clock:
who reads it may have to wait before it acts. Whatever is done in whatever order, a lease that was
granted and neither given back nor run out is the lease on its record (`Inv.current`), so nobody else
has one (`Inv.exclusive`), and no more records are open than the capacity allows (`Inv.room`).
-/

namespace Memplex.Lib.Leases

variable {ω κ ρ ℓ τ : Type*}

/-- Where a record stands. -/
inductive Phase (ℓ τ : Type*) where
  | pending
  | running (lease : Option ℓ) (expiry : Option τ)
  | completed
  | failed
  | cancelled

namespace Phase

/-- The record is still to be settled. -/
def Active (p : Phase ℓ τ) : Prop := p = .pending ∨ ∃ lease expiry, p = .running lease expiry

/-- Nothing more happens to the record. -/
def Final (p : Phase ℓ τ) : Prop := p = .completed ∨ p = .cancelled

/-- The record may be taken up: it waits, or no lease on it lasts beyond the time. -/
def Due [LE τ] (now : τ) (p : Phase ℓ τ) : Prop :=
  p = .pending ∨ ∃ lease expiry, p = .running lease expiry ∧ ∀ t ∈ expiry, t ≤ now

theorem Due.active [LE τ] {now : τ} {p : Phase ℓ τ} (h : p.Due now) : p.Active := by
  rcases h with h | ⟨lease, expiry, h, -⟩
  · exact Or.inl h
  · exact Or.inr ⟨lease, expiry, h⟩

theorem Due.mono [Preorder τ] {now now' : τ} {p : Phase ℓ τ} (h : p.Due now) (hle : now ≤ now') :
    p.Due now' := by
  rcases h with h | ⟨lease, expiry, h, hexpired⟩
  · exact Or.inl h
  · exact Or.inr ⟨lease, expiry, h, fun t ht => (hexpired t ht).trans hle⟩

theorem Final.not_active {p : Phase ℓ τ} (h : p.Final) : ¬ p.Active := by
  rintro (h' | ⟨lease, expiry, h'⟩) <;> rcases h with h | h <;> rw [h] at h' <;> cases h'

end Phase

/-- A lease that was given to a worker. -/
structure Grant (ω κ ℓ τ : Type*) where
  worker : ω
  key : κ
  lease : ℓ
  expiry : τ

/-- The records, with what was granted and given back so far. -/
structure State (ω κ ρ ℓ τ : Type*) where
  records : κ → Option ρ
  grants : List (Grant ω κ ℓ τ)
  returned : List ℓ
  clock : τ

/-- What is done to a board. -/
inductive Act (ω κ ℓ τ : Type*) where
  | tick (now : τ)
  | submit (key : κ)
  | grant (g : Grant ω κ ℓ τ) (now : τ)
  | settle (key : κ) (lease : ℓ) (now : τ)
  | cancel (key : κ)
  | replay (key : κ)

namespace State

/-- A new record under a key. -/
def put [DecidableEq κ] (s : State ω κ ρ ℓ τ) (key : κ) (r : ρ) : State ω κ ρ ℓ τ :=
  { s with records := Function.update s.records key (some r) }

/-- The lease was granted, and has neither been given back nor run out. -/
def Holds [LT τ] (s : State ω κ ρ ℓ τ) (g : Grant ω κ ℓ τ) : Prop :=
  g ∈ s.grants ∧ g.lease ∉ s.returned ∧ s.clock < g.expiry

variable [DecidableEq κ] {s : State ω κ ρ ℓ τ} {key k : κ} {r : ρ}

@[simp] theorem put_grants : (s.put key r).grants = s.grants := rfl
@[simp] theorem put_returned : (s.put key r).returned = s.returned := rfl
@[simp] theorem put_clock : (s.put key r).clock = s.clock := rfl

theorem put_records : (s.put key r).records k = if k = key then some r else s.records k := by
  exact Function.update_apply _ _ _ _

@[simp] theorem put_records_self : (s.put key r).records key = some r := by
  rw [put_records, if_pos rfl]

theorem put_records_of_ne (h : k ≠ key) : (s.put key r).records k = s.records k := by
  rw [put_records, if_neg h]

end State

section Board

variable (phase : ρ → Phase ℓ τ)

/-- At most so many records are open. -/
def OpenAtMost (records : κ → Option ρ) (n : ℕ) : Prop :=
  ∃ F : Finset κ, (∀ k r, records k = some r → (phase r).Active → k ∈ F) ∧ F.card ≤ n

variable [DecidableEq κ]

/-- What may be done to a board. -/
inductive Step [LinearOrder τ] (capacity : ℕ) (s : State ω κ ρ ℓ τ) : Act ω κ ℓ τ → State ω κ ρ ℓ τ → Prop
  | tick {now : τ} (hnow : s.clock ≤ now) : Step capacity s (.tick now) { s with clock := now }
  | submit {key : κ} {r : ρ} {n : ℕ} (hnew : s.records key = none)
      (hopen : OpenAtMost phase s.records n) (hroom : n < capacity) (hr : phase r = .pending) :
    Step capacity s (.submit key) (s.put key r)
  | grant {g : Grant ω κ ℓ τ} {now : τ} {r r' : ρ} (hold : s.records g.key = some r)
      (hdue : (phase r).Due now) (hnow : now ≤ s.clock)
      (hfresh : ∀ g' ∈ s.grants, g'.lease ≠ g.lease)
      (hr : phase r' = .running (some g.lease) (some g.expiry)) :
    Step capacity s (.grant g now) { s.put g.key r' with grants := g :: s.grants }
  | settle {key : κ} {lease : ℓ} {now expiry : τ} {r r' : ρ} (hold : s.records key = some r)
      (hlease : phase r = .running (some lease) (some expiry)) (hnow : now < expiry)
      (hr : phase r' = .completed ∨ phase r' = .pending ∨ phase r' = .failed) :
    Step capacity s (.settle key lease now) { s.put key r' with returned := lease :: s.returned }
  | cancel {key : κ} {r r' : ρ} (hold : s.records key = some r) (hpending : phase r = .pending)
      (hr : phase r' = .cancelled) : Step capacity s (.cancel key) (s.put key r')
  | replay {key : κ} {r r' : ρ} {n : ℕ} (hold : s.records key = some r)
      (hfailed : phase r = .failed) (hopen : OpenAtMost phase s.records n) (hroom : n < capacity)
      (hr : phase r' = .pending) : Step capacity s (.replay key) (s.put key r')

/-- A number of steps. -/
inductive Run [LinearOrder τ] (capacity : ℕ) : State ω κ ρ ℓ τ → List (Act ω κ ℓ τ) → State ω κ ρ ℓ τ → Prop
  | nil (s : State ω κ ρ ℓ τ) : Run capacity s [] s
  | cons {s s' s'' : State ω κ ρ ℓ τ} {act : Act ω κ ℓ τ} {acts : List (Act ω κ ℓ τ)}
      (hstep : Step phase capacity s act s') (hrun : Run capacity s' acts s'') :
    Run capacity s (act :: acts) s''

/-- What holds in every state that a board gets into. -/
structure Inv [LinearOrder τ] (capacity : ℕ) (s : State ω κ ρ ℓ τ) : Prop where
  /-- No two grants are of one lease. -/
  leases : (s.grants.map Grant.lease).Nodup
  /-- A lease that somebody has is the lease on the record. -/
  current : ∀ g, s.Holds g →
    ∃ r, s.records g.key = some r ∧ phase r = .running (some g.lease) (some g.expiry)
  /-- There is room for the open records. -/
  room : OpenAtMost phase s.records capacity

variable {phase} {capacity : ℕ} {s s' : State ω κ ρ ℓ τ} {act : Act ω κ ℓ τ} {key : κ} {r r' : ρ}

/-- One more record may be open after a step that opens one. -/
theorem OpenAtMost.put {n : ℕ} (h : OpenAtMost phase s.records n) (key : κ) (r : ρ) :
    OpenAtMost phase (s.put key r).records (n + 1) := by
  obtain ⟨F, hF, hcard⟩ := h
  refine ⟨insert key F, fun k x hx hactive => ?_, (F.card_insert_le key).trans (by omega)⟩
  by_cases hk : k = key
  · exact hk ▸ F.mem_insert_self key
  · exact Finset.mem_insert_of_mem (hF k x (State.put_records_of_ne hk ▸ hx) hactive)

/-- No more records are open after a step that opens none. -/
theorem OpenAtMost.put_of_active {n : ℕ} (h : OpenAtMost phase s.records n)
    (hold : s.records key = some r) (hactive : (phase r').Active → (phase r).Active) :
    OpenAtMost phase (s.put key r').records n := by
  obtain ⟨F, hF, hcard⟩ := h
  refine ⟨F, fun k x hx hx' => ?_, hcard⟩
  by_cases hk : k = key
  · rw [hk, State.put_records_self, Option.some.injEq] at hx
    exact hk ▸ hF key r hold (hactive (hx ▸ hx'))
  · exact hF k x (State.put_records_of_ne hk ▸ hx) hx'

variable [LinearOrder τ]

/-- A record that nobody has a lease on may be changed. -/
theorem Inv.put (h : Inv phase capacity s) (hfree : ∀ g, s.Holds g → g.key ≠ key)
    (hroom : OpenAtMost phase (s.put key r).records capacity) : Inv phase capacity (s.put key r) where
  leases := h.leases
  current := fun g hg => by
    obtain ⟨x, hx, hphase⟩ := h.current g hg
    exact ⟨x, by rwa [State.put_records_of_ne (hfree g hg)], hphase⟩
  room := hroom

omit [DecidableEq κ] in
/-- Nobody has a lease on a record that is not being worked on. -/
theorem Inv.free (h : Inv phase capacity s) (hold : s.records key = some r)
    (hnot : ∀ lease expiry, phase r ≠ .running lease expiry) (g : Grant ω κ ℓ τ) (hg : s.Holds g) :
    g.key ≠ key := by
  rintro rfl
  obtain ⟨x, hx, hphase⟩ := h.current g hg
  rw [hold, Option.some.injEq] at hx
  exact hnot _ _ (hx ▸ hphase)

/-- Every step keeps the invariant. -/
theorem Inv.step (h : Inv phase capacity s) (hstep : Step phase capacity s act s') :
    Inv phase capacity s' := by
  cases hstep with
  | tick hnow =>
    exact ⟨h.leases, fun g hg => h.current g ⟨hg.1, hg.2.1, hnow.trans_lt hg.2.2⟩, h.room⟩
  | submit hnew hopen hroom hr =>
    obtain ⟨F, hF, hcard⟩ := hopen.put _ _
    refine h.put (fun g hg hkey => ?_) ⟨F, hF, hcard.trans hroom⟩
    obtain ⟨x, hx, -⟩ := h.current g hg
    rw [hkey, hnew] at hx
    cases hx
  | @grant g now r r' hold hdue hnow hfresh hr =>
    refine ⟨List.nodup_cons.mpr ⟨fun hmem => ?_, h.leases⟩, fun g' hg' => ?_,
      h.room.put_of_active hold fun _ => hdue.active⟩
    · obtain ⟨g', hg', heq⟩ := List.mem_map.mp hmem
      exact hfresh g' hg' heq
    · rcases List.mem_cons.mp hg'.1 with rfl | hmem
      · exact ⟨r', State.put_records_self, hr⟩
      · -- An older lease that somebody has is not on this record, which is due.
        have hheld : s.Holds g' := ⟨hmem, hg'.2⟩
        obtain ⟨x, hx, hphase⟩ := h.current g' hheld
        have hne : g'.key ≠ g.key := fun hkey => by
          rw [hkey, hold, Option.some.injEq] at hx
          rw [← hx] at hphase
          rcases hdue with hpending | ⟨lease, expiry, hrun, hexpired⟩
          · rw [hpending] at hphase
            cases hphase
          · rw [hrun, Phase.running.injEq] at hphase
            exact absurd ((hexpired _ hphase.2).trans hnow) (not_le.mpr hheld.2.2)
        exact ⟨x, (State.put_records_of_ne hne).trans hx, hphase⟩
  | @settle key lease now expiry r r' hold hlease hnow hr =>
    refine ⟨h.leases, fun g hg => ?_, h.room.put_of_active hold fun _ => Or.inr ⟨_, _, hlease⟩⟩
    have hheld : s.Holds g := ⟨hg.1, fun hmem => hg.2.1 (List.mem_cons_of_mem _ hmem), hg.2.2⟩
    obtain ⟨x, hx, hphase⟩ := h.current g hheld
    have hne : g.key ≠ key := fun hkey => by
      rw [hkey, hold, Option.some.injEq] at hx
      rw [← hx, hlease, Phase.running.injEq, Option.some.injEq] at hphase
      exact hg.2.1 (hphase.1 ▸ List.mem_cons_self)
    exact ⟨x, (State.put_records_of_ne hne).trans hx, hphase⟩
  | cancel hold hpending hr =>
    refine h.put (h.free hold (by simp [hpending]))
      (h.room.put_of_active hold fun _ => Or.inl hpending)
  | replay hold hfailed hopen hroom hr =>
    obtain ⟨F, hF, hcard⟩ := hopen.put _ _
    exact h.put (h.free hold (by simp [hfailed]))
      ⟨F, hF, hcard.trans hroom⟩

theorem Inv.run (h : Inv phase capacity s) {acts : List (Act ω κ ℓ τ)}
    (hrun : Run phase capacity s acts s') : Inv phase capacity s' := by
  induction hrun with
  | nil s => exact h
  | cons hstep _ ih => exact ih (h.step hstep)

/-- What has ended stays as it is. -/
theorem Step.final (hstep : Step phase capacity s act s') (hold : s.records key = some r)
    (hfinal : (phase r).Final) : s'.records key = some r := by
  have hkeep : ∀ {k : κ} {x x' : ρ}, s.records k = some x → (phase x).Active ∨ phase x = .failed →
      (s.put k x').records key = some r := fun {k x x'} hx hopen => by
    refine (State.put_records_of_ne fun hk => ?_).trans hold
    rw [← hk, hold, Option.some.injEq] at hx
    rcases hopen with hactive | hfailed
    · exact hfinal.not_active (hx ▸ hactive)
    · rw [← hx] at hfailed
      rcases hfinal with h | h <;> rw [h] at hfailed <;> cases hfailed
  cases hstep with
  | tick hnow => exact hold
  | submit hnew hopen hroom hr =>
    refine (State.put_records_of_ne fun hk => ?_).trans hold
    rw [← hk, hold] at hnew
    cases hnew
  | grant hx hdue hnow hfresh hr => exact hkeep hx (Or.inl hdue.active)
  | settle hx hlease hnow hr => exact hkeep hx (Or.inl (Or.inr ⟨_, _, hlease⟩))
  | cancel hx hpending hr => exact hkeep hx (Or.inl (Or.inl hpending))
  | replay hx hfailed hopen hroom hr => exact hkeep hx (Or.inr hfailed)

/-- What has failed stays as it is until it is replayed. -/
theorem Step.failed (hstep : Step phase capacity s act s') (hold : s.records key = some r)
    (hfailed : phase r = .failed) (hact : act ≠ .replay key) : s'.records key = some r := by
  have hkeep : ∀ {k : κ} {x x' : ρ}, s.records k = some x → (phase x).Active →
      (s.put k x').records key = some r := fun {k x x'} hx hactive => by
    refine (State.put_records_of_ne fun hk => ?_).trans hold
    rw [← hk, hold, Option.some.injEq] at hx
    rw [← hx, hfailed] at hactive
    rcases hactive with h | ⟨lease, expiry, h⟩ <;> cases h
  cases hstep with
  | tick hnow => exact hold
  | submit hnew hopen hroom hr =>
    refine (State.put_records_of_ne fun hk => ?_).trans hold
    rw [← hk, hold] at hnew
    cases hnew
  | grant hx hdue hnow hfresh hr => exact hkeep hx hdue.active
  | settle hx hlease hnow hr => exact hkeep hx (Or.inr ⟨_, _, hlease⟩)
  | cancel hx hpending hr => exact hkeep hx (Or.inl hpending)
  | @replay k x x' n hx hfailed hopen hroom hr =>
    exact (State.put_records_of_ne fun hk => hact (congrArg Act.replay hk.symm)).trans hold

/-- Settling takes the lease on the record, and changes that record alone. -/
theorem Step.settles {lease : ℓ} {now : τ} (hstep : Step phase capacity s (.settle key lease now) s') :
    (∃ r expiry, s.records key = some r ∧ phase r = .running (some lease) (some expiry) ∧
      now < expiry) ∧ ∀ k, k ≠ key → s'.records k = s.records k := by
  cases hstep with
  | settle hx hlease hnow hr => exact ⟨⟨_, _, hx, hlease, hnow⟩, fun k => State.put_records_of_ne⟩

theorem Run.final {acts : List (Act ω κ ℓ τ)} (hrun : Run phase capacity s acts s')
    (hold : s.records key = some r) (hfinal : (phase r).Final) : s'.records key = some r := by
  induction hrun with
  | nil s => exact hold
  | cons hstep _ ih => exact ih (hstep.final hold hfinal)

theorem Run.failed {acts : List (Act ω κ ℓ τ)} (hrun : Run phase capacity s acts s')
    (hold : s.records key = some r) (hfailed : phase r = .failed)
    (hacts : ∀ act ∈ acts, act ≠ .replay key) : s'.records key = some r := by
  induction hrun with
  | nil s => exact hold
  | cons hstep _ ih =>
    exact ih (hstep.failed hold hfailed (hacts _ List.mem_cons_self)) fun act hact =>
      hacts act (List.mem_cons_of_mem _ hact)

omit [DecidableEq κ] in
/-- Two leases that somebody has on one record are one. -/
theorem Inv.exclusive (h : Inv phase capacity s) {g g' : Grant ω κ ℓ τ} (hg : s.Holds g)
    (hg' : s.Holds g') (hkey : g.key = g'.key) : g = g' := by
  obtain ⟨x, hx, hphase⟩ := h.current g hg
  obtain ⟨x', hx', hphase'⟩ := h.current g' hg'
  rw [hkey, hx', Option.some.injEq] at hx
  rw [← hx, hphase', Phase.running.injEq, Option.some.injEq] at hphase
  exact List.inj_on_of_nodup_map h.leases hg.1 hg'.1 hphase.1.symm

theorem Run.append {s'' : State ω κ ρ ℓ τ} {acts acts' : List (Act ω κ ℓ τ)}
    (h : Run phase capacity s acts s') (h' : Run phase capacity s' acts' s'') :
    Run phase capacity s (acts ++ acts') s'' := by
  induction h with
  | nil s => exact h'
  | cons hstep _ ih => exact .cons hstep (ih h')

end Board

end Memplex.Lib.Leases
