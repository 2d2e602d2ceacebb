import Mathlib.Logic.Function.Basic

/-!
# Canonical codecs

A renderer and a parser that are inverse to each other: every value parses from what it renders to,
and nothing else parses. Then a parser accepts exactly what is rendered (`parse_eq_ok`), and what is
rendered identifies the value (`render_injective`).
-/

namespace Memplex.Lib

/-- The parser takes the rendered values back, and takes nothing else. -/
structure Canonical {α τ ε : Type} (render : α → τ) (parse : τ → Except ε α) : Prop where
  parse_render : ∀ a, parse (render a) = .ok a
  render_parse : ∀ t a, parse t = .ok a → render a = t

namespace Canonical

variable {α τ ε : Type} {render : α → τ} {parse : τ → Except ε α}

/-- What parses to a value is what the value renders to. -/
theorem parse_eq_ok (h : Canonical render parse) {t : τ} {a : α} :
    parse t = .ok a ↔ render a = t :=
  ⟨h.render_parse t a, fun heq => heq ▸ h.parse_render a⟩

/-- Different values render differently. -/
theorem render_injective (h : Canonical render parse) : Function.Injective render := by
  intro a b heq
  have ha := h.parse_render a
  rw [heq, h.parse_render b] at ha
  exact (Except.ok.inj ha).symm

end Canonical

end Memplex.Lib
