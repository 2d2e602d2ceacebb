import Mathlib.Data.Nat.Basic
import Mathlib.Data.Int.Order.Basic
import Mathlib.Tactic.Ring
import Mathlib.Tactic.Positivity
import Mathlib.Algebra.Order.Ring.Nat

/-!
# Exact decimals

`Dec` is the value `± mant * 10^exp` with no trailing zero in `mant`, so that equal values are
equal terms; the sign of zero is kept, as binary floating point keeps it. `Dec.ofParts` brings any
mantissa and exponent to that form, and is unchanged when trailing zeros move from the mantissa to
the exponent (`ofParts_mul_pow`): that is all a decimal printer and a decimal reader have to agree
on. `digits` and `point` are what a printer works with: the significant digits and the position of
the decimal point relative to the first of them.
-/

namespace Memplex.Lib

/-- Moves up to `fuel` trailing zeros of the mantissa to the exponent. -/
def stripZeros : ℕ → ℕ → ℤ → ℕ × ℤ
  | 0, m, e => (m, e)
  | fuel + 1, m, e => if m % 10 = 0 then stripZeros fuel (m / 10) (e + 1) else (m, e)

theorem stripZeros_lowest (fuel m : ℕ) (e : ℤ) (hm : m ≠ 0) (hf : m ≤ fuel) :
    (stripZeros fuel m e).1 % 10 ≠ 0 := by
  induction fuel generalizing m e with
  | zero => omega
  | succ fuel ih =>
    unfold stripZeros
    split_ifs with h
    · exact ih (m / 10) (e + 1) (by omega) (by omega)
    · exact h

theorem stripZeros_of_lowest (fuel m : ℕ) (e : ℤ) (hm : m % 10 ≠ 0) :
    stripZeros fuel m e = (m, e) := by
  cases fuel with
  | zero => rfl
  | succ fuel => rw [stripZeros, if_neg hm]

/-- Stripping does not depend on the fuel once it reaches the mantissa. -/
theorem stripZeros_fuel (fuel fuel' m : ℕ) (e : ℤ) (hm : m ≠ 0) (hf : m ≤ fuel)
    (hf' : m ≤ fuel') : stripZeros fuel m e = stripZeros fuel' m e := by
  induction fuel generalizing fuel' m e with
  | zero => omega
  | succ fuel ih =>
    cases fuel' with
    | zero => omega
    | succ fuel' =>
      unfold stripZeros
      split_ifs with h
      · exact ih fuel' (m / 10) (e + 1) (by omega) (by omega) (by omega)
      · rfl

/-- An exact decimal in lowest terms. -/
structure Dec where
  /-- The sign; zero has one too. -/
  neg : Bool
  /-- The significant digits, read as a number. -/
  mant : ℕ
  /-- The power of ten that multiplies them. -/
  exp : ℤ
  /-- Zero is `0 * 10^0`, and no other mantissa ends in the digit zero. -/
  lowest : mant = 0 ∧ exp = 0 ∨ mant % 10 ≠ 0
deriving DecidableEq

namespace Dec

/-- The decimal `± m * 10^e`. -/
def ofParts (neg : Bool) (m : ℕ) (e : ℤ) : Dec :=
  if h : m = 0 then ⟨neg, 0, 0, Or.inl ⟨rfl, rfl⟩⟩
  else ⟨neg, (stripZeros m m e).1, (stripZeros m m e).2,
    Or.inr (stripZeros_lowest m m e h le_rfl)⟩

/-- The decimal of an integer. -/
def ofInt (i : ℤ) : Dec := ofParts (i < 0) i.natAbs 0

theorem ofParts_zero (neg : Bool) (e : ℤ) : ofParts neg 0 e = ofParts neg 0 0 := rfl

/-- A decimal is made of its own parts. -/
theorem ofParts_self (d : Dec) : ofParts d.neg d.mant d.exp = d := by
  obtain ⟨neg, m, e, h⟩ := d
  unfold ofParts
  split_ifs with hm
  · have hm0 : m = 0 := hm
    subst hm0
    rcases h with ⟨-, he⟩ | h
    · subst he; rfl
    · exact absurd rfl h
  · have hl : m % 10 ≠ 0 := h.resolve_left fun hz => hm hz.1
    simp only [stripZeros_of_lowest m m e hl]

/-- A trailing zero of the mantissa is a power of ten. -/
theorem ofParts_mul_ten (neg : Bool) (m : ℕ) (e : ℤ) :
    ofParts neg (m * 10) e = ofParts neg m (e + 1) := by
  by_cases hm : m = 0
  · subst hm; rfl
  · have hstrip : stripZeros (m * 10) (m * 10) e = stripZeros m m (e + 1) := by
      obtain ⟨f, hf⟩ : ∃ f, m * 10 = f + 1 := ⟨m * 10 - 1, by omega⟩
      conv_lhs => rw [show stripZeros (m * 10) (m * 10) e = stripZeros (f + 1) (m * 10) e by
        rw [← hf]]
      rw [stripZeros, if_pos (Nat.mul_mod_left m 10), Nat.mul_div_cancel m (by norm_num)]
      exact stripZeros_fuel f m m (e + 1) hm (by omega) le_rfl
    unfold ofParts
    rw [dif_neg (by omega : m * 10 ≠ 0), dif_neg hm]
    simp only [hstrip]

/-- Trailing zeros of the mantissa are a power of ten. -/
theorem ofParts_mul_pow (neg : Bool) (m k : ℕ) (e : ℤ) :
    ofParts neg (m * 10 ^ k) e = ofParts neg m (e + k) := by
  induction k generalizing e with
  | zero => simp
  | succ k ih =>
    rw [pow_succ, ← mul_assoc, ofParts_mul_ten, ih]
    congr 1
    push_cast
    ring

/-- The significant digits, most significant first. -/
def digits (d : Dec) : List Char := Nat.toDigits 10 d.mant

/-- The position of the decimal point: the value is `0.` digits `* 10 ^ point`. -/
def point (d : Dec) : ℤ := d.digits.length + d.exp

theorem digits_length_pos (d : Dec) : 0 < d.digits.length := Nat.length_toDigits_pos

theorem digits_isDigit (d : Dec) : ∀ c ∈ d.digits, c.isDigit := fun _ hc =>
  Nat.isDigit_of_mem_toDigits (by decide) (by decide) hc

@[simp] theorem ofDigitChars_digits (d : Dec) : Nat.ofDigitChars 10 d.digits 0 = d.mant :=
  Nat.ofDigitChars_ten_toDigits

/-- Whether the magnitude is at least `10 ^ k`. -/
def magnitudeGePow (d : Dec) (k : ℤ) : Bool :=
  if k ≤ d.exp then 1 ≤ d.mant else 10 ^ (k - d.exp).toNat ≤ d.mant

/-- The magnitude is at least `10 ^ k` exactly when the point lies beyond position `k`. -/
theorem magnitudeGePow_iff (d : Dec) (hd : d.mant ≠ 0) (k : ℤ) :
    d.magnitudeGePow k = true ↔ k + 1 ≤ d.point := by
  have hlen := d.digits_length_pos
  unfold magnitudeGePow point
  split_ifs with hk
  · simp only [decide_eq_true_eq]
    omega
  · simp only [decide_eq_true_eq]
    have hkpos : 0 < (k - d.exp).toNat := by omega
    have hle := Nat.length_toDigits_le_iff (n := d.mant) (b := 10) (by norm_num) hkpos
    change d.digits.length ≤ _ ↔ _ at hle
    constructor
    · intro h
      have : ¬ d.digits.length ≤ (k - d.exp).toNat := fun hl => absurd (hle.mp hl) (by omega)
      omega
    · intro h
      by_contra hlt
      have := hle.mpr (by omega)
      omega

end Dec

end Memplex.Lib
