import Memplex.Py.Value
import Mathlib.Order.Lex
import Mathlib.Data.Prod.Lex

/-!
# Timestamps of the wire

A version carries an aware UTC datetime with microseconds. `Timestamp` is such a datetime by its
calendar fields, for the years that `strftime("%Y")` prints with four digits; `timeToWire` and
`timeFromWire` are the two halves of the `v1` time codec, which uses a fixed width for every field.
Timestamps are ordered by their fields. `micros` is the instant itself, for the arithmetic that
deliveries, leases and retention do.
-/

namespace Memplex

/-- Whether a year of the Gregorian calendar has a 29 February. -/
def isLeap (year : ℕ) : Bool := year % 4 = 0 ∧ (year % 100 ≠ 0 ∨ year % 400 = 0)

/-- The length of a month. -/
def daysInMonth (year month : ℕ) : ℕ :=
  if month = 2 then if isLeap year then 29 else 28
  else if month = 4 ∨ month = 6 ∨ month = 9 ∨ month = 11 then 30
  else 31

/-- The calendar fields that `datetime` accepts. -/
def validTime (year month day hour minute second micro : ℕ) : Prop :=
  1000 ≤ year ∧ year ≤ 9999 ∧ 1 ≤ month ∧ month ≤ 12 ∧ 1 ≤ day ∧ day ≤ daysInMonth year month ∧
    hour < 24 ∧ minute < 60 ∧ second < 60 ∧ micro < 1000000

instance (y mo d h mi s u : ℕ) : Decidable (validTime y mo d h mi s u) := by
  unfold validTime; infer_instance

/-- An aware UTC datetime. -/
@[ext] structure Timestamp where
  year : ℕ
  month : ℕ
  day : ℕ
  hour : ℕ
  minute : ℕ
  second : ℕ
  micro : ℕ
  /-- The fields are those of a datetime. -/
  valid : validTime year month day hour minute second micro
deriving DecidableEq

namespace Timestamp

/-- The days before the first of January of a year. -/
def daysBeforeYear (year : ℕ) : ℕ :=
  (year - 1) * 365 + (year - 1) / 4 - (year - 1) / 100 + (year - 1) / 400

/-- The days of a year before a month. -/
def daysBeforeMonth (year month : ℕ) : ℕ :=
  ((List.range (month - 1)).map fun m => daysInMonth year (m + 1)).sum

/-- Microseconds since the first instant of year one. -/
def micros (t : Timestamp) : ℕ :=
  ((((daysBeforeYear t.year + daysBeforeMonth t.year t.month + (t.day - 1)) * 24 + t.hour) * 60 +
    t.minute) * 60 + t.second) * 1000000 + t.micro

/-- The fields, most significant first. -/
def key (t : Timestamp) : List ℕ :=
  [t.year, t.month, t.day, t.hour, t.minute, t.second, t.micro]

theorem key_injective : Function.Injective key := by
  intro s t h
  simp only [key, List.cons.injEq, and_true] at h
  obtain ⟨h1, h2, h3, h4, h5, h6, h7⟩ := h
  exact Timestamp.ext h1 h2 h3 h4 h5 h6 h7

/-- The order of instants is the order of the fields. -/
instance : LinearOrder Timestamp := LinearOrder.lift' key key_injective

end Timestamp

/-- A number in exactly `w` digits. -/
def fixedDigits : ℕ → ℕ → List Char
  | 0, _ => []
  | w + 1, n => fixedDigits w (n / 10) ++ [Nat.digitChar (n % 10)]

/-- Reads exactly `w` digits. -/
def readFixed (w : ℕ) (cs : List Char) : Option (ℕ × List Char) :=
  if (cs.take w).length = w ∧ (cs.take w).all Char.isDigit then
    some (Nat.ofDigitChars 10 (cs.take w) 0, cs.drop w)
  else none

/-- The layout `%Y-%m-%dT%H:%M:%S.%fZ`: the width of each field and the character after it. -/
def wireFormat : List (ℕ × Char) :=
  [(4, '-'), (2, '-'), (2, 'T'), (2, ':'), (2, ':'), (2, '.'), (6, 'Z')]

/-- Writes numbers in a layout. -/
def writeFields : List (ℕ × Char) → List ℕ → List Char
  | (w, c) :: format, n :: ns => fixedDigits w n ++ c :: writeFields format ns
  | _, _ => []

/-- Reads numbers in a layout that is the whole text. -/
def readFields : List (ℕ × Char) → List Char → Option (List ℕ)
  | [], cs => if cs = [] then some [] else none
  | (w, c) :: format, cs =>
    match readFixed w cs with
    | some (n, d :: rest) => if d = c then (readFields format rest).map (n :: ·) else none
    | _ => none

/-- `_time_to_wire`. -/
def timeToWire (t : Timestamp) : List Char := writeFields wireFormat t.key

/-- `_time_from_wire`, after its argument was found to be a string: the canonical pattern in ASCII
digits, and fields that make a datetime. -/
def timeFromWire (cs : List Char) : Option Timestamp :=
  match readFields wireFormat cs with
  | some [year, month, day, hour, minute, second, micro] =>
    if h : validTime year month day hour minute second micro then
      some ⟨year, month, day, hour, minute, second, micro, h⟩
    else none
  | _ => none

theorem fixedDigits_length (w n : ℕ) : (fixedDigits w n).length = w := by
  induction w generalizing n with
  | zero => rfl
  | succ w ih => rw [fixedDigits, List.length_append, ih]; rfl

theorem fixedDigits_isDigit (w n : ℕ) : ∀ c ∈ fixedDigits w n, c.isDigit := by
  induction w generalizing n with
  | zero => simp [fixedDigits]
  | succ w ih =>
    have hdigit : ∀ r < 10, (Nat.digitChar r).isDigit = true := by decide
    intro c hc
    rw [fixedDigits, List.mem_append, List.mem_singleton] at hc
    rcases hc with hc | rfl
    · exact ih (n / 10) c hc
    · exact hdigit _ (Nat.mod_lt n (by norm_num))

/-- A number below `10 ^ w` is the value of its `w` digits. -/
theorem ofDigitChars_fixedDigits (w n : ℕ) (hn : n < 10 ^ w) :
    Nat.ofDigitChars 10 (fixedDigits w n) 0 = n := by
  induction w generalizing n with
  | zero => simp [fixedDigits, Nat.ofDigitChars_nil]; omega
  | succ w ih =>
    have hlt : n / 10 < 10 ^ w := by
      rw [pow_succ] at hn
      exact Nat.div_lt_of_lt_mul (by omega)
    rw [fixedDigits, Nat.ofDigitChars_append, ih (n / 10) hlt,
      Nat.ofDigitChars_cons_digitChar_of_lt_ten (Nat.mod_lt n (by norm_num)), Nat.ofDigitChars_nil]
    omega

/-- The round trip of one field. -/
theorem readFixed_fixedDigits (w n : ℕ) (hn : n < 10 ^ w) (rest : List Char) :
    readFixed w (fixedDigits w n ++ rest) = some (n, rest) := by
  have hlen := fixedDigits_length w n
  have htake : (fixedDigits w n ++ rest).take w = fixedDigits w n := List.take_left' hlen
  have hdrop : (fixedDigits w n ++ rest).drop w = rest := List.drop_left' hlen
  rw [readFixed, htake, hdrop, ofDigitChars_fixedDigits w n hn,
    if_pos ⟨hlen, List.all_eq_true.mpr (fixedDigits_isDigit w n)⟩]

/-- The round trip of a layout, for numbers that fit their fields. -/
theorem readFields_writeFields (format : List (ℕ × Char)) (ns : List ℕ)
    (h : List.Forall₂ (fun f n => n < 10 ^ f.1) format ns) :
    readFields format (writeFields format ns) = some ns := by
  induction h with
  | nil => rfl
  | @cons f n format ns hn _ ih =>
    obtain ⟨w, c⟩ := f
    rw [writeFields, readFields, readFixed_fixedDigits w n hn]
    simp only [if_true, ih, Option.map_some]

/-- The round trip of the time codec. -/
theorem timeFromWire_timeToWire (t : Timestamp) : timeFromWire (timeToWire t) = some t := by
  have hd : daysInMonth t.year t.month ≤ 31 := by unfold daysInMonth; split_ifs <;> omega
  have hfit : List.Forall₂ (fun f n => n < 10 ^ f.1) wireFormat t.key := by
    obtain ⟨-, hy, -, hmo, -, hda, hh, hmi, hs, hu⟩ := t.valid
    simp only [wireFormat, Timestamp.key, List.forall₂_cons, List.Forall₂.nil, and_true]
    omega
  rw [timeFromWire, timeToWire, readFields_writeFields wireFormat t.key hfit]
  exact dif_pos t.valid

/-- Two datetimes with one wire form are equal. -/
theorem timeToWire_injective : Function.Injective timeToWire := by
  intro s t h
  have hs := timeFromWire_timeToWire s
  rw [h, timeFromWire_timeToWire] at hs
  exact (Option.some.inj hs).symm

end Memplex
