import Mathlib.Data.Nat.Basic
import Mathlib.Data.List.Basic

/-!
# Unpadded base64url

`encode` writes three bytes as four letters of the URL-safe alphabet, and a last group of one or two
bytes as two or three letters, without padding. `decode` is the decoder that ignores the unused low
bits of such a last group, so that several texts can decode to the same bytes; a caller that wants
one text for each sequence of bytes encodes again and compares. `decode_encode` is the round trip,
and `mem_encode` says which letters a text consists of.
-/

namespace Memplex.Lib.Base64

/-- The letter of a six-bit value. -/
def letter (n : ℕ) : Char :=
  if n < 26 then Char.ofNat (65 + n)
  else if n < 52 then Char.ofNat (97 + (n - 26))
  else if n < 62 then Char.ofNat (48 + (n - 52))
  else if n = 62 then '-'
  else '_'

/-- The six-bit value of a letter. -/
def value (c : Char) : Option ℕ :=
  if 'A' ≤ c ∧ c ≤ 'Z' then some (c.toNat - 65)
  else if 'a' ≤ c ∧ c ≤ 'z' then some (c.toNat - 97 + 26)
  else if '0' ≤ c ∧ c ≤ '9' then some (c.toNat - 48 + 52)
  else if c = '-' then some 62
  else if c = '_' then some 63
  else none

/-- The letters of a sequence of bytes. -/
def encode : List UInt8 → List Char
  | [] => []
  | [a] => [letter (a.toNat / 4), letter (a.toNat % 4 * 16)]
  | [a, b] =>
    [letter (a.toNat / 4), letter (a.toNat % 4 * 16 + b.toNat / 16), letter (b.toNat % 16 * 4)]
  | a :: b :: c :: rest =>
    letter (a.toNat / 4) :: letter (a.toNat % 4 * 16 + b.toNat / 16) ::
      letter (b.toNat % 16 * 4 + c.toNat / 64) :: letter (c.toNat % 64) :: encode rest

/-- The bytes of a text, when every letter is of the alphabet and the length is one an encoder
produces. -/
def decode : List Char → Option (List UInt8)
  | [] => some []
  | [_] => none
  | [p, q] => do
    let p ← value p
    let q ← value q
    return [UInt8.ofNat (p * 4 + q / 16)]
  | [p, q, r] => do
    let p ← value p
    let q ← value q
    let r ← value r
    return [UInt8.ofNat (p * 4 + q / 16), UInt8.ofNat (q % 16 * 16 + r / 4)]
  | p :: q :: r :: s :: rest => do
    let p ← value p
    let q ← value q
    let r ← value r
    let s ← value s
    let bytes ← decode rest
    return UInt8.ofNat (p * 4 + q / 16) :: UInt8.ofNat (q % 16 * 16 + r / 4) ::
      UInt8.ofNat (r % 4 * 64 + s) :: bytes

theorem value_letter (n : ℕ) (hn : n < 64) : value (letter n) = some n := by
  revert n
  decide

/-- A byte is determined by its number. -/
theorem ofNat_eq (b : UInt8) (n : ℕ) (h : n = b.toNat) : UInt8.ofNat n = b := by
  rw [h, UInt8.ofNat_toNat]

/-- The round trip. -/
theorem decode_encode (bytes : List UInt8) : decode (encode bytes) = some bytes := by
  induction bytes using encode.induct with
  | case1 => rfl
  | case2 a =>
    have ha := a.toNat_lt
    simp only [encode, decode, value_letter _ (by omega : a.toNat / 4 < 64),
      value_letter _ (by omega : a.toNat % 4 * 16 < 64), Option.bind_eq_bind, Option.bind_some,
      Option.pure_def]
    rw [ofNat_eq a _ (by omega)]
  | case3 a b =>
    have ha := a.toNat_lt
    have hb := b.toNat_lt
    simp only [encode, decode, value_letter _ (by omega : a.toNat / 4 < 64),
      value_letter _ (by omega : a.toNat % 4 * 16 + b.toNat / 16 < 64),
      value_letter _ (by omega : b.toNat % 16 * 4 < 64), Option.bind_eq_bind, Option.bind_some,
      Option.pure_def]
    rw [ofNat_eq a _ (by omega), ofNat_eq b _ (by omega)]
  | case4 a b c rest ih =>
    have ha := a.toNat_lt
    have hb := b.toNat_lt
    have hc := c.toNat_lt
    simp only [encode, decode, value_letter _ (by omega : a.toNat / 4 < 64),
      value_letter _ (by omega : a.toNat % 4 * 16 + b.toNat / 16 < 64),
      value_letter _ (by omega : b.toNat % 16 * 4 + c.toNat / 64 < 64),
      value_letter _ (by omega : c.toNat % 64 < 64), ih, Option.bind_eq_bind, Option.bind_some,
      Option.pure_def]
    rw [ofNat_eq a _ (by omega), ofNat_eq b _ (by omega), ofNat_eq c _ (by omega)]

/-- Encoding is injective: decoding undoes it. -/
theorem encode_injective {bytes bytes' : List UInt8} (h : encode bytes = encode bytes') :
    bytes = bytes' := by
  have hd := decode_encode bytes
  rw [h, decode_encode] at hd
  exact (Option.some.inj hd).symm

theorem letter_isSome (n : ℕ) : (value (letter n)).isSome := by
  by_cases hn : n < 64
  · rw [value_letter n hn]; rfl
  · have h : letter n = '_' := by
      unfold letter
      rw [if_neg (by omega), if_neg (by omega), if_neg (by omega), if_neg (by omega)]
    rw [h]; decide

/-- A text consists of letters of the alphabet. -/
theorem mem_encode (bytes : List UInt8) : ∀ c ∈ encode bytes, (value c).isSome := by
  induction bytes using encode.induct with
  | case1 => simp [encode]
  | case2 a => simp [encode, letter_isSome]
  | case3 a b => simp [encode, letter_isSome]
  | case4 a b c rest ih =>
    simp only [encode, List.forall_mem_cons, letter_isSome, true_and]
    exact ih

theorem encode_eq_nil {bytes : List UInt8} : encode bytes = [] ↔ bytes = [] := by
  constructor
  · intro h
    exact encode_injective (h.trans rfl)
  · rintro rfl; rfl

end Memplex.Lib.Base64
