import Memplex.Py.Value
import Memplex.Lib.Json.Number

/-!
# `repr` of a float and `str` of an int

`repr` prints the shortest decimal that reads back as the float. In the model the digits and their
exponent are the float's own, so what is left is the layout: the scientific form when the decimal
point would stand more than sixteen places after the first digit or more than three zeros before
it, the positional form with a fraction otherwise.
-/

namespace Memplex

open Lib Lib.Json

/-- `str(i)`. -/
def strInt (i : ℤ) : List Char := NumTok.signText (i < 0) ++ Nat.toDigits 10 i.natAbs

/-- `int(text)` on a sign and digits. -/
def intOfText (text : List Char) : ℤ :=
  let n : ℤ := Nat.ofDigitChars 10 (readSign text).2 0
  if (readSign text).1 then -n else n

/-- A mantissa with one digit before the point. -/
def mantissaText : List Char → List Char
  | [] => []
  | [c] => [c]
  | c :: cs => c :: '.' :: cs

/-- The exponent of the scientific form: its sign and at least two digits. -/
def reprExponent (e : ℤ) : List Char :=
  let ds := Nat.toDigits 10 e.natAbs
  (if e < 0 then '-' else '+') :: (if ds.length < 2 then '0' :: ds else ds)

/-- `repr(x)` of a finite float. -/
def reprFloat (d : Dec) : List Char :=
  let sign := NumTok.signText d.neg
  if d.mant = 0 then sign ++ ['0', '.', '0']
  else if d.point ≤ -4 ∨ 16 < d.point then
    sign ++ mantissaText d.digits ++ 'e' :: reprExponent (d.point - 1)
  else if d.point ≤ 0 then
    sign ++ '0' :: '.' :: (List.replicate (-d.point).toNat '0' ++ d.digits)
  else if d.digits.length ≤ d.point then
    sign ++ d.digits ++ List.replicate (d.point - d.digits.length).toNat '0' ++ ['.', '0']
  else sign ++ d.digits.take d.point.toNat ++ '.' :: d.digits.drop d.point.toNat

/-- `text.removesuffix(suffix)`. -/
def removeSuffix (text suffix : List Char) : List Char :=
  if suffix.isSuffixOf text then text.take (text.length - suffix.length) else text

theorem removeSuffix_append (text suffix : List Char) :
    removeSuffix (text ++ suffix) suffix = text := by
  have h : suffix.isSuffixOf (text ++ suffix) = true := by
    rw [List.isSuffixOf_iff_suffix]
    exact List.suffix_append text suffix
  rw [removeSuffix, if_pos h, List.length_append, Nat.add_sub_cancel, List.take_left]

theorem removeSuffix_of_not {text suffix : List Char} (h : ¬ suffix <:+ text) :
    removeSuffix text suffix = text := by
  rw [removeSuffix, if_neg (by rwa [List.isSuffixOf_iff_suffix])]

end Memplex
