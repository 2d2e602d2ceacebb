import Memplex.Py.Float
import Mathlib.Data.List.Sort
import Mathlib.Data.List.Lex
import Mathlib.Order.Lex
import Mathlib.Data.String.Basic

/-!
# Canonical JSON

`canonicalJsonBytes` of the protocol: a recursive check of the value (`assertJsonValue`), then one
deterministic text (`serializeJcs`) with the members of every object sorted by the UTF-16 code
units of their keys, integers within the range that JavaScript represents exactly, and floats in
the form ECMAScript prints. `serializeJcsFloat` works on the text that `repr` produces, as the
program does; `serializeJcsFloat_eq` describes its output by the digits and the decimal point of
the float, as the text of a number token.
-/

namespace Memplex

open Lib Lib.Json

/-- The largest integer that JavaScript represents exactly. -/
def maxJavascriptSafeInteger : ℕ := 2 ^ 53 - 1

/-- No U+0000; a lone surrogate is no character in the first place. -/
def assertUnicodeScalarString (value name : String) : Except PyError Unit :=
  require ('\x00' ∉ value.toList) (valueError (name ++ " contains U+0000"))

/-- An exact string, non-empty unless `allowEmpty`. -/
def requireExactString (value : Value) (name : String) (allowEmpty : Bool) :
    Except PyError String := do
  match value with
  | .str s =>
    assertUnicodeScalarString s name
    require (allowEmpty = true ∨ s ≠ "") (valueError (name ++ " must be non-empty"))
    return s
  | _ => .error (typeError (name ++ " must be a string"))

mutual

/-- `_assert_json_value`: the values that canonical JSON represents. -/
def assertJsonValue : Value → Except PyError Unit
  | .null => .ok ()
  | .bool _ => .ok ()
  | .num (.int i) => require (i.natAbs ≤ maxJavascriptSafeInteger)
      (valueError "canonical JSON rejects integers outside JavaScript safe range")
  | .num (.float (.finite _)) => .ok ()
  | .num (.float _) => .error (valueError "canonical JSON rejects non-finite floats")
  | .str s => assertUnicodeScalarString s "JSON string"
  | .arr items => assertJsonItems items
  | .obj members => assertJsonMembers members

/-- `_assert_json_value` on the elements of a list. -/
def assertJsonItems : List Value → Except PyError Unit
  | [] => .ok ()
  | x :: xs => do
    assertJsonValue x
    assertJsonItems xs

/-- `_assert_json_value` on the items of a dictionary: each key is a non-empty string. -/
def assertJsonMembers : Members → Except PyError Unit
  | [] => .ok ()
  | (k, x) :: ms => do
    assertUnicodeScalarString k "JSON object key"
    require (k ≠ "") (valueError "JSON object key must be non-empty")
    assertJsonValue x
    assertJsonMembers ms

end

/-- `_serialize_jcs_float`: the ECMAScript form, made from the text of `repr`. -/
def serializeJcsFloat (d : Dec) : List Char :=
  if d.mant = 0 then ['0']
  else
    let rendered := reprFloat d
    if 'e' ∉ rendered then removeSuffix rendered ['.', '0']
    else
      let mantissa := rendered.takeWhile (· ≠ 'e')
      let exponent := intOfText ((rendered.dropWhile (· ≠ 'e')).drop 1)
      if d.magnitudeGePow (-6) ∧ ¬ d.magnitudeGePow 21 then
        let sign := NumTok.signText (mantissa.head? = some '-')
        let digits := (mantissa.dropWhile (· = '-')).filter (· ≠ '.')
        let decimalPosition := 1 + exponent
        if decimalPosition ≤ 0 then
          sign ++ '0' :: '.' :: (List.replicate (-decimalPosition).toNat '0' ++ digits)
        else if digits.length ≤ decimalPosition then
          sign ++ digits ++ List.replicate (decimalPosition - digits.length).toNat '0'
        else
          sign ++ digits.take decimalPosition.toNat ++ '.' :: digits.drop decimalPosition.toNat
      else
        removeSuffix mantissa ['.', '0'] ++ 'e' :: ((if 0 ≤ exponent then ['+'] else []) ++
          strInt exponent)

/-- The text of a number. Non-finite floats have none: `assertJsonValue` refuses them before a
value is serialized. -/
def numText : Num → List Char
  | .int i => strInt i
  | .float (.finite d) => serializeJcsFloat d
  | .float _ => []

/-- The UTF-16 code units of a string. -/
def utf16Units (s : String) : List ℕ :=
  s.toList.flatMap fun c =>
    if c.toNat < 0x10000 then [c.toNat]
    else [0xD800 + (c.toNat - 0x10000) / 0x400, 0xDC00 + (c.toNat - 0x10000) % 0x400]

/-- Members in the order of their keys' UTF-16 code units. -/
def sortByKey {α : Type} (members : List (String × α)) : List (String × α) :=
  members.insertionSort fun m n => utf16Units m.1 ≤ utf16Units n.1

mutual

/-- `_serialize_jcs`: the canonical text of a value. -/
def serializeJcs : Value → List Char
  | .null => ['n', 'u', 'l', 'l']
  | .bool true => ['t', 'r', 'u', 'e']
  | .bool false => ['f', 'a', 'l', 's', 'e']
  | .num n => numText n
  | .str s => writeString s
  | .arr items => '[' :: (List.intercalate [','] (serializeItems items) ++ [']'])
  | .obj members => '{' :: (List.intercalate [','] ((sortByKey (serializeMembers members)).map
      fun m => writeString m.1 ++ ':' :: m.2) ++ ['}'])

/-- The canonical texts of the elements of a list. -/
def serializeItems : List Value → List (List Char)
  | [] => []
  | x :: xs => serializeJcs x :: serializeItems xs

/-- The canonical texts of the values of a dictionary. -/
def serializeMembers : Members → List (String × List Char)
  | [] => []
  | (k, x) :: ms => (k, serializeJcs x) :: serializeMembers ms

end

/-- `_canonical_json_bytes`. -/
def canonicalJsonBytes (value : Value) : Except PyError ByteArray := do
  assertJsonValue value
  return (String.ofList (serializeJcs value)).toByteArray

/-! ## The form of a float -/

/-- The number token that a float is printed as. -/
def floatTok (d : Dec) : NumTok :=
  if d.mant = 0 then ⟨false, ['0'], none, none⟩
  else if d.point ≤ -6 ∨ 21 < d.point then
    ⟨d.neg, d.digits.take 1, if d.digits.length = 1 then none else some (d.digits.drop 1),
      some (decide (d.point - 1 < 0), Nat.toDigits 10 (d.point - 1).natAbs)⟩
  else if d.point ≤ 0 then
    ⟨d.neg, ['0'], some (List.replicate (-d.point).toNat '0' ++ d.digits), none⟩
  else if d.digits.length ≤ d.point then
    ⟨d.neg, d.digits ++ List.replicate (d.point - d.digits.length).toNat '0', none, none⟩
  else ⟨d.neg, d.digits.take d.point.toNat, some (d.digits.drop d.point.toNat), none⟩

/-- The last digit of a number is its remainder by ten. -/
theorem toDigits_getLast? (n : ℕ) :
    (Nat.toDigits 10 n).getLast? = some (Nat.digitChar (n % 10)) := by
  by_cases hn : n < 10
  · rw [Nat.toDigits_of_lt_base hn, Nat.mod_eq_of_lt hn]; rfl
  · rw [Nat.toDigits_of_base_le (by norm_num) (by omega), List.getLast?_append]
    rfl

/-- The significant digits of a decimal other than zero do not end in a zero. -/
theorem digits_getLast? (d : Dec) (hd : d.mant ≠ 0) : d.digits.getLast? ≠ some '0' := by
  have hl : d.mant % 10 ≠ 0 := d.lowest.resolve_left fun h => hd h.1
  rw [Dec.digits, toDigits_getLast?, ne_eq, Option.some.injEq, Nat.digitChar_eq_zero]
  exact hl

/-- A digit is none of the other characters of a printed number. -/
theorem digits_ne (d : Dec) {x : Char} (hx : x.isDigit = false) : ∀ c ∈ d.digits, c ≠ x := by
  rintro c hc rfl
  exact absurd (d.digits_isDigit c hc) (by rw [hx]; simp)

theorem signText_ne (neg : Bool) {x : Char} (hx : x ≠ '-') : ∀ c ∈ NumTok.signText neg, c ≠ x := by
  cases neg <;> simp [NumTok.signText, hx.symm]

theorem mantissaText_mem (ds : List Char) {c : Char} (hc : c ∈ mantissaText ds) :
    c ∈ ds ∨ c = '.' := by
  match ds with
  | [] => exact Or.inl hc
  | [a] => exact Or.inl hc
  | a :: b :: cs =>
    simp only [mantissaText, List.mem_cons] at hc ⊢
    tauto

theorem mantissaText_filter (ds : List Char) (h : ∀ c ∈ ds, c ≠ '.') :
    (mantissaText ds).filter (· ≠ '.') = ds := by
  have hds : ds.filter (· ≠ '.') = ds := List.filter_eq_self.mpr (by simpa using h)
  match ds with
  | [] => rfl
  | [a] => exact hds
  | a :: b :: cs =>
    have ha : a ≠ '.' := h a (by simp)
    rw [List.filter_cons_of_pos (by simpa using ha)] at hds
    show ((a :: '.' :: b :: cs).filter (· ≠ '.')) = a :: b :: cs
    rw [List.filter_cons_of_pos (by simpa using ha), List.filter_cons_of_neg (by simp), hds]

/-- The exponent of `repr` reads back. -/
theorem intOfText_reprExponent (e : ℤ) : intOfText (reprExponent e) = e := by
  have hval : Nat.ofDigitChars 10
      (if (Nat.toDigits 10 e.natAbs).length < 2 then '0' :: Nat.toDigits 10 e.natAbs
        else Nat.toDigits 10 e.natAbs) 0 = e.natAbs := by
    split_ifs
    · rw [Nat.ofDigitChars_cons]
      exact Nat.ofDigitChars_ten_toDigits
    · exact Nat.ofDigitChars_ten_toDigits
  unfold intOfText reprExponent
  by_cases he : e < 0
  · simp only [he, if_true, readSign]
    rw [hval]
    omega
  · simp only [he, if_false, readSign]
    rw [hval]
    simp only [Bool.false_eq_true, if_false]
    omega

/-- A text whose last character is not a zero does not end in `.0`. -/
theorem removeSuffix_of_getLast? {text : List Char} (h : text.getLast? ≠ some '0') :
    removeSuffix text ['.', '0'] = text := by
  refine removeSuffix_of_not fun hs => h ?_
  obtain ⟨front, rfl⟩ := hs
  rw [List.getLast?_append]
  rfl

/-- A mantissa ends as its digits do. -/
theorem mantissaText_getLast? (ds : List Char) :
    (mantissaText ds).getLast? = ds.getLast? := by
  match ds with
  | [] => rfl
  | [a] => rfl
  | a :: b :: cs =>
    show (a :: '.' :: b :: cs).getLast? = (a :: b :: cs).getLast?
    simp only [List.getLast?_cons_cons]

/-- A text that ends in the significant digits does not end in a zero. -/
theorem getLast?_append_ne {d : Dec} (hd : d.mant ≠ 0) (front : List Char) {back : List Char}
    (hback : back.getLast? = d.digits.getLast?) : (front ++ back).getLast? ≠ some '0' := by
  have hne : d.digits ≠ [] := List.ne_nil_of_length_pos d.digits_length_pos
  have hlast := digits_getLast? d hd
  rw [List.getLast?_append, hback]
  cases hl : d.digits.getLast? with
  | none => exact absurd (List.getLast?_eq_none_iff.mp hl) hne
  | some c => rwa [hl] at hlast

/-- The digits of a decimal, cut at a place that leaves some on the right, end as they do. -/
theorem drop_getLast? (d : Dec) (k : ℕ) (hk : k < d.digits.length) :
    (d.digits.drop k).getLast? = d.digits.getLast? := by
  rw [List.getLast?_drop, if_neg (by omega)]

/-- The scientific form, split at its marker. -/
theorem splitExponent (d : Dec) (e : ℤ) :
    let rendered := NumTok.signText d.neg ++ mantissaText d.digits ++ 'e' :: reprExponent e
    rendered.takeWhile (· ≠ 'e') = NumTok.signText d.neg ++ mantissaText d.digits ∧
      (rendered.dropWhile (· ≠ 'e')).drop 1 = reprExponent e := by
  have hne : ∀ c ∈ NumTok.signText d.neg ++ mantissaText d.digits, decide (c ≠ 'e') = true := by
    intro c hc
    rw [decide_eq_true_eq]
    rcases List.mem_append.mp hc with hc | hc
    · exact signText_ne d.neg (by decide) c hc
    · rcases mantissaText_mem d.digits hc with hc | rfl
      · exact digits_ne d (by decide) c hc
      · decide
  constructor
  · rw [List.takeWhile_append_of_pos hne, List.takeWhile_cons_of_neg (by simp), List.append_nil]
  · rw [List.dropWhile_append_of_pos hne, List.dropWhile_cons_of_neg (by simp)]
    rfl

/-- The sign and the digits of a mantissa. -/
theorem mantissaParts (d : Dec) :
    NumTok.signText ((NumTok.signText d.neg ++ mantissaText d.digits).head? = some '-') =
        NumTok.signText d.neg ∧
      ((NumTok.signText d.neg ++ mantissaText d.digits).dropWhile (· = '-')).filter (· ≠ '.') =
        d.digits := by
  have hdig : ∀ c ∈ d.digits, c ≠ '.' := digits_ne d (by decide)
  have hmin : ∀ c ∈ d.digits, c ≠ '-' := digits_ne d (by decide)
  obtain ⟨c, cs, hcs⟩ := List.exists_cons_of_length_pos d.digits_length_pos
  obtain ⟨cs', hm⟩ : ∃ cs', mantissaText d.digits = c :: cs' := by
    rw [hcs]
    cases cs with
    | nil => exact ⟨[], rfl⟩
    | cons a as => exact ⟨'.' :: a :: as, rfl⟩
  have hc : c ≠ '-' := hmin c (by rw [hcs]; simp)
  have hfilter := mantissaText_filter d.digits hdig
  have hdrop : (mantissaText d.digits).dropWhile (· = '-') = mantissaText d.digits := by
    rw [hm, List.dropWhile_cons_of_neg (by simpa using hc)]
  cases d.neg with
  | true =>
    refine ⟨rfl, ?_⟩
    rw [NumTok.signText, if_pos rfl, List.singleton_append, List.dropWhile_cons_of_pos (by simp),
      hdrop, hfilter]
  | false =>
    constructor
    · rw [hm]; simp [NumTok.signText, hc]
    · rw [NumTok.signText, if_neg (by simp), List.nil_append, hdrop, hfilter]

/-- The output of the float printer is the text of the float's token. -/
theorem serializeJcsFloat_eq (d : Dec) : serializeJcsFloat d = (floatTok d).text := by
  unfold serializeJcsFloat floatTok
  by_cases hd : d.mant = 0
  · rw [if_pos hd, if_pos hd]; rfl
  rw [if_neg hd, if_neg hd]
  have hlen := d.digits_length_pos
  have hlow := d.magnitudeGePow_iff hd (-6)
  have hhigh := d.magnitudeGePow_iff hd 21
  have hsign : ∀ c ∈ NumTok.signText d.neg, c ≠ 'e' := signText_ne d.neg (by decide)
  have hdig : ∀ c ∈ d.digits, c ≠ 'e' := digits_ne d (by decide)
  by_cases hsci : d.point ≤ -4 ∨ 16 < d.point
  · -- `repr` chose the scientific form; the program keeps it only outside `[1e-6, 1e21)`.
    have hrepr : reprFloat d = NumTok.signText d.neg ++ mantissaText d.digits ++
        'e' :: reprExponent (d.point - 1) := by
      rw [reprFloat, if_neg hd, if_pos hsci]
    obtain ⟨htake, hexp⟩ := splitExponent d (d.point - 1)
    obtain ⟨hs, hds⟩ := mantissaParts d
    rw [hrepr, if_neg (by simp)]
    simp only [htake, hexp, intOfText_reprExponent, hs, hds]
    by_cases hrange : d.magnitudeGePow (-6) ∧ ¬ d.magnitudeGePow 21
    · rw [if_pos hrange]
      rw [hlow, hhigh] at hrange
      rw [if_neg (by omega : ¬ (d.point ≤ -6 ∨ 21 < d.point))]
      by_cases h0 : d.point ≤ 0
      · rw [if_pos (by omega), if_pos h0]
        simp [NumTok.text, NumTok.fracText, NumTok.expText]
      · rw [if_neg (by omega), if_neg h0]
        rw [show 1 + (d.point - 1) = d.point by ring]
        by_cases hl : (d.digits.length : ℤ) ≤ d.point
        · rw [if_pos hl, if_pos hl]
          simp [NumTok.text, NumTok.fracText, NumTok.expText]
        · rw [if_neg hl, if_neg hl]
          simp [NumTok.text, NumTok.fracText, NumTok.expText]
    · rw [if_neg hrange]
      rw [hlow, hhigh] at hrange
      rw [if_pos (by omega : d.point ≤ -6 ∨ 21 < d.point),
        removeSuffix_of_getLast? (getLast?_append_ne hd _ (mantissaText_getLast? d.digits))]
      obtain ⟨c, cs, hcs⟩ := List.exists_cons_of_length_pos hlen
      by_cases hneg : d.point - 1 < 0
      · rw [if_neg (by omega)]
        cases cs <;> simp [NumTok.text, NumTok.fracText, NumTok.expText, hcs, hneg, strInt,
          NumTok.signText, mantissaText]
      · rw [if_pos (by omega)]
        cases cs <;> simp [NumTok.text, NumTok.fracText, NumTok.expText, hcs, hneg, strInt,
          NumTok.signText, mantissaText]
  · -- `repr` chose the positional form; only its `.0` goes.
    rw [if_neg (by omega : ¬ (d.point ≤ -6 ∨ 21 < d.point))]
    by_cases h0 : d.point ≤ 0
    · have hrepr : reprFloat d = (NumTok.signText d.neg ++ '0' :: '.' ::
          List.replicate (-d.point).toNat '0') ++ d.digits := by
        rw [reprFloat, if_neg hd, if_neg hsci, if_pos h0]; simp
      have hmem : 'e' ∉ reprFloat d := by
        rw [hrepr]
        simp only [List.mem_append, List.mem_cons, List.mem_replicate]
        rintro ((h | h | h | h) | h)
        · exact hsign _ h rfl
        · exact absurd h (by decide)
        · exact absurd h (by decide)
        · exact absurd h.2 (by decide)
        · exact hdig _ h rfl
      rw [if_pos hmem, if_pos h0, hrepr, removeSuffix_of_getLast? (getLast?_append_ne hd _ rfl)]
      simp [NumTok.text, NumTok.fracText, NumTok.expText]
    · rw [if_neg h0]
      by_cases hl : (d.digits.length : ℤ) ≤ d.point
      · have hrepr : reprFloat d = (NumTok.signText d.neg ++ d.digits ++
            List.replicate (d.point - d.digits.length).toNat '0') ++ ['.', '0'] := by
          rw [reprFloat, if_neg hd, if_neg hsci, if_neg h0, if_pos hl]
        have hmem : 'e' ∉ reprFloat d := by
          rw [hrepr]
          simp only [List.mem_append, List.mem_cons, List.mem_replicate, List.not_mem_nil, or_false]
          rintro (((h | h) | h) | h | h)
          · exact hsign _ h rfl
          · exact hdig _ h rfl
          · exact absurd h.2 (by decide)
          · exact absurd h (by decide)
          · exact absurd h (by decide)
        rw [if_pos hmem, if_pos hl, hrepr, removeSuffix_append]
        simp [NumTok.text, NumTok.fracText, NumTok.expText]
      · have hrepr : reprFloat d = (NumTok.signText d.neg ++ d.digits.take d.point.toNat ++
            ['.']) ++ d.digits.drop d.point.toNat := by
          rw [reprFloat, if_neg hd, if_neg hsci, if_neg h0, if_neg hl]; simp
        have hmem : 'e' ∉ reprFloat d := by
          rw [hrepr]
          simp only [List.mem_append, List.mem_singleton]
          rintro (((h | h) | h) | h)
          · exact hsign _ h rfl
          · exact hdig _ (List.mem_of_mem_take h) rfl
          · exact absurd h (by decide)
          · exact hdig _ (List.mem_of_mem_drop h) rfl
        have hlast := drop_getLast? d d.point.toNat (by omega)
        rw [if_pos hmem, if_neg hl, hrepr, removeSuffix_of_getLast? (getLast?_append_ne hd _ hlast)]
        simp [NumTok.text, NumTok.fracText, NumTok.expText]

end Memplex
