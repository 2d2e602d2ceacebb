import Memplex.Lib.Json.Value
import Memplex.Lib.Decimal

/-!
# Reading JSON text

`loads` reads a text into a `Json Token`: number tokens stay as the groups the grammar matches, so
that a caller decides what to make of them, and objects keep every member of the text. It follows
the scanner of Python's `json` module: the whitespace characters, the escapes with their surrogate
pairs, control characters refused inside strings, and the constants `NaN`, `Infinity` and
`-Infinity` accepted beside the numbers of the grammar. An escaped surrogate without its partner
has no character to stand for it and is refused here, where Python's scanner leaves the refusal to
its callers.

The recursion is on fuel, one unit for each value, element and member; `loads` gives a unit for
each character of the text and one more.
-/

namespace Memplex.Lib.Json

/-- The groups of a number token. -/
structure NumTok where
  /-- A leading minus sign. -/
  neg : Bool
  /-- The digits of the integer part. -/
  whole : List Char
  /-- The digits after the decimal point. -/
  frac : Option (List Char)
  /-- The sign (`true` for minus) and the digits of the exponent. -/
  exp : Option (Bool × List Char)
deriving DecidableEq

/-- A number leaf of a text. -/
inductive Token where
  | number (t : NumTok)
  | nan
  | infinity (neg : Bool)
deriving DecidableEq

namespace NumTok

/-- Whether the token has a fraction or an exponent. -/
def isFloat (t : NumTok) : Bool := t.frac.isSome || t.exp.isSome

/-- The integer part with its sign: the value of a token without fraction and exponent. -/
def toInt (t : NumTok) : ℤ :=
  let n : ℤ := Nat.ofDigitChars 10 t.whole 0
  if t.neg then -n else n

/-- The exact value of the token. -/
def toDec (t : NumTok) : Dec :=
  let frac := t.frac.getD []
  let e : ℤ := match t.exp with
    | none => 0
    | some (false, ds) => Nat.ofDigitChars 10 ds 0
    | some (true, ds) => -Nat.ofDigitChars 10 ds 0
  Dec.ofParts t.neg (Nat.ofDigitChars 10 (t.whole ++ frac) 0) (e - frac.length)

end NumTok

/-- The whitespace of JSON. -/
def isWs (c : Char) : Bool := c = ' ' || c = '\t' || c = '\n' || c = '\r'

/-- Drops leading whitespace. -/
def skipWs (cs : List Char) : List Char := cs.dropWhile isWs

/-! ## Strings -/

/-- The value of a hexadecimal digit. -/
def hexVal (c : Char) : Option ℕ :=
  if c.isDigit then some (c.toNat - 48)
  else if 'a' ≤ c ∧ c ≤ 'f' then some (c.toNat - 87)
  else if 'A' ≤ c ∧ c ≤ 'F' then some (c.toNat - 55)
  else none

/-- The value of four hexadecimal digits. -/
def hex4 (a b c d : Char) : Option ℕ := do
  return (((← hexVal a) * 16 + (← hexVal b)) * 16 + (← hexVal c)) * 16 + (← hexVal d)

/-- The character that a one-character escape stands for. -/
def unescape : Char → Option Char
  | '"' => some '"'
  | '\\' => some '\\'
  | '/' => some '/'
  | 'b' => some '\x08'
  | 'f' => some '\x0c'
  | 'n' => some '\n'
  | 'r' => some '\r'
  | 't' => some '\t'
  | _ => none

/-- Whether a code unit is the first of a surrogate pair. -/
def isHighSurrogate (u : ℕ) : Bool := 0xD800 ≤ u && u ≤ 0xDBFF

/-- Whether a code unit is the second of a surrogate pair. -/
def isLowSurrogate (u : ℕ) : Bool := 0xDC00 ≤ u && u ≤ 0xDFFF

/-- The characters of a string up to its closing quote, and what follows the quote. -/
def scanChars : List Char → Option (List Char × List Char)
  | [] => none
  | '"' :: rest => some ([], rest)
  | '\\' :: 'u' :: a :: b :: c :: d :: rest =>
    match hex4 a b c d with
    | none => none
    | some u =>
      if isHighSurrogate u then
        match rest with
        | '\\' :: 'u' :: a' :: b' :: c' :: d' :: rest' =>
          match hex4 a' b' c' d' with
          | none => none
          | some u' =>
            if isLowSurrogate u' then
              (scanChars rest').map fun (cs, r) =>
                (Char.ofNat (0x10000 + (u - 0xD800) * 0x400 + (u' - 0xDC00)) :: cs, r)
            else none
        | _ => none
      else if isLowSurrogate u then none
      else (scanChars rest).map fun (cs, r) => (Char.ofNat u :: cs, r)
  | ['\\'] => none
  | '\\' :: e :: rest =>
    match unescape e with
    | none => none
    | some c => (scanChars rest).map fun (cs, r) => (c :: cs, r)
  | c :: rest =>
    if c.toNat < 32 then none
    else (scanChars rest).map fun (cs, r) => (c :: cs, r)

/-- A string whose opening quote has been read. -/
def readString (cs : List Char) : Option (String × List Char) :=
  (scanChars cs).map fun (chars, rest) => (String.ofList chars, rest)

/-! ## Numbers -/

/-- The longest run of digits at the front. -/
def spanDigits : List Char → List Char × List Char
  | [] => ([], [])
  | c :: cs => if c.isDigit then ((c :: (spanDigits cs).1), (spanDigits cs).2) else ([], c :: cs)

/-- The integer part: a lone zero, or digits that do not begin with one. -/
def readWhole : List Char → Option (List Char × List Char)
  | [] => none
  | c :: cs =>
    if c = '0' then some (['0'], cs)
    else if c.isDigit then some (c :: (spanDigits cs).1, (spanDigits cs).2)
    else none

/-- The fraction, when a point and at least one digit follow. -/
def readFrac : List Char → Option (List Char) × List Char
  | '.' :: cs => if (spanDigits cs).1 = [] then (none, '.' :: cs)
    else (some (spanDigits cs).1, (spanDigits cs).2)
  | cs => (none, cs)

/-- The sign of an exponent, a plus when there is none. -/
def readSign : List Char → Bool × List Char
  | '+' :: cs => (false, cs)
  | '-' :: cs => (true, cs)
  | cs => (false, cs)

/-- The exponent, when the marker, an optional sign and at least one digit follow. -/
def readExp : List Char → Option (Bool × List Char) × List Char
  | [] => (none, [])
  | c :: cs =>
    if c = 'e' ∨ c = 'E' then
      if (spanDigits (readSign cs).2).1 = [] then (none, c :: cs)
      else (some ((readSign cs).1, (spanDigits (readSign cs).2).1), (spanDigits (readSign cs).2).2)
    else (none, c :: cs)

/-- The number token after an optional minus sign. -/
def readUnsigned (neg : Bool) (cs : List Char) : Option (NumTok × List Char) :=
  (readWhole cs).map fun (whole, rest) =>
    (⟨neg, whole, (readFrac rest).1, (readExp (readFrac rest).2).1⟩, (readExp (readFrac rest).2).2)

/-- A number token. -/
def readNumber : List Char → Option (NumTok × List Char)
  | '-' :: cs => readUnsigned true cs
  | cs => readUnsigned false cs

/-! ## Values -/

/-- A literal, a constant or a number at the front of the text. -/
def readScalar : List Char → Option (Json Token × List Char)
  | 'n' :: 'u' :: 'l' :: 'l' :: cs => some (.null, cs)
  | 't' :: 'r' :: 'u' :: 'e' :: cs => some (.bool true, cs)
  | 'f' :: 'a' :: 'l' :: 's' :: 'e' :: cs => some (.bool false, cs)
  | 'N' :: 'a' :: 'N' :: cs => some (.num .nan, cs)
  | 'I' :: 'n' :: 'f' :: 'i' :: 'n' :: 'i' :: 't' :: 'y' :: cs => some (.num (.infinity false), cs)
  | '-' :: 'I' :: 'n' :: 'f' :: 'i' :: 'n' :: 'i' :: 't' :: 'y' :: cs =>
    some (.num (.infinity true), cs)
  | cs => (readNumber cs).map fun (t, rest) => (.num (.number t), rest)

mutual

/-- The value at the front of the text. -/
def readValue : ℕ → List Char → Option (Json Token × List Char)
  | 0, _ => none
  | _ + 1, '"' :: cs => (readString cs).map fun (s, rest) => (.str s, rest)
  | fuel + 1, '[' :: cs =>
    match skipWs cs with
    | ']' :: rest => some (.arr [], rest)
    | cs' => (readItems fuel cs').map fun (items, rest) => (.arr items, rest)
  | fuel + 1, '{' :: cs =>
    match skipWs cs with
    | '}' :: rest => some (.obj [], rest)
    | cs' => (readMembers fuel cs').map fun (members, rest) => (.obj members, rest)
  | _ + 1, cs => readScalar cs

/-- The elements of a non-empty array, up to its closing bracket. -/
def readItems : ℕ → List Char → Option (List (Json Token) × List Char)
  | 0, _ => none
  | fuel + 1, cs =>
    match readValue fuel cs with
    | none => none
    | some (item, rest) =>
      match skipWs rest with
      | ']' :: rest' => some ([item], rest')
      | ',' :: rest' =>
        (readItems fuel (skipWs rest')).map fun (items, rest'') => (item :: items, rest'')
      | _ => none

/-- The members of a non-empty object, up to its closing brace. -/
def readMembers : ℕ → List Char → Option (List (String × Json Token) × List Char)
  | fuel + 1, '"' :: cs =>
    match readString cs with
    | none => none
    | some (key, rest) =>
      match skipWs rest with
      | ':' :: rest' =>
        match readValue fuel (skipWs rest') with
        | none => none
        | some (value, rest'') =>
          match skipWs rest'' with
          | '}' :: rest''' => some ([(key, value)], rest''')
          | ',' :: rest''' =>
            (readMembers fuel (skipWs rest''')).map fun (ms, r) => ((key, value) :: ms, r)
          | _ => none
      | _ => none
  | _, _ => none

end

/-- The value of a whole text, with nothing but whitespace around it. -/
def loads (cs : List Char) : Option (Json Token) :=
  match readValue (cs.length + 1) (skipWs cs) with
  | none => none
  | some (value, rest) => if skipWs rest = [] then some value else none

end Memplex.Lib.Json
