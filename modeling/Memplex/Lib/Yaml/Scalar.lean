import Memplex.Lib.Jsonc.Syntax

/-!
# Double-quoted scalars of YAML

`scalarText` is what the characters between two double quotes say, where they stand on one line: a
backslash begins an escape, and every other character stands for itself. A text says itself exactly
when it has neither a backslash nor a quote in it (`scalarText_eq_self`), since an escape is longer
than what it stands for.
-/

namespace Memplex.Lib.Yaml

open Json

/-- The characters that a stream may hold. -/
def isPrintable (c : Char) : Bool :=
  c = '\t' || c = '\n' || c = '\r' || (0x20 ≤ c.toNat && c.toNat ≤ 0x7e) || c.toNat = 0x85 ||
    (0xa0 ≤ c.toNat && c.toNat ≤ 0xd7ff) || (0xe000 ≤ c.toNat && c.toNat ≤ 0xfffd) ||
    (0x10000 ≤ c.toNat && c.toNat ≤ 0x10ffff)

/-- The line breaks that are read as line feeds. -/
def isLineFeed (c : Char) : Bool := c = '\n' || c = '\r' || c = '\u0085'

/-- The line breaks that are read as themselves. -/
def isSeparator (c : Char) : Bool := c = '\u2028' || c = '\u2029'

/-- A character of white space within a line. -/
def isBlank (c : Char) : Bool := c = ' ' || c = '\t'

/-! ## Escapes -/

/-- The character that an escape of two characters stands for. -/
def escapeChar : Char → Option Char
  | '0' => some '\x00'
  | 'a' => some '\x07'
  | 'b' => some '\x08'
  | 't' => some '\t'
  | '\t' => some '\t'
  | 'n' => some '\n'
  | 'v' => some '\x0b'
  | 'f' => some '\x0c'
  | 'r' => some '\r'
  | 'e' => some '\x1b'
  | ' ' => some ' '
  | '"' => some '"'
  | '/' => some '/'
  | '\\' => some '\\'
  | 'N' => some '\u0085'
  | '_' => some '\u00a0'
  | 'L' => some '\u2028'
  | 'P' => some '\u2029'
  | _ => none

/-- The hexadecimal digits that an escape takes. -/
def escapeDigits : Char → Option ℕ
  | 'x' => some 2
  | 'u' => some 4
  | 'U' => some 8
  | _ => none

/-- The number that `n` hexadecimal digits at the front of a text write, behind the digits of
`acc`. -/
def hexNumber : ℕ → ℕ → List Char → Option ℕ
  | acc, 0, _ => some acc
  | _, _ + 1, [] => none
  | acc, n + 1, c :: cs => (hexVal c).bind fun d => hexNumber (acc * 16 + d) n cs

/-- The character of a number, where there is one. -/
def charOf (code : ℕ) : Option Char := if code.isValidChar then some (Char.ofNat code) else none

/-- What an escape stands for, and how many characters it takes of the text behind its letter. -/
def escape (e : Char) (cs : List Char) : Option (Char × ℕ) :=
  (escapeDigits e).elim ((escapeChar e).map fun c => (c, 0)) fun n =>
    ((hexNumber 0 n cs).bind charOf).map fun c => (c, n)

/-! ## What a scalar says -/

/-- The characters of a scalar, with a number of characters to leave out. -/
def scalarText : ℕ → List Char → Option (List Char)
  | _, [] => some []
  | n + 1, _ :: cs => scalarText n cs
  | 0, c :: cs =>
    if c = '\\' then
      cs.head?.bind fun e => (escape e cs.tail).bind fun p =>
        (scalarText (p.2 + 1) cs).map fun text => p.1 :: text
    else if c = '"' then none
    else (scalarText 0 cs).map fun text => c :: text

theorem scalarText_skip (n : ℕ) (cs : List Char) : scalarText n cs = scalarText 0 (cs.drop n) := by
  induction n generalizing cs with
  | zero => rfl
  | succ n ih =>
    cases cs with
    | nil => rfl
    | cons c cs => exact ih cs

/-- A character that stands for itself. -/
theorem scalarText_plain {c : Char} (hesc : c ≠ '\\') (hquote : c ≠ '"') (cs : List Char) :
    scalarText 0 (c :: cs) = (scalarText 0 cs).map fun text => c :: text := by
  rw [scalarText, if_neg hesc, if_neg hquote]

theorem scalarText_quote (cs : List Char) : scalarText 0 ('"' :: cs) = none := rfl

/-- An escape, and the rest behind it. -/
theorem scalarText_escape (e : Char) (cs : List Char) :
    scalarText 0 ('\\' :: e :: cs) = (escape e cs).bind fun p =>
      (scalarText 0 (cs.drop p.2)).map fun text => p.1 :: text := by
  rw [scalarText, if_pos rfl, List.head?_cons, Option.bind_some, List.tail_cons]
  simp only [scalarText_skip (_ + 1), List.drop_succ_cons]

/-- A scalar says no more characters than it has, and fewer where a backslash is among them. -/
theorem length_scalarText {cs text : List Char} (h : scalarText 0 cs = some text) :
    text.length ≤ cs.length ∧ ('\\' ∈ cs → text.length < cs.length) := by
  induction hn : cs.length using Nat.strong_induction_on generalizing cs text with
  | _ n ih =>
    subst hn
    match cs with
    | [] =>
      cases h
      exact ⟨le_refl _, fun hmem => absurd hmem List.not_mem_nil⟩
    | c :: cs =>
      by_cases hesc : c = '\\'
      · subst hesc
        match cs with
        | [] => cases h
        | e :: cs =>
          rw [scalarText_escape] at h
          obtain ⟨p, -, h⟩ := Option.bind_eq_some_iff.mp h
          obtain ⟨rest, hrest, rfl⟩ := Option.map_eq_some_iff.mp h
          have hle := (ih (cs.drop p.2).length
            (by simp only [List.length_drop, List.length_cons]; omega) hrest rfl).1
          simp only [List.length_drop, List.length_cons] at hle ⊢
          exact ⟨by omega, fun _ => by omega⟩
      · by_cases hquote : c = '"'
        · rw [hquote, scalarText_quote] at h
          cases h
        · rw [scalarText_plain hesc hquote] at h
          obtain ⟨rest, hrest, rfl⟩ := Option.map_eq_some_iff.mp h
          obtain ⟨hle, hlt⟩ := ih cs.length (Nat.lt_succ_self _) hrest rfl
          refine ⟨Nat.succ_le_succ hle, fun hmem => Nat.succ_lt_succ (hlt ?_)⟩
          exact (List.mem_cons.mp hmem).resolve_left fun heq => hesc heq.symm

/-- A scalar says the empty text only where it is empty. -/
theorem scalarText_eq_nil {cs : List Char} (h : scalarText 0 cs = some []) : cs = [] := by
  cases cs with
  | nil => rfl
  | cons c cs =>
    by_cases hesc : c = '\\'
    · subst hesc
      cases cs with
      | nil => cases h
      | cons e cs =>
        rw [scalarText_escape] at h
        obtain ⟨p, -, h⟩ := Option.bind_eq_some_iff.mp h
        obtain ⟨rest, -, heq⟩ := Option.map_eq_some_iff.mp h
        cases heq
    · by_cases hquote : c = '"'
      · rw [hquote, scalarText_quote] at h
        cases h
      · rw [scalarText_plain hesc hquote] at h
        obtain ⟨rest, -, heq⟩ := Option.map_eq_some_iff.mp h
        cases heq

/-- **A text says itself exactly when it has neither a backslash nor a quote.** -/
theorem scalarText_eq_self {cs : List Char} :
    scalarText 0 cs = some cs ↔ '\\' ∉ cs ∧ '"' ∉ cs := by
  constructor
  · intro h
    have hesc : '\\' ∉ cs := fun hmem => lt_irrefl _ ((length_scalarText h).2 hmem)
    refine ⟨hesc, ?_⟩
    induction cs with
    | nil => exact List.not_mem_nil
    | cons c cs ih =>
      have hc : c ≠ '\\' := fun heq => hesc (heq ▸ List.mem_cons_self)
      by_cases hquote : c = '"'
      · rw [hquote, scalarText_quote] at h
        cases h
      · rw [scalarText_plain hc hquote] at h
        obtain ⟨rest, hrest, heq⟩ := Option.map_eq_some_iff.mp h
        obtain ⟨-, rfl⟩ := List.cons.inj heq
        have hrest := ih hrest fun hmem => hesc (List.mem_cons_of_mem _ hmem)
        exact List.not_mem_cons_of_ne_of_not_mem (fun heq => hquote heq.symm) hrest
  · rintro ⟨hesc, hquote⟩
    induction cs with
    | nil => rfl
    | cons c cs ih =>
      rw [scalarText_plain (fun heq => hesc (heq ▸ List.mem_cons_self))
        (fun heq => hquote (heq ▸ List.mem_cons_self)),
        ih (fun hmem => hesc (List.mem_cons_of_mem _ hmem))
          fun hmem => hquote (List.mem_cons_of_mem _ hmem)]
      rfl

end Memplex.Lib.Yaml
