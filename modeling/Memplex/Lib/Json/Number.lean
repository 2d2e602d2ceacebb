import Memplex.Lib.Json.Writer

/-!
# Number tokens and their text

`NumTok.text` prints the groups of a token, and `NumTok.WellFormed` are the groups the number
grammar matches: an integer part without a leading zero, and a fraction and an exponent with at
least one digit each. A printed well-formed token reads back as itself (`readValue_text`), whatever
closes it, so a printer of numbers meets `Reads` as soon as its output is the text of such a token.
-/

namespace Memplex.Lib.Json

namespace NumTok

/-- The sign of a token. -/
def signText (neg : Bool) : List Char := if neg then ['-'] else []

/-- The fraction with its point. -/
def fracText : Option (List Char) → List Char
  | none => []
  | some ds => '.' :: ds

/-- The exponent with its marker and its sign. -/
def expText : Option (Bool × List Char) → List Char
  | none => []
  | some (neg, ds) => 'e' :: (if neg then '-' else '+') :: ds

/-- The text of a token. -/
def text (t : NumTok) : List Char :=
  signText t.neg ++ t.whole ++ fracText t.frac ++ expText t.exp

/-- The groups that the number grammar matches. -/
structure WellFormed (t : NumTok) : Prop where
  /-- The integer part is a lone zero, or digits that do not begin with one. -/
  whole : t.whole = ['0'] ∨ ∃ c ds, t.whole = c :: ds ∧ c ≠ '0' ∧ c.isDigit ∧ ∀ d ∈ ds, d.isDigit
  /-- A fraction has digits, and nothing else. -/
  frac : ∀ ds ∈ t.frac, ds ≠ [] ∧ ∀ d ∈ ds, d.isDigit
  /-- An exponent has digits, and nothing else besides its sign. -/
  exp : ∀ e ∈ t.exp, e.2 ≠ [] ∧ ∀ d ∈ e.2, d.isDigit

end NumTok

open NumTok

/-- The text after the digits of a token: it does not begin with a digit. -/
def NoDigit (rest : List Char) : Prop := ∀ c ∈ rest.head?, c.isDigit = false

theorem spanDigits_append (ds rest : List Char) (hds : ∀ d ∈ ds, d.isDigit) (hr : NoDigit rest) :
    spanDigits (ds ++ rest) = (ds, rest) := by
  induction ds with
  | nil =>
    cases rest with
    | nil => rfl
    | cons c cs =>
      have hc : c.isDigit = false := hr c rfl
      simp [spanDigits, hc]
  | cons d ds ih =>
    have hd : d.isDigit = true := hds d (List.mem_cons_self ..)
    rw [List.cons_append, spanDigits, if_pos hd, ih fun x hx => hds x (List.mem_cons_of_mem _ hx)]

theorem Closed.noDigit {rest : List Char} (h : Closed rest) : NoDigit rest := by
  intro c hc
  rcases h c hc with rfl | rfl | rfl <;> decide

theorem noDigit_expText (e : Option (Bool × List Char)) {rest : List Char} (h : Closed rest) :
    NoDigit (expText e ++ rest) := by
  cases e with
  | none => exact h.noDigit
  | some e => intro c hc; simp [expText] at hc; subst hc; decide

theorem noDigit_fracText (f : Option (List Char)) (e : Option (Bool × List Char))
    {rest : List Char} (h : Closed rest) : NoDigit (fracText f ++ (expText e ++ rest)) := by
  cases f with
  | none => exact noDigit_expText e h
  | some ds => intro c hc; simp [fracText] at hc; subst hc; decide

/-- A printed exponent is read up to what closes it. -/
theorem readExp_text (e : Option (Bool × List Char))
    (he : ∀ x ∈ e, x.2 ≠ [] ∧ ∀ d ∈ x.2, d.isDigit) {rest : List Char} (h : Closed rest) :
    readExp (expText e ++ rest) = (e, rest) := by
  cases e with
  | none =>
    cases rest with
    | nil => rfl
    | cons c cs =>
      have hc : ¬ (c = 'e' ∨ c = 'E') := by
        rcases h c rfl with rfl | rfl | rfl <;> decide
      simp only [expText, List.nil_append, readExp, if_neg hc]
  | some e =>
    obtain ⟨neg, ds⟩ := e
    obtain ⟨hne, hds⟩ := he (neg, ds) rfl
    have hspan := spanDigits_append ds rest hds h.noDigit
    have hsign : readSign ((if neg then '-' else '+') :: (ds ++ rest)) = (neg, ds ++ rest) := by
      cases neg <;> rfl
    simp only [expText, List.cons_append, readExp, true_or, if_true, hsign, hspan, if_neg hne]

/-- A printed fraction is read up to the exponent. -/
theorem readFrac_text (f : Option (List Char)) (hf : ∀ ds ∈ f, ds ≠ [] ∧ ∀ d ∈ ds, d.isDigit)
    (e : Option (Bool × List Char)) {rest : List Char} (h : Closed rest) :
    readFrac (fracText f ++ (expText e ++ rest)) = (f, expText e ++ rest) := by
  cases f with
  | none =>
    cases e with
    | none =>
      cases rest with
      | nil => rfl
      | cons c cs =>
        rcases h c rfl with rfl | rfl | rfl <;> rfl
    | some e => rfl
  | some ds =>
    obtain ⟨hne, hds⟩ := hf ds rfl
    have hspan := spanDigits_append ds (expText e ++ rest) hds (noDigit_expText e h)
    simp only [fracText, List.cons_append, readFrac, hspan, if_neg hne]

/-- A printed integer part is read up to the fraction. -/
theorem readWhole_text (t : NumTok) (ht : t.WellFormed) {rest : List Char} (h : NoDigit rest) :
    readWhole (t.whole ++ rest) = some (t.whole, rest) := by
  rcases ht.whole with hw | ⟨c, ds, hw, hc0, hcd, hds⟩
  · rw [hw]; rfl
  · have hspan := spanDigits_append ds rest hds h
    rw [hw, List.cons_append, readWhole, if_neg hc0, if_pos hcd, hspan]

/-- The digits of a token after its sign. -/
theorem readUnsigned_text (t : NumTok) (ht : t.WellFormed) {rest : List Char} (h : Closed rest) :
    readUnsigned t.neg (t.whole ++ (fracText t.frac ++ (expText t.exp ++ rest))) =
      some (t, rest) := by
  have hwhole := readWhole_text t ht (noDigit_fracText t.frac t.exp h)
  have hfrac := readFrac_text t.frac ht.frac t.exp h
  have hexp := readExp_text t.exp ht.exp h
  rw [readUnsigned, hwhole]
  simp only [Option.map_some, hfrac, hexp]

/-- The integer part of a well-formed token begins with a digit. -/
theorem NumTok.WellFormed.head {t : NumTok} (ht : t.WellFormed) :
    ∃ c ds, t.whole = c :: ds ∧ c.isDigit = true := by
  rcases ht.whole with hw | ⟨c, ds, hw, -, hcd, -⟩
  · exact ⟨'0', [], hw, by decide⟩
  · exact ⟨c, ds, hw, hcd⟩

/-- A character that is a digit opens a number and nothing else. -/
theorem readScalar_digit {c : Char} (hc : c.isDigit = true) (cs : List Char) :
    readScalar (c :: cs) = (readUnsigned false (c :: cs)).map
      fun (t, rest) => (.num (.number t), rest) := by
  have hn : c ≠ 'n' := by rintro rfl; exact absurd hc (by decide)
  have ht : c ≠ 't' := by rintro rfl; exact absurd hc (by decide)
  have hf : c ≠ 'f' := by rintro rfl; exact absurd hc (by decide)
  have hN : c ≠ 'N' := by rintro rfl; exact absurd hc (by decide)
  have hI : c ≠ 'I' := by rintro rfl; exact absurd hc (by decide)
  have hm : c ≠ '-' := by rintro rfl; exact absurd hc (by decide)
  unfold readScalar readNumber
  split <;> simp_all

/-- A minus sign before a digit opens a negative number. -/
theorem readScalar_minus {c : Char} (hc : c.isDigit = true) (cs : List Char) :
    readScalar ('-' :: c :: cs) = (readUnsigned true (c :: cs)).map
      fun (t, rest) => (.num (.number t), rest) := by
  have hI : c ≠ 'I' := by rintro rfl; exact absurd hc (by decide)
  unfold readScalar
  split <;> simp_all [readNumber]

/-- A well-formed token reads back from its text. -/
theorem readValue_text (t : NumTok) (ht : t.WellFormed) (fuel : ℕ) {rest : List Char}
    (h : Closed rest) :
    readValue (fuel + 1) (t.text ++ rest) = some (.num (.number t), rest) := by
  obtain ⟨c, ds, hw, hc⟩ := ht.head
  have hread := readUnsigned_text t ht h
  have hq : c ≠ '"' := by rintro rfl; exact absurd hc (by decide)
  have hb : c ≠ '[' := by rintro rfl; exact absurd hc (by decide)
  have hB : c ≠ '{' := by rintro rfl; exact absurd hc (by decide)
  rw [hw, List.cons_append] at hread
  rw [text, hw, List.append_assoc, List.append_assoc, List.append_assoc, List.cons_append]
  cases hneg : t.neg with
  | false =>
    rw [hneg] at hread
    rw [signText, if_neg (by simp), List.nil_append, readValue, readScalar_digit hc, hread]
    · rfl
    all_goals simp_all
  | true =>
    rw [hneg] at hread
    rw [signText, if_pos rfl, List.singleton_append, readValue, readScalar_minus hc, hread]
    · rfl
    all_goals simp

theorem text_opens (t : NumTok) (ht : t.WellFormed) : Opens t.text := by
  obtain ⟨c, ds, hw, hc⟩ := ht.head
  rw [text, hw]
  cases t.neg with
  | false =>
    refine ⟨c, _, rfl, ?_, ?_, ?_⟩
    · unfold isWs
      simp only [Bool.or_eq_false_iff, decide_eq_false_iff_not]
      refine ⟨⟨⟨?_, ?_⟩, ?_⟩, ?_⟩ <;> (rintro rfl; exact absurd hc (by decide))
    · rintro rfl; exact absurd hc (by decide)
    · rintro rfl; exact absurd hc (by decide)
  | true => exact ⟨'-', _, rfl, by decide, by decide, by decide⟩

/-- A printer of numbers whose output is the text of a well-formed token reads back as it. -/
theorem reads_of_text {ν : Type} {num : ν → List Char} {tok : ν → NumTok} {n : ν}
    (ht : (tok n).WellFormed) (hn : num n = (tok n).text) :
    Reads num (fun m => .number (tok m)) n where
  opens := hn ▸ text_opens (tok n) ht
  reads fuel _ h := hn ▸ readValue_text (tok n) ht fuel h

end Memplex.Lib.Json
