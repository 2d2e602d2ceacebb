import Memplex.Lib.Jsonc.Syntax

/-!
# The characters of a string

What `scanChars` makes of the characters between two quotes does not depend on what follows the
closing one (`scanChars_quoted`), whether they say something or not. The proof goes through the
characters by `Quoted.cases`: a plain one, or an escape, which takes four digits or ten more
characters where it is a unicode escape.
-/

namespace Memplex.Lib.Jsonc

open Json

/-- A character that is a hexadecimal digit neither ends a string nor escapes. -/
theorem hexVal_plain {c : Char} {n : ℕ} (h : hexVal c = some n) : c ≠ '"' ∧ c ≠ '\\' := by
  have hquote : hexVal '"' = none := by decide
  have hslash : hexVal '\\' = none := by decide
  exact ⟨fun hc => Option.some_ne_none n (h.symm.trans (hc ▸ hquote)),
    fun hc => Option.some_ne_none n (h.symm.trans (hc ▸ hslash))⟩

/-- A control character is no hexadecimal digit. -/
theorem hexVal_control {c : Char} (h : c.toNat < 32) : hexVal c = none := by
  have hall : ∀ n < 32, hexVal (Char.ofNat n) = none := by decide
  rw [← Char.ofNat_toNat c]
  exact hall c.toNat h

theorem staysOpen_plain {c : Char} (h : c ≠ '"' ∧ c ≠ '\\') (cs : List Char) :
    staysOpen false (c :: cs) = staysOpen false cs := by
  rw [staysOpen, if_neg h.2, decide_eq_true h.1, Bool.true_and]

/-- The code unit of four hexadecimal digits at the front of a text. -/
def hexHead : List Char → Option (ℕ × List Char)
  | a :: b :: c :: d :: rest => (hex4 a b c d).map fun u => (u, rest)
  | _ => none

/-- What a unicode escape stands for. -/
theorem scanChars_unicode (cs : List Char) :
    scanChars ('\\' :: 'u' :: cs) =
      match hexHead cs with
      | none => none
      | some (u, rest) =>
        if isHighSurrogate u then
          match rest with
          | '\\' :: 'u' :: cs' =>
            match hexHead cs' with
            | none => none
            | some (u', rest') =>
              if isLowSurrogate u' then
                (scanChars rest').map fun (cs, r) =>
                  (Char.ofNat (0x10000 + (u - 0xD800) * 0x400 + (u' - 0xDC00)) :: cs, r)
              else none
          | _ => none
        else if isLowSurrogate u then none
        else (scanChars rest).map fun (cs, r) => (Char.ofNat u :: cs, r) := by
  rcases cs with _ | ⟨a, _ | ⟨b, _ | ⟨c, _ | ⟨d, rest⟩⟩⟩⟩
  · rfl
  · rfl
  · rfl
  · rfl
  · rw [scanChars, hexHead]
    cases hex4 a b c d with
    | none => rfl
    | some u =>
      simp only [Option.map_some]
      by_cases hhigh : isHighSurrogate u = true
      · simp only [hhigh, if_true]
        -- The second of the pair follows, or the escape stands for nothing.
        by_cases hpair : ∃ cs', rest = '\\' :: 'u' :: cs'
        · obtain ⟨cs', rfl⟩ := hpair
          rcases cs' with _ | ⟨a', _ | ⟨b', _ | ⟨c', _ | ⟨d', rest'⟩⟩⟩⟩
          · rfl
          · rfl
          · rfl
          · rfl
          · simp only [hexHead]
            cases hex4 a' b' c' d' <;> rfl
        · split
          · exact absurd ⟨_, rfl⟩ hpair
          · split
            · exact absurd ⟨_, rfl⟩ hpair
            · rfl
      · simp only [hhigh, Bool.false_eq_true, if_false]

/-- Four hexadecimal digits are characters of the string. -/
theorem hex4_plain {a b c d : Char} {u : ℕ} (h : hex4 a b c d = some u) (cs : List Char) :
    staysOpen false (a :: b :: c :: d :: cs) = staysOpen false cs := by
  unfold hex4 at h
  simp only [Option.bind_eq_bind, Option.bind_eq_some_iff] at h
  obtain ⟨na, ha, nb, hb, nc, hc, nd, hd, -⟩ := h
  rw [staysOpen_plain (hexVal_plain ha), staysOpen_plain (hexVal_plain hb),
    staysOpen_plain (hexVal_plain hc), staysOpen_plain (hexVal_plain hd)]

/-- None of four hexadecimal digits is a control character. -/
theorem hex4_control_mem {a b c d x : Char} {u : ℕ} (h : hex4 a b c d = some u) {cs : List Char}
    (hx : x ∈ a :: b :: c :: d :: cs) (hctl : x.toNat < 32) : x ∈ cs := by
  unfold hex4 at h
  simp only [Option.bind_eq_bind, Option.bind_eq_some_iff] at h
  obtain ⟨na, ha, nb, hb, nc, hc, nd, hd, -⟩ := h
  have hdigit : ∀ {y : Char} {n : ℕ}, hexVal y = some n → x ≠ y := by
    rintro y n hy rfl
    exact Option.some_ne_none n (hy.symm.trans (hexVal_control hctl))
  simpa [hdigit ha, hdigit hb, hdigit hc, hdigit hd] using hx

/-- What four characters say does not depend on what follows the closing quote. -/
theorem hexHead_quoted {raw : List Char} (h : Quoted raw) :
    (hexHead raw = none ∧ ∀ rest, hexHead (raw ++ '"' :: rest) = none) ∨
      ∃ u raw', Quoted raw' ∧ raw'.length < raw.length ∧ (∀ x ∈ raw, x.toNat < 32 → x ∈ raw') ∧
        ∀ rest, hexHead (raw ++ '"' :: rest) = some (u, raw' ++ '"' :: rest) := by
  -- The closing quote is no digit.
  have hquote : hexVal '"' = none := by decide
  rcases raw with _ | ⟨a, _ | ⟨b, _ | ⟨c, _ | ⟨d, raw'⟩⟩⟩⟩
  · refine .inl ⟨rfl, fun rest => ?_⟩
    rcases rest with _ | ⟨b, _ | ⟨c, _ | ⟨d, rest⟩⟩⟩ <;> simp [hexHead, hex4, hquote]
  · refine .inl ⟨rfl, fun rest => ?_⟩
    rcases rest with _ | ⟨c, _ | ⟨d, rest⟩⟩ <;> simp [hexHead, hex4, hquote]
  · refine .inl ⟨rfl, fun rest => ?_⟩
    rcases rest with _ | ⟨d, rest⟩ <;> simp [hexHead, hex4, hquote]
  · refine .inl ⟨rfl, fun rest => ?_⟩
    simp [hexHead, hex4, hquote]
  · cases hu : hex4 a b c d with
    | none =>
      refine .inl ⟨?_, fun rest => ?_⟩ <;> simp [hexHead, hu]
    | some u =>
      refine .inr ⟨u, raw', ?_, ?_, ?_, fun rest => ?_⟩
      · rw [Quoted, hex4_plain hu] at h
        exact h
      · simp only [List.length_cons]
        omega
      · exact fun x hx hctl => hex4_control_mem hu hx hctl
      · simp [hexHead, hu]

/-- The characters of a string begin with a plain one or with an escape. -/
theorem Quoted.cases {raw : List Char} (h : Quoted raw) :
    raw = [] ∨ (∃ c cs, raw = c :: cs ∧ (c ≠ '"' ∧ c ≠ '\\') ∧ Quoted cs) ∨
      ∃ e cs, raw = '\\' :: e :: cs ∧ Quoted cs := by
  rcases raw with _ | ⟨c, cs⟩
  · exact .inl rfl
  · by_cases hslash : c = '\\'
    · subst hslash
      rcases cs with _ | ⟨e, cs⟩
      · exact absurd h (by decide)
      · refine .inr (.inr ⟨e, cs, rfl, ?_⟩)
        rwa [Quoted, staysOpen, if_pos rfl, staysOpen] at h
    · rw [Quoted, staysOpen, if_neg hslash, Bool.and_eq_true, decide_eq_true_eq] at h
      exact .inr (.inl ⟨c, cs, rfl, ⟨h.1, hslash⟩, h.2⟩)

theorem scanChars_plain {c : Char} (hc : c ≠ '"' ∧ c ≠ '\\') (cs : List Char) :
    scanChars (c :: cs) =
      if c.toNat < 32 then none else (scanChars cs).map fun (cs, r) => (c :: cs, r) := by
  rw [scanChars]
  · exact hc.1
  · exact fun _ _ _ _ _ h _ => hc.2 h
  · exact fun h _ => hc.2 h
  · exact fun _ _ h _ => hc.2 h

theorem scanChars_escape {e : Char} (he : e ≠ 'u') (cs : List Char) :
    scanChars ('\\' :: e :: cs) =
      match unescape e with
      | none => none
      | some c => (scanChars cs).map fun (cs, r) => (c :: cs, r) := by
  rw [scanChars]
  all_goals first
    | rfl
    | exact fun _ _ _ _ _ h _ => he h

/-- What the characters of a string say does not depend on what follows the closing quote. -/
theorem scanChars_quoted {raw : List Char} (h : Quoted raw) (rest : List Char) :
    scanChars (raw ++ '"' :: rest) = (scanChars (raw ++ ['"'])).map fun p => (p.1, rest) := by
  induction hn : raw.length using Nat.strong_induction_on generalizing raw with
  | _ n ih =>
    subst hn
    obtain rfl | ⟨c, cs, rfl, hc, hcs⟩ | ⟨e, cs, rfl, hcs⟩ := h.cases
    · simp [scanChars]
    · have ih := ih cs.length (Nat.lt_succ_self _) hcs rfl
      rw [List.cons_append, List.cons_append, scanChars_plain hc, scanChars_plain hc, ih]
      split_ifs
      · rfl
      · simp [Function.comp_def]
    · by_cases he : e = 'u'
      · subst he
        simp only [List.cons_append, scanChars_unicode]
        rcases hexHead_quoted hcs with ⟨-, hnone⟩ | ⟨u, raw', hraw', hlen, -, hsome⟩
        · rw [hnone rest, hnone []]
          rfl
        · rw [hsome rest, hsome []]
          have hlen : raw'.length < ('\\' :: 'u' :: cs).length := by
            simp only [List.length_cons]
            omega
          simp only
          split_ifs with hhigh hlow
          · -- The second of a pair is an escape too.
            obtain rfl | ⟨c, cs', rfl, hc, -⟩ | ⟨e, cs', rfl, hcs'⟩ := hraw'.cases
            · rfl
            · simp only [List.cons_append]
              split
              · next heq => exact absurd (List.cons.inj heq).1 hc.2
              · split
                · next heq => exact absurd (List.cons.inj heq).1 hc.2
                · rfl
            · by_cases he : e = 'u'
              · subst he
                simp only [List.cons_append]
                rcases hexHead_quoted hcs' with ⟨-, hnone'⟩ | ⟨u', raw'', hraw'', hlen', -, hsome'⟩
                · rw [hnone' rest, hnone' []]
                  rfl
                · rw [hsome' rest, hsome' []]
                  have ih := ih raw''.length (by simp only [List.length_cons] at *; omega) hraw''
                    rfl
                  simp only [ih]
                  split_ifs
                  · simp [Function.comp_def]
                  · rfl
              · simp only [List.cons_append]
                split
                · next heq => exact absurd (List.cons.inj (List.cons.inj heq).2).1 he
                · split
                  · next heq => exact absurd (List.cons.inj (List.cons.inj heq).2).1 he
                  · rfl
          · rfl
          · rw [ih raw'.length hlen hraw' rfl]
            simp [Function.comp_def]
      · have ih := ih cs.length (by simp only [List.length_cons]; omega) hcs rfl
        simp only [List.cons_append, scanChars_escape he, ih]
        cases unescape e with
        | none => rfl
        | some c => simp [Function.comp_def]

/-- A string reads as what it says. -/
theorem readString_quoted {raw : List Char} (h : Quoted raw) (rest : List Char) :
    readString (raw ++ '"' :: rest) = (quotedText raw).map fun s => (s, rest) := by
  rw [quotedText, readString, readString, scanChars_quoted h rest]
  simp [Function.comp_def]

end Memplex.Lib.Jsonc
