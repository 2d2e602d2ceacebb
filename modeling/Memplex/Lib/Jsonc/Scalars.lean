import Memplex.Lib.Json.Number

/-!
# Literals and numbers in a larger text

A literal or a number reads the same in front of whatever may follow a value (`readScalar_ends`),
and its characters are letters, digits, signs and points (`readScalar_chars`).
-/

namespace Memplex.Lib.Jsonc

open Json

/-- The text after a value: the end, white space, a comma, a closing bracket or a comment. -/
def Ends (rest : List Char) : Prop :=
  ∀ c ∈ rest.head?, isWs c = true ∨ c = ',' ∨ c = ']' ∨ c = '}' ∨ c = '/'

/-- A character of a literal or of a number. -/
def isWordChar (c : Char) : Bool := c.isAlphanum || c = '+' || c = '-' || c = '.'

/-- Nothing that may follow a value is a character of one. -/
theorem Ends.not_word {rest : List Char} (h : Ends rest) :
    ∀ c ∈ rest.head?, isWordChar c = false := by
  intro c hc
  rcases h c hc with hws | rfl | rfl | rfl | rfl
  · unfold isWs at hws
    simp only [Bool.or_eq_true, decide_eq_true_eq] at hws
    rcases hws with ((rfl | rfl) | rfl) | rfl <;> decide
  all_goals decide

theorem isWordChar_of_isDigit {c : Char} (h : c.isDigit = true) : isWordChar c = true := by
  unfold isWordChar Char.isAlphanum
  rw [h]
  simp

theorem Ends.noDigit {rest : List Char} (h : Ends rest) : NoDigit rest := by
  intro c hc
  by_contra hdigit
  have hword := isWordChar_of_isDigit (Bool.eq_true_of_not_eq_false hdigit)
  rw [h.not_word c hc] at hword
  exact Bool.noConfusion hword

theorem spanDigits_ends (cs : List Char) {rest : List Char} (h : NoDigit rest) :
    spanDigits (cs ++ rest) = ((spanDigits cs).1, (spanDigits cs).2 ++ rest) := by
  induction cs with
  | nil =>
    rw [List.nil_append]
    exact spanDigits_append [] rest (fun _ hd => (List.not_mem_nil hd).elim) h
  | cons c cs ih =>
    rw [List.cons_append, spanDigits, spanDigits]
    split_ifs with hc
    · rw [ih]
    · rfl

theorem readWhole_ends {cs whole rest' : List Char} (hread : readWhole cs = some (whole, rest'))
    {rest : List Char} (h : NoDigit rest) :
    readWhole (cs ++ rest) = some (whole, rest' ++ rest) := by
  cases cs with
  | nil => cases hread
  | cons c cs =>
    rw [List.cons_append, readWhole]
    rw [readWhole] at hread
    split_ifs at hread ⊢ with hzero hdigit
    · cases hread
      rfl
    · cases hread
      rw [spanDigits_ends cs h]

theorem readFrac_ends (cs : List Char) {rest : List Char} (h : Ends rest) :
    readFrac (cs ++ rest) = ((readFrac cs).1, (readFrac cs).2 ++ rest) := by
  cases cs with
  | nil =>
    cases rest with
    | nil => rfl
    | cons d ds =>
      have hd : d ≠ '.' := by
        rintro rfl
        exact absurd (h.not_word '.' rfl) (by decide)
      rw [List.nil_append, readFrac]
      · rfl
      · exact fun _ hcs => hd (List.cons.inj hcs).1
  | cons c cs =>
    by_cases hc : c = '.'
    · subst hc
      rw [List.cons_append, readFrac, readFrac, spanDigits_ends cs h.noDigit]
      split_ifs <;> rfl
    · rw [List.cons_append, readFrac, readFrac]
      · rfl
      · exact fun _ hcs => hc (List.cons.inj hcs).1
      · exact fun _ hcs => hc (List.cons.inj hcs).1

theorem readSign_ends {cs : List Char} {rest : List Char} (h : Ends rest) :
    readSign (cs ++ rest) = ((readSign cs).1, (readSign cs).2 ++ rest) := by
  cases cs with
  | nil =>
    cases rest with
    | nil => rfl
    | cons d ds =>
      have hd : isWordChar d = false := h.not_word d rfl
      have hplus : d ≠ '+' := by rintro rfl; exact absurd hd (by decide)
      have hminus : d ≠ '-' := by rintro rfl; exact absurd hd (by decide)
      rw [List.nil_append, readSign]
      · rfl
      · exact fun _ hcs => hplus (List.cons.inj hcs).1
      · exact fun _ hcs => hminus (List.cons.inj hcs).1
  | cons c cs =>
    by_cases hplus : c = '+'
    · subst hplus
      rfl
    · by_cases hminus : c = '-'
      · subst hminus
        rfl
      · rw [List.cons_append, readSign, readSign]
        · rfl
        · exact fun _ hcs => hplus (List.cons.inj hcs).1
        · exact fun _ hcs => hminus (List.cons.inj hcs).1
        · exact fun _ hcs => hplus (List.cons.inj hcs).1
        · exact fun _ hcs => hminus (List.cons.inj hcs).1

theorem readExp_ends (cs : List Char) {rest : List Char} (h : Ends rest) :
    readExp (cs ++ rest) = ((readExp cs).1, (readExp cs).2 ++ rest) := by
  cases cs with
  | nil =>
    cases rest with
    | nil => rfl
    | cons d ds =>
      have hd : isWordChar d = false := h.not_word d rfl
      have hexp : ¬ (d = 'e' ∨ d = 'E') := by
        rintro (rfl | rfl) <;> exact absurd hd (by decide)
      show readExp (d :: ds) = (none, d :: ds)
      rw [readExp, if_neg hexp]
  | cons c cs =>
    rw [List.cons_append, readExp, readExp, readSign_ends h]
    simp only [spanDigits_ends _ h.noDigit]
    split_ifs <;> rfl

theorem readUnsigned_ends {neg : Bool} {cs : List Char} {t : NumTok}
    (hread : readUnsigned neg cs = some (t, [])) {rest : List Char} (h : Ends rest) :
    readUnsigned neg (cs ++ rest) = some (t, rest) := by
  unfold readUnsigned at hread ⊢
  obtain ⟨⟨whole, rest'⟩, hwhole, heq⟩ := Option.map_eq_some_iff.mp hread
  obtain ⟨htok, hnil⟩ := Prod.mk.inj heq
  rw [readWhole_ends hwhole h.noDigit, Option.map_some, ← htok]
  simp only [readFrac_ends rest' h, readExp_ends _ h, hnil, List.nil_append]

/-- A number begins with a digit. -/
theorem readUnsigned_head {neg : Bool} {cs rest : List Char} {t : NumTok}
    (hread : readUnsigned neg cs = some (t, rest)) : ∃ c ds, cs = c :: ds ∧ c.isDigit = true := by
  obtain ⟨⟨whole, rest'⟩, hwhole, -⟩ := Option.map_eq_some_iff.mp hread
  cases cs with
  | nil => cases hwhole
  | cons c ds =>
    refine ⟨c, ds, rfl, ?_⟩
    rw [readWhole] at hwhole
    split_ifs at hwhole with hzero hdigit
    · exact hzero ▸ by decide
    · exact hdigit

/-- A literal or a number reads the same in front of what may follow it. -/
theorem readScalar_ends {chars : List Char} {v : Json Token}
    (hread : readScalar chars = some (v, [])) {rest : List Char} (h : Ends rest) :
    readScalar (chars ++ rest) = some (v, rest) := by
  unfold readScalar at hread
  split at hread
  all_goals try (cases hread; rfl)
  next =>
    obtain ⟨⟨t, rest'⟩, hnumber, heq⟩ := Option.map_eq_some_iff.mp hread
    obtain ⟨rfl, rfl⟩ := Prod.mk.inj heq
    cases chars with
    | nil => cases hnumber
    | cons c cs =>
      by_cases hminus : c = '-'
      · subst hminus
        obtain ⟨d, ds, rfl, hd⟩ := readUnsigned_head hnumber
        have hends := readUnsigned_ends hnumber h
        rw [List.cons_append] at hends
        rw [List.cons_append, List.cons_append, readScalar_minus hd, hends]
        rfl
      · rw [readNumber] at hnumber
        · obtain ⟨d, ds, hcons, hd⟩ := readUnsigned_head hnumber
          obtain ⟨rfl, rfl⟩ := List.cons.inj hcons
          have hends := readUnsigned_ends hnumber h
          rw [List.cons_append] at hends
          rw [List.cons_append, readScalar_digit hd, hends]
          rfl
        · exact fun _ hcs => hminus (List.cons.inj hcs).1

/-! ### The characters that are read -/

theorem mem_spanDigits {cs : List Char} {c : Char} (hc : c ∈ cs) :
    c ∈ (spanDigits cs).2 ∨ isWordChar c = true := by
  induction cs with
  | nil => exact (List.not_mem_nil hc).elim
  | cons d cs ih =>
    rw [spanDigits]
    split_ifs with hd
    · rcases List.mem_cons.mp hc with rfl | hc
      · exact .inr (isWordChar_of_isDigit hd)
      · exact ih hc
    · exact .inl hc

theorem mem_readWhole {cs whole rest : List Char} (hread : readWhole cs = some (whole, rest))
    {c : Char} (hc : c ∈ cs) : c ∈ rest ∨ isWordChar c = true := by
  cases cs with
  | nil => cases hread
  | cons d cs =>
    rw [readWhole] at hread
    split_ifs at hread with hzero hdigit
    · cases hread
      rcases List.mem_cons.mp hc with rfl | hc
      · exact .inr (hzero ▸ by decide)
      · exact .inl hc
    · cases hread
      rcases List.mem_cons.mp hc with rfl | hc
      · exact .inr (isWordChar_of_isDigit hdigit)
      · exact mem_spanDigits hc

theorem mem_readFrac {cs : List Char} {c : Char} (hc : c ∈ cs) :
    c ∈ (readFrac cs).2 ∨ isWordChar c = true := by
  unfold readFrac
  split
  · split_ifs
    · exact .inl hc
    · rcases List.mem_cons.mp hc with rfl | hc
      · exact .inr (by decide)
      · exact mem_spanDigits hc
  · exact .inl hc

theorem mem_readSign {cs : List Char} {c : Char} (hc : c ∈ cs) :
    c ∈ (readSign cs).2 ∨ isWordChar c = true := by
  unfold readSign
  split
  · exact (List.mem_cons.mp hc).elim (fun h => .inr (h ▸ by decide)) .inl
  · exact (List.mem_cons.mp hc).elim (fun h => .inr (h ▸ by decide)) .inl
  · exact .inl hc

theorem mem_readExp {cs : List Char} {c : Char} (hc : c ∈ cs) :
    c ∈ (readExp cs).2 ∨ isWordChar c = true := by
  cases cs with
  | nil => exact (List.not_mem_nil hc).elim
  | cons d cs =>
    rw [readExp]
    split_ifs with hexp hnone
    · exact .inl hc
    · rcases List.mem_cons.mp hc with rfl | hc
      · rcases hexp with rfl | rfl <;> exact .inr (by decide)
      · exact (mem_readSign hc).elim mem_spanDigits .inr
    · exact .inl hc

theorem mem_readUnsigned {neg : Bool} {cs : List Char} {t : NumTok}
    (hread : readUnsigned neg cs = some (t, [])) {c : Char} (hc : c ∈ cs) :
    isWordChar c = true := by
  obtain ⟨⟨whole, rest⟩, hwhole, heq⟩ := Option.map_eq_some_iff.mp hread
  have hnil : (readExp (readFrac rest).2).2 = [] := (Prod.mk.inj heq).2
  rcases mem_readWhole hwhole hc with hc | hword
  · rcases mem_readFrac hc with hc | hword
    · rcases mem_readExp hc with hc | hword
      · rw [hnil] at hc
        exact (List.not_mem_nil hc).elim
      · exact hword
    · exact hword
  · exact hword

/-- A literal or a number has characters of its own. -/
theorem readScalar_chars {chars : List Char} {v : Json Token}
    (hread : readScalar chars = some (v, [])) :
    chars ≠ [] ∧ ∀ c ∈ chars, isWordChar c = true := by
  unfold readScalar at hread
  split at hread
  all_goals try (cases hread; exact ⟨List.cons_ne_nil _ _, List.all_eq_true.mp (by decide)⟩)
  next =>
    obtain ⟨⟨t, rest⟩, hnumber, heq⟩ := Option.map_eq_some_iff.mp hread
    obtain rfl : rest = [] := (Prod.mk.inj heq).2
    cases chars with
    | nil => cases hnumber
    | cons c cs =>
      refine ⟨List.cons_ne_nil _ _, fun x hx => ?_⟩
      by_cases hminus : c = '-'
      · subst hminus
        rcases List.mem_cons.mp hx with rfl | hx
        · decide
        · exact mem_readUnsigned hnumber hx
      · rw [readNumber] at hnumber
        · exact mem_readUnsigned hnumber hx
        · exact fun _ hcs => hminus (List.cons.inj hcs).1

/-- A literal or a number is no object. -/
theorem readScalar_ne_obj {chars rest : List Char} {v : Json Token}
    (hread : readScalar chars = some (v, rest)) (kvs : List (String × Json Token)) :
    v ≠ .obj kvs := by
  rintro rfl
  unfold readScalar at hread
  split at hread
  all_goals try cases hread
  obtain ⟨_, -, heq⟩ := Option.map_eq_some_iff.mp hread
  cases heq

/-- What a character of a literal or of a number is not. -/
theorem isWordChar_ne {c : Char} (h : isWordChar c = true) {d : Char} (hd : isWordChar d = false) :
    c ≠ d := by
  rintro rfl
  rw [h] at hd
  exact Bool.noConfusion hd

end Memplex.Lib.Jsonc
