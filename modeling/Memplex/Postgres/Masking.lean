import Mathlib.Data.List.TakeWhile
import Memplex.Postgres.Lexing

/-!
# Masked SQL

`maskedSql` goes over an SQL text and blanks what is hidden in it, so that a semicolon or a word
that is still there stands outside of all quotes and comments. `maskedSql_lexed` says that on the
lexing of a text it blanks what the tokens hide and nothing else, where the text is `CleanFrom`: the
tags of dollar quotes are ASCII, no dollar quote adjoins a character that goes on with an
identifier, and no quote is escaped by a backslash where the code does not know that it reads an
escape string, which is after a line break and after such a character.
-/

namespace Memplex

/-! ## The code -/

/-- What the checks of migrations raise. -/
structure MigrationIntegrityError where
  message : String
deriving DecidableEq

/-- `_is_unquoted_identifier_continuation`, of the character at a place if there is one. -/
def isUnquotedIdentifierContinuation : Option Char → Bool
  | none => false
  | some c => 128 ≤ c.toNat || c.isAlphanum || c = '_' || c = '$'

/-- `escape_string`, of the characters before a quote, the nearest first. -/
def escapeString : List Char → Bool
  | [] => false
  | c :: seen => (c = 'E' || c = 'e') && !isUnquotedIdentifierContinuation seen.head?

/-- What a block comment takes of a text at a depth, and the rest. -/
def commentEnd : ℕ → List Char → Option (List Char × List Char)
  | 0, cs => some ([], cs)
  | _ + 1, [] => none
  | depth + 1, '/' :: '*' :: cs =>
    (commentEnd (depth + 2) cs).map fun p => ('/' :: '*' :: p.1, p.2)
  | depth + 1, '*' :: '/' :: cs => (commentEnd depth cs).map fun p => ('*' :: '/' :: p.1, p.2)
  | depth + 1, c :: cs => (commentEnd (depth + 1) cs).map fun p => (c :: p.1, p.2)

/-- What a quoted text takes after its first quote, and the rest. -/
def quotedEnd (escape : Bool) (quote : Char) : List Char → Option (List Char × List Char)
  | [] => none
  | [c] => if escape && c = '\\' then none else if c = quote then some ([c], []) else none
  | c :: d :: cs =>
    if escape && c = '\\' then
      (quotedEnd escape quote cs).map fun p => (c :: d :: p.1, p.2)
    else if c = quote then
      if d = quote then (quotedEnd escape quote cs).map fun p => (c :: d :: p.1, p.2)
      else some ([c], d :: cs)
    else (quotedEnd escape quote (d :: cs)).map fun p => (c :: p.1, p.2)

/-- `[A-Za-z_]`. -/
def wordStart (c : Char) : Bool := c.isAlpha || c = '_'

/-- `[A-Za-z0-9_]`. -/
def wordPart (c : Char) : Bool := wordStart c || c.isDigit

/-- `re.match(r"\$[A-Za-z_][A-Za-z0-9_]*\$|\$\$", text)`, of the text after its dollar sign: the tag
of the delimiter. -/
def matchTag (cs : List Char) : Option (List Char) :=
  if (cs.dropWhile wordPart).head? = some '$' && (cs.takeWhile wordPart).head?.all wordStart then
    some (cs.takeWhile wordPart)
  else none

/-- What stands before the first delimiter in a text and after it. -/
def splitAtFirst (delimiter : List Char) : List Char → Option (List Char × List Char)
  | [] => if delimiter = [] then some ([], []) else none
  | c :: cs =>
    if delimiter.isPrefixOf (c :: cs) then some ([], (c :: cs).drop delimiter.length)
    else (splitAtFirst delimiter cs).map fun p => (c :: p.1, p.2)

/-- What one turn of the loop takes of the text. -/
structure Chunk where
  text : List Char
  /-- `mask(start, end)` is called for it. -/
  hidden : Bool
  rest : List Char
deriving DecidableEq

/-- What is written in the place of a chunk. -/
def Chunk.shown (chunk : Chunk) : List Char :=
  if chunk.hidden then blank chunk.text else chunk.text

/-- One character that is not hidden. -/
def plainChunk (c : Char) (cs : List Char) : Chunk := ⟨[c], false, cs⟩

/-- A turn of the loop, at a quote. -/
def maskQuoted (seen : List Char) (quote : Char) (cs : List Char) :
    Except MigrationIntegrityError Chunk :=
  let escape := quote = '\'' && escapeString seen
  match quotedEnd escape quote cs with
  | none =>
    .error ⟨"unterminated " ++ (if escape then "escape string" else "quoted SQL literal") ++
      " in migration SQL"⟩
  | some (body, rest) => .ok ⟨quote :: body, true, rest⟩

/-- A turn of the loop, at a dollar sign. -/
def maskDollar (seen : List Char) (cs : List Char) : Except MigrationIntegrityError Chunk :=
  if isUnquotedIdentifierContinuation seen.head? then .ok (plainChunk '$' cs)
  else
    match matchTag cs with
    | none => .ok (plainChunk '$' cs)
    | some tag =>
      match splitAtFirst (delimiterOf tag) (cs.drop (tag.length + 1)) with
      | none => .error ⟨"unterminated dollar-quoted string in migration SQL"⟩
      | some (body, rest) => .ok ⟨delimiterOf tag ++ (body ++ delimiterOf tag), true, rest⟩

/-- A turn of the loop: the characters before this place, the nearest first, and the text from it
on. -/
def maskStep (seen : List Char) : List Char → Except MigrationIntegrityError Chunk
  | [] => .ok ⟨[], false, []⟩
  | c :: cs =>
    if c = '-' && cs.head? = some '-' then
      .ok ⟨(c :: cs).takeWhile (!isNewline ·), true, (c :: cs).dropWhile (!isNewline ·)⟩
    else if c = '/' && cs.head? = some '*' then
      match commentEnd 1 cs.tail with
      | none => .error ⟨"unterminated block comment in migration SQL"⟩
      | some (body, rest) => .ok ⟨'/' :: '*' :: body, true, rest⟩
    else if c = '\'' || c = '"' then maskQuoted seen c cs
    else if c = '$' then maskDollar seen cs
    else .ok (plainChunk c cs)

/-- The loop, with as many turns as there are characters. -/
def maskFrom : ℕ → List Char → List Char → Except MigrationIntegrityError (List Char)
  | _, _, [] => .ok []
  | 0, _, _ :: _ => .ok []
  | fuel + 1, seen, c :: cs =>
    match maskStep seen (c :: cs) with
    | .error e => .error e
    | .ok chunk =>
      match maskFrom fuel (chunk.text.reverse ++ seen) chunk.rest with
      | .error e => .error e
      | .ok shown => .ok (chunk.shown ++ shown)

/-- `_masked_sql`. -/
def maskedSql (sql : List Char) : Except MigrationIntegrityError (List Char) :=
  maskFrom sql.length [] sql

/-! ## Where the code reads a text as PostgreSQL does -/

namespace SqlToken

/-- The code reads a token as PostgreSQL does, after this character. -/
def Clean (prev : Option Char) : SqlToken → Prop
  | dollar tag _ => (∀ c ∈ prev, identCont c = false) ∧ ∀ c ∈ tag, c.toNat < 128
  | escape _ body => (∀ c ∈ prev, identCont c = false) ∨ Doubled '\'' body
  | continued body => Doubled '\'' body
  | _ => True

end SqlToken

/-- The code reads all tokens as PostgreSQL does, the first of them after this character. -/
def CleanFrom : Option Char → List SqlToken → Prop
  | _, [] => True
  | prev, t :: ts => t.Clean prev ∧ CleanFrom t.text.getLast? ts

/-! ## What the functions find -/

/-- The two names for the characters of an identifier are one. -/
theorem isUnquotedIdentifierContinuation_some (c : Char) :
    isUnquotedIdentifierContinuation (some c) = identCont c := by
  simp only [isUnquotedIdentifierContinuation, identCont, tagCont, identStart, Char.isAlphanum,
    Bool.or_assoc]
  grind

theorem isUnquotedIdentifierContinuation_eq_false {prev : Option Char}
    (h : ∀ c ∈ prev, identCont c = false) : isUnquotedIdentifierContinuation prev = false := by
  cases prev with
  | none => rfl
  | some c => rw [isUnquotedIdentifierContinuation_some, h c rfl]

/-- A block comment ends where its depth says. -/
theorem commentEnd_of_inComment {depth : ℕ} {body : List Char} (h : InComment depth body)
    (rest : List Char) : commentEnd depth (body ++ rest) = some (body, rest) := by
  induction h with
  | close => simp [commentEnd]
  | closeInner _ ih => simp [commentEnd, ih]
  | «open» _ ih => simp [commentEnd, ih]
  | @char depth c cs hopen hclose h ih =>
    -- The body goes on, as the comment is not closed yet.
    obtain ⟨d, ds, rfl⟩ : ∃ d ds, cs = d :: ds := by cases h <;> exact ⟨_, _, rfl⟩
    rw [List.cons_append, List.cons_append, commentEnd, ← List.cons_append, ih]
    · rfl
    · intro cs' hc heq
      exact hopen hc (by rw [List.head?_cons, (List.cons.inj heq).1])
    · intro cs' hc heq
      exact hclose hc (by rw [List.head?_cons, (List.cons.inj heq).1])

/-- A text with doubled quotes ends at the first quote that is not doubled. -/
theorem quotedEnd_of_doubled {quote : Char} {body rest : List Char} (h : Doubled quote body)
    (hrest : rest.head? ≠ some quote) :
    quotedEnd false quote (body ++ (quote :: rest)) = some (body ++ [quote], rest) := by
  induction h with
  | nil =>
    cases rest with
    | nil => simp [quotedEnd]
    | cons d rest =>
      have hd : d ≠ quote := fun hd => hrest (by rw [hd, List.head?_cons])
      simp [quotedEnd, hd]
  | @char c cs hc h ih =>
    obtain ⟨d, ds, hds⟩ : ∃ d ds, cs ++ quote :: rest = d :: ds := by
      cases cs <;> exact ⟨_, _, rfl⟩
    rw [List.cons_append, hds, quotedEnd, ← hds, ih]
    simp [hc]
  | pair h ih => simp [quotedEnd, ih]

/-- An escape string ends at the first quote that is neither doubled nor escaped. -/
theorem quotedEnd_of_escapeBody {body rest : List Char} (h : EscapeBody body)
    (hrest : rest.head? ≠ some '\'') :
    quotedEnd true '\'' (body ++ ('\'' :: rest)) = some (body ++ ['\''], rest) := by
  induction h with
  | nil =>
    cases rest with
    | nil => simp [quotedEnd]
    | cons d rest =>
      have hd : d ≠ '\'' := fun hd => hrest (by rw [hd, List.head?_cons])
      simp [quotedEnd, hd]
  | @char c cs hquote hslash h ih =>
    obtain ⟨d, ds, hds⟩ : ∃ d ds, cs ++ '\'' :: rest = d :: ds := by
      cases cs <;> exact ⟨_, _, rfl⟩
    rw [List.cons_append, hds, quotedEnd, ← hds, ih]
    simp [hquote, hslash]
  | pair h ih => simp [quotedEnd, ih]
  | escaped h ih => simp [quotedEnd, ih]

/-- The first delimiter is found where the text before it ends. -/
theorem splitAtFirst_of_endsAtFirst {delimiter body : List Char} (rest : List Char)
    (hd : delimiter ≠ []) (h : EndsAtFirst delimiter body) :
    splitAtFirst delimiter (body ++ (delimiter ++ rest)) = some (body, rest) := by
  induction body with
  | nil =>
    obtain ⟨c, cs, rfl⟩ := List.exists_cons_of_ne_nil hd
    have hpre : (c :: cs).isPrefixOf (c :: (cs ++ rest)) = true := by
      rw [List.isPrefixOf_iff_prefix]
      exact ⟨rest, rfl⟩
    rw [List.nil_append, List.cons_append, splitAtFirst, if_pos hpre, ← List.cons_append,
      List.drop_left]
  | cons c body ih =>
    have hpre : ¬ delimiter.isPrefixOf (c :: (body ++ (delimiter ++ rest))) = true := by
      -- Otherwise the delimiter would stand in the text at its beginning.
      rw [List.isPrefixOf_iff_prefix]
      intro hp
      have hp' : delimiter <+: c :: body ++ delimiter := by
        refine List.prefix_of_prefix_length_le hp ⟨rest, ?_⟩ (by simp; omega)
        simp
      obtain ⟨post, hpost⟩ := hp'
      exact List.cons_ne_nil c body (h [] post hpost.symm).symm
    have htail : EndsAtFirst delimiter body := by
      intro pre post heq
      have := h (c :: pre) post (by rw [List.cons_append, heq, List.cons_append])
      exact (List.cons.inj this).2
    rw [List.cons_append, splitAtFirst, if_neg hpre, ih htail]
    rfl

/-- An ASCII character of a tag is one of the expression. -/
theorem wordPart_of_tagCont {c : Char} (h : tagCont c = true) (hc : c.toNat < 128) :
    wordPart c = true := by
  simp only [tagCont, identStart, Bool.or_eq_true, decide_eq_true_eq] at h
  simp only [wordPart, wordStart, Bool.or_eq_true, decide_eq_true_eq]
  rcases h with ((h | h) | h) | h
  · exact .inl (.inl h)
  · exact .inl (.inr h)
  · omega
  · exact .inr h

theorem wordStart_of_identStart {c : Char} (h : identStart c = true) (hc : c.toNat < 128) :
    wordStart c = true := by
  simp only [identStart, Bool.or_eq_true, decide_eq_true_eq] at h
  simp only [wordStart, Bool.or_eq_true, decide_eq_true_eq]
  rcases h with (h | h) | h
  · exact .inl h
  · exact .inr h
  · omega

theorem identStart_of_wordStart {c : Char} (h : wordStart c = true) : identStart c = true := by
  simp only [identStart, wordStart, Bool.or_eq_true] at h ⊢
  exact .inl h

theorem tagCont_of_wordPart {c : Char} (h : wordPart c = true) : tagCont c = true := by
  simp only [tagCont, wordPart, Bool.or_eq_true] at h ⊢
  exact h.imp_left identStart_of_wordStart

theorem identCont_of_tagCont {c : Char} (h : tagCont c = true) : identCont c = true := by
  rw [identCont, h, Bool.true_or]

/-- An ASCII tag is found. -/
theorem matchTag_of_isTag {tag : List Char} (rest : List Char) (h : IsTag tag)
    (hascii : ∀ c ∈ tag, c.toNat < 128) : matchTag (tag ++ '$' :: rest) = some tag := by
  have hall : ∀ c ∈ tag, wordPart c = true :=
    fun c hc => wordPart_of_tagCont (h.2 c hc) (hascii c hc)
  have htake : (tag ++ '$' :: rest).takeWhile wordPart = tag := by
    rw [List.takeWhile_append_of_pos hall, List.takeWhile_cons_of_neg (by decide), List.append_nil]
  have hdrop : (tag ++ '$' :: rest).dropWhile wordPart = '$' :: rest := by
    rw [List.dropWhile_append_of_pos hall, List.dropWhile_cons_of_neg (by decide)]
  have hhead : tag.head?.all wordStart = true := by
    rw [Option.all_eq_true]
    intro c hc
    exact wordStart_of_identStart (h.1 c hc) (hascii c (List.mem_of_mem_head? hc))
  rw [matchTag, htake, hdrop, List.head?_cons, hhead]
  rfl

/-- What is found as a tag is one. -/
theorem isTag_of_matchTag {cs tag : List Char} (h : matchTag cs = some tag) :
    IsTag tag ∧ ∃ post, cs = tag ++ '$' :: post := by
  rw [matchTag] at h
  split at h
  · rename_i hcond
    rw [Bool.and_eq_true, decide_eq_true_eq, Option.all_eq_true] at hcond
    cases Option.some.inj h
    refine ⟨⟨fun c hc => identStart_of_wordStart (hcond.2 c hc), fun c hc => ?_⟩, ?_⟩
    · exact tagCont_of_wordPart (List.mem_takeWhile_imp hc)
    · obtain ⟨post, hpost⟩ : ∃ post, cs.dropWhile wordPart = '$' :: post := by
        cases hd : cs.dropWhile wordPart with
        | nil => rw [hd] at hcond; cases hcond.1
        | cons d post =>
          rw [hd, List.head?_cons] at hcond
          exact ⟨post, by rw [Option.some.inj hcond.1]⟩
      exact ⟨post, by rw [← hpost, List.takeWhile_append_dropWhile]⟩
  · cases h

/-! ## Runs of the loop -/

/-- What the loop writes for a text after the characters before it. -/
inductive Masks : List Char → List Char → List Char → Prop where
  | done (seen : List Char) : Masks seen [] []
  | step {seen text shown : List Char} {chunk : Chunk} (h : maskStep seen text = .ok chunk)
      (hlt : chunk.rest.length < text.length)
      (hrest : Masks (chunk.text.reverse ++ seen) chunk.rest shown) :
      Masks seen text (chunk.shown ++ shown)

/-- As many turns as there are characters are enough. -/
theorem maskFrom_of_masks {seen text shown : List Char} (h : Masks seen text shown) :
    ∀ {fuel : ℕ}, text.length ≤ fuel → maskFrom fuel seen text = .ok shown := by
  induction h with
  | done seen => intro fuel _; rw [maskFrom]
  | @step seen text shown chunk h hlt hrest ih =>
    intro fuel hfuel
    cases text with
    | nil => exact absurd hlt (Nat.not_lt_zero _)
    | cons c cs =>
      cases fuel with
      | zero => exact absurd hfuel (Nat.not_succ_le_zero _)
      | succ fuel =>
        have hle : chunk.rest.length ≤ fuel := Nat.le_of_lt_succ (hlt.trans_le hfuel)
        rw [maskFrom, h]
        simp only [ih hle]

/-- A turn that shows one character. -/
theorem Masks.plain {seen cs shown : List Char} {c : Char}
    (h : maskStep seen (c :: cs) = .ok (plainChunk c cs)) (hrest : Masks (c :: seen) cs shown) :
    Masks seen (c :: cs) (c :: shown) :=
  .step h (Nat.lt_succ_self _) hrest

/-- A turn that hides a text. -/
theorem Masks.hide {seen text rest shown : List Char} (hne : text ≠ [])
    (h : maskStep seen (text ++ rest) = .ok ⟨text, true, rest⟩)
    (hrest : Masks (text.reverse ++ seen) rest shown) :
    Masks seen (text ++ rest) (blank text ++ shown) := by
  refine .step h ?_ hrest
  rw [List.length_append]
  exact Nat.lt_add_of_pos_left (List.length_pos_of_ne_nil hne)

/-- A character that opens nothing is shown. -/
theorem maskStep_plain {c : Char} (seen cs : List Char) (hdash : c = '-' → cs.head? ≠ some '-')
    (hslash : c = '/' → cs.head? ≠ some '*') (hquote : c ≠ '\'') (hident : c ≠ '"')
    (hdollar : c = '$' → maskDollar seen cs = .ok (plainChunk '$' cs)) :
    maskStep seen (c :: cs) = .ok (plainChunk c cs) := by
  rw [maskStep, if_neg (by simpa using hdash), if_neg (by simpa using hslash),
    if_neg (by simp [hquote, hident])]
  split
  · rename_i hc
    rw [hdollar hc, hc]
  · rfl

/-- After a character of an identifier a dollar sign opens nothing. -/
theorem maskDollar_of_identCont {c : Char} (seen cs : List Char) (h : identCont c = true) :
    maskDollar (c :: seen) cs = .ok (plainChunk '$' cs) := by
  rw [maskDollar, List.head?_cons, isUnquotedIdentifierContinuation_some, if_pos h]

/-- The characters that go on with an identifier are shown after one of them. -/
theorem Masks.identChars {cs rest shown : List Char} (hcs : ∀ d ∈ cs, identCont d = true) :
    ∀ {c : Char} {seen : List Char}, identCont c = true →
      Masks (cs.reverse ++ c :: seen) rest shown →
        Masks (c :: seen) (cs ++ rest) (cs ++ shown) := by
  induction cs with
  | nil => intro c seen _ h; exact h
  | cons d cs ih =>
    intro c seen hc h
    have hd : identCont d = true := hcs d List.mem_cons_self
    have hne : ∀ e : Char, identCont e = false → d ≠ e := fun e he hde => by
      rw [hde, he] at hd; exact Bool.noConfusion hd
    have hstep : maskStep (c :: seen) (d :: (cs ++ rest)) = .ok (plainChunk d (cs ++ rest)) :=
      maskStep_plain _ _ (fun hd' => absurd hd' (hne '-' (by decide)))
        (fun hd' => absurd hd' (hne '/' (by decide))) (hne _ (by decide)) (hne _ (by decide))
        (fun _ => maskDollar_of_identCont _ _ hc)
    refine .plain hstep (ih (fun e he => hcs e (List.mem_cons_of_mem _ he)) hd ?_)
    rwa [List.reverse_cons, List.append_assoc] at h

/-- A letter or a digit is shown. -/
theorem maskStep_tagCont {c : Char} (seen cs : List Char) (h : tagCont c = true) :
    maskStep seen (c :: cs) = .ok (plainChunk c cs) := by
  have hne : ∀ e : Char, tagCont e = false → c ≠ e := fun e he hce => by
    rw [hce, he] at h; exact Bool.noConfusion h
  exact maskStep_plain _ _ (fun hc => absurd hc (hne '-' (by decide)))
    (fun hc => absurd hc (hne '/' (by decide))) (hne _ (by decide)) (hne _ (by decide))
    (fun hc => absurd hc (hne '$' (by decide)))

/-- A word or a number is shown. -/
theorem Masks.word {c : Char} {seen cs rest shown : List Char} (hc : tagCont c = true)
    (hcs : ∀ d ∈ cs, identCont d = true)
    (h : Masks ((c :: cs).reverse ++ seen) rest shown) :
    Masks seen (c :: cs ++ rest) (c :: cs ++ shown) := by
  refine .plain (maskStep_tagCont _ _ hc) (.identChars hcs (identCont_of_tagCont hc) ?_)
  rwa [List.reverse_cons, List.append_assoc] at h

/-- A quoted text is hidden. -/
theorem maskStep_quoted {quote : Char} {seen body rest : List Char}
    (hquote : quote = '\'' ∨ quote = '"')
    (h : quotedEnd (quote = '\'' && escapeString seen) quote (body ++ (quote :: rest)) =
      some (body ++ [quote], rest)) :
    maskStep seen (quote :: (body ++ [quote]) ++ rest) =
      .ok ⟨quote :: (body ++ [quote]), true, rest⟩ := by
  have hdash : ¬ (quote = '-') := by rcases hquote with rfl | rfl <;> decide
  have hslash : ¬ (quote = '/') := by rcases hquote with rfl | rfl <;> decide
  have hbool : (decide (quote = '\'') || decide (quote = '"')) = true := by simpa using hquote
  rw [List.cons_append, List.append_assoc, List.singleton_append, maskStep,
    if_neg (by simp [hdash]), if_neg (by simp [hslash]), if_pos hbool, maskQuoted]
  simp only [h]

/-! ## Tokens -/

/-- A digit begins no tag. -/
theorem matchTag_digit {c : Char} (cs : List Char) (h : c.isDigit = true) :
    matchTag (c :: cs) = none := by
  rw [Option.eq_none_iff_forall_ne_some]
  intro tag htag
  obtain ⟨htag, post, heq⟩ := isTag_of_matchTag htag
  have hstart : identStart c = false := by
    have hlt : c.toNat < 128 := by
      simp only [Char.isDigit, Bool.and_eq_true, decide_eq_true_eq] at h
      exact Nat.lt_of_le_of_lt h.2 (by decide)
    have hne : c ≠ '_' := fun hc => by rw [hc] at h; exact absurd h (by decide)
    have halpha : c.isAlpha = false := by
      delta Char.isAlpha Char.isUpper Char.isLower
      simp only [Char.isDigit, Bool.and_eq_true, decide_eq_true_eq, UInt32.le_iff_toNat_le] at h ⊢
      grind
    simp [identStart, halpha, hne, Nat.not_le.mpr hlt]
  cases tag with
  | nil =>
    rw [(List.cons.inj heq).1] at h
    exact absurd h (by decide)
  | cons d tag =>
    have hd := htag.1 d rfl
    rw [← (List.cons.inj heq).1, hstart] at hd
    exact Bool.noConfusion hd

/-- A comment is not over before its delimiter. -/
theorem getLast?_of_inComment {depth : ℕ} {body : List Char} (h : InComment depth body) :
    body.getLast? = some '/' := by
  induction h with
  | close => rfl
  | closeInner _ ih => simp [List.getLast?_cons, ih]
  | «open» _ ih => simp [List.getLast?_cons, ih]
  | char _ _ _ ih => simp [List.getLast?_cons, ih]

namespace SqlToken

theorem text_ne_nil (t : SqlToken) : t.text ≠ [] := by
  cases t <;> simp [text, delimiterOf]

/-- The loop goes over a token as a whole. -/
theorem masks {t : SqlToken} {seen rest shown : List Char} (hwf : t.WellFormed)
    (hfollows : t.Follows rest) (hclean : t.Clean seen.head?)
    (hseen : escapeString seen = true → t.text.head? ≠ some '\'')
    (h : Masks (t.text.reverse ++ seen) rest shown) :
    Masks seen (t.text ++ rest) (t.blanked ++ shown) := by
  have hplain : t.text.head? = some '\'' → escapeString seen = false := fun hq => by
    cases he : escapeString seen with
    | false => rfl
    | true => exact absurd hq (hseen he)
  cases t with
  | other c =>
    obtain ⟨hquote, hident, -⟩ := hwf
    obtain ⟨hdash, hslash, hdollar⟩ := hfollows
    change Masks seen (c :: rest) (c :: shown)
    refine .plain (maskStep_plain _ _ hdash hslash hquote hident fun hc => ?_) h
    rw [maskDollar]
    split
    · rfl
    · cases htag : matchTag rest with
      | none => rfl
      | some tag =>
        obtain ⟨hisTag, post, heq⟩ := isTag_of_matchTag htag
        exact absurd heq ((hdollar hc).2 tag post hisTag)
  | word c cs =>
    have hc : tagCont c = true := by rw [tagCont, hwf.1, Bool.true_or]
    exact .word hc hwf.2 h
  | number c cs =>
    have hc : tagCont c = true := by rw [tagCont, hwf.1, Bool.or_true]
    exact .word hc (fun d hd => identCont_of_tagCont (hwf.2 d hd)) h
  | param c cs =>
    have hc : tagCont c = true := by rw [tagCont, hwf.1, Bool.or_true]
    have hstep : maskStep seen ('$' :: (c :: cs ++ rest)) =
        .ok (plainChunk '$' (c :: cs ++ rest)) := by
      refine maskStep_plain _ _ (fun h => absurd h (by decide)) (fun h => absurd h (by decide))
        (by decide) (by decide) fun _ => ?_
      rw [maskDollar, List.cons_append, matchTag_digit _ hwf.1]
      split <;> rfl
    refine .plain hstep (.word hc (fun d hd => identCont_of_tagCont (hwf.2 d hd)) ?_)
    rwa [text, List.reverse_cons, List.append_assoc] at h
  | line body =>
    have hall : ∀ c ∈ '-' :: '-' :: body, (!isNewline c) = true := by
      intro c hc
      rcases List.mem_cons.mp hc with rfl | hc
      · decide
      rcases List.mem_cons.mp hc with rfl | hc
      · decide
      rw [hwf c hc, Bool.not_false]
    have hnil : rest.takeWhile (!isNewline ·) = [] := by
      cases rest with
      | nil => rfl
      | cons d rest =>
        exact List.takeWhile_cons_of_neg (by rw [hfollows d rfl]; decide)
    have hall' : rest.dropWhile (!isNewline ·) = rest := by
      have := List.takeWhile_append_dropWhile (p := (!isNewline ·)) (l := rest)
      rwa [hnil, List.nil_append] at this
    refine .hide (text_ne_nil _) ?_ h
    rw [text, List.cons_append, List.cons_append, maskStep, if_pos (by simp),
      ← List.cons_append, ← List.cons_append, List.takeWhile_append_of_pos hall,
      List.dropWhile_append_of_pos hall, hnil, hall', List.append_nil]
  | block body =>
    refine .hide (text_ne_nil _) ?_ h
    rw [text, List.cons_append, List.cons_append, maskStep, if_neg (by simp), if_pos (by simp),
      List.tail_cons, commentEnd_of_inComment hwf]
  | quotedIdent body =>
    refine .hide (text_ne_nil _) (maskStep_quoted (.inr rfl) ?_) h
    exact quotedEnd_of_doubled hwf hfollows
  | string body =>
    refine .hide (text_ne_nil _) (maskStep_quoted (.inl rfl) ?_) h
    rw [hplain rfl]
    exact quotedEnd_of_doubled hwf hfollows
  | escape letter body =>
    obtain ⟨hletter, hbody⟩ := hwf
    have hc : tagCont letter = true := by rcases hletter with rfl | rfl <;> decide
    have hstep : maskStep (letter :: seen) ('\'' :: (body ++ ['\'']) ++ rest) =
        .ok ⟨'\'' :: (body ++ ['\'']), true, rest⟩ := by
      refine maskStep_quoted (.inl rfl) ?_
      cases he : escapeString (letter :: seen) with
      | true => exact quotedEnd_of_escapeBody hbody hfollows
      | false =>
        -- The code reads it as a plain literal, as something adjoins its letter.
        rcases hclean with hprev | hdoubled
        · rw [escapeString, isUnquotedIdentifierContinuation_eq_false hprev] at he
          rcases hletter with rfl | rfl <;> exact Bool.noConfusion he
        · exact quotedEnd_of_doubled hdoubled hfollows
    refine .plain (maskStep_tagCont _ _ hc) (.hide (List.cons_ne_nil _ _) hstep ?_)
    rwa [text, List.reverse_cons, List.append_assoc] at h
  | continued body =>
    refine .hide (text_ne_nil _) (maskStep_quoted (.inl rfl) ?_) h
    rw [hplain rfl]
    exact quotedEnd_of_doubled hclean hfollows
  | dollar tag body =>
    obtain ⟨hprev, hascii⟩ := hclean
    refine .hide (text_ne_nil _) ?_ h
    have hdrop : (tag ++ '$' :: (body ++ (delimiterOf tag ++ rest))).drop (tag.length + 1) =
        body ++ (delimiterOf tag ++ rest) := by
      rw [← List.drop_drop, List.drop_left, List.drop_one, List.tail_cons]
    have hsplit : splitAtFirst (delimiterOf tag) (body ++ (delimiterOf tag ++ rest)) =
        some (body, rest) := splitAtFirst_of_endsAtFirst rest (List.cons_ne_nil _ _) hwf.2
    have htext : (dollar tag body).text ++ rest =
        '$' :: (tag ++ '$' :: (body ++ (delimiterOf tag ++ rest))) := by
      simp [text, delimiterOf]
    rw [htext, maskStep, if_neg (by simp), if_neg (by simp), if_neg (by simp), if_pos rfl,
      maskDollar, isUnquotedIdentifierContinuation_eq_false hprev, if_neg Bool.false_ne_true,
      matchTag_of_isTag _ hwf.1 hascii]
    simp only [hdrop, hsplit]
    rfl

/-- After a token the code takes a quote for an escape string only where no quote is. -/
theorem escapeString_after {t : SqlToken} {seen rest : List Char} (hwf : t.WellFormed)
    (hfollows : t.Follows rest) (h : escapeString (t.text.reverse ++ seen) = true) :
    rest.head? ≠ some '\'' := by
  -- A text of two or more characters that go on with an identifier looks like no such prefix.
  have hlong : ∀ {c d : Char} {cs : List Char}, (∀ e ∈ c :: cs, identCont e = true) →
      t.text = c :: (cs ++ [d]) → False := by
    intro c d cs hcs htext
    obtain ⟨e, es, he⟩ : ∃ e es, (c :: cs).reverse = e :: es :=
      List.exists_cons_of_ne_nil (by simp)
    have hmem : e ∈ c :: cs := by rw [← List.mem_reverse, he]; exact List.mem_cons_self
    rw [htext, ← List.cons_append, List.reverse_append, List.reverse_singleton,
      List.singleton_append, he, List.cons_append, List.cons_append, escapeString,
      List.head?_cons, isUnquotedIdentifierContinuation_some, hcs e hmem, Bool.not_true,
      Bool.and_false] at h
    exact Bool.noConfusion h
  have hlast : ∀ {d : Char}, t.text.getLast? = some d → d = 'E' ∨ d = 'e' := by
    intro d hd
    obtain ⟨init, hinit⟩ := List.getLast?_eq_some_iff.mp hd
    rw [hinit, List.reverse_append, List.reverse_singleton, List.singleton_append,
      List.cons_append, escapeString, Bool.and_eq_true, Bool.or_eq_true, decide_eq_true_eq,
      decide_eq_true_eq] at h
    exact h.1
  have hnot : ∀ {d : Char}, t.text.getLast? = some d → d ≠ 'E' → d ≠ 'e' →
      rest.head? ≠ some '\'' := fun hd hE he => absurd (hlast hd) (by simp [hE, he])
  -- A text of letters and digits is one digit, or is too long.
  have hnumber : ∀ {c : Char} {cs : List Char}, c.isDigit = true → (∀ d ∈ cs, tagCont d = true) →
      t.text = c :: cs → False := by
    intro c cs hc hcs htext
    rcases List.eq_nil_or_concat' cs with rfl | ⟨init, d, rfl⟩
    · rcases hlast (by rw [htext, List.getLast?_singleton]) with rfl | rfl <;>
        exact absurd hc (by decide)
    · refine hlong (fun e he => identCont_of_tagCont ?_) htext
      rcases List.mem_cons.mp he with rfl | he
      · rw [tagCont, hc, Bool.or_true]
      · exact hcs e (List.mem_append_left _ he)
  cases t with
  | other c =>
    have hne : ∀ e : Char, tagCont e = true → c ≠ e := fun e he hc => by
      rw [← hc, hwf.2.2] at he; exact Bool.noConfusion he
    exact hnot (List.getLast?_singleton) (hne _ (by decide)) (hne _ (by decide))
  | word c cs =>
    rcases List.eq_nil_or_concat' cs with rfl | ⟨init, d, rfl⟩
    · exact hfollows.2 rfl (hlast rfl).symm
    · refine (hlong (fun e he => ?_) rfl).elim
      rcases List.mem_cons.mp he with rfl | he
      · exact identCont_of_tagCont (by rw [tagCont, hwf.1, Bool.true_or])
      · exact hwf.2 e (List.mem_append_left _ he)
  | number c cs => exact (hnumber hwf.1 hwf.2 rfl).elim
  | param c cs =>
    rcases List.eq_nil_or_concat' cs with rfl | ⟨init, d, rfl⟩
    · rcases hlast rfl with rfl | rfl <;> exact absurd hwf.1 (by decide)
    · refine (@hlong '$' d (c :: init) (fun e he => ?_) rfl).elim
      rcases List.mem_cons.mp he with rfl | he
      · decide
      rcases List.mem_cons.mp he with rfl | he
      · exact identCont_of_tagCont (by rw [tagCont, hwf.1, Bool.or_true])
      · exact identCont_of_tagCont (hwf.2 e (List.mem_append_left _ he))
  | line body =>
    intro hq
    exact absurd (hfollows _ hq) (by decide)
  | block body =>
    refine hnot (d := '/') ?_ (by decide) (by decide)
    simp [text, List.getLast?_cons, getLast?_of_inComment hwf]
  | quotedIdent body =>
    exact hnot (d := '"') (by simp [text, List.getLast?_cons]) (by decide) (by decide)
  | string body => exact hfollows
  | escape letter body => exact hfollows
  | continued body => exact hfollows
  | dollar tag body =>
    exact hnot (d := '$') (by simp [text, delimiterOf, List.getLast?_cons]) (by decide)
      (by decide)

end SqlToken

/-- The loop goes over a lexed text token by token. -/
theorem masks_lexed {s : AfterString} {ts : List SqlToken} (hlex : LexedFrom s ts) :
    ∀ {seen : List Char}, CleanFrom seen.head? ts →
      (escapeString seen = true → (sqlText ts).head? ≠ some '\'') →
        Masks seen (sqlText ts) (blankText ts) := by
  induction ts generalizing s with
  | nil => intro seen _ _; exact .done seen
  | cons t ts ih =>
    intro seen hclean hseen
    obtain ⟨hwf, -, hfollows, hlex⟩ := hlex
    have hhead : (sqlText (t :: ts)).head? = t.text.head? := by
      rw [sqlText, List.flatMap_cons, List.head?_append_of_ne_nil _ t.text_ne_nil]
    have hprev : (t.text.reverse ++ seen).head? = t.text.getLast? := by
      rw [List.head?_append_of_ne_nil _ (by simpa using t.text_ne_nil), List.head?_reverse]
    rw [hhead] at hseen
    exact t.masks hwf hfollows hclean.1 hseen
      (ih hlex (hprev ▸ hclean.2) (t.escapeString_after hwf hfollows))

/-- On a text in which all tokens are read as PostgreSQL reads them, what they hide is blanked and
nothing else. -/
theorem maskedSql_lexed {ts : List SqlToken} (hlex : LexedFrom .no ts)
    (hclean : CleanFrom none ts) : maskedSql (sqlText ts) = .ok (blankText ts) :=
  maskFrom_of_masks (@masks_lexed .no ts hlex [] hclean fun h => Bool.noConfusion h)
    (Nat.le_refl _)

end Memplex
