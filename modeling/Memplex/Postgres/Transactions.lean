import Memplex.Backup.Manifest
import Memplex.Lib.Occurs
import Memplex.Postgres.Masking

/-!
# Transaction control in migrations

A migration runs in a transaction of the runner, so it must not control one itself.
`validateSqlTransactionContract` looks at the first words of each statement in the masked text.
`validate_lexed` compares this with the tokens of PostgreSQL: where the text is masked as PostgreSQL
reads it, and the words of a transaction command stand at the beginning of a statement with nothing
else before or between them (`Bare`), a migration is rejected exactly when one of its statements
starts with such a command.
-/

namespace Memplex

open Lib

/-! ## The code -/

/-- A statement of a masked text. -/
structure SqlStatement where
  text : List Char
  start : ℕ
  /-- The place of its semicolon, or the end of the text. -/
  semicolon : ℕ
deriving DecidableEq

/-- The statement between two places, if there is anything in it. -/
def statementBetween (start semicolon : ℕ) (masked : List Char) : List SqlStatement :=
  if strip masked = [] then [] else [⟨strip masked, start, semicolon⟩]

/-- The loop of `_sql_statements` at a place: what it has seen since the last semicolon, the nearest
first, and what follows. -/
def statementsFrom (start place : ℕ) (seen : List Char) : List Char → List SqlStatement
  | [] => statementBetween start place seen.reverse
  | c :: cs =>
    if c = ';' then
      statementBetween start place seen.reverse ++ statementsFrom (place + 1) (place + 1) [] cs
    else statementsFrom start (place + 1) (c :: seen) cs

/-- `_sql_statements`. -/
def sqlStatements (sql : List Char) : Except MigrationIntegrityError (List SqlStatement) :=
  (maskedSql sql).map (statementsFrom 0 0 [])

/-- `_SQL_WORD.findall`, within a word as far as it is read, the last character first. -/
def wordsFrom (current : List Char) : List Char → List (List Char)
  | [] => if current = [] then [] else [current.reverse]
  | c :: cs =>
    if current = [] then wordsFrom (if wordStart c then [c] else []) cs
    else if wordPart c then wordsFrom (c :: current) cs
    else current.reverse :: wordsFrom [] cs

/-- `_SQL_WORD.findall`. -/
def sqlWords (text : List Char) : List (List Char) := wordsFrom [] text

/-- `word.upper()`. -/
def upper (word : List Char) : List Char := word.map Char.toUpper

/-- The commands of one word. -/
def controlWords : List (List Char) :=
  ["BEGIN".toList, "COMMIT".toList, "END".toList, "ROLLBACK".toList, "ABORT".toList,
    "SAVEPOINT".toList, "RELEASE".toList]

/-- The commands of more words, in the order in which they are looked for. -/
def controlPhrases : List (List (List Char)) :=
  [["START".toList, "TRANSACTION".toList], ["PREPARE".toList, "TRANSACTION".toList],
    ["SET".toList, "TRANSACTION".toList],
    ["SET".toList, "SESSION".toList, "CHARACTERISTICS".toList, "AS".toList, "TRANSACTION".toList]]

/-- The text of a command. -/
def commandText (command : List (List Char)) : String := String.ofList (joined ' ' command)

/-- `_transaction_control_statement`. -/
def transactionControl (statement : List Char) : Option String :=
  let words := (sqlWords statement).map upper
  match words with
  | [] => none
  | first :: _ =>
    if first ∈ controlWords then some (commandText [first])
    else (controlPhrases.find? fun phrase => words.take phrase.length = phrase).map commandText

/-- What the checks look at of a `Migration`. -/
structure Migration where
  version : ℕ
  /-- `sql_bytes.decode("utf-8")`. -/
  sql : List Char
  checksum : String

/-- `_APPROVED_0002_CHECKSUM`. -/
def approved0002Checksum : String :=
  "8e932e605e4eb36f6ec410c5a589001133a2db29ba902ff34227ae0a223e9a16"

/-- `transaction_controls`. -/
def transactionControls (statements : List SqlStatement) : List (ℕ × String) :=
  statements.zipIdx.filterMap fun p => (transactionControl p.1.text).map (p.2, ·)

/-- `_body_for_execution` of migration 0002, without the body that it cuts out. -/
def checkTransactionShell (migration : Migration) : Except MigrationIntegrityError Unit :=
  if migration.checksum ≠ approved0002Checksum then
    .error ⟨"migration 0002 checksum does not match the approved immutable bytes"⟩
  else
    match sqlStatements migration.sql with
    | .error e => .error e
    | .ok statements =>
      if statements.length < 2 ∨
          (statements.head?.map fun s => upper s.text) ≠ some "BEGIN".toList ∨
          (statements.getLast?.map fun s => upper s.text) ≠ some "COMMIT".toList ∨
          transactionControls statements ≠
            [(0, "BEGIN"), (statements.length - 1, "COMMIT")] then
        .error ⟨"migration 0002 must contain exactly one outer BEGIN; ... COMMIT; " ++
          "transaction shell"⟩
      else .ok ()

/-- `_validate_sql_transaction_contract`. -/
def validateSqlTransactionContract (migration : Migration) : Except MigrationIntegrityError Unit :=
  if migration.version = 2 then checkTransactionShell migration
  else
    match sqlStatements migration.sql with
    | .error e => .error e
    | .ok statements =>
      if statements.any fun s => (transactionControl s.text).isSome then
        .error ⟨"transaction control is not permitted in migration " ++
          String.ofList (List.leftpad 4 '0' (Nat.toDigits 10 migration.version))⟩
      else .ok ()

/-! ## What PostgreSQL reads -/

/-- The commands that control a transaction. -/
def transactionCommands : List (List (List Char)) := controlWords.map ([·]) ++ controlPhrases

namespace SqlToken

/-- White space and comments. -/
def isTrivia : SqlToken → Bool
  | other c => isNewline c || isHorizSpace c
  | line _ => true
  | block _ => true
  | _ => false

/-- A word of ASCII letters, digits and underscores. -/
def PlainWord : SqlToken → Prop
  | word c cs => wordStart c = true ∧ ∀ d ∈ cs, wordPart d = true
  | _ => False

end SqlToken

/-- The tokens that PostgreSQL parses. -/
def significant (ts : List SqlToken) : List SqlToken := ts.filter (!·.isTrivia)

/-- The words before the first other token. -/
def leadingWords : List SqlToken → List (List Char)
  | .word c cs :: ts => upper (c :: cs) :: leadingWords ts
  | _ => []

/-- A statement starts with a transaction command. -/
def StartsTransactionControl (ts : List SqlToken) : Prop :=
  ∃ command ∈ transactionCommands, command <+: leadingWords (significant ts)

/-- Where the words that can be seen in a statement begin with a transaction command, nothing but
these words stands there: no punctuation, quoted name, number or non-ASCII letter is before or
between them. -/
def Bare (ts : List SqlToken) : Prop :=
  ∀ command ∈ transactionCommands, command <+: (sqlWords (blankText ts)).map upper →
    ∀ t ∈ (significant ts).take command.length, t.PlainWord

/-! ## Words -/

theorem wordPart_of_wordStart {c : Char} (h : wordStart c = true) : wordPart c = true := by
  rw [wordPart, h, Bool.true_or]

theorem wordStart_eq_false {c : Char} (h : wordPart c = false) : wordStart c = false := by
  rw [wordPart, Bool.or_eq_false_iff] at h
  exact h.1

/-- A character outside of words is passed over. -/
theorem sqlWords_cons {c : Char} (cs : List Char) (h : wordStart c = false) :
    sqlWords (c :: cs) = sqlWords cs := by
  rw [sqlWords, wordsFrom, if_pos rfl, h, if_neg Bool.false_ne_true, sqlWords]

/-- No word goes over into a text that does not begin with a character of a word. -/
theorem wordsFrom_append {ys : List Char} (hys : ∀ d ∈ ys.head?, wordPart d = false)
    (xs : List Char) : ∀ current : List Char,
      wordsFrom current (xs ++ ys) = wordsFrom current xs ++ sqlWords ys := by
  induction xs with
  | nil =>
    intro current
    rw [List.nil_append, wordsFrom]
    split
    · rename_i hcurrent
      rw [hcurrent, List.nil_append, sqlWords]
    · rename_i hcurrent
      cases ys with
      | nil => rw [wordsFrom, if_neg hcurrent, sqlWords, wordsFrom, if_pos rfl, List.append_nil]
      | cons d ys =>
        have hd : wordPart d = false := hys d rfl
        rw [wordsFrom, if_neg hcurrent, hd, if_neg Bool.false_ne_true,
          sqlWords_cons ys (wordStart_eq_false hd), List.singleton_append, sqlWords]
  | cons c xs ih =>
    intro current
    rw [List.cons_append, wordsFrom, wordsFrom]
    split
    · rw [ih]
    · split
      · rw [ih]
      · rw [ih, List.cons_append]

/-- No word goes on after a text that does not end with a character of a word. -/
theorem sqlWords_append_of_last {xs : List Char} (hxs : ∀ d ∈ xs.getLast?, wordPart d = false)
    (ys : List Char) : sqlWords (xs ++ ys) = sqlWords xs ++ sqlWords ys := by
  rcases List.eq_nil_or_concat' xs with rfl | ⟨init, d, rfl⟩
  · rfl
  · have hd : wordPart d = false := hxs d (by rw [List.getLast?_append]; rfl)
    have hhead : ∀ zs : List Char, ∀ e ∈ (d :: zs).head?, wordPart e = false := by
      intro zs e he
      rwa [← Option.some.inj he]
    have hinit : sqlWords (init ++ [d]) = sqlWords init := by
      rw [sqlWords, wordsFrom_append (hhead []), sqlWords_cons _ (wordStart_eq_false hd), sqlWords,
        sqlWords, wordsFrom, if_pos rfl, List.append_nil]
    rw [hinit, List.append_assoc, List.singleton_append, sqlWords, wordsFrom_append (hhead ys),
      sqlWords_cons _ (wordStart_eq_false hd)]
    rfl

/-- A text without characters of words has no words. -/
theorem sqlWords_eq_nil {xs : List Char} (h : ∀ c ∈ xs, wordPart c = false) : sqlWords xs = [] := by
  induction xs with
  | nil => rfl
  | cons c xs ih =>
    rw [sqlWords_cons xs (wordStart_eq_false (h c List.mem_cons_self))]
    exact ih fun d hd => h d (List.mem_cons_of_mem _ hd)

/-- A text of such characters is one word. -/
theorem wordsFrom_word {cs : List Char} (hcs : ∀ d ∈ cs, wordPart d = true) :
    ∀ {current : List Char}, current ≠ [] →
      wordsFrom current cs = [current.reverse ++ cs] := by
  induction cs with
  | nil => intro current h; rw [wordsFrom, if_neg h, List.append_nil]
  | cons c cs ih =>
    intro current h
    rw [wordsFrom, if_neg h, if_pos (hcs c List.mem_cons_self),
      ih (fun d hd => hcs d (List.mem_cons_of_mem _ hd)) (List.cons_ne_nil _ _),
      List.reverse_cons, List.append_assoc, List.singleton_append]

theorem sqlWords_word {c : Char} {cs : List Char} (hc : wordStart c = true)
    (hcs : ∀ d ∈ cs, wordPart d = true) : sqlWords (c :: cs) = [c :: cs] := by
  rw [sqlWords, wordsFrom, if_pos rfl, if_pos hc, wordsFrom_word hcs (List.cons_ne_nil _ _)]
  rfl

/-- A space is no part of a word. -/
theorem wordPart_isSpace {c : Char} (h : isSpace c = true) : wordPart c = false := by
  have hspace : c.toNat ≤ 32 ∨ 128 ≤ c.toNat := by
    simp only [isSpace, Bool.or_eq_true, Bool.and_eq_true, decide_eq_true_eq] at h
    have hle : ∀ {a b : Char}, a ≤ b → a.toNat ≤ b.toNat := fun hab => hab
    rcases h with (((((((((h | h) | rfl) | rfl) | rfl) | h) | rfl) | rfl) | rfl) | rfl) | rfl
    · exact .inl ((hle h.2).trans (by decide))
    · exact .inl (hle h.2)
    · exact .inr (by decide)
    · exact .inr (by decide)
    · exact .inr (by decide)
    · exact .inr (le_trans (by decide) (hle h.1))
    all_goals exact .inr (by decide)
  rw [Bool.eq_false_iff]
  intro hword
  have hrange : 48 ≤ c.toNat ∧ c.toNat ≤ 122 := by
    delta wordPart wordStart Char.isAlpha Char.isUpper Char.isLower at hword
    simp only [Char.isDigit, Bool.or_eq_true, Bool.and_eq_true, decide_eq_true_eq, ge_iff_le,
      UInt32.le_iff_toNat_le] at hword
    rcases hword with (((h | h) | rfl) | h)
    · exact ⟨le_trans (by decide) h.1, h.2.trans (by decide)⟩
    · exact ⟨le_trans (by decide) h.1, h.2⟩
    · decide
    · exact ⟨h.1, h.2.trans (by decide)⟩
  omega

/-- `strip` takes no word off. -/
theorem sqlWords_strip (cs : List Char) : sqlWords (strip cs) = sqlWords cs := by
  have hdrop : ∀ xs : List Char, sqlWords (xs.dropWhile isSpace) = sqlWords xs := by
    intro xs
    induction xs with
    | nil => rfl
    | cons c xs ih =>
      cases hc : isSpace c with
      | false => rw [List.dropWhile_cons_of_neg (by rw [hc]; exact Bool.false_ne_true)]
      | true =>
        rw [List.dropWhile_cons_of_pos hc, ih,
          sqlWords_cons xs (wordStart_eq_false (wordPart_isSpace hc))]
  rw [strip, ← hdrop cs]
  generalize cs.dropWhile isSpace = xs
  -- What is taken off at the end consists of spaces.
  have hspaces : ∀ c ∈ xs.rtakeWhile isSpace, wordPart c = false :=
    fun c hc => wordPart_isSpace (List.mem_rtakeWhile_imp hc)
  have hsplit : xs.rdropWhile isSpace ++ xs.rtakeWhile isSpace = xs := by
    rw [List.rdropWhile, List.rtakeWhile, ← List.reverse_append, List.takeWhile_append_dropWhile,
      List.reverse_reverse]
  calc sqlWords (xs.rdropWhile isSpace)
      = sqlWords (xs.rdropWhile isSpace) ++ sqlWords (xs.rtakeWhile isSpace) := by
        rw [sqlWords_eq_nil hspaces, List.append_nil]
    _ = sqlWords (xs.rdropWhile isSpace ++ xs.rtakeWhile isSpace) :=
        (wordsFrom_append (fun c hc => hspaces c (List.mem_of_mem_head? hc)) _ _).symm
    _ = sqlWords xs := by rw [hsplit]

/-- A command is found where the words begin with one. -/
theorem transactionControl_isSome {statement : List Char} :
    (transactionControl statement).isSome = true ↔
      ∃ command ∈ transactionCommands, command <+: (sqlWords statement).map upper := by
  rw [transactionControl]
  generalize (sqlWords statement).map upper = words
  cases words with
  | nil =>
    constructor
    · exact fun h => Bool.noConfusion h
    · rintro ⟨command, hmem, hcommand⟩
      rw [List.prefix_nil.mp hcommand] at hmem
      exact absurd hmem (by decide)
  | cons first words =>
    have hone : first ∈ controlWords ↔
        ∃ command ∈ controlWords.map ([·]), command <+: first :: words := by
      constructor
      · exact fun h => ⟨[first], List.mem_map_of_mem h, ⟨words, rfl⟩⟩
      · rintro ⟨command, hmem, hcommand⟩
        obtain ⟨word, hword, rfl⟩ := List.mem_map.mp hmem
        rwa [← (List.cons_prefix_cons.mp hcommand).1]
    have hmore : (controlPhrases.find? fun phrase =>
        (first :: words).take phrase.length = phrase).isSome = true ↔
          ∃ command ∈ controlPhrases, command <+: first :: words := by
      rw [List.find?_isSome]
      exact exists_congr fun phrase => and_congr_right fun _ => by
        rw [decide_eq_true_eq, List.prefix_iff_eq_take, eq_comm]
    have hsplit : (∃ command ∈ transactionCommands, command <+: first :: words) ↔
        first ∈ controlWords ∨ ∃ command ∈ controlPhrases, command <+: first :: words := by
      rw [hone, transactionCommands]
      simp only [List.mem_append, or_and_right, exists_or]
    rw [hsplit, ← hmore]
    simp only
    split
    · rename_i h
      simp [h]
    · rename_i h
      simp [h]

theorem transactionControl_strip (statement : List Char) :
    transactionControl (strip statement) = transactionControl statement := by
  rw [transactionControl, transactionControl, sqlWords_strip]

/-! ## Statements -/

/-- A text that is a command when it is not empty is one of the statements. -/
theorem exists_mem_statementBetween {start semicolon : ℕ} {masked : List Char} :
    (∃ s ∈ statementBetween start semicolon masked, (transactionControl s.text).isSome = true) ↔
      (transactionControl masked).isSome = true := by
  rw [statementBetween, ← transactionControl_strip masked]
  split
  · rename_i h
    rw [h]
    exact ⟨fun ⟨_, hs, _⟩ => absurd hs List.not_mem_nil, fun h => Bool.noConfusion h⟩
  · simp only [List.mem_singleton, exists_eq_left]

/-- The statements with a command are the parts between semicolons with one. -/
theorem exists_mem_statementsFrom (cs : List Char) : ∀ {start place : ℕ} {seen : List Char},
    (∃ s ∈ statementsFrom start place seen cs, (transactionControl s.text).isSome = true) ↔
      ∃ part ∈ cs.splitOnPPrepend (· = ';') seen, (transactionControl part).isSome = true := by
  induction cs with
  | nil =>
    intro start place seen
    rw [statementsFrom, exists_mem_statementBetween, List.splitOnPPrepend_nil]
    simp only [List.mem_singleton, exists_eq_left]
  | cons c cs ih =>
    intro start place seen
    rw [statementsFrom, List.splitOnPPrepend_cons_eq_if]
    by_cases hc : c = ';'
    · rw [if_pos hc, if_pos (decide_eq_true hc), ← List.splitOnPPrepend_nil_right]
      simp only [List.mem_append, or_and_right, exists_or, exists_mem_statementBetween, ih,
        List.mem_cons, exists_eq_left]
    · rw [if_neg hc, if_neg (by simpa using hc), ih]

/-- A text without semicolons goes before the first part. -/
theorem splitOnP_append {xs : List Char} (h : ';' ∉ xs) (ys : List Char) :
    (xs ++ ys).splitOnP (· = ';') = (ys.splitOnP (· = ';')).modifyHead (xs ++ ·) := by
  induction xs with
  | nil => exact (congrFun List.modifyHead_id _).symm
  | cons c xs ih =>
    have hc : ¬ decide (c = ';') = true := by
      simpa using fun hc : c = ';' => h (hc ▸ List.mem_cons_self)
    rw [List.cons_append, List.splitOnP_cons_eq_if_modifyHead, if_neg hc,
      ih fun h' => h (List.mem_cons_of_mem _ h'), List.modifyHead_modifyHead]
    rfl

namespace SqlToken

/-- A blanked text has no character of a word and no semicolon. -/
theorem blankChar_cases (c : Char) : blankChar c = '\n' ∨ blankChar c = ' ' := by
  rw [blankChar]
  split
  · exact .inl rfl
  · exact .inr rfl

theorem wordPart_blank {cs : List Char} {c : Char} (h : c ∈ blank cs) : wordPart c = false := by
  obtain ⟨d, -, rfl⟩ := List.mem_map.mp h
  rcases blankChar_cases d with h | h <;> rw [h] <;> decide

theorem semicolon_notMem_blank (cs : List Char) : ';' ∉ blank cs := by
  intro h
  obtain ⟨d, -, hd⟩ := List.mem_map.mp h
  rcases blankChar_cases d with h | h <;> rw [h] at hd <;> exact absurd hd (by decide)

theorem identCont_semicolon : identCont ';' = false := by decide

/-- Only one token shows a semicolon. -/
theorem semicolon_notMem_blanked {t : SqlToken} (hwf : t.WellFormed) (ht : t ≠ other ';') :
    ';' ∉ t.blanked := by
  have hchars : ∀ {cs : List Char}, (∀ d ∈ cs, identCont d = true) → ';' ∉ cs := fun h hmem =>
    Bool.noConfusion (identCont_semicolon.symm.trans (h _ hmem))
  cases t with
  | other c => exact fun h => ht (by rw [List.mem_singleton.mp h])
  | word c cs =>
    refine hchars fun d hd => ?_
    rcases List.mem_cons.mp hd with rfl | hd
    · exact identCont_of_tagCont (by rw [tagCont, hwf.1, Bool.true_or])
    · exact hwf.2 d hd
  | number c cs =>
    refine hchars fun d hd => ?_
    rcases List.mem_cons.mp hd with rfl | hd
    · exact identCont_of_tagCont (by rw [tagCont, hwf.1, Bool.or_true])
    · exact identCont_of_tagCont (hwf.2 d hd)
  | param c cs =>
    refine hchars fun d hd => ?_
    rcases List.mem_cons.mp hd with rfl | hd
    · decide
    rcases List.mem_cons.mp hd with rfl | hd
    · exact identCont_of_tagCont (by rw [tagCont, hwf.1, Bool.or_true])
    · exact identCont_of_tagCont (hwf.2 d hd)
  | escape letter body =>
    intro h
    rcases List.mem_cons.mp h with h | h
    · rcases hwf.1 with hl | hl <;> rw [hl] at h <;> exact absurd h (by decide)
    · exact semicolon_notMem_blank _ h
  | line | block | quotedIdent | string | continued | dollar => exact semicolon_notMem_blank _

/-- A token that shows nothing ends with no character of a word, and one that does is the whole word
or number. -/
theorem apart {t : SqlToken} {rest : List Char} (hwf : t.WellFormed) (hfollows : t.Follows rest) :
    (∀ c ∈ t.blanked.getLast?, wordPart c = false) ∨ ∀ d ∈ rest.head?, wordPart d = false := by
  have hblank : ∀ {cs : List Char}, ∀ c ∈ (blank cs).getLast?, wordPart c = false :=
    fun c hc => wordPart_blank (List.mem_of_getLast? hc)
  have htag : ∀ d : Char, tagCont d = false → wordPart d = false := fun d hd => by
    cases hw : wordPart d with
    | false => rfl
    | true => rw [tagCont_of_wordPart hw] at hd; exact Bool.noConfusion hd
  have hident : ∀ d : Char, identCont d = false → wordPart d = false := fun d hd => by
    rw [identCont, Bool.or_eq_false_iff] at hd
    exact htag d hd.1
  cases t with
  | other c =>
    refine .inl fun d hd => ?_
    rw [← Option.some.inj hd]
    exact htag c hwf.2.2
  | word c cs => exact .inr fun d hd => hident d (hfollows.1 d hd)
  | number c cs => exact .inr fun d hd => htag d (hfollows d hd)
  | param c cs => exact .inr fun d hd => htag d (hfollows d hd)
  | escape letter body =>
    refine .inl fun c hc => ?_
    rw [blanked, blank, List.map_cons, List.getLast?_cons_cons, ← List.map_cons] at hc
    exact hblank c hc
  | line | block | quotedIdent | string | continued | dollar => exact .inl hblank

/-- What a token shows first is its first character. -/
theorem head?_blanked {t : SqlToken} {c : Char} (h : c ∈ t.blanked.head?) (hc : wordPart c = true) :
    c ∈ t.text.head? := by
  have hblank : ∀ {cs : List Char}, c ∉ (blank cs).head? := fun hmem => by
    rw [wordPart_blank (List.mem_of_mem_head? hmem)] at hc
    exact Bool.noConfusion hc
  cases t with
  | other | word | number | param | escape => exact h
  | line | block | quotedIdent | string | continued | dollar => exact absurd h hblank

theorem blanked_ne_nil (t : SqlToken) : t.blanked ≠ [] := by
  cases t <;> simp [blanked, blank, text, delimiterOf]

end SqlToken

/-- The words of tokens lie apart. -/
def Apart : List SqlToken → Prop
  | [] => True
  | t :: ts =>
    ((∀ c ∈ t.blanked.getLast?, wordPart c = false) ∨
      ∀ d ∈ (blankText ts).head?, wordPart d = false) ∧ Apart ts

theorem LexedFrom.apart {s : AfterString} {ts : List SqlToken} (h : LexedFrom s ts) : Apart ts := by
  induction ts generalizing s with
  | nil => exact trivial
  | cons t ts ih =>
    obtain ⟨hwf, -, hfollows, h⟩ := h
    refine ⟨(t.apart hwf hfollows).imp_right fun hrest d hd => ?_, ih h⟩
    cases hword : wordPart d with
    | false => rfl
    | true =>
      cases ts with
      | nil => exact absurd hd (by simp [blankText])
      | cons t' ts =>
        rw [blankText, List.flatMap_cons, List.head?_append_of_ne_nil _ t'.blanked_ne_nil] at hd
        have hd' := t'.head?_blanked hd hword
        rw [← hword]
        refine hrest d ?_
        rwa [sqlText, List.flatMap_cons, List.head?_append_of_ne_nil _ t'.text_ne_nil]

/-- The words of a text are those that its tokens show. -/
theorem sqlWords_blankText {ts : List SqlToken} (h : Apart ts) :
    sqlWords (blankText ts) = ts.flatMap fun t => sqlWords t.blanked := by
  induction ts with
  | nil => rfl
  | cons t ts ih =>
    rw [List.flatMap_cons, ← ih h.2, blankText, List.flatMap_cons]
    rcases h.1 with hlast | hhead
    · exact sqlWords_append_of_last hlast _
    · exact wordsFrom_append hhead _ _

theorem LexedFrom.wellFormed {s : AfterString} {ts : List SqlToken} (h : LexedFrom s ts) :
    ∀ t ∈ ts, t.WellFormed := by
  induction ts generalizing s with
  | nil => exact fun t ht => absurd ht List.not_mem_nil
  | cons t ts ih =>
    intro u hu
    rcases List.mem_cons.mp hu with rfl | hu
    · exact h.1
    · exact ih h.2.2.2 u hu

/-- A token that is no semicolon belongs to the first statement. -/
theorem tokenStatements_cons {t : SqlToken} (ts : List SqlToken) (ht : t ≠ .other ';') :
    tokenStatements (t :: ts) = (tokenStatements ts).modifyHead (t :: ·) := by
  rw [tokenStatements]
  exact ht

/-- The parts between the semicolons that can be seen are what the statements show. -/
theorem splitOnP_blankText {ts : List SqlToken} (hwf : ∀ t ∈ ts, t.WellFormed) :
    (blankText ts).splitOnP (· = ';') = (tokenStatements ts).map blankText := by
  induction ts with
  | nil => rfl
  | cons t ts ih =>
    have ih := ih fun u hu => hwf u (List.mem_cons_of_mem _ hu)
    by_cases ht : t = .other ';'
    · rw [ht, tokenStatements, List.map_cons, ← ih, blankText, List.flatMap_cons]
      change (';' :: blankText ts).splitOnP _ = _
      rw [List.splitOnP_cons_eq_if_modifyHead, if_pos (by decide)]
      rfl
    · rw [tokenStatements_cons ts ht, blankText, List.flatMap_cons,
        splitOnP_append (t.semicolon_notMem_blanked (hwf t List.mem_cons_self) ht)]
      change ((blankText ts).splitOnP _).modifyHead _ = _
      rw [ih]
      cases tokenStatements ts with
      | nil => rfl
      | cons st sts => rfl

/-- The words of the tokens of a statement lie apart. -/
theorem apart_tokenStatements {ts : List SqlToken} (h : Apart ts) :
    (∀ st ∈ tokenStatements ts, Apart st) ∧
      ∀ st ∈ (tokenStatements ts).head?, blankText st <+: blankText ts := by
  induction ts with
  | nil =>
    refine ⟨fun st hst => ?_, fun st hst => ?_⟩
    · rw [List.mem_singleton.mp hst]; exact trivial
    · rw [← Option.some.inj hst]
  | cons t ts ih =>
    obtain ⟨hapart, hhead⟩ := ih h.2
    by_cases ht : t = .other ';'
    · rw [ht, tokenStatements]
      refine ⟨fun st hst => ?_, fun st hst => ?_⟩
      · rcases List.mem_cons.mp hst with rfl | hst
        · exact trivial
        · exact hapart st hst
      · rw [← Option.some.inj hst]; exact List.nil_prefix
    · rw [tokenStatements_cons ts ht]
      cases hts : tokenStatements ts with
      | nil => exact ⟨fun st hst => absurd hst List.not_mem_nil, fun st hst => by cases hst⟩
      | cons st sts =>
        rw [hts] at hapart hhead
        have hpre : blankText st <+: blankText ts := hhead st rfl
        refine ⟨fun st' hst' => ?_, fun st' hst' => ?_⟩
        · rcases List.mem_cons.mp hst' with rfl | hst'
          · refine ⟨h.1.imp_right fun hrest d hd => hrest d ?_, hapart st List.mem_cons_self⟩
            obtain ⟨post, hpost⟩ := hpre
            rw [← hpost, List.head?_append, hd]
            rfl
          · exact hapart st' (List.mem_cons_of_mem _ hst')
        · rw [← Option.some.inj hst', blankText, List.flatMap_cons, blankText, List.flatMap_cons,
            List.prefix_append_right_inj]
          exact hpre

/-! ## Commands -/

theorem wordStart_of_toUpper {c : Char} (h : wordStart c.toUpper = true) : wordStart c = true := by
  cases hc : c.isLower with
  | true =>
    delta wordStart Char.isAlpha
    rw [hc, Bool.or_true, Bool.true_or]
  | false =>
    have hlower : ¬ (c.val ≥ 'a'.val ∧ c.val ≤ 'z'.val) := by
      delta Char.isLower at hc
      simpa [imp_iff_not_or] using hc
    delta Char.toUpper at h
    rwa [dif_neg hlower] at h

/-- A keyword in any case is one word. -/
theorem sqlWords_of_upper {c : Char} {cs : List Char}
    (h : ∀ d ∈ upper (c :: cs), wordStart d = true) : sqlWords (c :: cs) = [c :: cs] := by
  have hstart : ∀ d ∈ c :: cs, wordStart d = true :=
    fun d hd => wordStart_of_toUpper (h _ (List.mem_map_of_mem hd))
  exact sqlWords_word (hstart c List.mem_cons_self)
    fun d hd => wordPart_of_wordStart (hstart d (List.mem_cons_of_mem _ hd))

/-- Keywords consist of letters. -/
theorem wordStart_of_mem_command : ∀ command ∈ transactionCommands, ∀ word ∈ command,
    ∀ c ∈ word, wordStart c = true := by decide

/-- White space and comments show no word. -/
theorem sqlWords_significant {ts : List SqlToken} (hwf : ∀ t ∈ ts, t.WellFormed) :
    (significant ts).flatMap (fun t => sqlWords t.blanked) =
      ts.flatMap fun t => sqlWords t.blanked := by
  induction ts with
  | nil => rfl
  | cons t ts ih =>
    have ih := ih fun u hu => hwf u (List.mem_cons_of_mem _ hu)
    rw [List.flatMap_cons, ← ih, significant]
    cases ht : t.isTrivia with
    | false => rw [List.filter_cons_of_pos (by rw [ht]; rfl), List.flatMap_cons]; rfl
    | true =>
      have hnil : sqlWords t.blanked = [] := by
        refine sqlWords_eq_nil fun c hc => ?_
        have hwf := hwf t List.mem_cons_self
        cases t with
        | other d =>
          rw [List.mem_singleton.mp hc]
          cases hw : wordPart d with
          | false => rfl
          | true => exact Bool.noConfusion ((tagCont_of_wordPart hw).symm.trans hwf.2.2)
        | line | block => exact SqlToken.wordPart_blank hc
        | word | number | param | quotedIdent | string | escape | continued | dollar =>
          exact Bool.noConfusion ht
      rw [List.filter_cons_of_neg (by rw [ht]; decide), hnil, List.nil_append]
      rfl

/-- A statement that starts with a command shows it first. -/
theorem prefix_words {command : List (List Char)}
    (hletters : ∀ word ∈ command, ∀ c ∈ word, wordStart c = true) :
    ∀ {ts : List SqlToken}, command <+: leadingWords ts →
      command <+: (ts.flatMap fun t => sqlWords t.blanked).map upper := by
  induction command with
  | nil => exact fun _ => List.nil_prefix
  | cons word command ih =>
    intro ts h
    match ts with
    | .word c cs :: ts =>
      obtain ⟨hword, h⟩ := List.cons_prefix_cons.mp h
      have hone : sqlWords (c :: cs) = [c :: cs] :=
        sqlWords_of_upper fun d hd => hletters word List.mem_cons_self d (hword ▸ hd)
      rw [List.flatMap_cons, SqlToken.blanked, hone, List.singleton_append, List.map_cons, hword]
      exact List.cons_prefix_cons.mpr
        ⟨rfl, ih (fun w hw => hletters w (List.mem_cons_of_mem _ hw)) h⟩

/-- Words of ASCII letters, digits and underscores are read as they are. -/
theorem words_of_plain {ts : List SqlToken} (h : ∀ t ∈ ts, t.PlainWord) (us : List SqlToken) :
    leadingWords (ts ++ us) = leadingWords ts ++ leadingWords us ∧
      (leadingWords ts).length = ts.length ∧
        (ts.flatMap fun t => sqlWords t.blanked).map upper = leadingWords ts := by
  induction ts with
  | nil => exact ⟨rfl, rfl, rfl⟩
  | cons t ts ih =>
    obtain ⟨happend, hlength, hwords⟩ := ih fun u hu => h u (List.mem_cons_of_mem _ hu)
    have ht := h t List.mem_cons_self
    cases t with
    | word c cs =>
      refine ⟨?_, ?_, ?_⟩
      · rw [List.cons_append, leadingWords, leadingWords, happend, List.cons_append]
      · rw [leadingWords, List.length_cons, List.length_cons, hlength]
      · rw [List.flatMap_cons, SqlToken.blanked, sqlWords_word ht.1 ht.2, List.singleton_append,
          List.map_cons, hwords, leadingWords]
    | other | number | param | line | block | quotedIdent | string | escape | continued | dollar =>
      exact ht.elim

/-- In a bare statement the code sees a command exactly when it starts with one. -/
theorem transactionControl_blankText {st : List SqlToken} (hwf : ∀ t ∈ st, t.WellFormed)
    (hapart : Apart st) (hbare : Bare st) :
    (transactionControl (blankText st)).isSome = true ↔ StartsTransactionControl st := by
  rw [transactionControl_isSome]
  refine exists_congr fun command => and_congr_right fun hmem => ?_
  have hwords := (sqlWords_blankText hapart).trans (sqlWords_significant hwf).symm
  constructor
  · intro h
    have hplain := hbare command hmem h
    rw [hwords] at h
    have hsplit := List.take_append_drop command.length (significant st)
    obtain ⟨happend, hlength, htext⟩ :=
      words_of_plain hplain ((significant st).drop command.length)
    rw [← hsplit, List.flatMap_append, List.map_append, htext] at h
    -- Either there are enough tokens, or there is nothing after them.
    have hlead : command <+: leadingWords ((significant st).take command.length) := by
      by_cases hle : command.length ≤ (significant st).length
      · refine List.prefix_of_prefix_length_le h (List.prefix_append _ _) ?_
        rw [hlength, List.length_take, min_eq_left hle]
      · rw [List.drop_eq_nil_of_le (by omega), List.flatMap_nil, List.map_nil,
          List.append_nil] at h
        exact h
    rw [hsplit] at happend
    rw [happend]
    exact hlead.trans (List.prefix_append _ _)
  · intro h
    rw [hwords]
    exact prefix_words (wordStart_of_mem_command command hmem) h

theorem wellFormed_tokenStatements {ts : List SqlToken} (h : ∀ t ∈ ts, t.WellFormed) :
    ∀ st ∈ tokenStatements ts, ∀ t ∈ st, t.WellFormed := by
  induction ts with
  | nil =>
    intro st hst t ht
    rw [List.mem_singleton.mp hst] at ht
    exact absurd ht List.not_mem_nil
  | cons t ts ih =>
    have ih := ih fun u hu => h u (List.mem_cons_of_mem _ hu)
    by_cases ht : t = .other ';'
    · rw [ht, tokenStatements]
      intro st hst u hu
      rcases List.mem_cons.mp hst with rfl | hst
      · exact absurd hu List.not_mem_nil
      · exact ih st hst u hu
    · rw [tokenStatements_cons ts ht]
      cases hts : tokenStatements ts with
      | nil => exact fun st hst => absurd hst List.not_mem_nil
      | cons st sts =>
        rw [hts] at ih
        intro st' hst' u hu
        rcases List.mem_cons.mp hst' with rfl | hst'
        · rcases List.mem_cons.mp hu with rfl | hu
          · exact h _ List.mem_cons_self
          · exact ih st List.mem_cons_self u hu
        · exact ih st' (List.mem_cons_of_mem _ hst') u hu

/-- Line feeds stay where they are. -/
theorem SqlToken.newline_blanked (t : SqlToken) :
    t.blanked.map (· == '\n') = t.text.map (· == '\n') := by
  have hblank : ∀ cs : List Char, (blank cs).map (· == '\n') = cs.map (· == '\n') := by
    intro cs
    rw [blank, List.map_map]
    refine List.map_congr_left fun c _ => ?_
    rw [Function.comp_apply, blankChar]
    split
    · rename_i hc
      rw [hc]
    · rename_i hc
      simp [hc]
  cases t with
  | other | word | number | param => rfl
  | escape letter body => exact congrArg (_ :: ·) (hblank _)
  | line | block | quotedIdent | string | continued | dollar => exact hblank _

theorem newline_blankText (ts : List SqlToken) :
    (blankText ts).map (· == '\n') = (sqlText ts).map (· == '\n') := by
  rw [blankText, sqlText, List.map_flatMap, List.map_flatMap]
  simp only [SqlToken.newline_blanked]

/-- A migration is rejected where its masked text has a statement with a command. -/
theorem validate_error_iff {migration : Migration} {masked : List Char}
    (hversion : migration.version ≠ 2) (hmasked : maskedSql migration.sql = .ok masked) :
    (∃ e, validateSqlTransactionContract migration = .error e) ↔
      ∃ part ∈ masked.splitOnP (· = ';'), (transactionControl part).isSome = true := by
  rw [List.splitOnP_eq_splitOnPPrepend, ← @exists_mem_statementsFrom masked 0 0 [],
    validateSqlTransactionContract, if_neg hversion, sqlStatements, hmasked]
  simp only [Except.map]
  rw [← List.any_eq_true]
  split
  · rename_i h
    rw [h]
    exact ⟨fun _ => rfl, fun _ => ⟨_, rfl⟩⟩
  · rename_i h
    refine ⟨?_, fun h' => absurd h' h⟩
    rintro ⟨e, he⟩
    cases he

instance (ts : List SqlToken) : Decidable (StartsTransactionControl ts) := by
  unfold StartsTransactionControl; infer_instance

instance : ∀ t : SqlToken, Decidable t.PlainWord
  | .word _ _ => inferInstanceAs (Decidable (_ ∧ _))
  | .other _ | .number _ _ | .param _ _ | .line _ | .block _ | .quotedIdent _ | .string _
  | .escape _ _ | .continued _ | .dollar _ _ => isFalse id

instance (ts : List SqlToken) : Decidable (Bare ts) := by unfold Bare; infer_instance

/-- A character that begins no comment and no dollar quote. -/
theorem LexedFrom.other {s : AfterString} {c : Char} {ts : List SqlToken}
    (hc : (!(['-', '/', '$', '\'', '"'].contains c) && !tagCont c) = true)
    (h : LexedFrom ((SqlToken.other c).after s) ts) : LexedFrom s (.other c :: ts) := by
  simp only [List.contains_cons, Bool.and_eq_true, Bool.not_eq_true', Bool.or_eq_false_iff,
    beq_eq_false_iff_ne, List.contains_nil, and_true] at hc
  obtain ⟨⟨hdash, hslash, hdollar, hquote, hident⟩, htag⟩ := hc
  exact ⟨⟨hquote, hident, htag⟩, trivial,
    ⟨fun h => absurd h hdash, fun h => absurd h hslash, fun h => absurd h hdollar⟩, h⟩

/-- A word with another character after it that is no quote. -/
theorem LexedFrom.word {s : AfterString} {c : Char} {cs : List Char} {ts : List SqlToken}
    (hc : identStart c = true) (hcs : cs.all identCont = true)
    (hfollows : (sqlText ts).head?.all (fun d => !identCont d && d != '\'') = true)
    (h : LexedFrom .no ts) : LexedFrom s (.word c cs :: ts) := by
  rw [Option.all_eq_true] at hfollows
  refine ⟨⟨hc, fun d hd => List.all_eq_true.mp hcs d hd⟩, trivial, ⟨fun d hd => ?_, ?_⟩, h⟩
  · have hd := hfollows d hd
    rw [Bool.and_eq_true, Bool.not_eq_true'] at hd
    exact hd.1
  · intro _ _ hq
    exact absurd (hfollows _ hq) (by decide)

/-- A text without quotes needs none doubled. -/
theorem doubled_of_notMem {quote : Char} {cs : List Char} (h : quote ∉ cs) : Doubled quote cs := by
  induction cs with
  | nil => exact .nil
  | cons c cs ih =>
    exact .char (fun hc => h (hc ▸ List.mem_cons_self)) (ih fun h' => h (List.mem_cons_of_mem _ h'))

/-- `SELECT ';COMMIT'; commit`. -/
def quotedCommit : List SqlToken :=
  [.word 'S' "ELECT".toList, .other ' ', .string ";COMMIT".toList, .other ';', .other ' ',
    .word 'c' "ommit".toList]

/-- `SELECT E'a'`, a line break and `'it\'; COMMIT; \''`. -/
def continuedLiteral : List SqlToken :=
  [.word 'S' "ELECT".toList, .other ' ', .escape 'E' "a".toList, .other '\n',
    .continued "it\\'; COMMIT; \\'".toList]

end Memplex
