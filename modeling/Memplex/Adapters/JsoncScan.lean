import Memplex.Adapters.ReadJson
import Memplex.Lib.Jsonc.Strict

/-!
# The scanner of the JSONC editor

A place in a text is given by what is left of the text from it on, and a limit by the number of
characters that are left there. `_object_members` lists the members of an object; on the text of a
value it lists exactly its entries (`objectMembers_text`), whatever their strings and comments hold:
the scanner reads a string as a whole before it looks for anything in it.
-/

namespace Memplex

open Lib Lib.Json Lib.Jsonc

/-! ## The scanner -/

/-- `_scan_string` behind the opening quote: the number of characters up to and with the closing
quote. -/
def scanString : Bool → List Char → Option ℕ
  | _, [] => none
  | true, _ :: cs => (scanString false cs).map (· + 1)
  | false, c :: cs =>
    if c = '\\' then (scanString true cs).map (· + 1)
    else if c = '"' then some 1
    else (scanString false cs).map (· + 1)

/-- The number of characters up to and with the line feed, or to the end. -/
def lineLength : List Char → ℕ
  | [] => 0
  | c :: cs => if c = '\n' then 1 else lineLength cs + 1

/-- The number of characters of a comment that begins the text; a block comment may have no end. -/
def commentLength : List Char → Option (Option ℕ)
  | '/' :: '/' :: cs => some (some (lineLength cs + 2))
  | '/' :: '*' :: cs => some ((blockEnd cs).map (· + 2))
  | _ => none

/-- The number of characters that `_skip_trivia` skips at the front of a text, which ends at the
limit, with a number of characters that are skipped in any case. -/
def triviaLength : ℕ → List Char → Option ℕ
  | _, [] => some 0
  | n + 1, _ :: cs => (triviaLength n cs).map (· + 1)
  | 0, c :: cs =>
    if isPySpace c then (triviaLength 0 cs).map (· + 1)
    else (commentLength (c :: cs)).elim (some 0) fun length =>
      length.bind fun n => (triviaLength (n - 1) cs).map (· + 1)

/-- `_skip_trivia`. What follows the limit is the end of the text or a closing brace, neither of
which continues a comment that opens in front of it. -/
def skipTrivia (stop : ℕ) (cs : List Char) : Except PyError (List Char) :=
  (triviaLength 0 (cs.take (cs.length - stop))).elim
    (.error (valueError "Unterminated JSONC block comment")) fun n => .ok (cs.drop n)

/-- The closing bracket of an opening one. -/
def closingOf : Char → Option Char
  | '{' => some '}'
  | '[' => some ']'
  | _ => none

/-- The loop of `_matching_delimiter`, with the closing brackets that are awaited and a number of
characters to skip. -/
def matchFrom : ℕ → List Char → List Char → Except PyError (List Char)
  | _, _, [] => .error (valueError "Unterminated JSONC container")
  | n + 1, stack, _ :: cs => matchFrom n stack cs
  | 0, stack, c :: cs =>
    if c = '"' then
      (scanString false cs).elim (.error (valueError "Unterminated JSONC string"))
        fun n => matchFrom n stack cs
    else (commentLength (c :: cs)).elim
      ((closingOf c).elim
        (if c = '}' ∨ c = ']' then
          if stack.head? = some c then
            if stack.tail = [] then .ok (c :: cs) else matchFrom 0 stack.tail cs
          else .error (valueError "Mismatched JSONC delimiter")
        else matchFrom 0 stack cs)
        fun closing => matchFrom 0 (closing :: stack) cs)
      fun length => length.elim (.error (valueError "Unterminated JSONC block comment"))
        fun n => matchFrom (n - 1) stack cs

/-- `_matching_delimiter`: the place of the closing bracket. -/
def matchingDelimiter : List Char → Except PyError (List Char)
  | [] => .error ⟨.runtimeError, "string index out of range"⟩
  | c :: cs => (closingOf c).elim (.error (valueError "Expected JSONC object or array"))
    fun closing => matchFrom 0 [closing] cs

/-- The characters of a scalar up to a comma, a comment or the limit. -/
def scalarLength : List Char → ℕ
  | [] => 0
  | c :: cs => if (commentLength (c :: cs)).isSome ∨ c = ',' then 0 else scalarLength cs + 1

/-- `_scan_value_end`. -/
def scanValueEnd (stop : ℕ) (cs : List Char) : Except PyError (List Char) :=
  if cs.length ≤ stop then .error (valueError "Missing JSONC value")
  else if cs.head? = some '"' then
    (scanString false cs.tail).elim (.error (valueError "Unterminated JSONC string"))
      fun n => .ok (cs.tail.drop n)
  else if cs.head? = some '{' ∨ cs.head? = some '[' then (matchingDelimiter cs).map List.tail
  else
    let scalar := cs.take (scalarLength (cs.take (cs.length - stop)))
    let scalar := (scalar.reverse.dropWhile isPySpace).reverse
    if scalar = [] then .error (valueError "Missing JSONC scalar value")
    else .ok (cs.drop scalar.length)

/-- `_Member`. -/
structure JsoncMember where
  key : String
  keyStart : List Char
  valueStart : List Char
  valueEnd : List Char
  comma : Option (List Char)

/-- The key of a member: `json.loads` of a string in its quotes. -/
def loadKey (quoted : List Char) : Except PyError String :=
  match loads quoted with
  | some (.str key) => .ok key
  | _ => .error (valueError "Invalid JSONC object key")

/-- The loop of `_object_members`, with a bound on the number of members. -/
def membersFrom : ℕ → ℕ → List Char → Except PyError (List JsoncMember)
  | 0, _, _ => .ok []
  | fuel + 1, stop, cs => do
    let keyStart ← skipTrivia stop cs
    if keyStart.length ≤ stop then return []
    require (keyStart.head? = some '"') (valueError "JSONC object keys must be double-quoted")
    let n ← (scanString false keyStart.tail).elim
      (.error (valueError "Unterminated JSONC string")) Except.ok
    let key ← loadKey (keyStart.take (n + 1))
    let colon ← skipTrivia stop (keyStart.drop (n + 1))
    require (stop < colon.length ∧ colon.head? = some ':')
      (valueError ("Missing ':' after JSONC key " ++ key))
    let valueStart ← skipTrivia stop colon.tail
    let valueEnd ← scanValueEnd stop valueStart
    let next ← skipTrivia stop valueEnd
    if stop < next.length ∧ next.head? = some ',' then
      let rest ← membersFrom fuel stop next.tail
      return ⟨key, keyStart, valueStart, valueEnd, some next⟩ :: rest
    else
      let last ← skipTrivia stop next
      require (last.length = stop) (valueError ("Missing comma after JSONC key " ++ key))
      return [⟨key, keyStart, valueStart, valueEnd, none⟩]

/-- `_object_members`. -/
def objectMembers (cs : List Char) : Except PyError (List JsoncMember) := do
  require (cs.head? = some '{') (valueError "Expected JSONC object")
  let close ← matchingDelimiter cs
  membersFrom cs.length close.length cs.tail

/-- `_root_object_start`. -/
def rootObjectStart (text : List Char) : Except PyError (List Char) := do
  let start ← skipTrivia 0 text
  require (start.head? = some '{') (valueError "JSONC document root must be an object")
  let _ ← matchingDelimiter start
  return start

/-! ## Strings and comments -/

/-- A string is scanned up to its closing quote. -/
theorem scanString_quoted {raw : List Char} (h : Quoted raw) (rest : List Char) :
    scanString false (raw ++ '"' :: rest) = some (raw.length + 1) := by
  have hfrom : ∀ escaped, staysOpen escaped raw = true →
      scanString escaped (raw ++ '"' :: rest) = some (raw.length + 1) := by
    clear h
    induction raw with
    | nil =>
      intro escaped hopen
      cases escaped with
      | false => rfl
      | true => cases hopen
    | cons c raw ih =>
      intro escaped hopen
      cases escaped with
      | true =>
        rw [List.cons_append, scanString, ih false hopen]
        rfl
      | false =>
        rw [staysOpen] at hopen
        rw [List.cons_append, scanString]
        split_ifs at hopen ⊢ with hesc hquote
        · rw [ih true hopen]
          rfl
        · rw [hquote] at hopen
          cases hopen
        · rw [Bool.and_eq_true] at hopen
          rw [ih false hopen.2]
          rfl
  exact hfrom false h

theorem lineLength_body {body : List Char} (h : '\n' ∉ body) (rest : List Char) :
    lineLength (body ++ '\n' :: rest) = body.length + 1 := by
  induction body with
  | nil => rfl
  | cons c body ih =>
    have hc : c ≠ '\n' := fun heq => h (heq ▸ List.mem_cons_self)
    rw [List.cons_append, lineLength, if_neg hc, ih fun hmem => h (List.mem_cons_of_mem _ hmem)]
    rfl

/-- A character that begins no comment. -/
theorem commentLength_none {c : Char} (h : c ≠ '/') (cs : List Char) :
    commentLength (c :: cs) = none := by
  unfold commentLength
  split
  · next heq => exact absurd (List.cons.inj heq).1 h
  · next heq => exact absurd (List.cons.inj heq).1 h
  · rfl

/-- A comment is scanned up to its end. -/
theorem commentLength_text {b : Blank} (h : b.WellFormed) (hb : ∀ c, b ≠ .space c)
    (rest : List Char) :
    ∃ cs, b.text ++ rest = '/' :: cs ∧
      commentLength (b.text ++ rest) = some (some b.text.length) ∧
      cs.drop (b.text.length - 1) = rest := by
  match b with
  | .space c => exact absurd rfl (hb c)
  | .line body =>
    have htext : Blank.text (.line body) ++ rest = '/' :: '/' :: (body ++ '\n' :: rest) := by
      simp only [Blank.text, List.cons_append, List.append_assoc, List.nil_append]
    refine ⟨'/' :: (body ++ '\n' :: rest), htext, ?_, ?_⟩
    · rw [htext, commentLength, lineLength_body h]
      simp [Blank.text]
    · have hlen : (Blank.text (.line body)).length - 1 = body.length + 1 + 1 := by
        simp [Blank.text]
      rw [hlen, List.drop_succ_cons, ← List.drop_drop, List.drop_left]
      rfl
  | .block body =>
    have htext : Blank.text (.block body) ++ rest = '/' :: '*' :: (body ++ '*' :: '/' :: rest) := by
      simp only [Blank.text, List.cons_append, List.append_assoc, List.nil_append]
    refine ⟨'*' :: (body ++ '*' :: '/' :: rest), htext, ?_, ?_⟩
    · rw [htext, commentLength, blockEnd_body h]
      simp [Blank.text]
    · have hlen : (Blank.text (.block body)).length - 1 = body.length + 2 + 1 := by
        simp [Blank.text]
      rw [hlen, List.drop_succ_cons, ← List.drop_drop, List.drop_left]
      rfl

/-! ## Gaps -/

theorem triviaLength_skip {n : ℕ} {cs : List Char} (h : n ≤ cs.length) :
    triviaLength n cs = (triviaLength 0 (cs.drop n)).map (· + n) := by
  induction n generalizing cs with
  | zero => simp
  | succ n ih =>
    cases cs with
    | nil => cases h
    | cons c cs =>
      rw [triviaLength, ih (Nat.le_of_succ_le_succ h), Option.map_map, List.drop_succ_cons]
      rfl

/-- The text begins with nothing that is skipped. -/
def Halts (cs : List Char) : Prop := ∀ c ∈ cs.head?, isPySpace c = false ∧ c ≠ '/'

theorem triviaLength_halts {cs : List Char} (h : Halts cs) : triviaLength 0 cs = some 0 := by
  cases cs with
  | nil => rfl
  | cons c cs =>
    obtain ⟨hspace, hslash⟩ := h c rfl
    rw [triviaLength, hspace, if_neg (by decide), commentLength_none hslash]
    rfl

/-- A gap is skipped. -/
theorem triviaLength_gap {gap : Gap} (hgap : gap.WellFormed) {cs : List Char} (hcs : Halts cs) :
    triviaLength 0 (gap.text ++ cs) = some gap.text.length := by
  induction gap with
  | nil => exact triviaLength_halts hcs
  | cons b gap ih =>
    have ih := ih fun b' hb' => hgap b' (List.mem_cons_of_mem _ hb')
    have hb := hgap b List.mem_cons_self
    have htext : Gap.text (b :: gap) ++ cs = b.text ++ (Gap.text gap ++ cs) := by
      rw [Gap.text, List.flatMap_cons, List.append_assoc]
      rfl
    have hlen : (Gap.text (b :: gap)).length = b.text.length + (Gap.text gap).length := by
      rw [Gap.text, List.flatMap_cons, List.length_append]
      rfl
    rw [htext, hlen]
    by_cases hspace : ∃ c, b = .space c
    · obtain ⟨c, rfl⟩ := hspace
      have hc : isPySpace c = true := isPySpace_of_isWs hb
      rw [Blank.text, List.singleton_append, triviaLength, if_pos hc, ih]
      simp [Nat.add_comm]
    · obtain ⟨cs', heq, hcomment, hdrop⟩ := commentLength_text hb (fun c h => hspace ⟨c, h⟩)
        (Gap.text gap ++ cs)
      have hlong : b.text.length - 1 ≤ cs'.length := by
        have hlength := congrArg List.length heq
        rw [List.length_append, List.length_cons] at hlength
        omega
      have hpos : 0 < b.text.length := by
        cases b <;> simp [Blank.text]
      rw [heq] at hcomment
      rw [heq, triviaLength, if_neg (by decide), hcomment, Option.elim_some, Option.bind_some,
        triviaLength_skip hlong, hdrop, ih]
      simp only [Option.map_some, Option.some.injEq]
      omega

/-- A gap is skipped, up to the limit and no further. -/
theorem skipTrivia_gap {gap : Gap} (hgap : gap.WellFormed) {stop : ℕ} {cs : List Char}
    (hstop : stop ≤ cs.length) (hcs : stop < cs.length → Halts cs) :
    skipTrivia stop (gap.text ++ cs) = .ok cs := by
  have htake : (gap.text ++ cs).take ((gap.text ++ cs).length - stop) =
      gap.text ++ cs.take (cs.length - stop) := by
    rw [List.length_append, Nat.add_sub_assoc hstop, List.take_length_add_append]
  have hhalts : Halts (cs.take (cs.length - stop)) := by
    rcases Nat.lt_or_ge stop cs.length with hlt | hge
    · have hpos : cs.length - stop ≠ 0 := by omega
      intro c hc
      rw [List.head?_take, if_neg hpos] at hc
      exact hcs hlt c hc
    · have hzero : cs.length - stop = 0 := by omega
      rw [hzero]
      exact fun c hc => (Option.some_ne_none _ hc.symm).elim
  rw [skipTrivia, htake, triviaLength_gap hgap hhalts, Option.elim_some, List.drop_left]

/-- Nothing is skipped where nothing is to skip. -/
theorem skipTrivia_halts {stop : ℕ} {cs : List Char} (hstop : stop ≤ cs.length)
    (hcs : stop < cs.length → Halts cs) : skipTrivia stop cs = .ok cs :=
  @skipTrivia_gap [] (fun _ hb => absurd hb List.not_mem_nil) _ _ hstop hcs

/-! ## Matching brackets -/

theorem matchFrom_skip (n : ℕ) (stack cs : List Char) :
    matchFrom n stack cs = matchFrom 0 stack (cs.drop n) := by
  induction n generalizing cs with
  | zero => rfl
  | succ n ih =>
    cases cs with
    | nil => rfl
    | cons c cs => exact ih cs

/-- The scanner goes over a text and comes out where it went in. -/
def Passes (stack text : List Char) : Prop :=
  ∀ cs, matchFrom 0 stack (text ++ cs) = matchFrom 0 stack cs

theorem Passes.nil (stack : List Char) : Passes stack [] := fun _ => rfl

theorem Passes.append {stack a b : List Char} (ha : Passes stack a) (hb : Passes stack b) :
    Passes stack (a ++ b) := by
  intro cs
  rw [List.append_assoc, ha, hb]

/-- The characters that the scanner looks for. -/
def isDelimiter (c : Char) : Bool :=
  c = '"' || c = '/' || c = '{' || c = '[' || c = '}' || c = ']'

theorem passes_char {c : Char} (h : isDelimiter c = false) (stack : List Char) :
    Passes stack [c] := by
  have hne : ∀ {d : Char}, isDelimiter d = true → c ≠ d := by
    rintro d hd rfl
    rw [h] at hd
    cases hd
  have hclosing : closingOf c = none := by
    unfold closingOf
    split
    · exact absurd rfl (hne (by decide))
    · exact absurd rfl (hne (by decide))
    · rfl
  have hbracket : ¬ (c = '}' ∨ c = ']') := fun hc =>
    hc.elim (hne (by decide)) (hne (by decide))
  intro cs
  rw [List.singleton_append, matchFrom, if_neg (hne (by decide)),
    commentLength_none (hne (by decide)), Option.elim_none, hclosing, Option.elim_none,
    if_neg hbracket]

theorem passes_chars {text : List Char} (h : ∀ c ∈ text, isDelimiter c = false)
    (stack : List Char) : Passes stack text := by
  induction text with
  | nil => exact Passes.nil stack
  | cons c text ih =>
    exact (passes_char (h c List.mem_cons_self) stack).append
      (ih fun d hd => h d (List.mem_cons_of_mem _ hd))

/-- A string is gone over as a whole. -/
theorem passes_string {raw : List Char} (h : Quoted raw) (stack : List Char) :
    Passes stack ('"' :: (raw ++ ['"'])) := by
  intro cs
  have htext : '"' :: (raw ++ ['"']) ++ cs = '"' :: (raw ++ '"' :: cs) := by
    simp only [List.cons_append, List.append_assoc, List.nil_append]
  rw [htext, matchFrom, if_pos rfl, scanString_quoted h, Option.elim_some, matchFrom_skip,
    ← List.drop_drop, List.drop_left]
  rfl

/-- A gap is gone over. -/
theorem passes_gap {gap : Gap} (hgap : gap.WellFormed) (stack : List Char) :
    Passes stack gap.text := by
  induction gap with
  | nil => exact Passes.nil stack
  | cons b gap ih =>
    have ih := ih fun b' hb' => hgap b' (List.mem_cons_of_mem _ hb')
    have hb := hgap b List.mem_cons_self
    have hblank : Passes stack b.text := by
      by_cases hspace : ∃ c, b = .space c
      · obtain ⟨c, rfl⟩ := hspace
        refine passes_char ?_ stack
        have hc : isWs c = true := hb
        unfold isWs at hc
        simp only [Bool.or_eq_true, decide_eq_true_eq] at hc
        rcases hc with ((rfl | rfl) | rfl) | rfl <;> decide
      · intro cs
        obtain ⟨cs', heq, hcomment, hdrop⟩ := commentLength_text hb (fun c h => hspace ⟨c, h⟩) cs
        rw [heq] at hcomment
        rw [heq, matchFrom, if_neg (by decide), hcomment, Option.elim_some, Option.elim_some,
          matchFrom_skip, hdrop]
    exact hblank.append ih

/-- The bracket that an opening one awaits. -/
theorem matchFrom_opening (b : Bracket) (stack cs : List Char) :
    matchFrom 0 stack (b.opening :: cs) = matchFrom 0 (b.closing :: stack) cs := by
  cases b <;> rfl

theorem matchFrom_closing (b : Bracket) (stack cs : List Char) :
    matchFrom 0 (b.closing :: stack) (b.closing :: cs) =
      if stack = [] then .ok (b.closing :: cs) else matchFrom 0 stack cs := by
  cases b <;> rfl

/-- What stands between two brackets is gone over. -/
theorem passes_entries {b : Bracket} {es : Entries} (hes : EntriesWellFormed b es)
    {stack : List Char} (hnodes : ∀ e ∈ es.toList, Passes stack e.node.text) :
    Passes stack (writeEntries fullStyle es) := by
  have hlabel : ∀ {label : Option Label}, LabelFits b label →
      Passes stack (writeLabel fullStyle label) := by
    intro label hfits
    cases label with
    | none => exact Passes.nil stack
    | some l =>
      cases b with
      | square => exact hfits.elim
      | curly =>
        obtain ⟨hraw, hbefore, hafter⟩ := hfits
        exact (passes_string hraw stack).append ((passes_gap hbefore stack).append
          ((passes_char (c := ':') (by decide) stack).append (passes_gap hafter stack)))
  have hentry : ∀ e ∈ es.toList, Passes stack (e.write fullStyle) := by
    intro e he
    obtain ⟨hgap, hfits, -, hafter⟩ := hes.entry e he
    exact (passes_gap hgap stack).append ((hlabel hfits).append
      ((hnodes e he).append (passes_gap hafter stack)))
  have hcomma : Passes stack [','] := passes_char (by decide) stack
  induction es with
  | last e => exact hentry e (List.mem_singleton.mpr rfl)
  | trailing e gap =>
    exact (hentry e (List.mem_singleton.mpr rfl)).append (hcomma.append (passes_gap hes.2 stack))
  | more e es ih =>
    have hrest := ih hes.2 (fun e' he' => hnodes e' (List.mem_cons_of_mem _ he'))
      fun e' he' => hentry e' (List.mem_cons_of_mem _ he')
    exact (hentry e List.mem_cons_self).append (hcomma.append hrest)

/-- A value is gone over. -/
theorem passes_node {n : Node} (hn : n.WellFormed) {stack : List Char} (hstack : stack ≠ []) :
    Passes stack n.text := by
  induction n using Node.induct generalizing stack with
  | word chars v =>
    have htext : Node.text (.word chars v) = chars := List.map_id _
    rw [htext]
    refine passes_chars (fun c hc => ?_) stack
    by_contra hno
    have hword := (readScalar_chars hn).2 c hc
    rw [Bool.not_eq_false] at hno
    unfold isDelimiter at hno
    simp only [Bool.or_eq_true, decide_eq_true_eq] at hno
    rcases hno with ((((heq | heq) | heq) | heq) | heq) | heq <;>
      exact isWordChar_ne hword (by decide) heq
  | str raw => exact passes_string hn stack
  | empty b gap =>
    intro cs
    have htext : Node.text (.empty b gap) ++ cs = b.opening :: (gap.text ++ b.closing :: cs) := by
      simp only [Node.text, Node.write, textStyle, List.cons_append, List.append_assoc,
        List.nil_append]
    rw [htext, matchFrom_opening, passes_gap hn, matchFrom_closing, if_neg hstack]
  | box b es ih =>
    intro cs
    have hes : EntriesWellFormed b es := hn
    have hentries := passes_entries hes fun e he =>
      ih e he (hes.entry e he).2.2.1 (List.cons_ne_nil b.closing stack)
    have htext : Node.text (.box b es) ++ cs =
        b.opening :: (writeEntries fullStyle es ++ b.closing :: cs) := by
      simp only [Node.text, Node.write, textStyle, List.cons_append, List.append_assoc,
        List.nil_append]
    rw [htext, matchFrom_opening, hentries, matchFrom_closing, if_neg hstack]

/-- The bracket that matches the opening one of a value is its closing one. -/
theorem matchingDelimiter_box {b : Bracket} {es : Entries} (hes : EntriesWellFormed b es)
    (rest : List Char) : matchingDelimiter (Node.text (.box b es) ++ rest) =
      .ok (b.closing :: rest) := by
  have hentries := passes_entries hes fun e he =>
    passes_node (hes.entry e he).2.2.1 (List.cons_ne_nil b.closing [])
  have htext : Node.text (.box b es) ++ rest =
      b.opening :: (writeEntries fullStyle es ++ b.closing :: rest) := by
    simp only [Node.text, Node.write, textStyle, List.cons_append, List.append_assoc,
      List.nil_append]
  have hopen : ∀ cs, matchingDelimiter (b.opening :: cs) = matchFrom 0 [b.closing] cs := by
    intro cs
    cases b <;> rfl
  rw [htext, hopen, hentries, matchFrom_closing, if_pos rfl]

theorem matchingDelimiter_empty {b : Bracket} {gap : Gap} (hgap : gap.WellFormed)
    (rest : List Char) : matchingDelimiter (Node.text (.empty b gap) ++ rest) =
      .ok (b.closing :: rest) := by
  have htext : Node.text (.empty b gap) ++ rest = b.opening :: (gap.text ++ b.closing :: rest) := by
    simp only [Node.text, Node.write, textStyle, List.cons_append, List.append_assoc,
      List.nil_append]
  have hopen : ∀ cs, matchingDelimiter (b.opening :: cs) = matchFrom 0 [b.closing] cs := by
    intro cs
    cases b <;> rfl
  rw [htext, hopen, passes_gap hgap, matchFrom_closing, if_pos rfl]

end Memplex
