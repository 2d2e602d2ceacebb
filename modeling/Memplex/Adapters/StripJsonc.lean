import Memplex.Lib.Jsonc.Pieces
import Memplex.Py.Loads

/-!
# Reading the configuration of a host

`_strip_jsonc` takes the comments and the commas in front of closing brackets out of a text, in
three passes that know little of strings: an expression that removes block comments wherever they
begin, a scanner that cuts each line at two slashes outside of its strings, where a line is one of
`str.splitlines`, and an expression that removes a comma wherever white space and a closing bracket
follow. The first pass takes exactly the block comments out of a document of which it mistakes no
string and no line comment (`dropBlocks_doc`).
-/

namespace Memplex

open Lib Lib.Json Lib.Jsonc

/-! ## Block comments -/

/-- The number of characters up to and with the end of a block comment. -/
def blockEnd : List Char → Option ℕ
  | [] => none
  | c :: cs => if c = '*' ∧ cs.head? = some '/' then some 2 else (blockEnd cs).map (· + 1)

/-- The number of characters of a block comment that begins a text. -/
def blockLength : List Char → Option ℕ
  | '/' :: '*' :: cs => (blockEnd cs).map (· + 2)
  | _ => none

/-- `re.sub(r"/\*.*?\*/", "", text, flags=re.DOTALL)`, with a number of characters to leave out. -/
def dropBlocks : ℕ → List Char → List Char
  | _, [] => []
  | n + 1, _ :: cs => dropBlocks n cs
  | 0, c :: cs => match blockLength (c :: cs) with
    | some n => dropBlocks (n - 1) cs
    | none => c :: dropBlocks 0 cs

/-! ## Line comments -/

/-- A character at which `str.splitlines` ends a line. -/
def isLineBreak (c : Char) : Bool :=
  c = '\n' || c = '\r' || c = '\x0b' || c = '\x0c' || c = '\x1c' || c = '\x1d' || c = '\x1e' ||
    c = '\u0085' || c = '\u2028' || c = '\u2029'

/-- A character in front of the first of some lines. -/
def consLine (c : Char) : List (List Char) → List (List Char)
  | [] => [[c]]
  | line :: lines => (c :: line) :: lines

/-- `text.splitlines()`. -/
def splitLines : List Char → List (List Char)
  | [] => []
  | c :: cs =>
    -- A carriage return in front of a line feed ends a line together with it.
    if c = '\r' ∧ cs.head? = some '\n' then splitLines cs
    else if isLineBreak c then [] :: splitLines cs
    else consLine c (splitLines cs)

/-- A line up to two slashes outside of its strings. -/
def cutLine : Bool → Bool → List Char → List Char
  | _, _, [] => []
  | inString, true, c :: cs => c :: cutLine inString false cs
  | inString, false, c :: cs =>
    if c = '\\' then c :: cutLine inString true cs
    else if c = '"' then c :: cutLine (!inString) false cs
    else if inString = false ∧ c = '/' ∧ cs.head? = some '/' then []
    else c :: cutLine inString false cs

/-- The lines of a text, cut and joined. -/
def cutLines (text : List Char) : List Char :=
  ['\n'].intercalate ((splitLines text).map (cutLine false false))

/-! ## Commas in front of closing brackets -/

/-- The characters of `\s`. -/
def isPySpace (c : Char) : Bool :=
  let n := c.toNat
  (9 ≤ n && n ≤ 13) || (28 ≤ n && n ≤ 32) || n = 0x85 || n = 0xa0 || n = 0x1680 ||
    (0x2000 ≤ n && n ≤ 0x200a) || n = 0x2028 || n = 0x2029 || n = 0x202f || n = 0x205f ||
    n = 0x3000

/-- White space and a closing bracket begin the text. -/
def closesNext (text : List Char) : Bool :=
  match text.dropWhile isPySpace with
  | c :: _ => c = ']' || c = '}'
  | [] => false

/-- `re.sub(r",(\s*[}\]])", r"\1", text)`. -/
def dropCommas : List Char → List Char
  | [] => []
  | c :: cs => if c = ',' ∧ closesNext cs = true then dropCommas cs else c :: dropCommas cs

/-- `_strip_jsonc`. -/
def stripJsonc (text : List Char) : List Char := dropCommas (cutLines (dropBlocks 0 text))

/-- `_read_json`, of a file that is there. -/
def readJson (text : List Char) : Except PyError Value :=
  if (loads text).isSome then jsonLoads text else jsonLoads (stripJsonc text)

/-! ## The first pass -/

/-- A block comment has an end. -/
theorem blockEnd_isSome {cs : List Char} : (blockEnd cs).isSome = true ↔ ['*', '/'] <:+: cs := by
  induction cs with
  | nil => simp [blockEnd]
  | cons c cs ih =>
    rw [blockEnd, List.infix_cons_iff]
    split_ifs with hend
    · obtain ⟨rfl, hhead⟩ := hend
      cases cs with
      | nil => cases hhead
      | cons d cs =>
        obtain rfl := Option.some.inj hhead
        exact ⟨fun _ => .inl ⟨cs, rfl⟩, fun _ => rfl⟩
    · rw [Option.isSome_map, ih]
      refine ⟨.inr, fun h => h.resolve_left fun hstart => hend ?_⟩
      obtain ⟨rest, heq⟩ := hstart
      obtain ⟨rfl, rfl⟩ := List.cons.inj heq
      exact ⟨rfl, rfl⟩

theorem blockEnd_eq_none {cs : List Char} (h : ¬ ['*', '/'] <:+: cs) : blockEnd cs = none := by
  rw [← blockEnd_isSome, Bool.not_eq_true, Option.isSome_eq_false_iff, Option.isNone_iff_eq_none]
    at h
  exact h

/-- The end of a block comment is the first one. -/
theorem blockEnd_append {cs : List Char} {n : ℕ} (h : blockEnd cs = some n) (rest : List Char) :
    blockEnd (cs ++ rest) = some n := by
  induction cs generalizing n with
  | nil => cases h
  | cons c cs ih =>
    rw [blockEnd] at h
    rw [List.cons_append, blockEnd]
    split_ifs at h with hend
    · obtain ⟨rfl, hhead⟩ := hend
      cases cs with
      | nil => cases hhead
      | cons d cs => rw [if_pos ⟨rfl, hhead⟩, h]
    · obtain ⟨m, hm, rfl⟩ := Option.map_eq_some_iff.mp h
      rw [if_neg, ih hm]
      · rfl
      · rintro ⟨rfl, hhead⟩
        cases cs with
        | nil => cases hm
        | cons d cs => exact hend ⟨rfl, hhead⟩

/-- The end of a block comment is within the text. -/
theorem blockEnd_le {cs : List Char} {n : ℕ} (h : blockEnd cs = some n) : n ≤ cs.length := by
  induction cs generalizing n with
  | nil => cases h
  | cons c cs ih =>
    rw [blockEnd] at h
    split_ifs at h with hend
    · have hne : cs ≠ [] := fun hnil => by simp [hnil] at hend
      obtain ⟨d, ds, rfl⟩ := List.exists_cons_of_ne_nil hne
      obtain rfl := Option.some.inj h
      simp
    · obtain ⟨m, hm, rfl⟩ := Option.map_eq_some_iff.mp h
      have hle := ih hm
      simp only [List.length_cons]
      omega

/-- The end of a comment of which the body is known. -/
theorem blockEnd_body {body : List Char} (h : ¬ ['*', '/'] <:+: body) (rest : List Char) :
    blockEnd (body ++ '*' :: '/' :: rest) = some (body.length + 2) := by
  induction body with
  | nil => rfl
  | cons c body ih =>
    have htail : ¬ ['*', '/'] <:+: body := fun h' => h (h'.trans (List.suffix_cons c body).isInfix)
    rw [List.cons_append, blockEnd, if_neg, ih htail]
    · rfl
    · -- Two characters of the comment do not end it, nor does its last one with the star behind it.
      rintro ⟨rfl, hhead⟩
      cases body with
      | nil => exact absurd (Option.some.inj hhead) (by decide)
      | cons d body =>
        obtain rfl : d = '/' := Option.some.inj hhead
        exact h ⟨[], body, rfl⟩

theorem dropBlocks_skip (n : ℕ) (cs : List Char) : dropBlocks n cs = dropBlocks 0 (cs.drop n) := by
  induction n generalizing cs with
  | zero => rfl
  | succ n ih =>
    cases cs with
    | nil => rfl
    | cons c cs => exact ih cs

/-- A character at which no comment begins stays. -/
theorem dropBlocks_keep {c : Char} {cs : List Char}
    (h : ∀ cs', c = '/' → cs = '*' :: cs' → ¬ ['*', '/'] <:+: cs') :
    dropBlocks 0 (c :: cs) = c :: dropBlocks 0 cs := by
  have hnone : blockLength (c :: cs) = none := by
    unfold blockLength
    split
    · next cs' heq =>
      obtain ⟨rfl, rfl⟩ := List.cons.inj heq
      rw [blockEnd_eq_none (h cs' rfl rfl)]
      rfl
    · rfl
  rw [dropBlocks, hnone]

/-- A block comment goes. -/
theorem dropBlocks_open {cs : List Char} {n : ℕ} (h : blockEnd cs = some n) :
    dropBlocks 0 ('/' :: '*' :: cs) = dropBlocks 0 (cs.drop n) := by
  rw [dropBlocks, blockLength, h]
  exact dropBlocks_skip _ _

/-- No block comment is opened in a string and closed behind. -/
def ClearString (raw rest : List Char) : Prop :=
  ∀ pre post, raw = pre ++ '/' :: '*' :: post → ¬ ['*', '/'] <:+: post ++ '"' :: rest

/-- No block comment is opened at the second slash of a line comment, and what is opened in its body
and closed at all is closed in it. -/
def ClearLine (body rest : List Char) : Prop :=
  (∀ post, body = '*' :: post → ¬ ['*', '/'] <:+: post ++ '\n' :: rest) ∧
    ∀ pre post, body = pre ++ '/' :: '*' :: post →
      ['*', '/'] <:+: post ∨ ¬ ['*', '/'] <:+: post ++ '\n' :: rest

/-- A string stays, where no comment is opened in it. -/
theorem dropBlocks_string {raw rest : List Char} (h : ClearString raw rest) :
    dropBlocks 0 ('"' :: (raw ++ '"' :: rest)) = '"' :: (raw ++ '"' :: dropBlocks 0 rest) := by
  have hquote : ∀ cs, dropBlocks 0 ('"' :: cs) = '"' :: dropBlocks 0 cs :=
    fun cs => dropBlocks_keep fun _ hc => absurd hc (by decide)
  have hraw : dropBlocks 0 (raw ++ '"' :: rest) = raw ++ dropBlocks 0 ('"' :: rest) := by
    induction raw with
    | nil => rfl
    | cons c raw ih =>
      rw [List.cons_append, dropBlocks_keep,
        ih fun pre post heq => h (c :: pre) post (by rw [heq]; rfl)]
      · rfl
      · rintro cs' rfl heq
        cases raw with
        | nil => exact absurd (List.cons.inj heq).1 (by decide)
        | cons d raw =>
          obtain ⟨rfl, rfl⟩ := List.cons.inj heq
          exact h [] raw rfl
  rw [hquote, hraw, hquote]

/-- The body of a line comment loses what is a block comment of its own. -/
theorem dropBlocks_body {nl : Char} (hslash : nl ≠ '/') (hstar : nl ≠ '*') {body rest : List Char}
    (h : ∀ pre post, body = pre ++ '/' :: '*' :: post →
      ['*', '/'] <:+: post ∨ ¬ ['*', '/'] <:+: post ++ nl :: rest) :
    dropBlocks 0 (body ++ nl :: rest) = dropBlocks 0 body ++ nl :: dropBlocks 0 rest := by
  induction hn : body.length using Nat.strong_induction_on generalizing body with
  | _ n ih =>
    subst hn
    have htail : ∀ {p post : List Char}, body = p ++ post → post.length < body.length →
        dropBlocks 0 (post ++ nl :: rest) = dropBlocks 0 post ++ nl :: dropBlocks 0 rest := by
      intro p post heq hlt
      refine ih post.length hlt (fun pre' post' heq' => h (p ++ pre') post' ?_) rfl
      rw [heq, heq', List.append_assoc]
    rcases body with _ | ⟨c, body⟩
    · exact dropBlocks_keep fun _ hc => absurd hc hslash
    · by_cases hopen : c = '/' ∧ ∃ post, body = '*' :: post
      · obtain ⟨rfl, post, rfl⟩ := hopen
        by_cases hend : ['*', '/'] <:+: post
        · -- The comment ends in the body, which goes on behind it.
          obtain ⟨m, hm⟩ := Option.isSome_iff_exists.mp (blockEnd_isSome.mpr hend)
          have hdrop : (post ++ nl :: rest).drop m = post.drop m ++ nl :: rest :=
            List.drop_append_of_le_length (blockEnd_le hm)
          rw [List.cons_append, List.cons_append, dropBlocks_open (blockEnd_append hm _),
            dropBlocks_open hm, hdrop]
          refine htail (p := '/' :: '*' :: post.take m) ?_ ?_
          · rw [List.cons_append, List.cons_append, List.take_append_drop]
          · simp only [List.length_drop, List.length_cons]
            omega
        · have hnever := (h [] post rfl).resolve_left hend
          have hslash : dropBlocks 0 ('/' :: '*' :: post) = '/' :: dropBlocks 0 ('*' :: post) := by
            refine dropBlocks_keep fun cs' _ heq => ?_
            rwa [← (List.cons.inj heq).2]
          rw [List.cons_append, dropBlocks_keep, htail (p := ['/']) rfl (Nat.lt_succ_self _),
            hslash]
          · rfl
          · intro cs' _ heq
            rwa [← (List.cons.inj heq).2]
      · have hkeep : ∀ tail : List Char, (∀ cs', tail = '*' :: cs' → ∃ post, body = '*' :: post) →
            dropBlocks 0 (c :: tail) = c :: dropBlocks 0 tail := by
          intro tail htail
          exact dropBlocks_keep fun cs' hc heq => absurd ⟨hc, htail cs' heq⟩ hopen
        rw [List.cons_append, hkeep, hkeep body fun cs' heq => ⟨cs', heq⟩,
          htail (p := [c]) rfl (Nat.lt_succ_self _)]
        · rfl
        · intro cs' heq
          cases body with
          | nil => exact absurd (List.cons.inj heq).1 hstar
          | cons d body => exact ⟨body, by rw [(List.cons.inj heq).1]⟩

/-- A character behind a text stays, where it ends no comment. -/
theorem dropBlocks_concat {nl : Char} (hslash : nl ≠ '/') (hstar : nl ≠ '*') (cs : List Char) :
    dropBlocks 0 (cs ++ [nl]) = dropBlocks 0 cs ++ [nl] := by
  have hnl : dropBlocks 0 [nl] = [nl] := dropBlocks_keep fun _ hc => absurd hc hslash
  refine (dropBlocks_body hslash hstar fun pre post _ => ?_).trans rfl
  by_cases hend : ['*', '/'] <:+: post
  · exact .inl hend
  · refine .inr fun h => ?_
    rcases List.infix_concat_iff.mp h with h | h
    · obtain ⟨pre, heq⟩ := h
      have hlast := congrArg List.getLast? heq
      rw [List.getLast?_append, List.getLast?_concat] at hlast
      exact hslash (Option.some.inj hlast).symm
    · exact hend h

/-- What the first pass leaves of a blank. -/
def cutBlocks : Blank → List Char
  | .space c => [c]
  | .line body => '/' :: '/' :: (dropBlocks 0 body ++ ['\n'])
  | .block _ => []

/-- The first pass mistakes nothing of the piece for a block comment, in front of `rest`. -/
def clearPiece (rest : List Char) : Piece → Prop
  | .str raw => ClearString raw rest
  | .blank (.line body) => ClearLine body rest
  | _ => True

/-- The first pass mistakes nothing for a block comment. -/
def ClearPieces : List Piece → Prop
  | [] => True
  | p :: ps => clearPiece (ps.flatMap Piece.text) p ∧ ClearPieces ps

/-- The form of a piece. -/
def formOf : Piece → Prop
  | .mark c => isMark c = true ∨ c = ','
  | .str raw => Quoted raw
  | .blank b => b.WellFormed

/-- The first pass takes the block comments out, and out of the line comments what looks like one.
-/
theorem dropBlocks_pieces {ps : List Piece} (hform : ∀ p ∈ ps, formOf p) (hclear : ClearPieces ps) :
    dropBlocks 0 (ps.flatMap Piece.text) = ps.flatMap (Piece.write cutBlocks) := by
  have hkeep : ∀ {c : Char} (cs : List Char), c ≠ '/' →
      dropBlocks 0 (c :: cs) = c :: dropBlocks 0 cs :=
    fun cs hc => dropBlocks_keep fun _ hc' => absurd hc' hc
  induction ps with
  | nil => rfl
  | cons p ps ih =>
    obtain ⟨hpiece, hrest⟩ := hclear
    have hp := hform p List.mem_cons_self
    have ih := ih (fun q hq => hform q (List.mem_cons_of_mem _ hq)) hrest
    rw [List.flatMap_cons, List.flatMap_cons, ← ih]
    match p with
    | .mark c =>
      refine hkeep _ ?_
      rintro rfl
      exact absurd (show isMark '/' = true ∨ '/' = ',' from hp) (by decide)
    | .str raw =>
      have hstring := dropBlocks_string hpiece
      simp only [Piece.text, Piece.write, List.cons_append, List.append_assoc, List.nil_append]
      exact hstring
    | .blank (.space c) =>
      refine hkeep _ ?_
      rintro rfl
      exact absurd (show isWs '/' = true from hp) (by decide)
    | .blank (.line body) =>
      obtain ⟨hsecond, hbody⟩ := hpiece
      have hslash : dropBlocks 0 ('/' :: '/' :: (body ++ '\n' :: ps.flatMap Piece.text)) =
          '/' :: '/' :: dropBlocks 0 (body ++ '\n' :: ps.flatMap Piece.text) := by
        rw [dropBlocks_keep, dropBlocks_keep]
        · intro cs' _ heq
          cases body with
          | nil => exact absurd (List.cons.inj heq).1 (by decide)
          | cons d body =>
            obtain ⟨rfl, rfl⟩ := List.cons.inj heq
            exact hsecond body rfl
        · exact fun _ _ heq => absurd (List.cons.inj heq).1 (by decide)
      simp only [Piece.text, Blank.text, Piece.write, cutBlocks, List.cons_append,
        List.append_assoc, List.nil_append]
      rw [hslash, dropBlocks_body (by decide) (by decide) hbody]
    | .blank (.block body) =>
      have hend := blockEnd_body hp (ps.flatMap Piece.text)
      have hdrop : (body ++ '*' :: '/' :: ps.flatMap Piece.text).drop (body.length + 2) =
          ps.flatMap Piece.text := by
        rw [← List.drop_drop, List.drop_left]
        rfl
      simp only [Piece.text, Blank.text, Piece.write, cutBlocks, List.cons_append,
        List.append_assoc, List.nil_append]
      rw [dropBlocks_open hend, hdrop]

/-- What the first pass leaves of a last line comment. -/
def cutCoda (d : Doc) : List Char := d.coda.elim [] fun body => '/' :: '/' :: dropBlocks 0 body

/-- What the first pass leaves of a document. -/
theorem dropBlocks_doc {d : Doc} (hd : d.WellFormed) (hclear : ClearPieces d.pieces) :
    dropBlocks 0 d.text = d.lead.flatMap cutBlocks ++
      (d.root.write (textStyle (fun gap => gap.flatMap cutBlocks) [',']) ++
        (d.trail.flatMap cutBlocks ++ cutCoda d)) := by
  have hform : ∀ p ∈ d.pieces, formOf p :=
    Doc.forall_pieces (fun _ h => h) (fun _ h => h) (fun _ h => h) hd
  have hpieces := dropBlocks_pieces hform hclear
  rw [Doc.flatMap_text, Doc.flatMap_pieces, Doc.close, List.flatMap_append] at hpieces
  unfold cutCoda
  cases hcoda : d.coda with
  | none =>
    rw [hcoda] at hpieces
    simpa only [Option.elim_none, List.append_nil, Option.map_none, Option.toList_none,
      List.flatMap_nil] using hpieces
  | some body =>
    rw [hcoda, Option.elim_some, dropBlocks_concat (by decide) (by decide)] at hpieces
    refine @List.append_cancel_right _ _ ['\n'] _ (hpieces.trans ?_)
    simp only [Option.map_some, Option.toList_some, List.flatMap_singleton, cutBlocks,
      Option.elim_some, List.append_assoc, List.cons_append]

end Memplex
