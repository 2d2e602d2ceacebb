import Memplex.Adapters.StripJsonc

/-!
# The second pass

The lines of a text, cut at two slashes and joined, are what a scanner makes of the text that goes
over it character by character (`cutLines_scan`). On what the first pass leaves of a document it
cuts exactly the line comments, where no string and no comment holds a character that ends a line
(`cutLines_doc`).
-/

namespace Memplex

open Lib Lib.Json Lib.Jsonc

/-! ## Character by character -/

/-- What a character within a line leaves, and how the line goes on: `none` in a comment, and
otherwise what `cutLine` knows of strings. -/
def scanChar (next : Option Char) (c : Char) :
    Option (Bool × Bool) → List Char × Option (Bool × Bool)
  | none => ([], none)
  | some (inString, true) => ([c], some (inString, false))
  | some (inString, false) =>
    if c = '\\' then ([c], some (inString, true))
    else if c = '"' then ([c], some (!inString, false))
    else if inString = false ∧ c = '/' ∧ next = some '/' then ([], none)
    else ([c], some (inString, false))

/-- The second pass over a text. -/
def scanLines (m : Option (Bool × Bool)) : List Char → List Char
  | [] => []
  | c :: cs =>
    if c = '\r' ∧ cs.head? = some '\n' then scanLines m cs
    else if isLineBreak c then '\n' :: scanLines (some (false, false)) cs
    else (scanChar cs.head? c m).1 ++ scanLines (scanChar cs.head? c m).2 cs

/-- A line from within. -/
def cutFrom : Option (Bool × Bool) → List Char → List Char
  | none, _ => []
  | some (inString, escaped), line => cutLine inString escaped line

/-- The lines, of which the first is cut from within. -/
def joinLines (m : Option (Bool × Bool)) : List (List Char) → List Char
  | [] => []
  | line :: lines => ['\n'].intercalate (cutFrom m line :: lines.map (cutLine false false))

theorem cutLines_eq (text : List Char) :
    cutLines text = joinLines (some (false, false)) (splitLines text) := by
  unfold cutLines
  cases splitLines text <;> rfl

/-- The line feed that `join` leaves out where the text ends with its last line. -/
def lastBreak (text : List Char) : List Char :=
  if text.getLast?.any isLineBreak = true then ['\n'] else []

theorem lastBreak_cons (c : Char) {cs : List Char} (h : cs ≠ []) :
    lastBreak (c :: cs) = lastBreak cs := by
  obtain ⟨d, ds, rfl⟩ := List.exists_cons_of_ne_nil h
  unfold lastBreak
  rw [List.getLast?_cons_cons]

theorem cutFrom_nil (m : Option (Bool × Bool)) : cutFrom m [] = [] := by
  match m with
  | none => rfl
  | some (_, false) => rfl
  | some (_, true) => rfl

theorem cutFrom_cons (m : Option (Bool × Bool)) (c : Char) {line cs : List Char}
    (h : line.head? = some '/' ↔ cs.head? = some '/') :
    cutFrom m (c :: line) =
      (scanChar cs.head? c m).1 ++ cutFrom (scanChar cs.head? c m).2 line := by
  match m with
  | none => rfl
  | some (inString, true) => rfl
  | some (inString, false) =>
    rw [cutFrom, cutLine, scanChar]
    simp only [h]
    split_ifs <;> rfl

/-- A line that ends is joined with the lines behind it. -/
theorem joinLines_break (m : Option (Bool × Bool)) {lines : List (List Char)} (h : lines ≠ []) :
    joinLines m ([] :: lines) = '\n' :: joinLines (some (false, false)) lines := by
  obtain ⟨line, lines, rfl⟩ := List.exists_cons_of_ne_nil h
  rw [joinLines, cutFrom_nil, List.map_cons, List.intercalate_cons_cons]
  rfl

theorem splitLines_eq_nil {cs : List Char} : splitLines cs = [] ↔ cs = [] := by
  induction cs with
  | nil => exact ⟨fun _ => rfl, fun _ => rfl⟩
  | cons c cs ih =>
    refine ⟨fun h => ?_, fun h => absurd h (List.cons_ne_nil _ _)⟩
    rw [splitLines] at h
    split_ifs at h with hcr hbreak
    · obtain ⟨-, hhead⟩ := hcr
      rw [ih.mp h] at hhead
      cases hhead
    · cases hlines : splitLines cs <;> rw [hlines] at h <;> cases h

/-- A line begins with two slashes where the text does. -/
theorem splitLines_slash {cs line : List Char} {lines : List (List Char)}
    (h : splitLines cs = line :: lines) : line.head? = some '/' ↔ cs.head? = some '/' := by
  cases cs with
  | nil => cases h
  | cons c cs =>
    rw [splitLines] at h
    split_ifs at h with hcr hbreak
    · -- The line is empty, since a line feed follows.
      obtain ⟨rfl, hhead⟩ := hcr
      obtain ⟨rest, rfl⟩ : ∃ rest, cs = '\n' :: rest := by
        cases cs with
        | nil => cases hhead
        | cons d cs => exact ⟨cs, by rw [Option.some.inj hhead]⟩
      rw [splitLines, if_neg (fun hc => absurd hc.1 (by decide)), if_pos (by decide)] at h
      obtain ⟨rfl, -⟩ := List.cons.inj h
      simp
    · obtain ⟨rfl, -⟩ := List.cons.inj h
      refine ⟨fun hnil => (Option.some_ne_none _ hnil.symm).elim, fun hc => ?_⟩
      rw [show c = '/' from Option.some.inj hc] at hbreak
      exact absurd hbreak (by decide)
    · cases hlines : splitLines cs <;> rw [hlines] at h <;> obtain ⟨rfl, -⟩ := List.cons.inj h <;>
        rfl

/-- A character within a line. -/
theorem joinLines_cons {m n : Option (Bool × Bool)} {p : List Char} {c : Char} {cs : List Char}
    (h : ∀ line, (line.head? = some '/' ↔ cs.head? = some '/') →
      cutFrom m (c :: line) = p ++ cutFrom n line) :
    joinLines m (consLine c (splitLines cs)) = p ++ joinLines n (splitLines cs) := by
  cases hlines : splitLines cs with
  | nil =>
    obtain rfl := splitLines_eq_nil.mp hlines
    have hone := h [] Iff.rfl
    rw [cutFrom_nil] at hone
    simpa only [consLine, joinLines, List.map_nil, List.intercalate_singleton] using hone
  | cons line lines =>
    have hline := h line (splitLines_slash hlines)
    cases lines with
    | nil => simpa only [consLine, joinLines, List.map_nil, List.intercalate_singleton] using hline
    | cons next lines =>
      simp only [consLine, joinLines, List.map_cons, List.intercalate_cons_cons, hline,
        List.append_assoc]

/-- The scanner makes of a text what the second pass makes of it, and a line feed where the text
ends with one. -/
theorem scanLines_eq (m : Option (Bool × Bool)) (cs : List Char) :
    scanLines m cs = joinLines m (splitLines cs) ++ lastBreak cs := by
  induction cs generalizing m with
  | nil => rfl
  | cons c cs ih =>
    rw [scanLines, splitLines]
    split_ifs with hcr hbreak
    · obtain ⟨-, hhead⟩ := hcr
      have hne : cs ≠ [] := fun hnil => by rw [hnil] at hhead; cases hhead
      rw [ih, lastBreak_cons c hne]
    · rw [ih]
      cases cs with
      | nil =>
        have hlast : lastBreak [c] = ['\n'] := if_pos hbreak
        rw [hlast]
        simp only [splitLines, joinLines, cutFrom_nil, List.map_nil, List.intercalate_singleton]
        rfl
      | cons d cs =>
        have hlines : splitLines (d :: cs) ≠ [] := fun h =>
          absurd (splitLines_eq_nil.mp h) (List.cons_ne_nil _ _)
        rw [joinLines_break m hlines, lastBreak_cons c (List.cons_ne_nil _ _)]
        rfl
    · have hlast : lastBreak (c :: cs) = lastBreak cs := by
        cases cs with
        | nil =>
          have hnone : lastBreak [c] = [] := if_neg hbreak
          rw [hnone]
          rfl
        | cons d cs => exact lastBreak_cons c (List.cons_ne_nil _ _)
      rw [hlast]
      rw [joinLines_cons fun line hline => cutFrom_cons m c hline, ih, List.append_assoc]

theorem cutLines_scan (text : List Char) :
    scanLines (some (false, false)) text = cutLines text ++ lastBreak text := by
  rw [cutLines_eq]
  exact scanLines_eq _ text

/-! ## The pieces of a document -/

/-- Outside of comments and strings. -/
abbrev between : Option (Bool × Bool) := some (false, false)

/-- A character that ends a line is none of the others of the grammar. -/
theorem isLineBreak_ne {c d : Char} (hc : isLineBreak c = false) (hd : isLineBreak d = true) :
    c ≠ d := by
  rintro rfl
  rw [hc] at hd
  cases hd

/-- A character within a line. -/
theorem scanLines_within {m : Option (Bool × Bool)} {c : Char} (hc : isLineBreak c = false)
    (cs : List Char) : scanLines m (c :: cs) =
      (scanChar cs.head? c m).1 ++ scanLines (scanChar cs.head? c m).2 cs := by
  rw [scanLines, if_neg fun h => isLineBreak_ne hc (by decide) h.1, if_neg (by rw [hc]; decide)]

/-- A character between comments and strings. -/
theorem scanLines_between {c : Char} (hc : isLineBreak c = false) (hesc : c ≠ '\\')
    (hquote : c ≠ '"') (hslash : c ≠ '/') (cs : List Char) :
    scanLines between (c :: cs) = c :: scanLines between cs := by
  have hchar : scanChar cs.head? c between = ([c], between) := by
    rw [scanChar, if_neg hesc, if_neg hquote, if_neg fun h => hslash h.2.1]
  rw [scanLines_within hc, hchar]
  rfl

theorem isMark_ne {c d : Char} (hc : isMark c = true) (hd : isMark d = false) : c ≠ d := by
  rintro rfl
  rw [hc] at hd
  cases hd

theorem isLineBreak_of_isMark {c : Char} (h : isMark c = true) : isLineBreak c = false := by
  by_contra hbreak
  rw [Bool.not_eq_false] at hbreak
  unfold isLineBreak at hbreak
  simp only [Bool.or_eq_true, decide_eq_true_eq] at hbreak
  rcases hbreak with ((((((((h' | h') | h') | h') | h') | h') | h') | h') | h') | h' <;>
    exact isMark_ne h (by decide) h'

theorem scanLines_mark {c : Char} (h : isMark c = true) (cs : List Char) :
    scanLines between (c :: cs) = c :: scanLines between cs :=
  scanLines_between (isLineBreak_of_isMark h) (isMark_ne h (by decide)) (isMark_ne h (by decide))
    (isMark_ne h (by decide)) cs

theorem scanLines_comma (cs : List Char) :
    scanLines between (',' :: cs) = ',' :: scanLines between cs :=
  scanLines_between (by decide) (by decide) (by decide) (by decide) cs

/-- A string without a character that ends a line stays. -/
theorem scanLines_string {raw : List Char} (hraw : Quoted raw)
    (hlines : ∀ c ∈ raw, isLineBreak c = false) : Keeps (scanLines between) raw := by
  intro cs
  have hinside : ∀ (escaped : Bool), staysOpen escaped raw = true →
      scanLines (some (true, escaped)) (raw ++ '"' :: cs) =
        raw ++ scanLines (some (true, false)) ('"' :: cs) := by
    clear hraw
    induction raw with
    | nil =>
      intro escaped hopen
      cases escaped with
      | false => rfl
      | true => cases hopen
    | cons c raw ih =>
      intro escaped hopen
      have hc := hlines c List.mem_cons_self
      have ih := ih fun d hd => hlines d (List.mem_cons_of_mem _ hd)
      cases escaped with
      | true =>
        rw [List.cons_append, scanLines_within hc, scanChar, ih false hopen]
        rfl
      | false =>
        rw [staysOpen] at hopen
        rw [List.cons_append, scanLines_within hc, scanChar]
        split_ifs at hopen ⊢ with hesc hquote
        · rw [ih true hopen]
          rfl
        · rw [hquote] at hopen
          cases hopen
        · rename_i h
          exact absurd h.1 (by decide)
        · rw [Bool.and_eq_true] at hopen
          rw [ih false hopen.2]
          rfl
  rw [scanLines_within (by decide), scanChar, if_neg (by decide), if_pos rfl, Bool.not_false,
    hinside false hraw, scanLines_within (by decide), scanChar, if_neg (by decide), if_pos rfl]
  rfl

/-- What is between two slashes and the line feed goes. -/
theorem scanLines_comment {body : List Char} (hcr : '\r' ∉ body.dropLast)
    (hlines : ∀ c ∈ body, isLineBreak c = true → c = '\r') (cs : List Char) :
    scanLines none (body ++ '\n' :: cs) = '\n' :: scanLines between cs := by
  induction body with
  | nil => rfl
  | cons c body ih =>
    have ih := ih (fun h => hcr (by cases body with
      | nil => exact absurd h List.not_mem_nil
      | cons d body => exact List.mem_cons_of_mem _ h))
      fun d hd => hlines d (List.mem_cons_of_mem _ hd)
    by_cases hbreak : isLineBreak c = true
    · -- A carriage return can only be the last character.
      obtain rfl := hlines c List.mem_cons_self hbreak
      cases body with
      | nil => rfl
      | cons d body => exact absurd List.mem_cons_self hcr
    · rw [List.cons_append, scanLines_within (Bool.eq_false_of_not_eq_true hbreak), scanChar, ih]
      rfl

/-- What is behind two slashes at the end goes; a carriage return ends a line there too. -/
theorem scanLines_last {body : List Char} (hcr : '\r' ∉ body.dropLast)
    (hlines : ∀ c ∈ body, isLineBreak c = true → c = '\r') :
    ∀ c ∈ scanLines none body, isWs c = true := by
  induction body with
  | nil => exact fun _ hc => absurd hc List.not_mem_nil
  | cons c body ih =>
    have ih := ih (fun h => hcr (by cases body with
      | nil => exact absurd h List.not_mem_nil
      | cons d body => exact List.mem_cons_of_mem _ h))
      fun d hd => hlines d (List.mem_cons_of_mem _ hd)
    by_cases hbreak : isLineBreak c = true
    · obtain rfl := hlines c List.mem_cons_self hbreak
      cases body with
      | nil =>
        have hlast : scanLines none ['\r'] = ['\n'] := by decide
        rw [hlast]
        decide
      | cons d body => exact absurd List.mem_cons_self hcr
    · rw [scanLines_within (Bool.eq_false_of_not_eq_true hbreak), scanChar]
      exact ih

/-- The first pass adds nothing. -/
theorem dropBlocks_subset (n : ℕ) (cs : List Char) : dropBlocks n cs ⊆ cs := by
  induction cs generalizing n with
  | nil => cases n <;> exact List.Subset.refl _
  | cons c cs ih =>
    cases n with
    | zero =>
      rw [dropBlocks]
      cases blockLength (c :: cs) with
      | none => exact List.cons_subset_cons c (ih 0)
      | some n => exact List.subset_cons_of_subset c (ih _)
    | succ n => exact List.subset_cons_of_subset c (ih n)

/-- A last carriage return stays the last one. -/
theorem dropBlocks_return {body : List Char} (h : '\r' ∉ body.dropLast) :
    '\r' ∉ (dropBlocks 0 body).dropLast := by
  rcases List.eq_nil_or_concat body with rfl | ⟨start, c, rfl⟩
  · exact h
  · rw [List.concat_eq_append, List.dropLast_concat] at h
    rw [List.concat_eq_append]
    by_cases hc : c = '\r'
    · rw [hc, dropBlocks_concat (by decide) (by decide), List.dropLast_concat]
      exact fun hmem => h (dropBlocks_subset 0 start hmem)
    · intro hmem
      rcases List.mem_append.mp (dropBlocks_subset 0 _ (List.mem_of_mem_dropLast hmem)) with hm | hm
      · exact h hm
      · exact hc (List.mem_singleton.mp hm).symm

/-- No character of a line comment ends a line, a carriage return in front of its end apart. -/
def LineBody (body : List Char) : Prop :=
  '\r' ∉ body.dropLast ∧ ∀ c ∈ body, isLineBreak c = true → c = '\r'

instance (body : List Char) : Decidable (LineBody body) := by unfold LineBody; infer_instance

/-- The lexical form of a blank, of which a line comment is one line. -/
def OneLine : Blank → Prop
  | .line body => (Blank.line body).WellFormed ∧ LineBody body
  | b => b.WellFormed

/-- What the second pass leaves of what the first left of a blank; `next` says that a line feed
follows. -/
def cutBlank (next : Bool) : Blank → List Char
  | .space c =>
    if isLineBreak c = true then (if c = '\r' ∧ next = true then [] else ['\n']) else [c]
  | .line _ => ['\n']
  | .block _ => []

/-- What the two passes leave of a gap. -/
def cutGap : Gap → List Char
  | [] => []
  | b :: gap => cutBlank ((gap.flatMap cutBlocks).head? = some '\n') b ++ cutGap gap

theorem writesWs_cutGap {gap : Gap} (h : gap.WellFormed) : ∀ c ∈ cutGap gap, isWs c = true := by
  induction gap with
  | nil => exact fun _ hc => absurd hc List.not_mem_nil
  | cons b gap ih =>
    intro c hc
    rcases List.mem_append.mp hc with hc | hc
    · match b with
      | .space d =>
        rw [cutBlank] at hc
        split_ifs at hc
        · exact absurd hc List.not_mem_nil
        · rw [List.mem_singleton.mp hc]
          decide
        · rw [List.mem_singleton.mp hc]
          exact h (.space d) List.mem_cons_self
      | .line body =>
        rw [List.mem_singleton.mp hc]
        decide
      | .block body => exact absurd hc List.not_mem_nil
    · exact ih (fun b' hb' => h b' (List.mem_cons_of_mem _ hb')) c hc

/-- The second pass over a blank. -/
theorem scanLines_blank {b : Blank} (h : OneLine b) (cs : List Char) :
    scanLines between (cutBlocks b ++ cs) =
      cutBlank (cs.head? = some '\n') b ++ scanLines between cs := by
  match b with
  | .space c =>
    rw [cutBlocks, cutBlank, List.singleton_append]
    by_cases hbreak : isLineBreak c = true
    · rw [if_pos hbreak, scanLines]
      by_cases hcr : c = '\r' ∧ cs.head? = some '\n'
      · rw [if_pos hcr, if_pos ⟨hcr.1, decide_eq_true hcr.2⟩]
        rfl
      · rw [if_neg hcr, if_pos hbreak, if_neg fun h => hcr ⟨h.1, of_decide_eq_true h.2⟩]
        rfl
    · have hws : isWs c = true := h
      have hne : ∀ {d : Char}, isWs d = false → c ≠ d := by
        rintro d hd rfl
        rw [hws] at hd
        cases hd
      rw [if_neg hbreak, scanLines_between (Bool.eq_false_of_not_eq_true hbreak)
        (hne (by decide)) (hne (by decide)) (hne (by decide))]
      rfl
  | .line body =>
    obtain ⟨-, hcr, hlines⟩ := h
    have hcomment := scanLines_comment (dropBlocks_return hcr)
      (fun c hc => hlines c (dropBlocks_subset 0 body hc)) cs
    simp only [cutBlocks, List.cons_append, List.append_assoc, List.nil_append]
    rw [scanLines_within (by decide), scanChar, if_neg (by decide), if_neg (by decide),
      if_pos ⟨rfl, rfl, rfl⟩, scanLines_within (by decide), scanChar, hcomment]
    rfl
  | .block body => rfl

/-- The second pass over a gap, where no line feed follows. -/
theorem scanLines_gap {gap : Gap} (h : ∀ b ∈ gap, OneLine b) {cs : List Char}
    (hcs : cs.head? ≠ some '\n') :
    scanLines between (gap.flatMap cutBlocks ++ cs) = cutGap gap ++ scanLines between cs := by
  induction gap with
  | nil => rfl
  | cons b gap ih =>
    have ih := ih fun b' hb' => h b' (List.mem_cons_of_mem _ hb')
    have hhead : (gap.flatMap cutBlocks ++ cs).head? = some '\n' ↔
        (gap.flatMap cutBlocks).head? = some '\n' := by
      cases gap.flatMap cutBlocks with
      | nil => exact ⟨fun h => absurd h hcs, fun h => by cases h⟩
      | cons d ds => exact Iff.rfl
    rw [List.flatMap_cons, List.append_assoc, scanLines_blank (h b List.mem_cons_self), ih, cutGap,
      List.append_assoc, decide_eq_decide.mpr hhead]

/-- The second pass is a pass over the text. -/
theorem pass_scanLines : Pass (scanLines between) OneLine (fun gap => gap.flatMap cutBlocks) cutGap
    [','] where
  mark _ cs hc := scanLines_mark hc cs
  gap gap c cs hgap hc := by
    refine scanLines_gap hgap ?_
    rintro heq
    rw [Option.some.inj heq] at hc
    exact absurd hc (by decide)
  more _ _ _ _ := scanLines_comma _
  trailing _ _ _ _ := scanLines_comma _

/-! ## Documents -/

theorem OneLine.wellFormed {b : Blank} (h : OneLine b) : b.WellFormed := by
  match b with
  | .space _ => exact h
  | .line _ => exact h.1
  | .block _ => exact h

/-- What the second pass asks of a piece, in its lexical form. -/
def keepsLines : Piece → Prop
  | .mark _ => True
  | .str raw => Quoted raw ∧ ∀ c ∈ raw, isLineBreak c = false
  | .blank b => OneLine b

theorem keepsLines.suits {p : Piece} (h : keepsLines p) :
    Suits (scanLines between) OneLine p := by
  match p with
  | .mark _ => trivial
  | .str raw => exact scanLines_string h.1 h.2
  | .blank _ => exact h

/-- The pieces of a document that stand in front of its value, in its value and behind. -/
theorem Doc.pieces_cases {d : Doc} {P : Piece → Prop} (h : ∀ p ∈ d.pieces, P p) :
    (∀ b ∈ d.lead, P (.blank b)) ∧ (∀ p ∈ d.root.pieces, P p) ∧ ∀ b ∈ d.close, P (.blank b) := by
  refine ⟨fun b hb => h _ ?_, fun p hp => h _ ?_, fun b hb => h _ ?_⟩
  · exact List.mem_append_left _ (List.mem_map_of_mem hb)
  · exact List.mem_append_right _ (List.mem_append_left _ hp)
  · exact List.mem_append_right _ (List.mem_append_right _ (List.mem_map_of_mem hb))

/-- The second pass over what stands behind the value leaves white space. -/
theorem scanLines_close {d : Doc} (h : ∀ b ∈ d.close, OneLine b) :
    ∀ c ∈ scanLines between (d.trail.flatMap cutBlocks ++ cutCoda d), isWs c = true := by
  have htrail : ∀ b ∈ d.trail, OneLine b := fun b hb => h b (List.mem_append_left _ hb)
  have hgap : ∀ c ∈ cutGap d.trail, isWs c = true :=
    writesWs_cutGap fun b hb => (htrail b hb).wellFormed
  unfold cutCoda
  cases hcoda : d.coda with
  | none =>
    rw [Option.elim_none, @scanLines_gap d.trail htrail [] (fun h => by cases h)]
    intro c hc
    rcases List.mem_append.mp hc with hc | hc
    · exact hgap c hc
    · exact absurd hc List.not_mem_nil
  | some body =>
    obtain ⟨-, hcr, hlines⟩ : OneLine (.line body) :=
      h _ (List.mem_append_right _ (by rw [hcoda]; exact List.mem_singleton.mpr rfl))
    have hlast : scanLines between ('/' :: '/' :: dropBlocks 0 body) =
        scanLines none (dropBlocks 0 body) := by
      rw [scanLines_within (by decide), scanChar, if_neg (by decide), if_neg (by decide),
        if_pos ⟨rfl, rfl, rfl⟩, scanLines_within (by decide), scanChar]
      rfl
    have hws := scanLines_last (dropBlocks_return hcr)
      fun c hc => hlines c (dropBlocks_subset 0 body hc)
    rw [Option.elim_some, scanLines_gap htrail (by simp), hlast]
    intro c hc
    rcases List.mem_append.mp hc with hc | hc
    · exact hgap c hc
    · exact hws c hc

/-- What the second pass leaves of what the first left of a document. -/
theorem cutLines_doc {d : Doc} (hd : d.WellFormed) (h : ∀ p ∈ d.pieces, keepsLines p) :
    ∃ trail, (∀ c ∈ trail, isWs c = true) ∧
      cutLines (d.lead.flatMap cutBlocks ++
        (d.root.write (textStyle (fun gap => gap.flatMap cutBlocks) [',']) ++
          (d.trail.flatMap cutBlocks ++ cutCoda d))) =
      cutGap d.lead ++ (d.root.write (textStyle cutGap [',']) ++ trail) := by
  obtain ⟨hlead, hroot, hclose⟩ := Doc.pieces_cases h
  set tail := d.trail.flatMap cutBlocks ++ cutCoda d with htail
  set text := d.lead.flatMap cutBlocks ++
    (d.root.write (textStyle (fun gap => gap.flatMap cutBlocks) [',']) ++ tail) with htext
  have hws := scanLines_close hclose
  rw [← htail] at hws
  set trail := scanLines between tail
  have hscan : cutLines text ++ lastBreak text =
      cutGap d.lead ++ (d.root.write (textStyle cutGap [',']) ++ trail) := by
    have hnode := pass_scanLines.node hd.root (fun p hp => (hroot p hp).suits) tail
    obtain ⟨c, cs, hstart, hc⟩ := (Node.starts (g := fun gap => gap.flatMap cutBlocks) (k := [','])
      hd.root).append tail
    have hne : (c :: cs).head? ≠ some '\n' := by
      intro heq
      rw [Option.some.inj heq] at hc
      exact absurd hc (by decide)
    rw [← cutLines_scan, htext, hstart, scanLines_gap hlead hne, ← hstart, hnode]
  by_cases hlast : text.getLast?.any isLineBreak = true
  · -- The line feed that is left out stands behind the value.
    rw [lastBreak, if_pos hlast] at hscan
    rcases List.eq_nil_or_concat trail with hnil | ⟨start, c, hconcat⟩
    · obtain ⟨start, c, hend, hc⟩ := Node.ends (g := cutGap) (k := [',']) hd.root
      rw [hnil, List.append_nil, hend, ← List.append_assoc] at hscan
      have hnl := congrArg List.getLast? hscan
      rw [List.getLast?_concat, List.getLast?_concat] at hnl
      rw [← Option.some.inj hnl] at hc
      exact absurd hc (by decide)
    · rw [List.concat_eq_append] at hconcat
      refine ⟨start, fun c' hc' => hws c' (hconcat ▸ List.mem_append_left _ hc'), ?_⟩
      rw [hconcat, ← List.append_assoc, ← List.append_assoc] at hscan
      rw [(List.append_inj' hscan rfl).1, List.append_assoc]
  · rw [lastBreak, if_neg hlast, List.append_nil] at hscan
    exact ⟨_, hws, hscan⟩

end Memplex
