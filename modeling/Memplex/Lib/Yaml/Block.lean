import Memplex.Lib.Yaml.Scalar

/-!
# Block mappings of YAML

The part of the language in which each line of a mapping has a key, a colon, a blank, and a number
or a double-quoted scalar that ends on its line. `ReadsBlocks` says of a loader what the language
says of such a mapping; what it makes of other texts stays open. `readBlock` is a loader for nothing
else.
-/

namespace Memplex.Lib.Yaml

open Json Jsonc

/-- The scalar stands on one line, whether or not the separators that are read as themselves end
lines: no blank is beside one, and no backslash or document marker. -/
def OnOneLine (raw : List Char) : Prop :=
  (∀ c ∈ raw, isLineFeed c = false) ∧
    ∀ start c rest, raw = start ++ c :: rest → isSeparator c = true →
      (∀ b ∈ start.getLast?, isBlank b = false ∧ b ≠ '\\') ∧ (∀ b ∈ rest.head?, isBlank b = false) ∧
        ¬ ['-', '-', '-'] <+: rest ∧ ¬ ['.', '.', '.'] <+: rest

/-- A text without line breaks of either kind stands on one line. -/
theorem OnOneLine.of_plain {raw : List Char} (hfeed : ∀ c ∈ raw, isLineFeed c = false)
    (hsep : ∀ c ∈ raw, isSeparator c = false) : OnOneLine raw := by
  refine ⟨hfeed, fun start c rest heq hc => ?_⟩
  have hmem : c ∈ raw := heq ▸ List.mem_append_right _ List.mem_cons_self
  rw [hsep c hmem] at hc
  cases hc

/-- A number, as a scalar without quotes: a sign, a letter or a digit, and more of a number, with no
more than the sign of an exponent, so that it is no date. -/
structure Numeral where
  neg : Bool
  lead : Char
  rest : List Char
  lead_plain : lead.isAlphanum = true
  rest_plain : ∀ c ∈ rest, c.isAlphanum = true ∨ c = '.' ∨ c = '+' ∨ c = '-'
  rest_sign : rest.countP (fun c => c = '+' || c = '-') ≤ 1
  rest_short : rest.length ≤ 32

/-- The text of a number. -/
def Numeral.text (n : Numeral) : List Char := (if n.neg then ['-'] else []) ++ n.lead :: n.rest

/-- The value of a key. -/
inductive Scalar where
  /-- What stands between two double quotes. -/
  | quoted (raw : List Char)
  | number (n : Numeral)

/-- The text of a value. -/
def Scalar.text : Scalar → List Char
  | quoted raw => '"' :: (raw ++ ['"'])
  | number n => n.text

/-- The scalar ends on its line. -/
def Scalar.WellFormed : Scalar → Prop
  | quoted raw => Quoted raw ∧ OnOneLine raw
  | number _ => True

/-- A line of a mapping. -/
structure Line where
  key : List Char
  scalar : Scalar

/-- The text of a line. -/
def Line.text (l : Line) : List Char := l.key ++ ':' :: ' ' :: l.scalar.text

/-- The words in small letters that are read as something other than a text. -/
def wordsOfOther : List (List Char) :=
  [['n', 'u', 'l', 'l'], ['t', 'r', 'u', 'e'], ['f', 'a', 'l', 's', 'e'], ['y', 'e', 's'],
    ['n', 'o'], ['o', 'n'], ['o', 'f', 'f'], ['y'], ['n']]

/-- A short key of small letters and underscores that is read as a text. -/
def IsKey (key : List Char) : Prop :=
  key ≠ [] ∧ (∀ c ∈ key, c.isLower = true ∨ c = '_') ∧ key ∉ wordsOfOther ∧ key.length < 1024

instance (key : List Char) : Decidable (IsKey key) :=
  have := List.decidableBAll (fun c : Char => c.isLower = true ∨ c = '_') key
  inferInstanceAs (Decidable (key ≠ [] ∧ (∀ c ∈ key, c.isLower = true ∨ c = '_') ∧
    key ∉ wordsOfOther ∧ key.length < 1024))

/-- The lines of a mapping. -/
structure Block where
  lines : List Line
  key : ∀ l ∈ lines, IsKey l.key
  nodup : (lines.map Line.key).Nodup
  wellFormed : ∀ l ∈ lines, l.scalar.WellFormed

/-- The text of some lines, with a line feed in front of each. -/
def linesText (ls : List Line) : List Char := ls.flatMap fun l => '\n' :: l.text

/-- The text of a mapping. -/
def Block.text (b : Block) : List Char := linesText b.lines

/-- What a loader makes of block mappings: `load` gives the mapping that a text is read as, and
`textAt` the text that a mapping has under a key. -/
structure ReadsBlocks {μ : Type} (load : List Char → Option μ)
    (textAt : μ → List Char → Option (List Char)) : Prop where
  /-- Where every scalar says something, the mapping has it. -/
  reads : ∀ b : Block, (∀ c ∈ b.text, isPrintable c = true) →
    (∀ key raw, ⟨key, .quoted raw⟩ ∈ b.lines → (scalarText 0 raw).isSome = true) →
    ∃ m, load b.text = some m ∧
      ∀ key raw, ⟨key, .quoted raw⟩ ∈ b.lines → textAt m key = scalarText 0 raw
  /-- Where a scalar says nothing, no mapping has a text in its place. -/
  lacks : ∀ (b : Block) m, load b.text = some m →
    ∀ key raw, ⟨key, .quoted raw⟩ ∈ b.lines → scalarText 0 raw = none → textAt m key = none
  /-- A stream holds printable characters. -/
  refuses : ∀ b : Block, ∀ c ∈ b.text, isPrintable c = false → load b.text = none

section ReadsBlocks

variable {μ : Type} {load : List Char → Option μ} {textAt : μ → List Char → Option (List Char)}

/-- A mapping with a text under every quoted key was read from printable characters, and has what
the scalars say. -/
theorem ReadsBlocks.textAt_eq (h : ReadsBlocks load textAt) {b : Block} {m : μ}
    (hload : load b.text = some m)
    (htexts : ∀ key raw, ⟨key, .quoted raw⟩ ∈ b.lines →
      (textAt m key).isSome = true ∨ (scalarText 0 raw).isSome = true) :
    (∀ c ∈ b.text, isPrintable c = true) ∧
      ∀ key raw, ⟨key, .quoted raw⟩ ∈ b.lines → textAt m key = scalarText 0 raw := by
  have hprint : ∀ c ∈ b.text, isPrintable c = true := by
    intro c hc
    by_contra hno
    rw [h.refuses b c hc (Bool.eq_false_of_not_eq_true hno)] at hload
    cases hload
  have hsome : ∀ key raw, ⟨key, .quoted raw⟩ ∈ b.lines → (scalarText 0 raw).isSome = true := by
    intro key raw hl
    rcases htexts key raw hl with htext | hscalar
    · by_contra hno
      rw [Option.not_isSome_iff_eq_none] at hno
      rw [h.lacks b m hload key raw hl hno] at htext
      cases htext
    · exact hscalar
  obtain ⟨m', hload', htexts'⟩ := h.reads b hprint hsome
  obtain rfl : m = m' := Option.some.inj (hload.symm.trans hload')
  exact ⟨hprint, htexts'⟩

end ReadsBlocks

/-! ## A loader -/

/-- What a line says: its key, and a text or a number. -/
abbrev Row := List Char × (List Char ⊕ List Char)

/-- The key of a line, and what its scalar says. -/
def readLine (line : List Char) : Option Row :=
  let key := line.takeWhile fun c => c ≠ ':'
  let value := line.drop (key.length + 2)
  if value.head? = some '"' then
    (scalarText 0 value.tail.dropLast).map fun text => (key, .inl text)
  else some (key, .inr value)

/-- The lines of a mapping, in their order. -/
def readBlock (text : List Char) : Option (List Row) :=
  if text.all isPrintable = true then (text.splitOn '\n').tail.mapM readLine else none

/-- What a line says. -/
def Line.meaning (l : Line) : Option Row :=
  match l.scalar with
  | .quoted raw => (scalarText 0 raw).map fun text => (l.key, .inl text)
  | .number n => some (l.key, .inr n.text)

theorem Line.meaning_key {l : Line} {row : Row} (h : l.meaning = some row) : row.1 = l.key := by
  unfold Line.meaning at h
  cases hl : l.scalar with
  | quoted raw =>
    rw [hl] at h
    obtain ⟨text, -, rfl⟩ := Option.map_eq_some_iff.mp h
    rfl
  | number n =>
    rw [hl] at h
    rw [← Option.some.inj h]

theorem IsKey.ne_colon {key : List Char} (h : IsKey key) : ∀ c ∈ key, c ≠ ':' := by
  rintro c hc rfl
  rcases h.2.1 _ hc with hlower | heq
  · exact absurd hlower (by decide)
  · exact absurd heq (by decide)

/-- A line reads as what it says. -/
theorem readLine_text {l : Line} (hkey : IsKey l.key) : readLine l.text = l.meaning := by
  have htake : l.text.takeWhile (fun c => c ≠ ':') = l.key := by
    rw [Line.text, List.takeWhile_append_of_pos fun c hc => decide_eq_true (hkey.ne_colon c hc),
      List.takeWhile_cons_of_neg (by decide), List.append_nil]
  have hdrop : l.text.drop (l.key.length + 2) = l.scalar.text := by
    rw [Line.text, ← List.drop_drop, List.drop_left]
    rfl
  rw [readLine, htake, hdrop, Line.meaning]
  cases hscalar : l.scalar with
  | quoted raw =>
    have hraw : (raw ++ ['"']).dropLast = raw := List.dropLast_concat
    rw [Scalar.text, List.head?_cons, if_pos rfl, List.tail_cons, hraw]
  | number n =>
    have hlead : n.lead ≠ '"' := by
      intro heq
      have hplain := n.lead_plain
      rw [heq] at hplain
      exact absurd hplain (by decide)
    rw [Scalar.text, if_neg]
    rw [Numeral.text]
    intro heq
    cases hneg : n.neg with
    | true =>
      rw [hneg] at heq
      exact absurd (Option.some.inj heq) (by decide)
    | false =>
      rw [hneg] at heq
      exact hlead (Option.some.inj heq)

/-- The characters of keys and numbers are no line breaks. -/
theorem ne_of_isLineFeed {c d : Char} (hc : isLineFeed c = true) (hd : isLineFeed d = false) :
    c ≠ d := by
  rintro rfl
  rw [hc] at hd
  cases hd

theorem not_isAlphanum_of_isLineFeed {c : Char} (hc : isLineFeed c = true) :
    c.isAlphanum = false := by
  unfold isLineFeed at hc
  simp only [Bool.or_eq_true, decide_eq_true_eq] at hc
  rcases hc with (rfl | rfl) | rfl <;> decide

theorem not_isLower_of_isLineFeed {c : Char} (hc : isLineFeed c = true) : c.isLower = false := by
  unfold isLineFeed at hc
  simp only [Bool.or_eq_true, decide_eq_true_eq] at hc
  rcases hc with (rfl | rfl) | rfl <;> decide

/-- A line has no line break in it that is read as a line feed. -/
theorem Line.lineFeed_notMem {l : Line} (hkey : IsKey l.key) (h : l.scalar.WellFormed) {c : Char}
    (hc : isLineFeed c = true) : c ∉ l.text := by
  have hne : ∀ {d : Char}, isLineFeed d = false → c ≠ d := fun hd => ne_of_isLineFeed hc hd
  have hkey : c ∉ l.key := by
    intro hmem
    rcases hkey.2.1 _ hmem with hlower | heq
    · rw [not_isLower_of_isLineFeed hc] at hlower
      cases hlower
    · exact hne (by decide) heq
  have hscalar : c ∉ l.scalar.text := by
    cases hl : l.scalar with
    | quoted raw =>
      rw [hl] at h
      have hraw : c ∉ raw := fun hmem => by
        have hfeed := h.2.1 _ hmem
        rw [hc] at hfeed
        cases hfeed
      have hquote : c ≠ '"' := hne (by decide)
      simp [Scalar.text, hraw, hquote]
    | number n =>
      have hlead : c ≠ n.lead := by
        intro heq
        have hplain := n.lead_plain
        rw [← heq, not_isAlphanum_of_isLineFeed hc] at hplain
        cases hplain
      have hrest : c ∉ n.rest := by
        intro hmem
        rcases n.rest_plain _ hmem with halnum | heq | heq | heq
        · rw [not_isAlphanum_of_isLineFeed hc] at halnum
          cases halnum
        · exact hne (by decide) heq
        · exact hne (by decide) heq
        · exact hne (by decide) heq
      have hminus : c ≠ '-' := hne (by decide)
      rw [Scalar.text, Numeral.text]
      cases n.neg <;> simp [hlead, hrest, hminus]
  have hcolon : c ≠ ':' := hne (by decide)
  have hspace : c ≠ ' ' := hne (by decide)
  simp [Line.text, hkey, hscalar, hcolon, hspace]

/-- Letters and digits are printable. -/
theorem isPrintable_of_isAlphanum {c : Char} (h : c.isAlphanum = true) : isPrintable c = true := by
  have hrange : ∀ {a b : Char}, 0x20 ≤ a.toNat → b.toNat ≤ 0x7e → a.val ≤ c.val ∧ c.val ≤ b.val →
      isPrintable c = true := by
    intro a b ha hb hc
    have hlow : 0x20 ≤ c.toNat := ha.trans (UInt32.le_iff_toNat_le.mp hc.1)
    have hhigh : c.toNat ≤ 0x7e := (UInt32.le_iff_toNat_le.mp hc.2).trans hb
    unfold isPrintable
    simp [hlow, hhigh]
  delta Char.isAlphanum Char.isAlpha Char.isUpper Char.isLower Char.isDigit at h
  simp only [Bool.or_eq_true, decide_eq_true_eq, Bool.and_eq_true] at h
  rcases h with (h | h) | h
  · exact hrange (a := 'A') (b := 'Z') (by decide) (by decide) h
  · exact hrange (a := 'a') (b := 'z') (by decide) (by decide) h
  · exact hrange (a := '0') (b := '9') (by decide) (by decide) h

/-- The characters of a line are printable where those of its scalar are. -/
theorem Line.isPrintable_text {l : Line} (hkey : IsKey l.key)
    (h : ∀ raw, l.scalar = .quoted raw → ∀ c ∈ raw, isPrintable c = true) :
    ∀ c ∈ l.text, isPrintable c = true := by
  have hscalar : ∀ c ∈ l.scalar.text, isPrintable c = true := by
    cases hl : l.scalar with
    | quoted raw =>
      intro c hc
      rcases List.mem_cons.mp hc with rfl | hc
      · decide
      · rcases List.mem_append.mp hc with hc | hc
        · exact h raw hl c hc
        · rw [List.mem_singleton.mp hc]
          decide
    | number n =>
      have hplain : ∀ c ∈ n.lead :: n.rest, isPrintable c = true := by
        intro c hc
        rcases List.mem_cons.mp hc with rfl | hc
        · exact isPrintable_of_isAlphanum n.lead_plain
        · rcases n.rest_plain c hc with halnum | rfl | rfl | rfl
          · exact isPrintable_of_isAlphanum halnum
          all_goals decide
      intro c hc
      rcases List.mem_append.mp hc with hc | hc
      · cases hneg : n.neg with
        | true =>
          rw [hneg] at hc
          rw [List.mem_singleton.mp hc]
          decide
        | false =>
          rw [hneg] at hc
          exact absurd hc List.not_mem_nil
      · exact hplain c hc
  intro c hc
  rcases List.mem_append.mp hc with hc | hc
  · rcases hkey.2.1 c hc with hlower | rfl
    · refine isPrintable_of_isAlphanum ?_
      delta Char.isAlphanum Char.isAlpha
      rw [hlower, Bool.or_true, Bool.true_or]
    · decide
  · rcases List.mem_cons.mp hc with rfl | hc
    · decide
    · rcases List.mem_cons.mp hc with rfl | hc
      · decide
      · exact hscalar c hc

/-- The lines of a text. -/
theorem splitOn_linesText {ls : List Line} (h : ∀ l ∈ ls, '\n' ∉ l.text) :
    (linesText ls).splitOn '\n' = [] :: ls.map Line.text := by
  have hlines : ∀ start : List Char, '\n' ∉ start →
      (start ++ linesText ls).splitOn '\n' = start :: ls.map Line.text := by
    induction ls with
    | nil =>
      intro start hstart
      rw [linesText, List.flatMap_nil, List.append_nil, List.splitOn_eq_singleton hstart]
      rfl
    | cons l ls ih =>
      intro start hstart
      rw [linesText, List.flatMap_cons, List.cons_append,
        List.splitOn_append_cons_self_of_not_mem hstart]
      exact congrArg _ (ih (fun l' hl' => h l' (List.mem_cons_of_mem _ hl')) l.text
        (h l List.mem_cons_self))
  exact hlines [] List.not_mem_nil

/-- A mapping reads as what its lines say. -/
theorem readBlock_text (b : Block) : readBlock b.text =
    if b.text.all isPrintable = true then b.lines.mapM Line.meaning else none := by
  have hlines := splitOn_linesText fun l hl =>
    Line.lineFeed_notMem (b.key l hl) (b.wellFormed l hl) (by decide)
  have hmap : ∀ ls : List Line, (∀ l ∈ ls, IsKey l.key) →
      (ls.map Line.text).mapM readLine = ls.mapM Line.meaning := by
    intro ls hkeys
    induction ls with
    | nil => rfl
    | cons l ls ih =>
      rw [List.map_cons, List.mapM_cons, List.mapM_cons, readLine_text (hkeys l List.mem_cons_self),
        ih fun l' hl' => hkeys l' (List.mem_cons_of_mem _ hl')]
  rw [readBlock, Block.text, hlines, List.tail_cons, hmap b.lines b.key]

/-- The lines that were read are those of the mapping, one by one. -/
theorem readBlock_eq_some {b : Block} {rows : List Row} (h : readBlock b.text = some rows) :
    List.Forall₂ (fun l row => l.meaning = some row) b.lines rows := by
  rw [readBlock_text] at h
  split_ifs at h
  generalize b.lines = ls at h
  induction ls generalizing rows with
  | nil =>
    cases h
    exact .nil
  | cons l ls ih =>
    rw [List.mapM_cons] at h
    obtain ⟨row, hrow, h⟩ := Option.bind_eq_some_iff.mp h
    obtain ⟨rest, hrest, heq⟩ := Option.bind_eq_some_iff.mp h
    cases heq
    exact .cons hrow (ih hrest)

/-- The rows have the keys of the lines, and each line its row. -/
theorem rows_of_meaning {ls : List Line} {rows : List Row}
    (h : List.Forall₂ (fun l row => l.meaning = some row) ls rows) :
    rows.map Prod.fst = ls.map Line.key ∧ ∀ l ∈ ls, ∃ row ∈ rows, l.meaning = some row := by
  induction h with
  | nil => exact ⟨rfl, fun _ hl => absurd hl List.not_mem_nil⟩
  | @cons l row ls rows hrow _ ih =>
    obtain ⟨hkeys, hrows⟩ := ih
    refine ⟨by rw [List.map_cons, List.map_cons, hkeys, Line.meaning_key hrow], fun l' hl' => ?_⟩
    rcases List.mem_cons.mp hl' with rfl | hl'
    · exact ⟨row, List.mem_cons_self, hrow⟩
    · obtain ⟨row', hmem, hrow'⟩ := hrows l' hl'
      exact ⟨row', List.mem_cons_of_mem _ hmem, hrow'⟩

/-- A mapping of printable characters whose scalars all say something is read. -/
theorem readBlock_isSome {b : Block} (hprint : ∀ c ∈ b.text, isPrintable c = true)
    (hsome : ∀ key raw, ⟨key, .quoted raw⟩ ∈ b.lines → (scalarText 0 raw).isSome = true) :
    (readBlock b.text).isSome = true := by
  have hmeaning : ∀ l ∈ b.lines, l.meaning.isSome = true := by
    intro l hl
    obtain ⟨key, scalar⟩ := l
    cases scalar with
    | quoted raw =>
      rw [Line.meaning, Option.isSome_map]
      exact hsome key raw hl
    | number n => rfl
  rw [readBlock_text, if_pos (List.all_eq_true.mpr hprint)]
  generalize b.lines = ls at hmeaning
  induction ls with
  | nil => rfl
  | cons l ls ih =>
    obtain ⟨row, hrow⟩ := Option.isSome_iff_exists.mp (hmeaning l List.mem_cons_self)
    obtain ⟨rest, hrest⟩ := Option.isSome_iff_exists.mp
      (ih fun l' hl' => hmeaning l' (List.mem_cons_of_mem _ hl'))
    rw [List.mapM_cons, hrow, hrest]
    rfl

end Memplex.Lib.Yaml
