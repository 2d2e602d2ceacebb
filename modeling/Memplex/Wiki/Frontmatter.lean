import Memplex.Wiki.Compiler
import Memplex.Py.Loads

/-!
# What the front matter of a page reads back as

The escapes of a name are undone by reading it exactly when it has no backslash
(`scalarText_escapeName`), and the other texts, which are not escaped, are read as themselves
exactly when they have neither a backslash nor a quote. A page reads back as its node where all of
its texts are of that kind, are printable and stand on one line, and where the node has a name and a
domain of its own; a page whose texts end on their lines reads back only then (`page_readsBack`).
-/

namespace Memplex

open Lib Lib.Json Lib.Jsonc Lib.Yaml

/-! ## The escapes of a name -/

/-- The escape of a character. -/
def nameChar (c : Char) : List Char :=
  if c = '"' then ['\\', '"'] else if c = '\n' then ['\\', 'n'] else [c]

/-- The two replacements, character by character. -/
theorem escapeName_eq (name : List Char) : escapeName name = name.flatMap nameChar := by
  rw [escapeName, replaceChar, replaceChar, List.flatMap_assoc]
  refine List.flatMap_congr fun c _ => ?_
  unfold nameChar
  by_cases hquote : c = '"'
  · rw [if_pos hquote, if_pos hquote]
    rfl
  · rw [if_neg hquote, if_neg hquote, List.flatMap_singleton]

theorem escapeName_cons (c : Char) (cs : List Char) :
    escapeName (c :: cs) = nameChar c ++ escapeName cs := by
  rw [escapeName_eq, escapeName_eq, List.flatMap_cons]

theorem nameChar_plain {c : Char} (hquote : c ≠ '"') (hnl : c ≠ '\n') : nameChar c = [c] := by
  rw [nameChar, if_neg hquote, if_neg hnl]

/-- The digits at the front of an escaped name are those of the name. -/
theorem hexNumber_escapeName {acc k : ℕ} {cs : List Char} {code : ℕ}
    (h : hexNumber acc k (escapeName cs) = some code) :
    (escapeName cs).drop k = escapeName (cs.drop k) ∧ k ≤ cs.length := by
  induction k generalizing acc cs with
  | zero => exact ⟨rfl, Nat.zero_le _⟩
  | succ k ih =>
    cases cs with
    | nil => cases h
    | cons c cs =>
      have hslash : ∀ rest, hexNumber acc (k + 1) ('\\' :: rest) = none := fun _ => rfl
      rw [escapeName_cons] at h ⊢
      by_cases hquote : c = '"'
      · rw [nameChar, if_pos hquote, List.cons_append, hslash] at h
        cases h
      · by_cases hnl : c = '\n'
        · rw [nameChar, if_neg hquote, if_pos hnl, List.cons_append, hslash] at h
          cases h
        · rw [nameChar_plain hquote hnl, List.singleton_append] at h ⊢
          obtain ⟨d, -, hrest⟩ := Option.bind_eq_some_iff.mp h
          obtain ⟨hdrop, hle⟩ := ih hrest
          exact ⟨hdrop, Nat.succ_le_succ hle⟩

/-- An escape in an escaped name takes characters of the name. -/
theorem escape_escapeName {e : Char} {cs : List Char} {p : Char × ℕ}
    (h : escape e (escapeName cs) = some p) :
    (escapeName cs).drop p.2 = escapeName (cs.drop p.2) ∧ p.2 ≤ cs.length := by
  unfold escape at h
  cases hdigits : escapeDigits e with
  | none =>
    rw [hdigits, Option.elim_none] at h
    obtain ⟨c, -, rfl⟩ := Option.map_eq_some_iff.mp h
    exact ⟨rfl, Nat.zero_le _⟩
  | some k =>
    rw [hdigits, Option.elim_some] at h
    obtain ⟨c, hc, rfl⟩ := Option.map_eq_some_iff.mp h
    obtain ⟨code, hcode, -⟩ := Option.bind_eq_some_iff.mp hc
    exact hexNumber_escapeName hcode

/-- What an escaped backslash, and what a backslash in front of another character, is read as. -/
theorem scalarText_backslash {cs text : List Char}
    (h : scalarText 0 (escapeName ('\\' :: cs)) = some text) :
    (∃ rest rest', cs = '\n' :: rest ∧ scalarText 0 (escapeName rest) = some rest' ∧
        text = '\\' :: 'n' :: rest') ∨
      ∃ d rest c k rest', cs = d :: rest ∧
        scalarText 0 (escapeName (rest.drop k)) = some rest' ∧ text = c :: rest' := by
  rw [escapeName_cons, nameChar_plain (by decide) (by decide), List.singleton_append] at h
  cases cs with
  | nil => cases h
  | cons d rest =>
    rw [escapeName_cons] at h
    by_cases hquote : d = '"'
    · -- The backslash escapes that of the quote, which then ends the scalar.
      subst hquote
      have hnone : scalarText 0 ('\\' :: (nameChar '"' ++ escapeName rest)) = none := rfl
      rw [hnone] at h
      cases h
    · by_cases hnl : d = '\n'
      · subst hnl
        have hread : scalarText 0 ('\\' :: (nameChar '\n' ++ escapeName rest)) =
            (scalarText 0 (escapeName rest)).map fun text => '\\' :: 'n' :: text := by
          change scalarText 0 ('\\' :: '\\' :: 'n' :: escapeName rest) = _
          rw [scalarText_escape]
          change ((scalarText 0 ('n' :: escapeName rest)).map fun text => '\\' :: text) = _
          rw [scalarText_plain (by decide) (by decide), Option.map_map]
          rfl
        rw [hread] at h
        obtain ⟨rest', hrest, rfl⟩ := Option.map_eq_some_iff.mp h
        exact .inl ⟨rest, rest', rfl, hrest, rfl⟩
      · rw [nameChar_plain hquote hnl, List.singleton_append, scalarText_escape] at h
        obtain ⟨p, hp, h⟩ := Option.bind_eq_some_iff.mp h
        obtain ⟨rest', hrest, rfl⟩ := Option.map_eq_some_iff.mp h
        rw [(escape_escapeName hp).1] at hrest
        exact .inr ⟨d, rest, p.1, p.2, rest', rfl, hrest, rfl⟩

/-- A character of a name that is no backslash is read as itself. -/
theorem scalarText_nameChar {c : Char} (hc : c ≠ '\\') (cs : List Char) :
    scalarText 0 (escapeName (c :: cs)) =
      (scalarText 0 (escapeName cs)).map fun text => c :: text := by
  rw [escapeName_cons]
  by_cases hquote : c = '"'
  · subst hquote
    exact scalarText_escape '"' (escapeName cs)
  · by_cases hnl : c = '\n'
    · subst hnl
      exact scalarText_escape 'n' (escapeName cs)
    · rw [nameChar_plain hquote hnl, List.singleton_append, scalarText_plain hc hquote]

/-- An escaped name says no more characters than the name has. -/
theorem length_escapeName {name text : List Char} (h : scalarText 0 (escapeName name) = some text) :
    text.length ≤ name.length := by
  induction hn : name.length using Nat.strong_induction_on generalizing name text with
  | _ n ih =>
    subst hn
    match name with
    | [] =>
      cases h
      exact le_refl _
    | c :: cs =>
      by_cases hc : c = '\\'
      · subst hc
        obtain ⟨rest, rest', rfl, hrest, rfl⟩ | ⟨d, rest, c, k, rest', rfl, hrest, rfl⟩ :=
          scalarText_backslash h
        · have hle := ih rest.length (by simp only [List.length_cons]; omega) hrest rfl
          simp only [List.length_cons]
          omega
        · have hle := ih (rest.drop k).length
            (by simp only [List.length_drop, List.length_cons]; omega) hrest rfl
          simp only [List.length_drop, List.length_cons] at hle ⊢
          omega
      · rw [scalarText_nameChar hc] at h
        obtain ⟨rest, hrest, rfl⟩ := Option.map_eq_some_iff.mp h
        exact Nat.succ_le_succ (ih cs.length (Nat.lt_succ_self _) hrest rfl)

/-- **An escaped name is read as the name exactly when the name has no backslash.** -/
theorem scalarText_escapeName {name : List Char} :
    scalarText 0 (escapeName name) = some name ↔ '\\' ∉ name := by
  induction name with
  | nil => exact ⟨fun _ => List.not_mem_nil, fun _ => rfl⟩
  | cons c cs ih =>
    by_cases hc : c = '\\'
    · subst hc
      refine ⟨fun h => ?_, fun h => absurd List.mem_cons_self h⟩
      exfalso
      obtain ⟨rest, rest', rfl, -, heq⟩ | ⟨d, rest, c, k, rest', rfl, hrest, heq⟩ :=
        scalarText_backslash h
      · -- A line feed behind the backslash is read as the letter of its escape.
        exact absurd (List.cons.inj (List.cons.inj heq).2).1 (by decide)
      · obtain ⟨-, rfl⟩ := List.cons.inj heq
        have hle := length_escapeName hrest
        simp only [List.length_drop, List.length_cons] at hle
        omega
    · rw [scalarText_nameChar hc]
      constructor
      · intro h
        obtain ⟨rest, hrest, heq⟩ := Option.map_eq_some_iff.mp h
        obtain ⟨-, rfl⟩ := List.cons.inj heq
        exact List.not_mem_cons_of_ne_of_not_mem (fun heq => hc heq.symm) (ih.mp hrest)
      · intro h
        rw [ih.mpr fun hmem => h (List.mem_cons_of_mem _ hmem)]
        rfl

/-- An escaped name ends where its quotes do. -/
theorem quoted_escapeName {name : List Char} (h : '\\' ∉ name) : Quoted (escapeName name) := by
  unfold Quoted
  induction name with
  | nil => rfl
  | cons c cs ih =>
    have ih := ih fun hmem => h (List.mem_cons_of_mem _ hmem)
    have hc : c ≠ '\\' := fun heq => h (heq ▸ List.mem_cons_self)
    rw [escapeName_cons]
    by_cases hquote : c = '"'
    · subst hquote
      exact ih
    · by_cases hnl : c = '\n'
      · subst hnl
        exact ih
      · rw [nameChar_plain hquote hnl, List.singleton_append, staysOpen, if_neg hc,
          decide_eq_true hquote, ih]
        rfl

/-- A text without backslashes and quotes ends where its quotes do. -/
theorem quoted_plain {text : List Char} (hesc : '\\' ∉ text) (hquote : '"' ∉ text) :
    Quoted text := by
  unfold Quoted
  induction text with
  | nil => rfl
  | cons c cs ih =>
    have hc : c ≠ '\\' := fun heq => hesc (heq ▸ List.mem_cons_self)
    have hc' : c ≠ '"' := fun heq => hquote (heq ▸ List.mem_cons_self)
    rw [staysOpen, if_neg hc, decide_eq_true hc',
      ih (fun hmem => hesc (List.mem_cons_of_mem _ hmem))
        fun hmem => hquote (List.mem_cons_of_mem _ hmem)]
    rfl

/-- The characters of an escaped name are those of the name and of its escapes. -/
theorem mem_escapeName {name : List Char} {c : Char} (h : c ∈ escapeName name) :
    c ∈ name ∨ c = '\\' ∨ c = '"' ∨ c = 'n' := by
  rw [escapeName_eq] at h
  obtain ⟨d, hd, hc⟩ := List.mem_flatMap.mp h
  unfold nameChar at hc
  split_ifs at hc
  · exact .inr ((List.mem_pair.mp hc).imp id .inl)
  · exact .inr ((List.mem_pair.mp hc).imp id .inr)
  · exact .inl (List.mem_singleton.mp hc ▸ hd)

/-- The characters of a name are in its escaped form, but for the line feeds. -/
theorem mem_escapeName_of_mem {name : List Char} {c : Char} (h : c ∈ name) (hnl : c ≠ '\n') :
    c ∈ escapeName name := by
  rw [escapeName_eq]
  refine List.mem_flatMap.mpr ⟨c, h, ?_⟩
  unfold nameChar
  by_cases hquote : c = '"'
  · rw [if_pos hquote, hquote]
    exact List.mem_cons_of_mem _ List.mem_cons_self
  · rw [if_neg hquote, if_neg hnl]
    exact List.mem_singleton.mpr rfl

/-! ## Texts that are read as themselves -/

/-- A text that stands for itself between two quotes. -/
structure Verbatim (text : List Char) : Prop where
  printable : ∀ c ∈ text, isPrintable c = true
  backslash : '\\' ∉ text
  quote : '"' ∉ text
  line : OnOneLine text

/-- A name that stands for itself once it is escaped. -/
structure VerbatimName (name : List Char) : Prop where
  printable : ∀ c ∈ name, isPrintable c = true
  backslash : '\\' ∉ name
  line : OnOneLine (escapeName name)

/-- A text that stands for itself ends at the quote behind it. -/
theorem Verbatim.wellFormed {text : List Char} (h : Verbatim text) :
    (Scalar.quoted text).WellFormed := ⟨quoted_plain h.backslash h.quote, h.line⟩

namespace Frontmatter

/-- The texts of the front matter stand for themselves. -/
structure IsVerbatim (f : Frontmatter) : Prop where
  pageId : Verbatim f.pageId
  name : VerbatimName f.name
  domain : Verbatim f.domain
  memoryType : Verbatim f.memoryType

/-- The times of the front matter stand for themselves. -/
structure VerbatimTimes (f : Frontmatter) : Prop where
  createdAt : Verbatim f.createdAt
  updatedAt : Verbatim f.updatedAt

/-- Every text of the front matter ends at the quote behind it, and on its line. -/
def EndsOnLines (f : Frontmatter) : Prop := ∀ l ∈ f.entries, l.scalar.WellFormed

/-- The front matter of texts that stand for themselves ends on its lines. -/
theorem IsVerbatim.endsOnLines {f : Frontmatter} (h : f.IsVerbatim) (htimes : f.VerbatimTimes) :
    f.EndsOnLines := by
  have hname : (Scalar.quoted (escapeName f.name)).WellFormed :=
    ⟨quoted_escapeName h.name.backslash, h.name.line⟩
  simp only [EndsOnLines, entries, List.forall_mem_cons]
  exact ⟨h.pageId.wellFormed, hname, h.domain.wellFormed, h.memoryType.wellFormed, trivial,
    htimes.createdAt.wellFormed, htimes.updatedAt.wellFormed,
    fun _ hl => absurd hl List.not_mem_nil⟩

/-- The keys of the front matter. -/
theorem isKey_entries (f : Frontmatter) : ∀ l ∈ f.entries, IsKey l.key := by
  simp only [entries, List.forall_mem_cons]
  exact ⟨by decide, by decide, by decide, by decide, by decide, by decide, by decide,
    fun _ hl => absurd hl List.not_mem_nil⟩

theorem nodup_entries (f : Frontmatter) : (f.entries.map Line.key).Nodup := by
  change ["id".toList, "name".toList, "domain".toList, "memory_type".toList, "confidence".toList,
    "created_at".toList, "updated_at".toList].Nodup
  decide

/-- The block of a front matter that ends on its lines. -/
def block (f : Frontmatter) (h : f.EndsOnLines) : Block where
  lines := f.entries
  key := f.isKey_entries
  nodup := f.nodup_entries
  wellFormed := h

end Frontmatter

/-! ## Reading a page -/

/-- A text, and nothing else. -/
def asText : Value → Option (List Char)
  | .str s => some s.toList
  | _ => none

/-- The text that a mapping has under a key. -/
def textUnder (ms : Members) (key : List Char) : Option (List Char) :=
  (ms.get? (String.ofList key)).bind asText

/-- `yaml.safe_load` reads block mappings of double-quoted scalars as the language says. -/
def LoadsYaml (safeLoad : List Char → YamlLoad) : Prop :=
  ReadsBlocks (fun text => (safeLoad text).mapping) textUnder

/-- The front matter of the page is a mapping with the id, the name, the domain and the memory type
of the node. -/
def PageNode.ReadsBack (safeLoad : List Char → YamlLoad) (n : PageNode) (content : List Char) :
    Prop :=
  ∃ ms, parseFrontmatter safeLoad content = .ok (some ms) ∧
    textUnder ms "id".toList = some n.id ∧ textUnder ms "name".toList = some n.name ∧
    textUnder ms "domain".toList = n.domain ∧ textUnder ms "memory_type".toList = some n.memoryType

/-- The page gives the name and the domain that the node has, and not others in their place. -/
structure PageNode.HasOwn (n : PageNode) : Prop where
  name : n.kind = .function ∨ n.name ≠ []
  domain : ∃ d, n.domain = some d ∧ d ≠ []

section Reading

variable {safeLoad : List Char → YamlLoad}

theorem toFrontmatter_eq {y : YamlLoad} {ms : Members} :
    y.toFrontmatter = .ok (some ms) ↔ y.mapping = some ms := by
  match y with
  | .value (.obj _) => simp [YamlLoad.toFrontmatter, YamlLoad.mapping]
  | .value .null => simp [YamlLoad.toFrontmatter, YamlLoad.mapping]
  | .value (.bool _) => simp [YamlLoad.toFrontmatter, YamlLoad.mapping]
  | .value (.num _) => simp [YamlLoad.toFrontmatter, YamlLoad.mapping]
  | .value (.str _) => simp [YamlLoad.toFrontmatter, YamlLoad.mapping]
  | .value (.arr _) => simp [YamlLoad.toFrontmatter, YamlLoad.mapping]
  | .yamlError => simp [YamlLoad.toFrontmatter, YamlLoad.mapping]
  | .raised _ => simp [YamlLoad.toFrontmatter, YamlLoad.mapping]

/-- What is given to the loader is the block, whatever the body of the page. -/
theorem parseFrontmatter_build {f : Frontmatter} (h : f.EndsOnLines) (body : List Char) :
    parseFrontmatter safeLoad (f.build ++ body) =
      (safeLoad (f.block h).text).toFrontmatter := by
  have hbuild : f.build ++ body =
      dashes ++ (linesText f.entries ++ '\n' :: (dashes ++ '\n' :: body)) := by
    rw [f.build_eq]
    simp
  have hdrop : ∀ cs, (dashes ++ cs).drop 3 = cs := fun _ => rfl
  have hfind := findText_lines (fun l hl => Line.lineFeed_notMem (f.isKey_entries l hl) (h l hl)
    (by decide))
    f.isKey_entries ('\n' :: body)
  have hstart : ∀ cs, dashes.isPrefixOf (dashes ++ cs) = true := fun cs =>
    List.isPrefixOf_iff_prefix.mpr (List.prefix_append _ _)
  rw [parseFrontmatter, hbuild, if_pos (hstart _), hdrop, hfind, Option.elim_some, List.take_left]
  rfl

/-- What a page that was read as a mapping has under the keys of the claim, where its scalars say
something or the mapping has a text. -/
theorem texts_of_parse (hload : LoadsYaml safeLoad) {f : Frontmatter} (h : f.EndsOnLines)
    (htimes : f.VerbatimTimes) {body : List Char} {ms : Members}
    (hparse : parseFrontmatter safeLoad (f.build ++ body) = .ok (some ms))
    (htexts : ∀ key raw, ⟨key, .quoted raw⟩ ∈ f.entries.take 4 →
      (textUnder ms key).isSome = true ∨ (scalarText 0 raw).isSome = true) :
    (∀ c ∈ linesText f.entries, isPrintable c = true) ∧
      ∀ key raw, ⟨key, .quoted raw⟩ ∈ f.entries.take 4 → textUnder ms key = scalarText 0 raw := by
  rw [parseFrontmatter_build h, toFrontmatter_eq] at hparse
  have htime : ∀ {t : List Char}, Verbatim t → (scalarText 0 t).isSome = true := by
    intro t ht
    rw [scalarText_eq_self.mpr ⟨ht.backslash, ht.quote⟩]
    rfl
  have hall : ∀ key raw, ⟨key, .quoted raw⟩ ∈ f.entries →
      (textUnder ms key).isSome = true ∨ (scalarText 0 raw).isSome = true := by
    intro key raw hl
    have hsplit : f.entries = f.entries.take 4 ++
        [⟨"confidence".toList, .number f.confidence⟩, ⟨"created_at".toList, .quoted f.createdAt⟩,
          ⟨"updated_at".toList, .quoted f.updatedAt⟩] := rfl
    rw [hsplit] at hl
    rcases List.mem_append.mp hl with hl | hl
    · exact htexts key raw hl
    · simp only [List.mem_cons, Line.mk.injEq, reduceCtorEq, and_false, Scalar.quoted.injEq,
        List.not_mem_nil, or_false, false_or] at hl
      rcases hl with ⟨-, rfl⟩ | ⟨-, rfl⟩
      · exact .inr (htime htimes.createdAt)
      · exact .inr (htime htimes.updatedAt)
  obtain ⟨hprint, heq⟩ := ReadsBlocks.textAt_eq hload (b := f.block h) hparse hall
  exact ⟨hprint, fun key raw hl => heq key raw (List.mem_of_mem_take hl)⟩

/-- The characters of a front matter whose texts stand for themselves are printable. -/
theorem Frontmatter.IsVerbatim.printable {f : Frontmatter} (h : f.IsVerbatim)
    (htimes : f.VerbatimTimes) : ∀ c ∈ linesText f.entries, isPrintable c = true := by
  have hname : ∀ c ∈ escapeName f.name, isPrintable c = true := by
    intro c hc
    rcases mem_escapeName hc with hc | rfl | rfl | rfl
    · exact h.name.printable c hc
    all_goals decide
  have hscalars : ∀ l ∈ f.entries, ∀ raw, l.scalar = .quoted raw →
      ∀ c ∈ raw, isPrintable c = true := by
    simp only [Frontmatter.entries, List.forall_mem_cons, Scalar.quoted.injEq, reduceCtorEq]
    refine ⟨?_, ?_, ?_, ?_, ?_, ?_, ?_, fun _ hl => absurd hl List.not_mem_nil⟩
    · rintro _ rfl
      exact h.pageId.printable
    · rintro _ rfl
      exact hname
    · rintro _ rfl
      exact h.domain.printable
    · rintro _ rfl
      exact h.memoryType.printable
    · exact fun _ hno => hno.elim
    · rintro _ rfl
      exact htimes.createdAt.printable
    · rintro _ rfl
      exact htimes.updatedAt.printable
  intro c hc
  obtain ⟨l, hl, hc⟩ := List.mem_flatMap.mp hc
  rcases List.mem_cons.mp hc with rfl | hc
  · decide
  · exact Line.isPrintable_text (f.isKey_entries l hl) (hscalars l hl) c hc

/-- A page whose scalars all say something is read as a mapping that has what they say. -/
theorem reads_of_scalars (hload : LoadsYaml safeLoad) {f : Frontmatter} (h : f.EndsOnLines)
    (hprint : ∀ c ∈ linesText f.entries, isPrintable c = true)
    (hsome : ∀ key raw, ⟨key, .quoted raw⟩ ∈ f.entries → (scalarText 0 raw).isSome = true)
    (body : List Char) :
    ∃ ms, parseFrontmatter safeLoad (f.build ++ body) = .ok (some ms) ∧
      ∀ key raw, ⟨key, .quoted raw⟩ ∈ f.entries → textUnder ms key = scalarText 0 raw := by
  obtain ⟨ms, hms, htexts⟩ := ReadsBlocks.reads hload (f.block h) hprint hsome
  refine ⟨ms, ?_, htexts⟩
  rw [parseFrontmatter_build h]
  exact toFrontmatter_eq.mpr hms

/-- A page whose texts stand for themselves is read as a mapping that has them. -/
theorem reads_of_isVerbatim (hload : LoadsYaml safeLoad) {f : Frontmatter} (h : f.IsVerbatim)
    (htimes : f.VerbatimTimes) (body : List Char) :
    ∃ ms, parseFrontmatter safeLoad (f.build ++ body) = .ok (some ms) ∧
      textUnder ms "id".toList = some f.pageId ∧ textUnder ms "name".toList = some f.name ∧
      textUnder ms "domain".toList = some f.domain ∧
      textUnder ms "memory_type".toList = some f.memoryType := by
  have hends := h.endsOnLines htimes
  have hself : ∀ {t : List Char}, Verbatim t → scalarText 0 t = some t :=
    fun ht => scalarText_eq_self.mpr ⟨ht.backslash, ht.quote⟩
  have hname : scalarText 0 (escapeName f.name) = some f.name :=
    scalarText_escapeName.mpr h.name.backslash
  have hsome : ∀ key raw, ⟨key, .quoted raw⟩ ∈ f.entries → (scalarText 0 raw).isSome = true := by
    intro key raw hl
    simp only [Frontmatter.entries, List.mem_cons, Line.mk.injEq, reduceCtorEq, and_false,
      Scalar.quoted.injEq, List.not_mem_nil, or_false, false_or] at hl
    rcases hl with ⟨-, rfl⟩ | ⟨-, rfl⟩ | ⟨-, rfl⟩ | ⟨-, rfl⟩ | ⟨-, rfl⟩ | ⟨-, rfl⟩
    · rw [hself h.pageId]
      rfl
    · rw [hname]
      rfl
    · rw [hself h.domain]
      rfl
    · rw [hself h.memoryType]
      rfl
    · rw [hself htimes.createdAt]
      rfl
    · rw [hself htimes.updatedAt]
      rfl
  obtain ⟨ms, hparse, htexts⟩ := reads_of_scalars hload hends (h.printable htimes) hsome body
  refine ⟨ms, hparse, ?_, ?_, ?_, ?_⟩
  · rw [htexts "id".toList f.pageId (by simp [Frontmatter.entries])]
    exact hself h.pageId
  · rw [htexts "name".toList (escapeName f.name) (by simp [Frontmatter.entries])]
    exact hname
  · rw [htexts "domain".toList f.domain (by simp [Frontmatter.entries])]
    exact hself h.domain
  · rw [htexts "memory_type".toList f.memoryType (by simp [Frontmatter.entries])]
    exact hself h.memoryType

/-! ## Lint -/

/-- Text without carriage returns is read from a file as it was written. -/
theorem universalNewlines_append {text : List Char} (h : '\r' ∉ text) (rest : List Char) :
    universalNewlines (text ++ rest) = text ++ universalNewlines rest := by
  induction text with
  | nil => rfl
  | cons c text ih =>
    have hc : c ≠ '\r' := fun heq => h (heq ▸ List.mem_cons_self)
    rw [List.cons_append, universalNewlines, if_neg hc,
      ih fun hmem => h (List.mem_cons_of_mem _ hmem)]
    rfl

/-- A front matter that ends on its lines has no carriage return. -/
theorem Frontmatter.return_notMem {f : Frontmatter} (h : f.EndsOnLines) : '\r' ∉ f.build := by
  have hlines : '\r' ∉ linesText f.entries := by
    intro hmem
    obtain ⟨l, hl, hmem⟩ := List.mem_flatMap.mp hmem
    rcases List.mem_cons.mp hmem with heq | hmem
    · exact absurd heq (by decide)
    · exact Line.lineFeed_notMem (f.isKey_entries l hl) (h l hl) (by decide) hmem
  rw [f.build_eq]
  simp [dashes, hlines]

/-- Of a page that is read as a mapping `lint` reports nothing. -/
theorem frontmatterIssues_nil {f : Frontmatter} {body : List Char} {ms : Members}
    (h : parseFrontmatter safeLoad (f.build ++ body) = .ok (some ms)) (pageId : List Char) :
    frontmatterIssues safeLoad pageId (f.build ++ body) = .ok [] := by
  have hstart : dashes.isPrefixOf (f.build ++ body) = true := by
    rw [f.build_eq, List.append_assoc]
    exact List.isPrefixOf_iff_prefix.mpr (List.prefix_append _ _)
  rw [frontmatterIssues, if_pos hstart, h]
  rfl

/-! ## Pages -/

/-- What is given in place of a text that is missing. -/
theorem textOrElse_own {default : List Char} {text : Option (List Char)} {t : List Char}
    (htext : text = some t) (hne : t ≠ []) : textOrElse default text = t := by
  rw [textOrElse, htext, Option.elim_some, if_neg hne]

theorem PageNode.HasOwn.pageDomain {n : PageNode} (h : n.HasOwn) :
    n.domain = some n.pageDomain := by
  obtain ⟨d, hd, hne⟩ := h.domain
  rw [PageNode.pageDomain, textOrElse_own hd hne, hd]

/-- A node with a name gives it. -/
theorem PageNode.pageName_own {n : PageNode} (h : n.kind = .function ∨ n.name ≠ []) :
    n.pageName = n.name := by
  unfold PageNode.pageName
  rcases h with h | h
  · rw [h]
  · cases n.kind with
    | function => rfl
    | fact _ _ _ => exact textOrElse_own rfl h
    | preference _ => exact textOrElse_own rfl h
    | observation _ => exact textOrElse_own rfl h

/-- The page of a node without a name gives one. -/
theorem PageNode.pageName_ne_nil {n : PageNode} (h : n.kind ≠ .function) : n.pageName ≠ [] := by
  have hne : ∀ {default text : List Char}, default ≠ [] →
      textOrElse default (some text) ≠ [] := by
    intro default text hdefault
    rw [textOrElse, Option.elim_some]
    split_ifs with htext
    · exact hdefault
    · exact htext
  unfold PageNode.pageName
  cases hkind : n.kind with
  | function => exact absurd hkind h
  | fact _ _ _ => exact hne (by simp)
  | preference _ => exact hne (by simp)
  | observation _ => exact hne (by simp)

/-- A node whose page reads back stands for itself, and gives its own name and domain. -/
theorem own_of_readsBack (hload : LoadsYaml safeLoad) {n : PageNode} {now body : List Char}
    (hends : (n.frontmatter now).EndsOnLines) (htimes : (n.frontmatter now).VerbatimTimes)
    (h : n.ReadsBack safeLoad (n.page now body)) :
    (n.frontmatter now).IsVerbatim ∧ n.HasOwn := by
  obtain ⟨ms, hparse, hid, hname, hdomain, htype⟩ := h
  have hdefault : n.domain = none → (scalarText 0 n.pageDomain).isSome = true := by
    intro hnone
    rw [PageNode.pageDomain, textOrElse, hnone]
    decide
  obtain ⟨hprint, htexts⟩ := texts_of_parse hload hends htimes hparse (by
    intro key raw hl
    simp only [Frontmatter.entries, List.take_succ_cons, List.take_zero, List.mem_cons,
      Line.mk.injEq, Scalar.quoted.injEq, List.not_mem_nil, or_false] at hl
    rcases hl with ⟨rfl, rfl⟩ | ⟨rfl, rfl⟩ | ⟨rfl, rfl⟩ | ⟨rfl, rfl⟩
    · exact .inl (by rw [hid]; rfl)
    · exact .inl (by rw [hname]; rfl)
    · cases hd : n.domain with
      | none => exact .inr (hdefault hd)
      | some d => exact .inl (by rw [hdomain, hd]; rfl)
    · exact .inl (by rw [htype]; rfl))
  have hmem : ∀ {c : Char} {l : Line}, l ∈ (n.frontmatter now).entries → c ∈ l.scalar.text →
      isPrintable c = true := by
    intro c l hl hc
    refine hprint c (List.mem_flatMap.mpr ⟨l, hl, ?_⟩)
    exact List.mem_cons_of_mem _ (List.mem_append_right _
      (List.mem_cons_of_mem _ (List.mem_cons_of_mem _ hc)))
  have hquoted : ∀ {c : Char} {raw : List Char}, c ∈ raw → c ∈ (Scalar.quoted raw).text :=
    fun hc => List.mem_cons_of_mem _ (List.mem_append_left _ hc)
  have heid := htexts "id".toList n.id (by simp [Frontmatter.entries, PageNode.frontmatter])
  have hename := htexts "name".toList (escapeName n.pageName)
    (by simp [Frontmatter.entries, PageNode.frontmatter])
  have hedomain := htexts "domain".toList n.pageDomain
    (by simp [Frontmatter.entries, PageNode.frontmatter])
  have hetype := htexts "memory_type".toList n.memoryType
    (by simp [Frontmatter.entries, PageNode.frontmatter])
  rw [hid] at heid
  rw [hname] at hename
  rw [hdomain] at hedomain
  rw [htype] at hetype
  have hown : n.HasOwn := by
    refine ⟨?_, ?_⟩
    · by_contra hno
      rw [not_or, not_not] at hno
      obtain ⟨hkind, hnil⟩ := hno
      rw [hnil] at hename
      have hnil := scalarText_eq_nil hename.symm
      rw [escapeName_eq, List.flatMap_eq_nil_iff] at hnil
      obtain ⟨c, cs, hcs⟩ := List.exists_cons_of_ne_nil (PageNode.pageName_ne_nil hkind)
      have hchar := hnil c (hcs ▸ List.mem_cons_self)
      unfold nameChar at hchar
      split_ifs at hchar
    · cases hd : n.domain with
      | none =>
        have hsome := hdefault hd
        rw [← hedomain, hd] at hsome
        cases hsome
      | some d =>
        refine ⟨d, rfl, ?_⟩
        rintro rfl
        rw [PageNode.pageDomain, textOrElse, hd] at hedomain
        exact absurd hedomain (by decide)
  have hverbatim : ∀ {k raw : List Char}, ⟨k, .quoted raw⟩ ∈ (n.frontmatter now).entries →
      some raw = scalarText 0 raw → Verbatim raw := by
    intro k raw hl heq
    obtain ⟨hesc, hquote⟩ := scalarText_eq_self.mp heq.symm
    exact ⟨fun c hc => hmem hl (hquoted hc), hesc, hquote, (hends _ hl).2⟩
  have hpname := PageNode.pageName_own hown.name
  refine ⟨⟨?_, ?_, ?_, ?_⟩, hown⟩
  · exact hverbatim (k := "id".toList)
      (by simp [Frontmatter.entries, PageNode.frontmatter]) heid
  · have hl : (⟨"name".toList, .quoted (escapeName n.pageName)⟩ : Line) ∈
        (n.frontmatter now).entries := by simp [Frontmatter.entries, PageNode.frontmatter]
    refine ⟨fun c hc => ?_, ?_, (hends _ hl).2⟩
    · by_cases hnl : c = '\n'
      · rw [hnl]
        decide
      · exact hmem hl (hquoted (mem_escapeName_of_mem hc hnl))
    · refine scalarText_escapeName.mp ?_
      change scalarText 0 (escapeName n.pageName) = some n.pageName
      rw [← hename, hpname]
  · rw [hown.pageDomain] at hedomain
    exact hverbatim (k := "domain".toList)
      (by simp [Frontmatter.entries, PageNode.frontmatter]) hedomain
  · exact hverbatim (k := "memory_type".toList)
      (by simp [Frontmatter.entries, PageNode.frontmatter]) hetype

end Reading

/-! ## A loader for block mappings -/

/-- The value of a number without quotes. -/
def numberValue (text : List Char) : Value :=
  (readNumber text).elim (.str (String.ofList text)) fun p => .num (plainNum (.number p.1))

/-- `yaml.safe_load` on block mappings, and on nothing else. -/
def loadBlocks (text : List Char) : YamlLoad :=
  (readBlock text).elim .yamlError fun rows => .value (.obj (rows.map fun row =>
    (String.ofList row.1, row.2.elim (fun t => .str (String.ofList t)) numberValue)))

theorem mapping_loadBlocks (text : List Char) : (loadBlocks text).mapping =
    (readBlock text).map fun rows => rows.map fun row =>
      (String.ofList row.1, row.2.elim (fun t => .str (String.ofList t)) numberValue) := by
  rw [loadBlocks]
  cases readBlock text <;> rfl

/-- What a mapping that was loaded has under the keys of its quoted lines. -/
theorem textUnder_loadBlocks {b : Block} {ms : Members}
    (h : (loadBlocks b.text).mapping = some ms) {key raw : List Char}
    (hl : ⟨key, .quoted raw⟩ ∈ b.lines) :
    (scalarText 0 raw).isSome = true ∧ textUnder ms key = scalarText 0 raw := by
  rw [mapping_loadBlocks] at h
  obtain ⟨rows, hrows, rfl⟩ := Option.map_eq_some_iff.mp h
  obtain ⟨hkeys, hmem⟩ := rows_of_meaning (readBlock_eq_some hrows)
  obtain ⟨row, hrow, hmeaning⟩ := hmem _ hl
  obtain ⟨text, htext, rfl⟩ := Option.map_eq_some_iff.mp hmeaning
  have hinj : Function.Injective String.ofList := fun _ _ heq => String.ofList_inj.mp heq
  have hnodup : ((rows.map fun row => ((String.ofList row.1,
      row.2.elim (fun t => .str (String.ofList t)) numberValue) : String × Value)).map
        Prod.fst).Nodup := by
    have hmap : ∀ rows : List Row, (rows.map fun row => ((String.ofList row.1,
        row.2.elim (fun t => .str (String.ofList t)) numberValue) : String × Value)).map Prod.fst =
          (rows.map Prod.fst).map String.ofList := by
      intro rows
      simp only [List.map_map]
      rfl
    rw [hmap, hkeys]
    exact b.nodup.map hinj
  have hfind := findRow_of_mem hnodup (List.mem_map_of_mem hrow)
  refine ⟨by rw [htext]; rfl, ?_⟩
  rw [textUnder, Members.get?, hfind, htext]
  exact congrArg some String.toList_ofList

/-- The loader reads block mappings as the language says. -/
theorem loadsYaml_loadBlocks : LoadsYaml loadBlocks where
  reads b hprint hsome := by
    obtain ⟨rows, hrows⟩ := Option.isSome_iff_exists.mp (readBlock_isSome hprint hsome)
    have hload : ∃ ms, (loadBlocks b.text).mapping = some ms := by
      rw [mapping_loadBlocks, hrows]
      exact ⟨_, rfl⟩
    obtain ⟨ms, hms⟩ := hload
    exact ⟨ms, hms, fun key raw hl => (textUnder_loadBlocks hms hl).2⟩
  lacks b ms hms key raw hl hnone := by
    have hsome := (textUnder_loadBlocks hms hl).1
    rw [hnone] at hsome
    cases hsome
  refuses b c hc hno := by
    rw [mapping_loadBlocks, readBlock, if_neg]
    · rfl
    · intro hall
      rw [List.all_eq_true.mp hall c hc] at hno
      cases hno

/-- The number `0.9`. -/
def nineTenths : Numeral where
  neg := false
  lead := '0'
  rest := ['.', '9']
  lead_plain := by decide
  rest_plain := by decide
  rest_sign := by decide
  rest_short := by decide

/-- A function about logging in. -/
def loginNode : PageNode where
  kind := .function
  id := "F-001".toList
  memoryType := "function".toList
  name := "the \"login\" flow".toList
  domain := some "auth".toList
  confidence := nineTenths
  createdAt := some "2026-01-02T03:04:05+00:00".toList
  updatedAt := none

/-- A text that stands for itself, by a look at its characters. -/
theorem verbatim_of_chars {text : List Char}
    (h : ∀ c ∈ text, isPrintable c = true ∧ c ≠ '\\' ∧ c ≠ '"' ∧ isLineFeed c = false ∧
      isSeparator c = false) : Verbatim text where
  printable c hc := (h c hc).1
  backslash hmem := (h _ hmem).2.1 rfl
  quote hmem := (h _ hmem).2.2.1 rfl
  line := OnOneLine.of_plain (fun c hc => (h c hc).2.2.2.1) fun c hc => (h c hc).2.2.2.2

/-- A function whose name has a backslash. -/
def tempNode : PageNode :=
  { loginNode with name := "C:\\temp".toList }

end Memplex
