import Memplex.Lib.Yaml.Block
import Memplex.Py.Value

/-!
# Wiki pages and their front matter

`WikiCompiler` writes a page for each node: a block of YAML between two lines of dashes, and the
body below it. `_build_frontmatter` escapes quotes and line feeds in the name and nothing in the
other texts; `_parse_frontmatter` looks for the line of dashes that ends the block and gives what
stands before it to `yaml.safe_load`, which is a parameter here. What a page says in its body has no
part in either, and is any text.
-/

namespace Memplex

open Lib Lib.Yaml

/-! ## Texts -/

/-- `text.replace(c, by)`, of a single character. -/
def replaceChar (c : Char) (new : List Char) (text : List Char) : List Char :=
  text.flatMap fun d => if d = c then new else [d]

/-- `text.find(pattern)`. -/
def findText (pattern : List Char) : List Char → Option ℕ
  | [] => if pattern = [] then some 0 else none
  | c :: cs => if pattern.isPrefixOf (c :: cs) then some 0 else (findText pattern cs).map (· + 1)

/-- What reading a file in text mode makes of its line ends. -/
def universalNewlines : List Char → List Char
  | [] => []
  | c :: cs =>
    if c = '\r' then
      if cs.head? = some '\n' then universalNewlines cs else '\n' :: universalNewlines cs
    else c :: universalNewlines cs

/-! ## The front matter -/

/-- The line of dashes. -/
def dashes : List Char := ['-', '-', '-']

/-- The arguments of `_build_frontmatter`. -/
structure Frontmatter where
  pageId : List Char
  name : List Char
  domain : List Char
  memoryType : List Char
  /-- A float, as a format string writes it. -/
  confidence : Numeral
  createdAt : List Char
  updatedAt : List Char

/-- The name with its quotes and line feeds escaped. -/
def escapeName (name : List Char) : List Char :=
  replaceChar '\n' ['\\', 'n'] (replaceChar '"' ['\\', '"'] name)

namespace Frontmatter

variable (f : Frontmatter)

/-- The lines between the dashes. -/
def entries : List Line :=
  [⟨"id".toList, .quoted f.pageId⟩, ⟨"name".toList, .quoted (escapeName f.name)⟩,
    ⟨"domain".toList, .quoted f.domain⟩, ⟨"memory_type".toList, .quoted f.memoryType⟩,
    ⟨"confidence".toList, .number f.confidence⟩, ⟨"created_at".toList, .quoted f.createdAt⟩,
    ⟨"updated_at".toList, .quoted f.updatedAt⟩]

/-- `_build_frontmatter`. -/
def build : List Char := ['\n'].intercalate ([dashes] ++ f.entries.map Line.text ++ [dashes, []])

end Frontmatter

/-- What `yaml.safe_load` does: it returns a value, or raises a `YAMLError` or something else. -/
inductive YamlLoad where
  | value (v : Value)
  | yamlError
  | raised (e : PyError)

/-- The mapping that was loaded, where one was. -/
def YamlLoad.mapping : YamlLoad → Option Members
  | value (.obj ms) => some ms
  | _ => none

/-- What `_parse_frontmatter` makes of what was loaded. -/
def YamlLoad.toFrontmatter : YamlLoad → Except PyError (Option Members)
  | value (.obj ms) => .ok (some ms)
  | value _ => .ok none
  | yamlError => .ok none
  | raised e => .error e

section

variable (safeLoad : List Char → YamlLoad)

/-- `_parse_frontmatter`. -/
def parseFrontmatter (content : List Char) : Except PyError (Option Members) :=
  if dashes.isPrefixOf content then
    (findText ('\n' :: dashes) (content.drop 3)).elim (.ok none) fun k =>
      (safeLoad ((content.drop 3).take k)).toFrontmatter
  else .ok none

/-- An issue that `lint` reports. -/
structure LintIssue where
  pageId : List Char
  severity : String
  message : String
deriving DecidableEq

/-- The issues that `lint` reports of the front matter of a page. -/
def frontmatterIssues (pageId content : List Char) : Except PyError (List LintIssue) :=
  if dashes.isPrefixOf content then
    (parseFrontmatter safeLoad content).map fun data =>
      if data = none then [⟨pageId, "error", "Invalid or malformed YAML frontmatter"⟩] else []
  else .ok [⟨pageId, "error", "Missing YAML frontmatter"⟩]

end

/-! ## Nodes -/

/-- The kinds of nodes, with what gives a nameless node its name. -/
inductive PageKind where
  | function
  | fact (subject predicate object : List Char)
  | preference (aspect : List Char)
  | observation (event : List Char)

/-- What the front matter of a page is compiled from. -/
structure PageNode where
  kind : PageKind
  id : List Char
  memoryType : List Char
  name : List Char
  domain : Option (List Char)
  confidence : Numeral
  createdAt : Option (List Char)
  updatedAt : Option (List Char)

/-- `text or default`. -/
def textOrElse (default : List Char) (text : Option (List Char)) : List Char :=
  text.elim default fun t => if t = [] then default else t

namespace PageNode

variable (n : PageNode)

/-- The name that the page gives. -/
def pageName : List Char :=
  match n.kind with
  | .function => n.name
  | .fact subject predicate object =>
    textOrElse (subject ++ ' ' :: (predicate ++ ' ' :: object)) (some n.name)
  | .preference aspect => textOrElse ("pref_".toList ++ aspect) (some n.name)
  | .observation event => textOrElse ("obs_".toList ++ event.take 30) (some n.name)

/-- The domain that the page gives. -/
def pageDomain : List Char := textOrElse "uncategorized".toList n.domain

/-- The front matter that `compile_function`, `compile_fact`, `compile_preference` and
`compile_observation` build. -/
def frontmatter (now : List Char) : Frontmatter where
  pageId := n.id
  name := n.pageName
  domain := n.pageDomain
  memoryType := n.memoryType
  confidence := n.confidence
  createdAt := textOrElse now n.createdAt
  updatedAt := textOrElse now n.updatedAt

/-- The page of a node, with the text of its body. -/
def page (now body : List Char) : List Char := (n.frontmatter now).build ++ body

end PageNode

/-! ## Finding the end of the block -/

/-- A line feed that no dash follows does not end the block. -/
theorem findText_line {line : List Char} (hnl : '\n' ∉ line) (hdash : line.head? ≠ some '-')
    (hne : line ≠ []) (rest : List Char) :
    findText ('\n' :: dashes) ('\n' :: (line ++ rest)) =
      (findText ('\n' :: dashes) rest).map (· + (line.length + 1)) := by
  have hwithin : ∀ cs : List Char, '\n' ∉ cs → findText ('\n' :: dashes) (cs ++ rest) =
      (findText ('\n' :: dashes) rest).map (· + cs.length) := by
    intro cs hcs
    induction cs with
    | nil => simp
    | cons c cs ih =>
      have hc : '\n' ≠ c := fun heq => hcs (heq ▸ List.mem_cons_self)
      rw [List.cons_append, findText, if_neg, ih fun hmem => hcs (List.mem_cons_of_mem _ hmem),
        Option.map_map]
      · rfl
      · simp [hc]
  obtain ⟨c, cs, rfl⟩ := List.exists_cons_of_ne_nil hne
  have hc : '-' ≠ c := fun heq => hdash (congrArg some heq.symm)
  rw [findText, if_neg, hwithin _ hnl, Option.map_map]
  · rfl
  · simp [dashes, hc]

/-- The block ends at its line of dashes. -/
theorem findText_lines {ls : List Line} (hnl : ∀ l ∈ ls, '\n' ∉ l.text)
    (hkey : ∀ l ∈ ls, IsKey l.key) (rest : List Char) :
    findText ('\n' :: dashes) (linesText ls ++ '\n' :: (dashes ++ rest)) =
      some (linesText ls).length := by
  induction ls with
  | nil =>
    change findText _ ('\n' :: '-' :: '-' :: '-' :: rest) = _
    rw [findText, if_pos (by simp [dashes])]
    rfl
  | cons l ls ih =>
    have hl : l ∈ l :: ls := List.mem_cons_self
    obtain ⟨c, cs, hcs⟩ := List.exists_cons_of_ne_nil (hkey l hl).1
    have hdash : c ≠ '-' := by
      rintro rfl
      rcases (hkey l hl).2.1 '-' (hcs ▸ List.mem_cons_self) with hlower | heq
      · exact absurd hlower (by decide)
      · exact absurd heq (by decide)
    have htext : l.text = c :: (cs ++ ':' :: ' ' :: l.scalar.text) := by
      rw [Line.text, hcs, List.cons_append]
    have hcons : linesText (l :: ls) ++ '\n' :: (dashes ++ rest) =
        '\n' :: (l.text ++ (linesText ls ++ '\n' :: (dashes ++ rest))) := by
      rw [linesText, List.flatMap_cons, List.append_assoc]
      rfl
    have hhead : l.text.head? ≠ some '-' := by
      rw [htext]
      exact fun heq => hdash (Option.some.inj heq)
    have hne : l.text ≠ [] := by
      rw [htext]
      exact List.cons_ne_nil _ _
    rw [hcons, findText_line (hnl l hl) hhead hne,
      ih (fun l' hl' => hnl l' (List.mem_cons_of_mem _ hl'))
        fun l' hl' => hkey l' (List.mem_cons_of_mem _ hl')]
    simp only [linesText, List.flatMap_cons, Option.map_some, List.length_append, List.length_cons,
      Option.some.injEq]
    omega

/-- The front matter is its lines between two lines of dashes. -/
theorem Frontmatter.build_eq (f : Frontmatter) :
    f.build = dashes ++ (linesText f.entries ++ '\n' :: (dashes ++ ['\n'])) := by
  simp [Frontmatter.build, Frontmatter.entries, linesText, List.intercalate_cons_cons]

end Memplex
