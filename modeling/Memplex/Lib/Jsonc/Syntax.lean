import Memplex.Lib.Json.Reader
import Mathlib.Data.List.Infix

/-!
# The grammar of JSON with comments

`Node` is a value of a JSONC text with everything that stands between its tokens: white space, line
comments and block comments. A `Series` is what stands between two brackets, with a comma after each
entry but perhaps the last. A `Style` says how the parts are written, and `Node.write` writes a
value in it, of which its text is one (`Node.text`). `Node.value` is what the value says, which is
nothing where a string of it has no meaning. A line comment ends with its line feed, and with
nothing else that may count as the end of a line.
-/

namespace Memplex.Lib.Jsonc

open Json

/-! ## White space and comments -/

/-- A character of white space, or a comment. -/
inductive Blank where
  | space (c : Char)
  /-- From two slashes to the line feed. -/
  | line (body : List Char)
  | block (body : List Char)
deriving DecidableEq

namespace Blank

/-- The text of a blank. -/
def text : Blank → List Char
  | space c => [c]
  | line body => '/' :: '/' :: (body ++ ['\n'])
  | block body => '/' :: '*' :: (body ++ ['*', '/'])

/-- The characters of a blank: no comment ends inside of it. -/
def WellFormed : Blank → Prop
  | space c => isWs c = true
  | line body => '\n' ∉ body
  | block body => ¬ ['*', '/'] <:+: body

instance (b : Blank) : Decidable b.WellFormed := by
  cases b <;> unfold WellFormed <;> infer_instance

end Blank

/-- What stands between two tokens. -/
abbrev Gap := List Blank

/-- The text of a gap. -/
def Gap.text (gap : Gap) : List Char := gap.flatMap Blank.text

/-- Every blank of the gap is well formed. -/
def Gap.WellFormed (gap : Gap) : Prop := ∀ b ∈ gap, b.WellFormed

instance (gap : Gap) : Decidable gap.WellFormed := by unfold Gap.WellFormed; infer_instance

/-! ## Strings -/

/-- Whether a string that is open before the text is still open after it, where `escaped` says that
a backslash stands in front of the text. -/
def staysOpen : Bool → List Char → Bool
  | escaped, [] => !escaped
  | true, _ :: cs => staysOpen false cs
  | false, c :: cs => if c = '\\' then staysOpen true cs else c ≠ '"' && staysOpen false cs

/-- The characters between two quotes: none of them ends the string. -/
def Quoted (raw : List Char) : Prop := staysOpen false raw = true

instance (raw : List Char) : Decidable (Quoted raw) := by unfold Quoted; infer_instance

/-- What the characters between two quotes say. -/
def quotedText (raw : List Char) : Option String := (readString (raw ++ ['"'])).map Prod.fst

/-! ## Values -/

/-- The two kinds of brackets. -/
inductive Bracket where
  | square
  | curly
deriving DecidableEq

/-- The character that opens. -/
def Bracket.opening : Bracket → Char
  | square => '['
  | curly => '{'

/-- The character that closes. -/
def Bracket.closing : Bracket → Char
  | square => ']'
  | curly => '}'

/-- The key of a member, up to its value. -/
structure Label where
  /-- The key between its quotes. -/
  raw : List Char
  /-- From the key to the colon. -/
  before : Gap
  /-- From the colon to the value. -/
  after : Gap

/-- An element of an array, or a member of an object. -/
structure Entry (ν : Type) where
  /-- In front of the entry. -/
  gap : Gap
  /-- The key of a member. -/
  label : Option Label
  node : ν
  /-- From the value to the comma, or to the closing bracket. -/
  after : Gap

/-- The entries between two brackets. -/
inductive Series (α : Type) where
  /-- An entry that the closing bracket follows. -/
  | last (entry : α)
  /-- An entry with its comma, and the gap to the closing bracket. -/
  | trailing (entry : α) (gap : Gap)
  /-- An entry with its comma, and more entries. -/
  | more (entry : α) (rest : Series α)

/-- The entries. -/
def Series.toList {α : Type} : Series α → List α
  | last a => [a]
  | trailing a _ => [a]
  | more a rest => a :: rest.toList

/-- A value of a text. -/
inductive Node where
  /-- A literal or a number, and what it says. -/
  | word (chars : List Char) (value : Json Token)
  /-- A string, between its quotes. -/
  | str (raw : List Char)
  /-- Two brackets without an entry. -/
  | empty (bracket : Bracket) (gap : Gap)
  | box (bracket : Bracket) (entries : Series (Entry Node))

/-- The members of an object, or the elements of an array. -/
abbrev Entries := Series (Entry Node)

/-- Induction over a value and the values between its brackets. -/
theorem Node.induct {P : Node → Prop} (word : ∀ chars value, P (.word chars value))
    (str : ∀ raw, P (.str raw)) (empty : ∀ b gap, P (.empty b gap))
    (box : ∀ b es, (∀ e ∈ es.toList, P e.node) → P (.box b es)) (n : Node) : P n := by
  refine @Node.rec P (fun es => ∀ e ∈ es.toList, P e.node) (fun e => P e.node) word str empty
    (fun b es h => box b es h) ?_ ?_ ?_ ?_ n
  · intro e h e' he'
    rwa [List.mem_singleton.mp he']
  · intro e gap h e' he'
    rwa [List.mem_singleton.mp he']
  · intro e rest h hrest e' he'
    rcases List.mem_cons.mp he' with rfl | he'
    · exact h
    · exact hrest e' he'
  · intro gap label node after h
    exact h

/-! ### Writing a value -/

/-- How the parts of a value are written. -/
structure Style (β : Type) where
  /-- A bracket, a colon, a comma, or a character of a literal or of a number. -/
  mark : Char → β
  str : List Char → List β
  gap : Gap → List β
  /-- A comma in front of a closing bracket. -/
  comma : List β

section Write

variable {β γ : Type} (s : Style β)

/-- A key with its colon, where there is one. -/
def writeLabel : Option Label → List β
  | none => []
  | some l => s.str l.raw ++ (s.gap l.before ++ s.mark ':' :: s.gap l.after)

mutual

/-- A value in a style. -/
def Node.write : Node → List β
  | .word chars _ => chars.map s.mark
  | .str raw => s.str raw
  | .empty b gap => s.mark b.opening :: (s.gap gap ++ [s.mark b.closing])
  | .box b es => s.mark b.opening :: (writeEntries es ++ [s.mark b.closing])

/-- What stands between two brackets, in a style. -/
def writeEntries : Entries → List β
  | .last ⟨gap, label, node, after⟩ =>
    s.gap gap ++ (writeLabel s label ++ (Node.write node ++ s.gap after))
  | .trailing ⟨gap, label, node, after⟩ close =>
    s.gap gap ++ (writeLabel s label ++ (Node.write node ++ s.gap after)) ++
      (s.comma ++ s.gap close)
  | .more ⟨gap, label, node, after⟩ rest =>
    s.gap gap ++ (writeLabel s label ++ (Node.write node ++ s.gap after)) ++
      s.mark ',' :: writeEntries rest

end

/-- An entry in a style. -/
def Entry.write (e : Entry Node) : List β :=
  s.gap e.gap ++ (writeLabel s e.label ++ (e.node.write s ++ s.gap e.after))

theorem writeEntries_last (e : Entry Node) : writeEntries s (.last e) = e.write s := rfl

theorem writeEntries_trailing (e : Entry Node) (gap : Gap) :
    writeEntries s (.trailing e gap) = e.write s ++ (s.comma ++ s.gap gap) := rfl

theorem writeEntries_more (e : Entry Node) (rest : Entries) :
    writeEntries s (.more e rest) = e.write s ++ s.mark ',' :: writeEntries s rest := rfl

/-- What is written in one style becomes what is written in another. -/
structure Style.Becomes (s : Style β) (f : β → List γ) (t : Style γ) : Prop where
  mark : ∀ c, f (s.mark c) = [t.mark c]
  str : ∀ raw, (s.str raw).flatMap f = t.str raw
  gap : ∀ gap, (s.gap gap).flatMap f = t.gap gap
  comma : s.comma.flatMap f = t.comma

variable {s} {f : β → List γ} {t : Style γ}

theorem Style.Becomes.label (h : s.Becomes f t) (label : Option Label) :
    (writeLabel s label).flatMap f = writeLabel t label := by
  cases label with
  | none => rfl
  | some l =>
    simp only [writeLabel, List.flatMap_append, List.flatMap_cons, h.str, h.gap, h.mark,
      List.cons_append, List.nil_append]

theorem Style.Becomes.node (h : s.Becomes f t) (n : Node) :
    (n.write s).flatMap f = n.write t := by
  induction n using Node.induct with
  | word chars value =>
    rw [Node.write, Node.write]
    induction chars with
    | nil => rfl
    | cons c chars ih =>
      rw [List.map_cons, List.map_cons, List.flatMap_cons, h.mark, ih, List.singleton_append]
  | str raw => exact h.str raw
  | empty b gap =>
    simp only [Node.write, List.flatMap_cons, List.flatMap_append, List.flatMap_nil, h.mark, h.gap,
      List.cons_append, List.nil_append]
  | box b es ih =>
    have hentry : ∀ e ∈ es.toList, (e.write s).flatMap f = e.write t := by
      intro e he
      simp only [Entry.write, List.flatMap_append, h.gap, h.label, ih e he]
    have hentries : (writeEntries s es).flatMap f = writeEntries t es := by
      clear ih
      induction es with
      | last e =>
        rw [writeEntries_last, writeEntries_last, hentry e (List.mem_singleton.mpr rfl)]
      | trailing e gap =>
        rw [writeEntries_trailing, writeEntries_trailing, List.flatMap_append, List.flatMap_append,
          hentry e (List.mem_singleton.mpr rfl), h.comma, h.gap]
      | more e rest ih =>
        rw [writeEntries_more, writeEntries_more, List.flatMap_append, List.flatMap_cons, h.mark,
          hentry e List.mem_cons_self, ih fun e' he' => hentry e' (List.mem_cons_of_mem _ he')]
        rfl
    simp only [Node.write, List.flatMap_cons, List.flatMap_append, List.flatMap_nil, h.mark,
      hentries, List.cons_append, List.nil_append]

end Write

/-- The style of a text, with its gaps and its commas in front of closing brackets. -/
def textStyle (gap : Gap → List Char) (comma : List Char) : Style Char where
  mark c := c
  str raw := '"' :: (raw ++ ['"'])
  gap := gap
  comma := comma

/-- The text of a value. -/
def Node.text (n : Node) : List Char := n.write (textStyle Gap.text [','])

/-! ### What a value says -/

/-- The key of an entry; an element has the empty one. -/
def labelKey : Option Label → Option String
  | none => some ""
  | some l => quotedText l.raw

mutual

/-- What a value says. -/
def Node.value : Node → Option (Json Token)
  | .word _ value => some value
  | .str raw => (quotedText raw).map .str
  | .empty .square _ => some (.arr [])
  | .empty .curly _ => some (.obj [])
  | .box .square es => (entriesValue es).map fun ms => .arr (ms.map Prod.snd)
  | .box .curly es => (entriesValue es).map .obj

/-- The entries with their keys. -/
def entriesValue : Entries → Option (List (String × Json Token))
  | .last ⟨_, label, node, _⟩ =>
    (labelKey label).bind fun k => (Node.value node).map fun x => [(k, x)]
  | .trailing ⟨_, label, node, _⟩ _ =>
    (labelKey label).bind fun k => (Node.value node).map fun x => [(k, x)]
  | .more ⟨_, label, node, _⟩ rest =>
    (labelKey label).bind fun k => (Node.value node).bind fun x =>
      (entriesValue rest).map fun ms => (k, x) :: ms

end

/-! ### Lexical form -/

/-- The lexical form of the key of an entry: the members of an object have one, the elements of an
array have none. -/
def LabelFits : Bracket → Option Label → Prop
  | .square, none => True
  | .curly, some l => Quoted l.raw ∧ l.before.WellFormed ∧ l.after.WellFormed
  | _, _ => False

mutual

/-- The lexical form of a value. -/
def Node.WellFormed : Node → Prop
  | .word chars value => readScalar chars = some (value, [])
  | .str raw => Quoted raw
  | .empty _ gap => gap.WellFormed
  | .box b es => EntriesWellFormed b es

/-- The lexical form of what stands between two brackets. -/
def EntriesWellFormed (b : Bracket) : Entries → Prop
  | .last ⟨gap, label, node, after⟩ =>
    gap.WellFormed ∧ LabelFits b label ∧ Node.WellFormed node ∧ after.WellFormed
  | .trailing ⟨gap, label, node, after⟩ close =>
    (gap.WellFormed ∧ LabelFits b label ∧ Node.WellFormed node ∧ after.WellFormed) ∧
      close.WellFormed
  | .more ⟨gap, label, node, after⟩ rest =>
    (gap.WellFormed ∧ LabelFits b label ∧ Node.WellFormed node ∧ after.WellFormed) ∧
      EntriesWellFormed b rest

end

instance (b : Bracket) (label : Option Label) : Decidable (LabelFits b label) :=
  match b, label with
  | .square, none => .isTrue trivial
  | .square, some _ => .isFalse id
  | .curly, none => .isFalse id
  | .curly, some l =>
    inferInstanceAs (Decidable (Quoted l.raw ∧ l.before.WellFormed ∧ l.after.WellFormed))

mutual

/-- The lexical form of a value is decided going through the value. -/
def Node.decWellFormed : (n : Node) → Decidable n.WellFormed
  | .word chars value => inferInstanceAs (Decidable (readScalar chars = some (value, [])))
  | .str raw => inferInstanceAs (Decidable (Quoted raw))
  | .empty _ gap => inferInstanceAs (Decidable gap.WellFormed)
  | .box b es => entriesDecWellFormed b es

/-- The lexical form of what stands between two brackets is decided entry by entry. -/
def entriesDecWellFormed (b : Bracket) : (es : Entries) → Decidable (EntriesWellFormed b es)
  | .last ⟨gap, label, node, after⟩ =>
    have := Node.decWellFormed node
    inferInstanceAs (Decidable (gap.WellFormed ∧ LabelFits b label ∧ node.WellFormed ∧
      after.WellFormed))
  | .trailing ⟨gap, label, node, after⟩ close =>
    have := Node.decWellFormed node
    inferInstanceAs (Decidable ((gap.WellFormed ∧ LabelFits b label ∧ node.WellFormed ∧
      after.WellFormed) ∧ close.WellFormed))
  | .more ⟨gap, label, node, after⟩ rest =>
    have := Node.decWellFormed node
    have := entriesDecWellFormed b rest
    inferInstanceAs (Decidable ((gap.WellFormed ∧ LabelFits b label ∧ node.WellFormed ∧
      after.WellFormed) ∧ EntriesWellFormed b rest))

end

instance (n : Node) : Decidable n.WellFormed := n.decWellFormed

/-- The lexical form of an entry. -/
def Entry.WellFormed (b : Bracket) (e : Entry Node) : Prop :=
  e.gap.WellFormed ∧ LabelFits b e.label ∧ e.node.WellFormed ∧ e.after.WellFormed

theorem EntriesWellFormed.entry {b : Bracket} {es : Entries} (h : EntriesWellFormed b es) :
    ∀ e ∈ es.toList, e.WellFormed b := by
  induction es with
  | last e =>
    intro e' he'
    rw [List.mem_singleton.mp he']
    exact h
  | trailing e gap =>
    intro e' he'
    rw [List.mem_singleton.mp he']
    exact h.1
  | more e rest ih =>
    intro e' he'
    rcases List.mem_cons.mp he' with rfl | he'
    · exact h.1
    · exact ih h.2 e' he'

/-! ## Documents -/

/-- A whole text. -/
structure Doc where
  /-- In front of the value. -/
  lead : Gap
  root : Node
  /-- Behind the value. -/
  trail : Gap
  /-- A last line comment without a line feed. -/
  coda : Option (List Char)

namespace Doc

/-- The text of a document. -/
def text (d : Doc) : List Char :=
  d.lead.text ++ (d.root.text ++ (d.trail.text ++
    (d.coda.map fun body => '/' :: '/' :: body).getD []))

/-- The lexical form of a document. -/
structure WellFormed (d : Doc) : Prop where
  lead : d.lead.WellFormed
  root : d.root.WellFormed
  trail : d.trail.WellFormed
  coda : ∀ body ∈ d.coda, '\n' ∉ body

instance (d : Doc) : Decidable d.WellFormed :=
  decidable_of_iff (d.lead.WellFormed ∧ d.root.WellFormed ∧ d.trail.WellFormed ∧
      ∀ body ∈ d.coda, '\n' ∉ body)
    ⟨fun ⟨lead, root, trail, coda⟩ => ⟨lead, root, trail, coda⟩, fun h => ⟨h.1, h.2, h.3, h.4⟩⟩

/-- What a document says. -/
def value (d : Doc) : Option (Json Token) := d.root.value

end Doc

end Memplex.Lib.Jsonc
