import Mathlib.Data.List.Basic
import Mathlib.Data.List.Infix

/-!
# The lexical structure of SQL

PostgreSQL 16 under `standard_conforming_strings`: an SQL text is a sequence of tokens, each as long
as it can be. Four kinds of token hide what is between their delimiters: comments, quoted
identifiers, string literals and dollar-quoted strings. A literal goes on after a line break: where
nothing but whitespace and line comments with a line break among them is between a literal and the
next quote, what follows the quote is read like the literal before, so with escapes after an escape
string.

`LexedFrom` says that a list of tokens is the lexing of its text. Numbers and parameters are taken
with all letters and digits that adjoin them; a text in which these make no number is not valid, and
nothing here looks into them.
-/

namespace Memplex

/-! ## Characters -/

/-- `ident_start`. -/
def identStart (c : Char) : Bool := c.isAlpha || c = '_' || 128 ≤ c.toNat

/-- `dolq_cont`: what a tag and a number go on with. -/
def tagCont (c : Char) : Bool := identStart c || c.isDigit

/-- `ident_cont`. -/
def identCont (c : Char) : Bool := tagCont c || c = '$'

/-- `newline`. -/
def isNewline (c : Char) : Bool := c = '\n' || c = '\r'

/-- `horiz_space`. -/
def isHorizSpace (c : Char) : Bool := c = ' ' || c = '\t' || c = '\x0c' || c = '\x0b'

/-! ## What is between delimiters -/

/-- The body of a block comment at a depth, with the delimiter that closes it. -/
inductive InComment : ℕ → List Char → Prop where
  | close : InComment 1 ['*', '/']
  | closeInner {depth : ℕ} {cs : List Char} (h : InComment (depth + 1) cs) :
      InComment (depth + 2) ('*' :: '/' :: cs)
  | open {depth : ℕ} {cs : List Char} (h : InComment (depth + 2) cs) :
      InComment (depth + 1) ('/' :: '*' :: cs)
  | char {depth : ℕ} {c : Char} {cs : List Char} (hopen : c = '/' → cs.head? ≠ some '*')
      (hclose : c = '*' → cs.head? ≠ some '/') (h : InComment (depth + 1) cs) :
      InComment (depth + 1) (c :: cs)

/-- A body in which every quote is doubled. -/
inductive Doubled (quote : Char) : List Char → Prop where
  | nil : Doubled quote []
  | char {c : Char} {cs : List Char} (hc : c ≠ quote) (h : Doubled quote cs) :
      Doubled quote (c :: cs)
  | pair {cs : List Char} (h : Doubled quote cs) : Doubled quote (quote :: quote :: cs)

/-- The body of an escape string: a backslash takes the next character with it. -/
inductive EscapeBody : List Char → Prop where
  | nil : EscapeBody []
  | char {c : Char} {cs : List Char} (hquote : c ≠ '\'') (hslash : c ≠ '\\') (h : EscapeBody cs) :
      EscapeBody (c :: cs)
  | pair {cs : List Char} (h : EscapeBody cs) : EscapeBody ('\'' :: '\'' :: cs)
  | escaped {c : Char} {cs : List Char} (h : EscapeBody cs) : EscapeBody ('\\' :: c :: cs)

/-- The tag of a dollar quote. -/
def IsTag (tag : List Char) : Prop :=
  (∀ c ∈ tag.head?, identStart c = true) ∧ ∀ c ∈ tag, tagCont c = true

/-- The delimiter with a tag. -/
def delimiterOf (tag : List Char) : List Char := '$' :: (tag ++ ['$'])

/-- A text ends at its first delimiter. -/
def EndsAtFirst (delimiter body : List Char) : Prop :=
  ∀ pre post, body ++ delimiter = pre ++ (delimiter ++ post) → pre = body

/-! ## Tokens -/

/-- A token. -/
inductive SqlToken where
  /-- White space, an operator character, punctuation, or a dollar sign that opens nothing. -/
  | other (c : Char)
  /-- A keyword or an identifier. -/
  | word (c : Char) (cs : List Char)
  | number (c : Char) (cs : List Char)
  | param (c : Char) (cs : List Char)
  | line (body : List Char)
  | block (body : List Char)
  | quotedIdent (body : List Char)
  | string (body : List Char)
  | escape (letter : Char) (body : List Char)
  /-- What an escape string goes on with after a line break. -/
  | continued (body : List Char)
  | dollar (tag body : List Char)

/-- A character of a hidden text: line breaks stay. -/
def blankChar (c : Char) : Char := if c = '\n' then '\n' else ' '

/-- A hidden text. -/
def blank (cs : List Char) : List Char := cs.map blankChar

namespace SqlToken

/-- The text of a token. -/
def text : SqlToken → List Char
  | other c => [c]
  | word c cs => c :: cs
  | number c cs => c :: cs
  | param c cs => '$' :: c :: cs
  | line body => '-' :: '-' :: body
  | block body => '/' :: '*' :: body
  | quotedIdent body => '"' :: (body ++ ['"'])
  | string body => '\'' :: (body ++ ['\''])
  | escape letter body => letter :: '\'' :: (body ++ ['\''])
  | continued body => '\'' :: (body ++ ['\''])
  | dollar tag body => delimiterOf tag ++ (body ++ delimiterOf tag)

/-- The text of a token with what it hides blanked. -/
def blanked : SqlToken → List Char
  | other c => [c]
  | word c cs => c :: cs
  | number c cs => c :: cs
  | param c cs => '$' :: c :: cs
  | escape letter body => letter :: blank ('\'' :: (body ++ ['\'']))
  | t => blank t.text

/-- The characters of a token are those of its kind. -/
def WellFormed : SqlToken → Prop
  | other c => c ≠ '\'' ∧ c ≠ '"' ∧ tagCont c = false
  | word c cs => identStart c = true ∧ ∀ d ∈ cs, identCont d = true
  | number c cs => c.isDigit = true ∧ ∀ d ∈ cs, tagCont d = true
  | param c cs => c.isDigit = true ∧ ∀ d ∈ cs, tagCont d = true
  | line body => ∀ c ∈ body, isNewline c = false
  | block body => InComment 1 body
  | quotedIdent body => Doubled '"' body
  | string body => Doubled '\'' body
  | escape letter body => (letter = 'e' ∨ letter = 'E') ∧ EscapeBody body
  | continued body => EscapeBody body
  | dollar tag body => IsTag tag ∧ EndsAtFirst (delimiterOf tag) body

/-- What stands after a token is no part of it, and makes no other token with it. -/
def Follows (rest : List Char) : SqlToken → Prop
  | other c =>
    (c = '-' → rest.head? ≠ some '-') ∧ (c = '/' → rest.head? ≠ some '*') ∧
      (c = '$' → (∀ d ∈ rest.head?, d.isDigit = false) ∧
        ∀ tag post, IsTag tag → rest ≠ tag ++ '$' :: post)
  | word c cs => (∀ d ∈ rest.head?, identCont d = false) ∧
      (cs = [] → c = 'e' ∨ c = 'E' → rest.head? ≠ some '\'')
  | number _ _ => ∀ d ∈ rest.head?, tagCont d = false
  | param _ _ => ∀ d ∈ rest.head?, tagCont d = false
  | line _ => ∀ d ∈ rest.head?, isNewline d = true
  | quotedIdent _ => rest.head? ≠ some '"'
  | string _ => rest.head? ≠ some '\''
  | escape _ _ => rest.head? ≠ some '\''
  | continued _ => rest.head? ≠ some '\''
  | _ => True

end SqlToken

/-- Whether an escape string may go on: nothing but whitespace and line comments stands between it
and the next token. -/
inductive AfterString where
  | no
  /-- `newline`: a line break is among what stands between. -/
  | escape (newline : Bool)
deriving DecidableEq

namespace SqlToken

/-- What a token leaves behind. -/
def after (s : AfterString) : SqlToken → AfterString
  | escape _ _ => .escape false
  | continued _ => .escape false
  | line _ => s
  | other c =>
    match s with
    | .no => .no
    | .escape newline =>
      if isNewline c then .escape true else if isHorizSpace c then .escape newline else .no
  | _ => .no

/-- A quote after an escape string and a line break goes on with it, and no other quote does. -/
def Fits (s : AfterString) : SqlToken → Prop
  | string _ => s ≠ .escape true
  | continued _ => s = .escape true
  | _ => True

end SqlToken

/-- The text of tokens. -/
def sqlText (ts : List SqlToken) : List Char := ts.flatMap SqlToken.text

/-- The text of tokens with all that they hide blanked. -/
def blankText (ts : List SqlToken) : List Char := ts.flatMap SqlToken.blanked

/-- The tokens are the lexing of their text. -/
def LexedFrom : AfterString → List SqlToken → Prop
  | _, [] => True
  | s, t :: ts =>
    t.WellFormed ∧ t.Fits s ∧ t.Follows (sqlText ts) ∧ LexedFrom (t.after s) ts

/-- The tokens between semicolons. -/
def tokenStatements : List SqlToken → List (List SqlToken)
  | [] => [[]]
  | .other ';' :: ts => [] :: tokenStatements ts
  | t :: ts => (tokenStatements ts).modifyHead (t :: ·)

end Memplex
