import Memplex.Adapters.CutLines

/-!
# The third pass, and what is read

On what the second pass leaves of a document the third one takes out the commas in front of closing
brackets (`pass_dropCommas`), where no string holds one. What is then left is plain JSON, and reads
as what the document says (`loads_stripJsonc`).
-/

namespace Memplex

open Lib Lib.Json Lib.Jsonc

/-! ## Commas -/

theorem isPySpace_of_isWs {c : Char} (h : isWs c = true) : isPySpace c = true := by
  unfold isWs at h
  simp only [Bool.or_eq_true, decide_eq_true_eq] at h
  rcases h with ((rfl | rfl) | rfl) | rfl <;> decide

/-- The characters of the grammar, white space apart, are printable. -/
theorem isMark_range {c : Char} (h : isMark c = true) : 33 ≤ c.toNat ∧ c.toNat ≤ 126 := by
  have hletter : ∀ {a b : Char}, 33 ≤ a.toNat → b.toNat ≤ 126 → a.val ≤ c.val ∧ c.val ≤ b.val →
      33 ≤ c.toNat ∧ c.toNat ≤ 126 :=
    fun ha hb hc => ⟨ha.trans (UInt32.le_iff_toNat_le.mp hc.1),
      (UInt32.le_iff_toNat_le.mp hc.2).trans hb⟩
  delta isMark isWordChar Char.isAlphanum Char.isAlpha Char.isUpper Char.isLower Char.isDigit at h
  simp only [Bool.or_eq_true, decide_eq_true_eq, Bool.and_eq_true] at h
  rcases h with ((((rfl | rfl) | rfl) | rfl) | rfl) | ((((h | h) | h) | rfl) | rfl) | rfl
  · decide
  · decide
  · decide
  · decide
  · decide
  · exact hletter (a := 'A') (b := 'Z') (by decide) (by decide) h
  · exact hletter (a := 'a') (b := 'z') (by decide) (by decide) h
  · exact hletter (a := '0') (b := '9') (by decide) (by decide) h
  · decide
  · decide
  · decide

theorem isPySpace_of_isMark {c : Char} (h : isMark c = true) : isPySpace c = false := by
  obtain ⟨hlow, hhigh⟩ := isMark_range h
  unfold isPySpace
  simp only [Bool.or_eq_false_iff, Bool.and_eq_false_iff, decide_eq_false_iff_not]
  omega

/-- White space in front of a text does not matter. -/
theorem closesNext_append {ws : List Char} (h : ∀ c ∈ ws, isWs c = true) (rest : List Char) :
    closesNext (ws ++ rest) = closesNext rest := by
  unfold closesNext
  rw [List.dropWhile_append_of_pos fun c hc => isPySpace_of_isWs (h c hc)]

theorem dropCommas_ne {c : Char} (hc : c ≠ ',') (cs : List Char) :
    dropCommas (c :: cs) = c :: dropCommas cs := by
  rw [dropCommas, if_neg fun h => hc h.1]

theorem dropCommas_ws {ws : List Char} (h : ∀ c ∈ ws, isWs c = true) (rest : List Char) :
    dropCommas (ws ++ rest) = ws ++ dropCommas rest := by
  induction ws with
  | nil => rfl
  | cons c ws ih =>
    have hc : c ≠ ',' := by
      rintro rfl
      exact absurd (h ',' List.mem_cons_self) (by decide)
    rw [List.cons_append, dropCommas_ne hc, ih fun d hd => h d (List.mem_cons_of_mem _ hd)]
    rfl

/-- No comma of the text stands in front of a closing bracket. -/
def NoTrailing (text : List Char) : Prop :=
  ∀ pre post, text = pre ++ ',' :: post → closesNext post = false

/-- A string is no closing bracket. -/
theorem closesNext_quote (post rest : List Char) :
    closesNext (post ++ '"' :: rest) = closesNext post := by
  unfold closesNext
  induction post with
  | nil => rfl
  | cons c post ih =>
    rw [List.cons_append, List.dropWhile_cons, List.dropWhile_cons]
    split_ifs with hc
    · exact ih
    · rfl

/-- A string without a comma in front of a closing bracket stays. -/
theorem dropCommas_string {raw : List Char} (h : NoTrailing raw) : Keeps dropCommas raw := by
  intro cs
  have hraw : dropCommas (raw ++ '"' :: cs) = raw ++ dropCommas ('"' :: cs) := by
    induction raw with
    | nil => rfl
    | cons c raw ih =>
      have hkeep : ¬ (c = ',' ∧ closesNext (raw ++ '"' :: cs) = true) := by
        rintro ⟨rfl, hclose⟩
        rw [closesNext_quote, h [] raw rfl] at hclose
        cases hclose
      rw [List.cons_append, dropCommas, if_neg hkeep,
        ih fun pre post heq => h (c :: pre) post (by rw [heq]; rfl)]
      rfl
  rw [dropCommas_ne (by decide), hraw, dropCommas_ne (by decide)]

/-- The third pass is a pass over the text. -/
theorem pass_dropCommas : Pass dropCommas Blank.WellFormed cutGap cutGap [] where
  mark c cs hc := dropCommas_ne (isMark_ne hc (by decide)) cs
  gap gap c cs hgap _ := dropCommas_ws (writesWs_cutGap hgap) _
  more gap cs hgap hcs := by
    obtain ⟨c, cs, rfl, hc⟩ := hcs
    have hspace : isPySpace c = false := by
      by_cases hquote : c = '"'
      · rw [hquote]
        decide
      · refine isPySpace_of_isMark ?_
        unfold isStartChar at hc
        unfold isMark
        simp only [Bool.or_eq_true, decide_eq_true_eq] at hc ⊢
        tauto
    have hclose : closesNext (c :: cs) = false := by
      unfold closesNext
      rw [List.dropWhile_cons_of_neg (by rw [hspace]; decide)]
      exact Bool.or_eq_false_iff.mpr ⟨decide_eq_false (isStartChar_ne hc (by decide)),
        decide_eq_false (isStartChar_ne hc (by decide))⟩
    rw [dropCommas, if_neg]
    rintro ⟨-, hnext⟩
    rw [closesNext_append (writesWs_cutGap hgap), hclose] at hnext
    cases hnext
  trailing gap b cs hgap := by
    have hclose : closesNext (b.closing :: cs) = true := by
      cases b <;> rfl
    rw [dropCommas, if_pos ⟨rfl, (closesNext_append (writesWs_cutGap hgap) _).trans hclose⟩]
    rfl

/-! ## Documents -/

/-- The passes over lines and commas mistake nothing of the piece: a string holds no character that
ends a line and no comma in front of a closing bracket, a line comment no character that ends a line
but the carriage return in front of its line feed. -/
def Unmistaken : Piece → Prop
  | .mark _ => True
  | .str raw => (∀ c ∈ raw, isLineBreak c = false) ∧ NoTrailing raw
  | .blank (.line body) => LineBody body
  | .blank _ => True

/-- The three passes mistake nothing of a document. -/
structure Lexes (d : Doc) : Prop where
  blocks : ClearPieces d.pieces
  pieces : ∀ p ∈ d.pieces, Unmistaken p

/-- The third pass over a piece that the passes do not mistake. -/
theorem suits_dropCommas {p : Piece} (hform : formOf p) (h : Unmistaken p) :
    Suits dropCommas Blank.WellFormed p := by
  match p with
  | .mark _ => trivial
  | .str raw => exact dropCommas_string h.2
  | .blank _ => exact hform

theorem keepsLines_of {p : Piece} (hform : formOf p) (h : Unmistaken p) : keepsLines p := by
  match p with
  | .mark _ => trivial
  | .str raw => exact ⟨hform, h.1⟩
  | .blank (.space _) => exact hform
  | .blank (.line body) => exact ⟨hform, h⟩
  | .blank (.block _) => exact hform

/-- **A document of which the passes mistake nothing reads as what it says.** -/
theorem loads_stripJsonc {d : Doc} (hd : d.WellFormed) (h : Lexes d) :
    loads (stripJsonc d.text) = d.value := by
  have hform : ∀ p ∈ d.pieces, formOf p :=
    Doc.forall_pieces (fun _ h => h) (fun _ h => h) (fun _ h => h) hd
  obtain ⟨trail, htrail, hlines⟩ :=
    cutLines_doc hd fun p hp => keepsLines_of (hform p hp) (h.pieces p hp)
  have hlead := writesWs_cutGap hd.lead
  have hroot : ∀ p ∈ d.root.pieces, Suits dropCommas Blank.WellFormed p := fun p hp => by
    have hmem : p ∈ d.pieces := List.mem_append_right _ (List.mem_append_left _ hp)
    exact suits_dropCommas (hform p hmem) (h.pieces p hmem)
  have hcommas := dropCommas_ws htrail []
  rw [List.append_nil] at hcommas
  unfold stripJsonc
  rw [dropBlocks_doc hd h.blocks, hlines, dropCommas_ws hlead, pass_dropCommas.node hd.root hroot,
    hcommas, show dropCommas [] = [] from rfl, List.append_nil]
  exact loads_plain (fun _ hgap => writesWs_cutGap hgap) hd.root hlead htrail

end Memplex
