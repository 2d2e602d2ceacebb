import Memplex.Lib.Jsonc.Plain

/-!
# Pieces, and passes over a text

The pieces of a text are its strings, its blanks and its other characters, one after the other
(`Node.pieces`, `Doc.pieces`). A pass goes over a text once and leaves strings alone, rewrites gaps,
and may drop the commas in front of closing brackets (`Pass`); what it makes of a value is the value
in another style (`Pass.node`).
-/

namespace Memplex.Lib.Jsonc

open Json

/-- A piece of a text. -/
inductive Piece where
  /-- A bracket, a colon, a comma, or a character of a literal or of a number. -/
  | mark (c : Char)
  /-- A string, between its quotes. -/
  | str (raw : List Char)
  | blank (b : Blank)

/-- The text of a piece. -/
def Piece.text : Piece → List Char
  | mark c => [c]
  | str raw => '"' :: (raw ++ ['"'])
  | blank b => b.text

/-- The style of a list of pieces. -/
def pieceStyle : Style Piece where
  mark := .mark
  str raw := [.str raw]
  gap gap := gap.map .blank
  comma := [.mark ',']

/-- The pieces of a value. -/
def Node.pieces (n : Node) : List Piece := n.write pieceStyle

/-- The pieces of an entry are among those between the brackets. -/
theorem write_subset {es : Entries} {e : Entry Node} (he : e ∈ es.toList) :
    e.write pieceStyle ⊆ writeEntries pieceStyle es := by
  induction es with
  | last e' =>
    rw [List.mem_singleton.mp he]
    exact fun _ hp => hp
  | trailing e' gap =>
    rw [List.mem_singleton.mp he]
    exact fun _ hp => List.mem_append_left _ hp
  | more e' es ih =>
    rcases List.mem_cons.mp he with rfl | he
    · exact fun _ hp => List.mem_append_left _ hp
    · exact fun _ hp => List.mem_append_right _ (List.mem_cons_of_mem _ (ih he hp))

/-- What is written for each piece, by what is written for a blank. -/
def Piece.write (f : Blank → List Char) : Piece → List Char
  | mark c => [c]
  | str raw => '"' :: (raw ++ ['"'])
  | blank b => f b

/-- A value is written piece by piece. -/
theorem Node.flatMap_pieces (n : Node) (f : Blank → List Char) :
    n.pieces.flatMap (Piece.write f) = n.write (textStyle (fun gap => gap.flatMap f) [',']) := by
  refine Style.Becomes.node ⟨fun _ => rfl, fun raw => ?_, fun gap => ?_, rfl⟩ n
  · exact List.flatMap_singleton ..
  · exact List.flatMap_map ..

/-- A bracket, a colon, or a character of a literal or of a number. -/
def isMark (c : Char) : Bool := c = '[' || c = ']' || c = '{' || c = '}' || c = ':' || isWordChar c

theorem isMark_closing (b : Bracket) : isMark b.closing = true := by cases b <;> decide

theorem isMark_opening (b : Bracket) : isMark b.opening = true := by cases b <;> decide

/-- A value ends with a character of its own. -/
theorem Node.ends {g : Gap → List Char} {k : List Char} {n : Node} (h : n.WellFormed) :
    ∃ cs c, n.write (textStyle g k) = cs ++ [c] ∧ isWs c = false := by
  have hclosing : ∀ b : Bracket, isWs b.closing = false := by
    intro b
    cases b <;> decide
  cases n with
  | word chars v =>
    obtain ⟨hne, hchars⟩ := readScalar_chars h
    have hlast := hchars _ (List.getLast_mem hne)
    refine ⟨chars.dropLast, chars.getLast hne, ?_, isWs_of_isStartChar ?_⟩
    · exact (List.map_id _).trans (List.dropLast_append_getLast hne).symm
    · rw [isStartChar, hlast, Bool.or_true]
  | str raw => exact ⟨'"' :: raw, '"', rfl, by decide⟩
  | empty b gap => exact ⟨b.opening :: g gap, b.closing, rfl, hclosing b⟩
  | box b es =>
    exact ⟨b.opening :: writeEntries (textStyle g k) es, b.closing, rfl, hclosing b⟩

/-- What holds of the marks, of the strings and of the blanks of a value holds of its pieces. -/
theorem Node.forall_pieces {P : Piece → Prop} (mark : ∀ c, isMark c = true ∨ c = ',' → P (.mark c))
    (str : ∀ raw, Quoted raw → P (.str raw)) (blank : ∀ b, Blank.WellFormed b → P (.blank b))
    {n : Node} (hn : n.WellFormed) : ∀ p ∈ n.pieces, P p := by
  have hgap : ∀ {gap : Gap}, gap.WellFormed → ∀ p ∈ gap.map Piece.blank, P p := by
    intro gap hgap p hp
    obtain ⟨b, hb, rfl⟩ := List.mem_map.mp hp
    exact blank b (hgap b hb)
  have hlabel : ∀ {b : Bracket} {label : Option Label}, LabelFits b label →
      ∀ p ∈ writeLabel pieceStyle label, P p := by
    intro b label hfits p hp
    cases label with
    | none => exact absurd hp List.not_mem_nil
    | some l =>
      cases b with
      | square => exact hfits.elim
      | curly =>
        obtain ⟨hraw, hbefore, hafter⟩ := hfits
        rcases List.mem_append.mp hp with hp | hp
        · rw [List.mem_singleton.mp hp]
          exact str _ hraw
        · rcases List.mem_append.mp hp with hp | hp
          · exact hgap hbefore p hp
          · rcases List.mem_cons.mp hp with rfl | hp
            · exact mark ':' (.inl (by decide))
            · exact hgap hafter p hp
  induction n using Node.induct with
  | word chars v =>
    intro p hp
    obtain ⟨c, hc, rfl⟩ := List.mem_map.mp hp
    exact mark c (.inl (by rw [isMark, (readScalar_chars hn).2 c hc, Bool.or_true]))
  | str raw =>
    intro p hp
    rw [List.mem_singleton.mp hp]
    exact str raw hn
  | empty b gap =>
    intro p hp
    rcases List.mem_cons.mp hp with rfl | hp
    · exact mark _ (.inl (isMark_opening b))
    · rcases List.mem_append.mp hp with hp | hp
      · exact hgap hn p hp
      · rw [List.mem_singleton.mp hp]
        exact mark _ (.inl (isMark_closing b))
  | box b es ih =>
    have hes : EntriesWellFormed b es := hn
    have hentry : ∀ e ∈ es.toList, ∀ p ∈ e.write pieceStyle, P p := by
      intro e he p hp
      obtain ⟨hbefore, hfits, hform, hafter⟩ := hes.entry e he
      rcases List.mem_append.mp hp with hp | hp
      · exact hgap hbefore p hp
      · rcases List.mem_append.mp hp with hp | hp
        · exact hlabel hfits p hp
        · rcases List.mem_append.mp hp with hp | hp
          · exact ih e he hform p hp
          · exact hgap hafter p hp
    have hentries : ∀ p ∈ writeEntries pieceStyle es, P p := by
      clear ih hn
      induction es with
      | last e => exact hentry e (List.mem_singleton.mpr rfl)
      | trailing e gap =>
        intro p hp
        rcases List.mem_append.mp hp with hp | hp
        · exact hentry e (List.mem_singleton.mpr rfl) p hp
        · rcases List.mem_cons.mp hp with rfl | hp
          · exact mark ',' (.inr rfl)
          · exact hgap hes.2 p hp
      | more e es ih =>
        intro p hp
        rcases List.mem_append.mp hp with hp | hp
        · exact hentry e List.mem_cons_self p hp
        · rcases List.mem_cons.mp hp with rfl | hp
          · exact mark ',' (.inr rfl)
          · exact ih hes.2 (fun e' he' => hentry e' (List.mem_cons_of_mem _ he')) p hp
    intro p hp
    rcases List.mem_cons.mp hp with rfl | hp
    · exact mark _ (.inl (isMark_opening b))
    · rcases List.mem_append.mp hp with hp | hp
      · exact hentries p hp
      · rw [List.mem_singleton.mp hp]
        exact mark _ (.inl (isMark_closing b))

/-- The gap behind the value of a document, with a line feed for a last line comment. -/
def Doc.close (d : Doc) : Gap := d.trail ++ (d.coda.map Blank.line).toList

/-- The pieces of a document, with a line feed behind a last line comment. -/
def Doc.pieces (d : Doc) : List Piece :=
  d.lead.map .blank ++ (d.root.pieces ++ d.close.map .blank)

/-- What is written for the pieces of a document. -/
theorem Doc.flatMap_pieces (d : Doc) (f : Blank → List Char) :
    d.pieces.flatMap (Piece.write f) = d.lead.flatMap f ++
      (d.root.write (textStyle (fun gap => gap.flatMap f) [',']) ++ d.close.flatMap f) := by
  rw [Doc.pieces, List.flatMap_append, List.flatMap_append, Node.flatMap_pieces, List.flatMap_map,
    List.flatMap_map]
  rfl

/-- The text of the pieces of a document. -/
theorem Doc.flatMap_text (d : Doc) :
    d.pieces.flatMap Piece.text = d.text ++ d.coda.elim [] fun _ => ['\n'] := by
  have htext : Piece.text = Piece.write Blank.text := by
    funext p
    cases p <;> rfl
  rw [htext, Doc.flatMap_pieces, Doc.close, List.flatMap_append, Doc.text]
  cases d.coda with
  | none =>
    simp only [Option.map_none, Option.toList_none, List.flatMap_nil, Option.getD_none,
      Option.elim_none, List.append_nil]
    rfl
  | some body =>
    simp only [Option.map_some, Option.toList_some, List.flatMap_singleton, Option.getD_some,
      Option.elim_some, List.append_assoc]
    rfl

/-- What holds of the marks, of the strings and of the blanks of a document holds of its pieces. -/
theorem Doc.forall_pieces {P : Piece → Prop} (mark : ∀ c, isMark c = true ∨ c = ',' → P (.mark c))
    (str : ∀ raw, Quoted raw → P (.str raw)) (blank : ∀ b, Blank.WellFormed b → P (.blank b))
    {d : Doc} (hd : d.WellFormed) : ∀ p ∈ d.pieces, P p := by
  have hgap : ∀ {gap : Gap}, gap.WellFormed → ∀ p ∈ gap.map Piece.blank, P p := by
    intro gap hgap p hp
    obtain ⟨b, hb, rfl⟩ := List.mem_map.mp hp
    exact blank b (hgap b hb)
  have hclose : d.close.WellFormed := by
    intro b hb
    rcases List.mem_append.mp hb with hb | hb
    · exact hd.trail b hb
    · obtain ⟨body, hbody, rfl⟩ := Option.map_eq_some_iff.mp (Option.mem_toList.mp hb)
      exact hd.coda body hbody
  intro p hp
  rcases List.mem_append.mp hp with hp | hp
  · exact hgap hd.lead p hp
  · rcases List.mem_append.mp hp with hp | hp
    · exact Node.forall_pieces mark str blank hd.root p hp
    · exact hgap hclose p hp

/-! ## Passes -/

/-- A character at which a gap ends: one that begins a value or a key, a colon, a comma or a closing
bracket. -/
def endsGap (c : Char) : Bool := c = '"' || c = ',' || isMark c

/-- A pass over a text, that rewrites the gaps and the commas in front of closing brackets; `P` says
of which blanks the gaps are. -/
structure Pass (F : List Char → List Char) (P : Blank → Prop) (g g' : Gap → List Char)
    (comma : List Char) : Prop where
  mark : ∀ c cs, isMark c = true → F (c :: cs) = c :: F cs
  gap : ∀ (gap : Gap) c cs, (∀ b ∈ gap, P b) → endsGap c = true →
    F (g gap ++ c :: cs) = g' gap ++ F (c :: cs)
  /-- A comma in front of an entry. -/
  more : ∀ (gap : Gap) cs, (∀ b ∈ gap, P b) → Starts cs →
    F (',' :: (g gap ++ cs)) = ',' :: F (g gap ++ cs)
  /-- A comma in front of a closing bracket. -/
  trailing : ∀ (gap : Gap) b cs, (∀ b ∈ gap, P b) →
    F (',' :: (g gap ++ Bracket.closing b :: cs)) = comma ++ F (g gap ++ Bracket.closing b :: cs)

/-- The pass leaves a string alone. -/
def Keeps (F : List Char → List Char) (raw : List Char) : Prop :=
  ∀ cs, F ('"' :: (raw ++ '"' :: cs)) = '"' :: (raw ++ '"' :: F cs)

/-- What a pass asks of a piece. -/
def Suits (F : List Char → List Char) (P : Blank → Prop) : Piece → Prop
  | .mark _ => True
  | .str raw => Keeps F raw
  | .blank b => P b

section Pass

variable {F : List Char → List Char} {P : Blank → Prop} {g g' : Gap → List Char} {comma : List Char}

/-- A gap whose blanks suit a pass. -/
theorem suits_gap {gap : Gap} {ps : List Piece} (hps : ∀ p ∈ ps, Suits F P p)
    (hsub : gap.map Piece.blank ⊆ ps) : ∀ b ∈ gap, P b :=
  fun b hb => hps (.blank b) (hsub (List.mem_map_of_mem hb))

theorem Pass.word (h : Pass F P g g' comma) {chars : List Char}
    (hchars : ∀ c ∈ chars, isWordChar c = true) (cs : List Char) :
    F (chars ++ cs) = chars ++ F cs := by
  induction chars with
  | nil => rfl
  | cons c chars ih =>
    have hc : isMark c = true := by
      rw [isMark, hchars c List.mem_cons_self, Bool.or_true]
    rw [List.cons_append, h.mark c _ hc, ih fun d hd => hchars d (List.mem_cons_of_mem _ hd)]
    rfl

/-- The gap in front of an entry or behind a value, with the comma or the bracket that follows. -/
theorem Pass.gap_starts (h : Pass F P g g' comma) {gap : Gap} (hgap : ∀ b ∈ gap, P b)
    {cs : List Char} (hcs : Starts cs) : F (g gap ++ cs) = g' gap ++ F cs := by
  obtain ⟨c, cs, rfl, hc⟩ := hcs
  refine h.gap gap c cs hgap ?_
  unfold isStartChar at hc
  unfold endsGap isMark
  simp only [Bool.or_eq_true, decide_eq_true_eq] at hc ⊢
  tauto

/-- The key of a member with its colon. -/
theorem Pass.label (h : Pass F P g g' comma) {label : Option Label}
    (hsuits : ∀ p ∈ writeLabel pieceStyle label, Suits F P p) {cs : List Char} (hcs : Starts cs) :
    F (writeLabel (textStyle g [',']) label ++ cs) =
      writeLabel (textStyle g' comma) label ++ F cs := by
  cases label with
  | none => rfl
  | some l =>
    have hbefore : ∀ b ∈ l.before, P b := suits_gap hsuits fun p hp =>
      List.mem_append_right _ (List.mem_append_left _ hp)
    have hafter : ∀ b ∈ l.after, P b := suits_gap hsuits fun p hp =>
      List.mem_append_right _ (List.mem_append_right _ (List.mem_cons_of_mem _ hp))
    have hkeeps : Keeps F l.raw :=
      hsuits (.str l.raw) (List.mem_append_left _ (List.mem_singleton.mpr rfl))
    have htext : ∀ (g : Gap → List Char) (comma cs : List Char),
        writeLabel (textStyle g comma) (some l) ++ cs =
          '"' :: (l.raw ++ '"' :: (g l.before ++ ':' :: (g l.after ++ cs))) := by
      intro g comma cs
      simp only [writeLabel, textStyle, List.append_assoc, List.cons_append, List.nil_append]
    rw [htext, htext, hkeeps, h.gap _ _ _ hbefore (by decide), h.mark ':' _ (by decide),
      h.gap_starts hafter hcs]

/-- A pass over an entry, in front of a comma or of the closing bracket. -/
theorem Pass.entry (h : Pass F P g g' comma) {b : Bracket} {e : Entry Node} (he : e.WellFormed b)
    (hnode : ∀ cs, F (e.node.write (textStyle g [',']) ++ cs) =
      e.node.write (textStyle g' comma) ++ F cs)
    (hsuits : ∀ p ∈ e.write pieceStyle, Suits F P p) {c : Char} (hc : endsGap c = true)
    (cs : List Char) :
    F (e.write (textStyle g [',']) ++ c :: cs) =
      e.write (textStyle g' comma) ++ F (c :: cs) := by
  have hgap : ∀ b ∈ e.gap, P b := suits_gap hsuits fun p hp => List.mem_append_left _ hp
  have hafter : ∀ b ∈ e.after, P b := suits_gap hsuits fun p hp =>
    List.mem_append_right _ (List.mem_append_right _ (List.mem_append_right _ hp))
  have hlabel : ∀ p ∈ writeLabel pieceStyle e.label, Suits F P p := fun p hp =>
    hsuits p (List.mem_append_right _ (List.mem_append_left _ hp))
  have htext : ∀ (g : Gap → List Char) (comma cs : List Char), e.write (textStyle g comma) ++ cs =
      g e.gap ++ (writeLabel (textStyle g comma) e.label ++
        (e.node.write (textStyle g comma) ++ (g e.after ++ cs))) := by
    intro g comma cs
    simp only [Entry.write, textStyle, List.append_assoc]
  have hstarts : Starts (e.node.write (textStyle g [',']) ++ (g e.after ++ c :: cs)) :=
    (Node.starts he.2.2.1).append _
  have hstartsLabel : Starts (writeLabel (textStyle g [',']) e.label ++
      (e.node.write (textStyle g [',']) ++ (g e.after ++ c :: cs))) := by
    rw [← List.append_assoc]
    exact (Entry.starts he).append _
  rw [htext, htext, h.gap_starts hgap hstartsLabel, h.label hlabel hstarts, hnode,
    h.gap _ _ _ hafter hc]

/-- A pass over the entries between two brackets. -/
theorem Pass.entries (h : Pass F P g g' comma) {b : Bracket} {es : Entries}
    (hes : EntriesWellFormed b es)
    (hnodes : ∀ e ∈ es.toList, ∀ cs, (∀ p ∈ e.node.pieces, Suits F P p) →
      F (e.node.write (textStyle g [',']) ++ cs) = e.node.write (textStyle g' comma) ++ F cs)
    (hsuits : ∀ p ∈ writeEntries pieceStyle es, Suits F P p) (cs : List Char) :
    F (writeEntries (textStyle g [',']) es ++ b.closing :: cs) =
      writeEntries (textStyle g' comma) es ++ F (b.closing :: cs) := by
  have hclosing : endsGap b.closing = true := by rw [endsGap, isMark_closing, Bool.or_true]
  have hentry : ∀ e ∈ es.toList, (∀ p ∈ e.write pieceStyle, Suits F P p) →
      ∀ {c}, endsGap c = true → ∀ cs, F (e.write (textStyle g [',']) ++ c :: cs) =
        e.write (textStyle g' comma) ++ F (c :: cs) := by
    intro e he hsuits c hc cs
    have hnode : ∀ p ∈ e.node.pieces, Suits F P p := fun p hp => hsuits p
      (List.mem_append_right _ (List.mem_append_right _ (List.mem_append_left _ hp)))
    exact h.entry (hes.entry e he) (fun cs => hnodes e he cs hnode) hsuits hc cs
  induction es with
  | last e => exact hentry e (List.mem_singleton.mpr rfl) hsuits hclosing cs
  | trailing e gap =>
    have htext : ∀ (g : Gap → List Char) (comma cs : List Char),
        writeEntries (textStyle g comma) (.trailing e gap) ++ cs =
          e.write (textStyle g comma) ++ (comma ++ (g gap ++ cs)) := by
      intro g comma cs
      rw [writeEntries_trailing]
      simp only [textStyle, List.append_assoc]
    have hgap : ∀ b ∈ gap, P b := suits_gap hsuits fun p hp =>
      List.mem_append_right _ (List.mem_append_right _ hp)
    rw [htext, htext, List.singleton_append,
      hentry e (List.mem_singleton.mpr rfl)
        (fun p hp => hsuits p (List.mem_append_left _ hp)) (by decide),
      h.trailing gap b cs hgap, h.gap _ _ _ hgap hclosing]
  | more e es ih =>
    have htext : ∀ (g : Gap → List Char) (comma cs : List Char),
        writeEntries (textStyle g comma) (.more e es) ++ cs =
          e.write (textStyle g comma) ++ ',' :: (writeEntries (textStyle g comma) es ++ cs) := by
      intro g comma cs
      rw [writeEntries_more]
      simp only [textStyle, List.append_assoc, List.cons_append]
    have hrest : ∀ p ∈ writeEntries pieceStyle es, Suits F P p := fun p hp =>
      hsuits p (List.mem_append_right _ (List.mem_cons_of_mem _ hp))
    have hstep : ∀ cs, F (',' :: (writeEntries (textStyle g [',']) es ++ cs)) =
        ',' :: F (writeEntries (textStyle g [',']) es ++ cs) := by
      intro cs
      obtain ⟨e', he', cs', hcs', heq⟩ := exists_gap_starts (g := g) (k := [',']) hes.2 cs
      have hgap : ∀ b ∈ e'.gap, P b := suits_gap hrest fun p hp =>
        write_subset he' (List.mem_append_left _ hp)
      rw [heq]
      exact h.more e'.gap cs' hgap hcs'
    rw [htext, htext, hentry e List.mem_cons_self
      (fun p hp => hsuits p (List.mem_append_left _ hp)) (by decide), hstep,
      ih hes.2 (fun e' he' => hnodes e' (List.mem_cons_of_mem _ he')) hrest
        (fun e' he' => hentry e' (List.mem_cons_of_mem _ he'))]

/-- A pass over a value rewrites its gaps and its commas. -/
theorem Pass.node (h : Pass F P g g' comma) {n : Node} (hn : n.WellFormed)
    (hsuits : ∀ p ∈ n.pieces, Suits F P p) (cs : List Char) :
    F (n.write (textStyle g [',']) ++ cs) = n.write (textStyle g' comma) ++ F cs := by
  induction n using Node.induct generalizing cs with
  | word chars v =>
    have htext : ∀ (g : Gap → List Char) (comma : List Char),
        Node.write (textStyle g comma) (.word chars v) = chars := fun _ _ => List.map_id _
    rw [htext, htext]
    exact h.word (readScalar_chars hn).2 cs
  | str raw =>
    have htext : ∀ (g : Gap → List Char) (comma cs : List Char),
        Node.write (textStyle g comma) (.str raw) ++ cs = '"' :: (raw ++ '"' :: cs) := by
      intro g comma cs
      simp only [Node.write, textStyle, List.cons_append, List.append_assoc, List.nil_append]
    rw [htext, htext]
    exact hsuits (.str raw) (List.mem_singleton.mpr rfl) cs
  | empty b gap =>
    have htext : ∀ (g : Gap → List Char) (comma cs : List Char),
        Node.write (textStyle g comma) (.empty b gap) ++ cs =
          b.opening :: (g gap ++ b.closing :: cs) := by
      intro g comma cs
      simp only [Node.write, textStyle, List.cons_append, List.append_assoc, List.nil_append]
    have hclosing : endsGap b.closing = true := by rw [endsGap, isMark_closing, Bool.or_true]
    have hgap : ∀ b ∈ gap, P b := suits_gap hsuits fun p hp =>
      List.mem_cons_of_mem _ (List.mem_append_left _ hp)
    rw [htext, htext, h.mark _ _ (isMark_opening b), h.gap _ _ _ hgap hclosing,
      h.mark _ _ (isMark_closing b)]
  | box b es ih =>
    have hes : EntriesWellFormed b es := hn
    have hpieces : ∀ p ∈ writeEntries pieceStyle es, Suits F P p := fun p hp =>
      hsuits p (List.mem_cons_of_mem _ (List.mem_append_left _ hp))
    have htext : ∀ (g : Gap → List Char) (comma cs : List Char),
        Node.write (textStyle g comma) (.box b es) ++ cs =
          b.opening :: (writeEntries (textStyle g comma) es ++ b.closing :: cs) := by
      intro g comma cs
      simp only [Node.write, textStyle, List.cons_append, List.append_assoc, List.nil_append]
    have hentries := h.entries hes
      (fun e he cs hsuits => ih e he (hes.entry e he).2.2.1 hsuits cs) hpieces cs
    rw [htext, htext, h.mark _ _ (isMark_opening b), hentries, h.mark _ _ (isMark_closing b)]

end Pass

end Memplex.Lib.Jsonc
