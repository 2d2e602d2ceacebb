import Memplex.Lib.Jsonc.Scalars
import Memplex.Lib.Jsonc.Strings

/-!
# Texts without comments

A value that is written with white space for its gaps, and without a comma in front of a closing
bracket, reads as JSON to what it says (`loads_plain`). The fuel that the reader takes is
`Node.weight`, which the length of the text bounds.
-/

namespace Memplex.Lib.Jsonc

open Json

/-- A gap function that writes white space. -/
def WritesWs (g : Gap → List Char) : Prop := ∀ gap, gap.WellFormed → ∀ c ∈ g gap, isWs c = true

/-- A character that begins a value or a key. -/
def isStartChar (c : Char) : Bool := c = '"' || c = '[' || c = '{' || isWordChar c

/-- The text begins with a character that begins a value or a key. -/
def Starts (cs : List Char) : Prop := ∃ c cs', cs = c :: cs' ∧ isStartChar c = true

theorem Starts.append {cs : List Char} (h : Starts cs) (rest : List Char) :
    Starts (cs ++ rest) := by
  obtain ⟨c, cs', rfl, hc⟩ := h
  exact ⟨c, cs' ++ rest, rfl, hc⟩

/-- What a character that begins a value is not. -/
theorem isStartChar_ne {c : Char} (h : isStartChar c = true) {d : Char}
    (hd : isStartChar d = false) : c ≠ d := by
  rintro rfl
  rw [h] at hd
  exact Bool.noConfusion hd

theorem isWs_of_isStartChar {c : Char} (h : isStartChar c = true) : isWs c = false := by
  unfold isWs
  simp only [Bool.or_eq_false_iff, decide_eq_false_iff_not]
  exact ⟨⟨⟨isStartChar_ne h (by decide), isStartChar_ne h (by decide)⟩,
    isStartChar_ne h (by decide)⟩, isStartChar_ne h (by decide)⟩

/-! ## White space -/

theorem skipWs_append {ws : List Char} (h : ∀ c ∈ ws, isWs c = true) (rest : List Char) :
    skipWs (ws ++ rest) = skipWs rest := List.dropWhile_append_of_pos h

theorem skipWs_all {ws : List Char} (h : ∀ c ∈ ws, isWs c = true) : skipWs ws = [] := by
  have hskip := skipWs_append h []
  rwa [List.append_nil] at hskip

theorem skipWs_of_not {c : Char} (h : isWs c = false) (rest : List Char) :
    skipWs (c :: rest) = c :: rest := List.dropWhile_cons_of_neg (by rw [h]; decide)

theorem Starts.skipWs {cs : List Char} (h : Starts cs) : skipWs cs = cs := by
  obtain ⟨c, cs', rfl, hc⟩ := h
  exact skipWs_of_not (isWs_of_isStartChar hc) cs'

/-! ## How values begin -/

section

variable {g : Gap → List Char} {k : List Char}

/-- A value begins with a character of its own. -/
theorem Node.starts {n : Node} (h : n.WellFormed) : Starts (n.write (textStyle g k)) := by
  have hopen : ∀ (b : Bracket) cs, Starts (b.opening :: cs) := by
    intro b cs
    cases b
    · exact ⟨'[', cs, rfl, by decide⟩
    · exact ⟨'{', cs, rfl, by decide⟩
  cases n with
  | word chars v =>
    obtain ⟨hne, hchars⟩ := readScalar_chars h
    obtain ⟨c, cs, rfl⟩ := List.exists_cons_of_ne_nil hne
    refine ⟨c, _, rfl, ?_⟩
    rw [isStartChar, hchars c List.mem_cons_self, Bool.or_true]
  | str raw => exact ⟨'"', _, rfl, by decide⟩
  | empty b gap => exact hopen b _
  | box b es => exact hopen b _

/-- The key of a member, or the value of an element, begins with a character of its own. -/
theorem Entry.starts {b : Bracket} {e : Entry Node} (h : e.WellFormed b) :
    Starts (writeLabel (textStyle g k) e.label ++ e.node.write (textStyle g k)) := by
  cases hlabel : e.label with
  | none => exact Node.starts h.2.2.1
  | some l => exact ⟨'"', _, rfl, by decide⟩

/-- What stands between two brackets is a gap and the text of a first entry. -/
theorem exists_gap_starts {b : Bracket} {es : Entries}
    (hes : EntriesWellFormed b es) (cs : List Char) :
    ∃ e ∈ es.toList, ∃ cs', Starts cs' ∧
      writeEntries (textStyle g k) es ++ cs = g e.gap ++ cs' := by
  have hentry : ∀ {e : Entry Node}, e.WellFormed b → ∀ cs,
      ∃ cs', Starts cs' ∧ e.write (textStyle g k) ++ cs = g e.gap ++ cs' := by
    intro e he cs
    have hstarts := (Entry.starts (g := g) (k := k) he).append (g e.after ++ cs)
    refine ⟨_, hstarts, ?_⟩
    simp only [Entry.write, textStyle, List.append_assoc]
  cases es with
  | last e => exact ⟨e, List.mem_singleton.mpr rfl, hentry hes cs⟩
  | trailing e gap =>
    rw [writeEntries_trailing, List.append_assoc]
    exact ⟨e, List.mem_singleton.mpr rfl, hentry hes.1 _⟩
  | more e rest =>
    rw [writeEntries_more, List.append_assoc]
    exact ⟨e, List.mem_cons_self, hentry hes.1 _⟩

end

/-! ## Reading -/

mutual

/-- The fuel that reading a value takes. -/
def Node.weight : Node → ℕ
  | .word _ _ => 1
  | .str _ => 1
  | .empty _ _ => 1
  | .box _ es => 1 + entriesWeight es

/-- The fuel of what stands between two brackets. -/
def entriesWeight : Entries → ℕ
  | .last ⟨_, _, node, _⟩ => 1 + Node.weight node
  | .trailing ⟨_, _, node, _⟩ _ => 1 + Node.weight node
  | .more ⟨_, _, node, _⟩ rest => 1 + Node.weight node + entriesWeight rest

end

section Plain

variable {g : Gap → List Char}

/-- The style of a plain text. -/
abbrev plainStyle (g : Gap → List Char) : Style Char := textStyle g []

/-- What reading a value means, in front of what may follow it. -/
def Node.ReadsIn (g : Gap → List Char) (n : Node) : Prop :=
  ∀ fuel rest, n.weight ≤ fuel → Ends rest →
    readValue fuel (n.write (plainStyle g) ++ rest) = n.value.map fun v => (v, rest)

/-- White space ends a value. -/
theorem ends_ws {ws : List Char} (h : ∀ c ∈ ws, isWs c = true) {rest : List Char}
    (hrest : Ends rest) : Ends (ws ++ rest) := by
  cases ws with
  | nil => exact hrest
  | cons c ws =>
    intro d hd
    obtain rfl : c = d := Option.some.inj hd
    exact .inl (h c List.mem_cons_self)

theorem Bracket.closing_ends (b : Bracket) (cs : List Char) : Ends (b.closing :: cs) := by
  intro c hc
  obtain rfl : b.closing = c := Option.some.inj hc
  cases b
  · exact .inr (.inr (.inl rfl))
  · exact .inr (.inr (.inr (.inl rfl)))

theorem comma_ends (cs : List Char) : Ends (',' :: cs) :=
  fun _ hc => .inr (.inl (Option.some.inj hc).symm)

variable (hg : WritesWs g)

include hg

/-- The text of an element, from its value on. -/
theorem Entry.write_element {e : Entry Node} (he : e.WellFormed .square) (cs : List Char) :
    skipWs (e.write (plainStyle g) ++ cs) = e.node.write (plainStyle g) ++ (g e.after ++ cs) := by
  obtain ⟨hgap, hlabel, hform, -⟩ := he
  obtain ⟨gap, label, node, after⟩ := e
  cases label with
  | none =>
    simp only [Entry.write, writeLabel, List.nil_append, List.append_assoc]
    exact (skipWs_append (hg gap hgap) _).trans ((Node.starts hform).append _).skipWs
  | some l => exact hlabel.elim

/-- The last element of an array is read. -/
theorem readItems_last {e : Entry Node} (he : e.WellFormed .square) (hnode : e.node.ReadsIn g)
    {fuel : ℕ} (hfuel : e.node.weight ≤ fuel) {cs rest : List Char} (hends : Ends cs)
    (hcs : skipWs cs = ']' :: rest) :
    readItems (fuel + 1) (skipWs (e.write (plainStyle g) ++ cs)) =
      e.node.value.map fun v => ([v], rest) := by
  have hread := hnode fuel (g e.after ++ cs) hfuel (ends_ws (hg e.after he.2.2.2) hends)
  rw [Entry.write_element hg he, readItems, hread]
  cases e.node.value with
  | none => rfl
  | some v => simp only [Option.map_some, skipWs_append (hg e.after he.2.2.2), hcs]

/-- An element of an array that others follow is read. -/
theorem readItems_more {e : Entry Node} (he : e.WellFormed .square) (hnode : e.node.ReadsIn g)
    {fuel : ℕ} (hfuel : e.node.weight ≤ fuel) (cs : List Char) :
    readItems (fuel + 1) (skipWs (e.write (plainStyle g) ++ ',' :: cs)) =
      e.node.value.bind fun v => (readItems fuel (skipWs cs)).map fun p => (v :: p.1, p.2) := by
  have hread := hnode fuel (g e.after ++ ',' :: cs) hfuel
    (ends_ws (hg e.after he.2.2.2) (comma_ends cs))
  have hcomma : skipWs (',' :: cs) = ',' :: cs := skipWs_of_not (by decide) cs
  rw [Entry.write_element hg he, readItems, hread]
  cases e.node.value with
  | none => rfl
  | some v =>
    simp only [Option.map_some, Option.bind_some, skipWs_append (hg e.after he.2.2.2), hcomma]

/-- The elements of an array read as what they say. -/
theorem readItems_text {es : Entries} (hes : EntriesWellFormed .square es)
    (hnodes : ∀ e ∈ es.toList, e.node.ReadsIn g) {fuel : ℕ} (hfuel : entriesWeight es ≤ fuel)
    (rest : List Char) :
    readItems fuel (skipWs (writeEntries (plainStyle g) es ++ ']' :: rest)) =
      (entriesValue es).map fun ms => (ms.map Prod.snd, rest) := by
  have hlabel : ∀ {e : Entry Node}, e.WellFormed .square → labelKey e.label = some "" := by
    intro e he
    cases h : e.label with
    | none => rfl
    | some l =>
      have hfits := he.2.1
      rw [h] at hfits
      exact hfits.elim
  have hclose : skipWs (']' :: rest) = ']' :: rest := skipWs_of_not (by decide) rest
  have hends : Ends (']' :: rest) := Bracket.closing_ends .square rest
  induction es generalizing fuel with
  | last e =>
    have hweight : 1 + e.node.weight ≤ fuel := hfuel
    obtain ⟨fuel, rfl⟩ : ∃ f, fuel = f + 1 := ⟨fuel - 1, by omega⟩
    have hvalue : entriesValue (.last e) =
        (labelKey e.label).bind fun k => e.node.value.map fun x => [(k, x)] := rfl
    rw [writeEntries_last, readItems_last hg hes (hnodes e (List.mem_singleton.mpr rfl))
      (by omega) hends hclose, hvalue, hlabel hes]
    cases e.node.value <;> rfl
  | trailing e close =>
    have hweight : 1 + e.node.weight ≤ fuel := hfuel
    obtain ⟨fuel, rfl⟩ : ∃ f, fuel = f + 1 := ⟨fuel - 1, by omega⟩
    have hvalue : entriesValue (.trailing e close) =
        (labelKey e.label).bind fun k => e.node.value.map fun x => [(k, x)] := rfl
    have htext : writeEntries (plainStyle g) (.trailing e close) ++ ']' :: rest =
        e.write (plainStyle g) ++ (g close ++ ']' :: rest) := by
      rw [writeEntries_trailing, List.append_assoc]
      rfl
    rw [htext, readItems_last hg hes.1 (hnodes e (List.mem_singleton.mpr rfl)) (by omega)
      (ends_ws (hg close hes.2) hends)
      ((skipWs_append (hg close hes.2) _).trans hclose), hvalue, hlabel hes.1]
    cases e.node.value <;> rfl
  | more e es ih =>
    have hweight : 1 + e.node.weight + entriesWeight es ≤ fuel := hfuel
    obtain ⟨fuel, rfl⟩ : ∃ f, fuel = f + 1 := ⟨fuel - 1, by omega⟩
    have ih := ih hes.2 (fun e' he' => hnodes e' (List.mem_cons_of_mem _ he'))
      (by omega : entriesWeight es ≤ fuel)
    have hvalue : entriesValue (.more e es) = (labelKey e.label).bind fun k =>
        e.node.value.bind fun x => (entriesValue es).map fun ms => (k, x) :: ms := rfl
    have htext : writeEntries (plainStyle g) (.more e es) ++ ']' :: rest =
        e.write (plainStyle g) ++ ',' :: (writeEntries (plainStyle g) es ++ ']' :: rest) := by
      rw [writeEntries_more, List.append_assoc]
      rfl
    rw [htext, readItems_more hg hes.1 (hnodes e List.mem_cons_self) (by omega), ih, hvalue,
      hlabel hes.1]
    cases e.node.value with
    | none => rfl
    | some v => cases entriesValue es <;> rfl

/-- The text of a member, from its key on. -/
theorem Entry.write_member {gap after : Gap} {l : Label} {node : Node}
    (hgap : gap.WellFormed) (cs : List Char) :
    skipWs (Entry.write (plainStyle g) ⟨gap, some l, node, after⟩ ++ cs) =
      '"' :: (l.raw ++ '"' :: (g l.before ++ ':' :: (g l.after ++
        (node.write (plainStyle g) ++ (g after ++ cs))))) := by
  have htext : Entry.write (plainStyle g) ⟨gap, some l, node, after⟩ ++ cs =
      g gap ++ '"' :: (l.raw ++ '"' :: (g l.before ++ ':' :: (g l.after ++
        (node.write (plainStyle g) ++ (g after ++ cs))))) := by
    simp only [Entry.write, writeLabel, textStyle, List.append_assoc, List.cons_append,
      List.nil_append]
  rw [htext, skipWs_append (hg gap hgap), skipWs_of_not (by decide)]

/-- The last member of an object is read. -/
theorem readMembers_last {e : Entry Node} (he : e.WellFormed .curly) (hnode : e.node.ReadsIn g)
    {fuel : ℕ} (hfuel : e.node.weight ≤ fuel) {cs rest : List Char} (hends : Ends cs)
    (hcs : skipWs cs = '}' :: rest) :
    readMembers (fuel + 1) (skipWs (e.write (plainStyle g) ++ cs)) =
      (labelKey e.label).bind fun k => e.node.value.map fun v => ([(k, v)], rest) := by
  obtain ⟨hgap, hlabel, hform, hafter⟩ := he
  obtain ⟨gap, label, node, after⟩ := e
  cases label with
  | none => exact hlabel.elim
  | some l =>
    obtain ⟨hraw, hbefore, hcolon⟩ := hlabel
    have hread := hnode fuel (g after ++ cs) hfuel (ends_ws (hg after hafter) hends)
    have hstart := ((Node.starts (g := g) (k := []) hform).append (g after ++ cs)).skipWs
    rw [Entry.write_member hg hgap, readMembers, readString_quoted hraw, labelKey]
    cases quotedText l.raw with
    | none => rfl
    | some k =>
      simp only [Option.map_some, skipWs_append (hg l.before hbefore),
        skipWs_of_not (show isWs ':' = false by decide), skipWs_append (hg l.after hcolon), hstart,
        hread, Option.bind_some]
      cases node.value with
      | none => rfl
      | some v => simp only [Option.map_some, skipWs_append (hg after hafter), hcs]

/-- A member of an object that others follow is read. -/
theorem readMembers_more {e : Entry Node} (he : e.WellFormed .curly) (hnode : e.node.ReadsIn g)
    {fuel : ℕ} (hfuel : e.node.weight ≤ fuel) (cs : List Char) :
    readMembers (fuel + 1) (skipWs (e.write (plainStyle g) ++ ',' :: cs)) =
      (labelKey e.label).bind fun k => e.node.value.bind fun v =>
        (readMembers fuel (skipWs cs)).map fun p => ((k, v) :: p.1, p.2) := by
  obtain ⟨hgap, hlabel, hform, hafter⟩ := he
  obtain ⟨gap, label, node, after⟩ := e
  cases label with
  | none => exact hlabel.elim
  | some l =>
    obtain ⟨hraw, hbefore, hcolon⟩ := hlabel
    have hread := hnode fuel (g after ++ ',' :: cs) hfuel
      (ends_ws (hg after hafter) (comma_ends cs))
    have hstart := ((Node.starts (g := g) (k := []) hform).append
      (g after ++ ',' :: cs)).skipWs
    have hcomma : skipWs (',' :: cs) = ',' :: cs := skipWs_of_not (by decide) cs
    rw [Entry.write_member hg hgap, readMembers, readString_quoted hraw, labelKey]
    cases quotedText l.raw with
    | none => rfl
    | some k =>
      simp only [Option.map_some, skipWs_append (hg l.before hbefore),
        skipWs_of_not (show isWs ':' = false by decide), skipWs_append (hg l.after hcolon), hstart,
        hread, Option.bind_some]
      cases node.value with
      | none => rfl
      | some v =>
        simp only [Option.map_some, Option.bind_some, skipWs_append (hg after hafter), hcomma]

/-- The members of an object read as what they say. -/
theorem readMembers_text {es : Entries} (hes : EntriesWellFormed .curly es)
    (hnodes : ∀ e ∈ es.toList, e.node.ReadsIn g) {fuel : ℕ} (hfuel : entriesWeight es ≤ fuel)
    (rest : List Char) :
    readMembers fuel (skipWs (writeEntries (plainStyle g) es ++ '}' :: rest)) =
      (entriesValue es).map fun ms => (ms, rest) := by
  have hclose : skipWs ('}' :: rest) = '}' :: rest := skipWs_of_not (by decide) rest
  have hends : Ends ('}' :: rest) := Bracket.closing_ends .curly rest
  induction es generalizing fuel with
  | last e =>
    have hweight : 1 + e.node.weight ≤ fuel := hfuel
    obtain ⟨fuel, rfl⟩ : ∃ f, fuel = f + 1 := ⟨fuel - 1, by omega⟩
    have hvalue : entriesValue (.last e) =
        (labelKey e.label).bind fun k => e.node.value.map fun x => [(k, x)] := rfl
    rw [writeEntries_last, readMembers_last hg hes (hnodes e (List.mem_singleton.mpr rfl))
      (by omega) hends hclose, hvalue]
    cases labelKey e.label <;> cases e.node.value <;> rfl
  | trailing e close =>
    have hweight : 1 + e.node.weight ≤ fuel := hfuel
    obtain ⟨fuel, rfl⟩ : ∃ f, fuel = f + 1 := ⟨fuel - 1, by omega⟩
    have hvalue : entriesValue (.trailing e close) =
        (labelKey e.label).bind fun k => e.node.value.map fun x => [(k, x)] := rfl
    have htext : writeEntries (plainStyle g) (.trailing e close) ++ '}' :: rest =
        e.write (plainStyle g) ++ (g close ++ '}' :: rest) := by
      rw [writeEntries_trailing, List.append_assoc]
      rfl
    rw [htext, readMembers_last hg hes.1 (hnodes e (List.mem_singleton.mpr rfl)) (by omega)
      (ends_ws (hg close hes.2) hends) ((skipWs_append (hg close hes.2) _).trans hclose), hvalue]
    cases labelKey e.label <;> cases e.node.value <;> rfl
  | more e es ih =>
    have hweight : 1 + e.node.weight + entriesWeight es ≤ fuel := hfuel
    obtain ⟨fuel, rfl⟩ : ∃ f, fuel = f + 1 := ⟨fuel - 1, by omega⟩
    have ih := ih hes.2 (fun e' he' => hnodes e' (List.mem_cons_of_mem _ he'))
      (by omega : entriesWeight es ≤ fuel)
    have hvalue : entriesValue (.more e es) = (labelKey e.label).bind fun k =>
        e.node.value.bind fun x => (entriesValue es).map fun ms => (k, x) :: ms := rfl
    have htext : writeEntries (plainStyle g) (.more e es) ++ '}' :: rest =
        e.write (plainStyle g) ++ ',' :: (writeEntries (plainStyle g) es ++ '}' :: rest) := by
      rw [writeEntries_more, List.append_assoc]
      rfl
    rw [htext, readMembers_more hg hes.1 (hnodes e List.mem_cons_self) (by omega), ih, hvalue]
    cases labelKey e.label with
    | none => rfl
    | some k =>
      cases e.node.value with
      | none => rfl
      | some v => cases entriesValue es <;> rfl

/-- Entries begin, behind the gap in front of the first, with a character of their own. -/
theorem writeEntries_starts {b : Bracket} {es : Entries} (hes : EntriesWellFormed b es)
    (cs : List Char) : Starts (skipWs (writeEntries (plainStyle g) es ++ cs)) := by
  obtain ⟨e, he, cs', hcs', heq⟩ := exists_gap_starts (g := g) (k := []) hes cs
  rw [heq, skipWs_append (hg e.gap (hes.entry e he).1), hcs'.skipWs]
  exact hcs'

/-- A value reads as what it says. -/
theorem Node.readsIn {n : Node} (h : n.WellFormed) : n.ReadsIn g := by
  induction n using Node.induct with
  | word chars v =>
    rintro (- | fuel) rest hfuel hends
    · exact absurd hfuel (by rw [Node.weight]; decide)
    · obtain ⟨hne, hchars⟩ := readScalar_chars h
      obtain ⟨c, cs, rfl⟩ := List.exists_cons_of_ne_nil hne
      have hc := hchars c List.mem_cons_self
      have htext : Node.write (plainStyle g) (.word (c :: cs) v) = c :: cs := List.map_id _
      rw [htext, List.cons_append, readValue]
      · rw [← List.cons_append, readScalar_ends h hends]
        rfl
      · exact fun _ hq => isWordChar_ne hc (by decide) (List.cons.inj hq).1
      · exact fun _ hq => isWordChar_ne hc (by decide) (List.cons.inj hq).1
      · exact fun _ hq => isWordChar_ne hc (by decide) (List.cons.inj hq).1
  | str raw =>
    rintro (- | fuel) rest hfuel hends
    · exact absurd hfuel (by rw [Node.weight]; decide)
    · have htext : Node.write (plainStyle g) (.str raw) ++ rest = '"' :: (raw ++ '"' :: rest) := by
        simp only [Node.write, textStyle, List.cons_append, List.append_assoc, List.nil_append]
      rw [htext, readValue, readString_quoted h, Node.value]
      cases quotedText raw <;> rfl
  | empty b gap =>
    rintro (- | fuel) rest hfuel hends
    · exact absurd hfuel (by rw [Node.weight]; decide)
    · have htext : Node.write (plainStyle g) (.empty b gap) ++ rest =
          b.opening :: (g gap ++ b.closing :: rest) := by
        simp only [Node.write, textStyle, List.cons_append, List.append_assoc, List.nil_append]
      rw [htext]
      cases b with
      | square =>
        rw [Bracket.opening, readValue, skipWs_append (hg gap h), Bracket.closing,
          skipWs_of_not (by decide)]
        rfl
      | curly =>
        rw [Bracket.opening, readValue, skipWs_append (hg gap h), Bracket.closing,
          skipWs_of_not (by decide)]
        rfl
  | box b es ih =>
    rintro (- | fuel) rest hfuel hends
    · rw [Node.weight] at hfuel
      omega
    · rw [Node.weight] at hfuel
      have hes : EntriesWellFormed b es := h
      have hnodes : ∀ e ∈ es.toList, e.node.ReadsIn g := fun e he =>
        ih e he (hes.entry e he).2.2.1
      have htext : Node.write (plainStyle g) (.box b es) ++ rest =
          b.opening :: (writeEntries (plainStyle g) es ++ b.closing :: rest) := by
        simp only [Node.write, textStyle, List.cons_append, List.append_assoc, List.nil_append]
      obtain ⟨c, cs, hskip, hc⟩ := writeEntries_starts hg hes (b.closing :: rest)
      rw [htext]
      cases b with
      | square =>
        have hread := readItems_text hg hes hnodes (by omega : entriesWeight es ≤ fuel) rest
        rw [Bracket.closing] at hskip ⊢
        rw [hskip] at hread
        rw [Bracket.opening, readValue, hskip]
        split
        · next heq => exact absurd (List.cons.inj heq).1 (isStartChar_ne hc (by decide))
        · rw [hread, Node.value]
          cases entriesValue es <;> rfl
      | curly =>
        have hread := readMembers_text hg hes hnodes (by omega : entriesWeight es ≤ fuel) rest
        rw [Bracket.closing] at hskip ⊢
        rw [hskip] at hread
        rw [Bracket.opening, readValue, hskip]
        split
        · next heq => exact absurd (List.cons.inj heq).1 (isStartChar_ne hc (by decide))
        · rw [hread, Node.value]
          cases entriesValue es <;> rfl

omit hg in
/-- Reading a value needs no more fuel than its text has characters. -/
theorem Node.weight_le {n : Node} (h : n.WellFormed) :
    n.weight ≤ (n.write (plainStyle g)).length := by
  induction n using Node.induct with
  | word chars v =>
    have hne : chars.length ≠ 0 := fun h0 => (readScalar_chars h).1 (List.length_eq_zero_iff.mp h0)
    rw [Node.weight, Node.write, List.length_map]
    omega
  | str raw => simp [Node.weight, Node.write, textStyle]
  | empty b gap => simp [Node.weight, Node.write]
  | box b es ih =>
    have hes : EntriesWellFormed b es := h
    have hentry : ∀ e ∈ es.toList, e.node.weight ≤ (e.write (plainStyle g)).length := by
      intro e he
      have hnode := ih e he (hes.entry e he).2.2.1
      simp only [Entry.write, List.length_append]
      omega
    have hle : entriesWeight es ≤ (writeEntries (plainStyle g) es).length + 1 := by
      clear ih h hes
      induction es with
      | last e =>
        have he := hentry e (List.mem_singleton.mpr rfl)
        change 1 + e.node.weight ≤ _
        rw [writeEntries_last]
        omega
      | trailing e gap =>
        have he := hentry e (List.mem_singleton.mpr rfl)
        change 1 + e.node.weight ≤ _
        rw [writeEntries_trailing, List.length_append]
        omega
      | more e es ih =>
        have he := hentry e List.mem_cons_self
        have hrest := ih fun e' he' => hentry e' (List.mem_cons_of_mem _ he')
        change 1 + e.node.weight + entriesWeight es ≤ _
        rw [writeEntries_more, List.length_append, List.length_cons]
        omega
    rw [Node.weight, Node.write]
    simp only [List.length_cons, List.length_append, List.length_nil]
    omega

/-- **A plain text reads as what it says**, and does not read where it says nothing. -/
theorem loads_plain {n : Node} (h : n.WellFormed) {lead trail : List Char}
    (hlead : ∀ c ∈ lead, isWs c = true) (htrail : ∀ c ∈ trail, isWs c = true) :
    loads (lead ++ (n.write (plainStyle g) ++ trail)) = n.value := by
  have hends : Ends trail := by
    have hnil : Ends [] := fun _ hc => (Option.some_ne_none _ hc.symm).elim
    have htail := ends_ws htrail hnil
    rwa [List.append_nil] at htail
  have hread := Node.readsIn hg h ((lead ++ (n.write (plainStyle g) ++ trail)).length + 1) trail
    (by
      have hle := Node.weight_le (g := g) h
      simp only [List.length_append]
      omega) hends
  have hstart := ((Node.starts (g := g) (k := []) h).append trail).skipWs
  unfold loads
  rw [skipWs_append hlead, hstart, hread]
  cases n.value with
  | none => rfl
  | some v => simp only [Option.map_some, skipWs_all htrail, if_true]

end Plain

end Memplex.Lib.Jsonc
