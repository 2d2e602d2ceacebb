import Memplex.Lib.Jsonc.Plain

/-!
# Texts with comments, read as plain JSON

The reader of plain JSON refuses a comment and a comma in front of a closing bracket. Where it reads
the text of a document all the same, it reads what the document says (`loads_strict`).
-/

namespace Memplex.Lib.Jsonc

open Json

/-- The style of the text of a document. -/
abbrev fullStyle : Style Char := textStyle Gap.text [',']

/-- White space is skipped, and a comment stops the reader. -/
theorem skipWs_gap {gap : Gap} (hgap : gap.WellFormed) (cs : List Char) :
    skipWs (gap.text ++ cs) = skipWs cs ∨ ∃ cs', skipWs (gap.text ++ cs) = '/' :: cs' := by
  induction gap with
  | nil => exact .inl rfl
  | cons b gap ih =>
    have hslash : ∀ cs', skipWs ('/' :: cs') = '/' :: cs' := fun _ => skipWs_of_not (by decide) _
    match b with
    | .space c =>
      have hc : isWs c = true := hgap _ List.mem_cons_self
      have hskip : skipWs (c :: (Gap.text gap ++ cs)) = skipWs (Gap.text gap ++ cs) :=
        List.dropWhile_cons_of_pos hc
      have htext : Gap.text (.space c :: gap) ++ cs = c :: (Gap.text gap ++ cs) := rfl
      rw [htext, hskip]
      exact ih fun b hb => hgap b (List.mem_cons_of_mem _ hb)
    | .line body => exact .inr ⟨_, hslash _⟩
    | .block body => exact .inr ⟨_, hslash _⟩

/-- A gap ends a value. -/
theorem ends_gap {gap : Gap} (hgap : gap.WellFormed) {cs : List Char} (hcs : Ends cs) :
    Ends (gap.text ++ cs) := by
  match gap with
  | [] => exact hcs
  | .space c :: gap =>
    intro d hd
    obtain rfl : c = d := Option.some.inj hd
    exact .inl (hgap (.space c) List.mem_cons_self)
  | .line body :: gap =>
    intro d hd
    exact .inr (.inr (.inr (.inr (Option.some.inj hd).symm)))
  | .block body :: gap =>
    intro d hd
    exact .inr (.inr (.inr (.inr (Option.some.inj hd).symm)))

theorem readValue_slash (fuel : ℕ) (cs : List Char) : readValue fuel ('/' :: cs) = none := by
  cases fuel <;> rfl

theorem readValue_square (fuel : ℕ) (cs : List Char) : readValue fuel (']' :: cs) = none := by
  cases fuel <;> rfl

theorem readItems_slash (fuel : ℕ) (cs : List Char) : readItems fuel ('/' :: cs) = none := by
  cases fuel with
  | zero => rfl
  | succ fuel => rw [readItems, readValue_slash]

theorem readItems_square (fuel : ℕ) (cs : List Char) : readItems fuel (']' :: cs) = none := by
  cases fuel with
  | zero => rfl
  | succ fuel => rw [readItems, readValue_square]

theorem readMembers_none (fuel : ℕ) {c : Char} (hc : c ≠ '"') (cs : List Char) :
    readMembers fuel (c :: cs) = none := by
  cases fuel with
  | zero => rfl
  | succ fuel =>
    rw [readMembers]
    rintro _ _ _ heq
    exact hc (List.cons.inj heq).1

/-- What a successful reading of a value means, in front of what may follow it. -/
def Node.ReadsStrictly (n : Node) : Prop :=
  ∀ fuel rest v rest', Ends rest → readValue fuel (n.text ++ rest) = some (v, rest') →
    n.value = some v ∧ rest' = rest

/-- A successful reading goes over a gap of white space. -/
theorem read_gap {α : Type} {read : List Char → Option α} (hslash : ∀ cs, read ('/' :: cs) = none)
    {gap : Gap} (hgap : gap.WellFormed) {cs : List Char} {a : α}
    (h : read (skipWs (gap.text ++ cs)) = some a) : read (skipWs cs) = some a := by
  rcases skipWs_gap hgap cs with heq | ⟨cs', heq⟩
  · rwa [heq] at h
  · rw [heq, hslash] at h
    cases h

/-- The text of an element, behind the gap in front of it. -/
theorem Entry.text_element {e : Entry Node} (he : e.WellFormed .square) (cs : List Char) :
    e.write fullStyle ++ cs = e.gap.text ++ (e.node.text ++ (e.after.text ++ cs)) := by
  obtain ⟨-, hlabel, -, -⟩ := he
  obtain ⟨gap, label, node, after⟩ := e
  cases label with
  | none => simp only [Entry.write, writeLabel, Node.text, textStyle, List.nil_append,
      List.append_assoc]
  | some l => exact hlabel.elim

/-- An element that was read, with what follows it. -/
theorem readItems_entry {e : Entry Node} (he : e.WellFormed .square)
    (hnode : e.node.ReadsStrictly) {fuel : ℕ} {cs rest : List Char} (hcs : Ends cs)
    {items : List (Json Token)}
    (h : readItems fuel (skipWs (e.write fullStyle ++ cs)) = some (items, rest)) :
    ∃ x, e.node.value = some x ∧
      ((skipWs cs = ']' :: rest ∧ items = [x]) ∨
        ∃ fuel' cs' items', skipWs cs = ',' :: cs' ∧
          readItems fuel' (skipWs cs') = some (items', rest) ∧ items = x :: items') := by
  have hstart : Starts (e.node.text ++ (e.after.text ++ cs)) :=
    (Node.starts he.2.2.1).append _
  rw [Entry.text_element he] at h
  have h := read_gap (readItems_slash fuel) he.1 h
  rw [hstart.skipWs] at h
  cases fuel with
  | zero => cases h
  | succ fuel =>
    rw [readItems] at h
    split at h
    · cases h
    · next item rest' hread =>
      obtain ⟨hvalue, rfl⟩ := hnode fuel _ item rest' (ends_gap he.2.2.2 hcs) hread
      refine ⟨item, hvalue, ?_⟩
      rcases skipWs_gap he.2.2.2 cs with heq | ⟨cs', heq⟩
      · rw [heq] at h
        split at h
        · next hskip =>
          cases h
          exact .inl ⟨hskip, rfl⟩
        · next cs' hskip =>
          obtain ⟨⟨items', rest''⟩, hitems, heq⟩ := Option.map_eq_some_iff.mp h
          cases heq
          exact .inr ⟨fuel, cs', items', hskip, hitems, rfl⟩
        · cases h
      · rw [heq] at h
        cases h

/-- The elements of an array that were read are what the text says. -/
theorem readItems_strict {es : Entries} (hes : EntriesWellFormed .square es)
    (hnodes : ∀ e ∈ es.toList, e.node.ReadsStrictly) {fuel : ℕ} {rest rest' : List Char}
    {items : List (Json Token)}
    (h : readItems fuel (skipWs (writeEntries fullStyle es ++ ']' :: rest)) = some (items, rest')) :
    (∃ ms, entriesValue es = some ms ∧ items = ms.map Prod.snd) ∧ rest' = rest := by
  have hclose : skipWs (']' :: rest) = ']' :: rest := skipWs_of_not (by decide) rest
  have hends : Ends (']' :: rest) := Bracket.closing_ends .square rest
  have hcomma : ∀ cs, skipWs (',' :: cs) = ',' :: cs := fun cs => skipWs_of_not (by decide) cs
  have hlabel : ∀ {e : Entry Node}, e.WellFormed .square → labelKey e.label = some "" := by
    intro e he
    cases h : e.label with
    | none => rfl
    | some l =>
      have hfits := he.2.1
      rw [h] at hfits
      exact hfits.elim
  induction es generalizing fuel items with
  | last e =>
    rw [writeEntries_last] at h
    obtain ⟨x, hx, ⟨hskip, rfl⟩ | ⟨_, _, _, hskip, -, -⟩⟩ := readItems_entry hes
      (hnodes e (List.mem_singleton.mpr rfl)) hends h
    · rw [hclose] at hskip
      refine ⟨⟨[("", x)], ?_, rfl⟩, (List.cons.inj hskip).2.symm⟩
      change ((labelKey e.label).bind fun k => e.node.value.map fun x => [(k, x)]) = _
      rw [hlabel hes, hx]
      rfl
    · rw [hclose] at hskip
      exact absurd (List.cons.inj hskip).1 (by decide)
  | trailing e gap =>
    have htext : writeEntries fullStyle (.trailing e gap) ++ ']' :: rest =
        e.write fullStyle ++ ',' :: (gap.text ++ ']' :: rest) := by
      rw [writeEntries_trailing]
      simp only [textStyle, List.append_assoc, List.cons_append, List.nil_append]
    rw [htext] at h
    obtain ⟨x, -, ⟨hskip, -⟩ | ⟨fuel', cs', items', hskip, hread, -⟩⟩ := readItems_entry hes.1
      (hnodes e (List.mem_singleton.mpr rfl)) (comma_ends _) h
    · rw [hcomma] at hskip
      exact absurd (List.cons.inj hskip).1 (by decide)
    · -- No element begins with the closing bracket.
      rw [hcomma] at hskip
      obtain ⟨-, rfl⟩ := List.cons.inj hskip
      have hread := read_gap (readItems_slash fuel') hes.2 hread
      rw [hclose, readItems_square] at hread
      cases hread
  | more e es ih =>
    have htext : writeEntries fullStyle (.more e es) ++ ']' :: rest =
        e.write fullStyle ++ ',' :: (writeEntries fullStyle es ++ ']' :: rest) := by
      rw [writeEntries_more, List.append_assoc]
      rfl
    rw [htext] at h
    obtain ⟨x, hx, ⟨hskip, -⟩ | ⟨fuel', cs', items', hskip, hread, rfl⟩⟩ := readItems_entry hes.1
      (hnodes e List.mem_cons_self) (comma_ends _) h
    · rw [hcomma] at hskip
      exact absurd (List.cons.inj hskip).1 (by decide)
    · rw [hcomma] at hskip
      obtain ⟨-, rfl⟩ := List.cons.inj hskip
      obtain ⟨⟨ms, hms, rfl⟩, hrest⟩ := ih hes.2
        (fun e' he' => hnodes e' (List.mem_cons_of_mem _ he')) hread
      refine ⟨⟨("", x) :: ms, ?_, rfl⟩, hrest⟩
      change ((labelKey e.label).bind fun k => e.node.value.bind fun x =>
        (entriesValue es).map fun ms => (k, x) :: ms) = _
      rw [hlabel hes.1, hx, hms]
      rfl

/-- The text of a member, behind the gap in front of it. -/
theorem Entry.text_member {gap after : Gap} {l : Label} {node : Node} (cs : List Char) :
    Entry.write fullStyle ⟨gap, some l, node, after⟩ ++ cs =
      gap.text ++ '"' :: (l.raw ++ '"' :: (l.before.text ++ ':' :: (l.after.text ++
        (node.text ++ (after.text ++ cs))))) := by
  simp only [Entry.write, writeLabel, Node.text, textStyle, List.append_assoc, List.cons_append,
    List.nil_append]

/-- A member that was read, with what follows it. -/
theorem readMembers_entry {e : Entry Node} (he : e.WellFormed .curly)
    (hnode : e.node.ReadsStrictly) {fuel : ℕ} {cs rest : List Char} (hcs : Ends cs)
    {ms : List (String × Json Token)}
    (h : readMembers fuel (skipWs (e.write fullStyle ++ cs)) = some (ms, rest)) :
    ∃ k x, labelKey e.label = some k ∧ e.node.value = some x ∧
      ((skipWs cs = '}' :: rest ∧ ms = [(k, x)]) ∨
        ∃ fuel' cs' ms', skipWs cs = ',' :: cs' ∧
          readMembers fuel' (skipWs cs') = some (ms', rest) ∧ ms = (k, x) :: ms') := by
  obtain ⟨hgap, hlabel, hform, hafter⟩ := he
  obtain ⟨gap, label, node, after⟩ := e
  cases label with
  | none => exact hlabel.elim
  | some l =>
    obtain ⟨hraw, hbefore, hcolon⟩ := hlabel
    rw [Entry.text_member] at h
    have h := read_gap (fun cs => readMembers_none fuel (by decide) cs) hgap h
    rw [skipWs_of_not (by decide)] at h
    cases fuel with
    | zero => cases h
    | succ fuel =>
      rw [readMembers, readString_quoted hraw] at h
      cases hkey : quotedText l.raw with
      | none =>
        rw [hkey] at h
        cases h
      | some k =>
        rw [hkey, Option.map_some] at h
        simp only at h
        rcases skipWs_gap hbefore (':' :: (l.after.text ++ (node.text ++ (after.text ++ cs))))
          with heq | ⟨cs', heq⟩
        · rw [heq, skipWs_of_not (by decide)] at h
          simp only at h
          have hstart : Starts (node.text ++ (after.text ++ cs)) := (Node.starts hform).append _
          split at h
          · cases h
          · next value rest' hread =>
            have hread := read_gap (readValue_slash fuel) hcolon hread
            rw [hstart.skipWs] at hread
            obtain ⟨hvalue, rfl⟩ := hnode fuel _ value rest' (ends_gap hafter hcs) hread
            refine ⟨k, value, hkey, hvalue, ?_⟩
            rcases skipWs_gap hafter cs with heq | ⟨cs', heq⟩
            · rw [heq] at h
              split at h
              · next hskip =>
                cases h
                exact .inl ⟨hskip, rfl⟩
              · next cs' hskip =>
                obtain ⟨⟨ms', rest''⟩, hms, heq⟩ := Option.map_eq_some_iff.mp h
                cases heq
                exact .inr ⟨fuel, cs', ms', hskip, hms, rfl⟩
              · cases h
            · rw [heq] at h
              cases h
        · rw [heq] at h
          cases h

/-- The members of an object that were read are what the text says. -/
theorem readMembers_strict {es : Entries} (hes : EntriesWellFormed .curly es)
    (hnodes : ∀ e ∈ es.toList, e.node.ReadsStrictly) {fuel : ℕ} {rest rest' : List Char}
    {ms : List (String × Json Token)}
    (h : readMembers fuel (skipWs (writeEntries fullStyle es ++ '}' :: rest)) = some (ms, rest')) :
    entriesValue es = some ms ∧ rest' = rest := by
  have hclose : skipWs ('}' :: rest) = '}' :: rest := skipWs_of_not (by decide) rest
  have hends : Ends ('}' :: rest) := Bracket.closing_ends .curly rest
  have hcomma : ∀ cs, skipWs (',' :: cs) = ',' :: cs := fun cs => skipWs_of_not (by decide) cs
  induction es generalizing fuel ms with
  | last e =>
    rw [writeEntries_last] at h
    obtain ⟨k, x, hk, hx, ⟨hskip, rfl⟩ | ⟨_, _, _, hskip, -, -⟩⟩ := readMembers_entry hes
      (hnodes e (List.mem_singleton.mpr rfl)) hends h
    · rw [hclose] at hskip
      refine ⟨?_, (List.cons.inj hskip).2.symm⟩
      change ((labelKey e.label).bind fun k => e.node.value.map fun x => [(k, x)]) = _
      rw [hk, hx]
      rfl
    · rw [hclose] at hskip
      exact absurd (List.cons.inj hskip).1 (by decide)
  | trailing e gap =>
    have htext : writeEntries fullStyle (.trailing e gap) ++ '}' :: rest =
        e.write fullStyle ++ ',' :: (gap.text ++ '}' :: rest) := by
      rw [writeEntries_trailing]
      simp only [textStyle, List.append_assoc, List.cons_append, List.nil_append]
    rw [htext] at h
    obtain ⟨k, x, -, -, ⟨hskip, -⟩ | ⟨fuel', cs', ms', hskip, hread, -⟩⟩ := readMembers_entry hes.1
      (hnodes e (List.mem_singleton.mpr rfl)) (comma_ends _) h
    · rw [hcomma] at hskip
      exact absurd (List.cons.inj hskip).1 (by decide)
    · -- No key begins with the closing brace.
      rw [hcomma] at hskip
      obtain ⟨-, rfl⟩ := List.cons.inj hskip
      have hread := read_gap (fun cs => readMembers_none fuel' (by decide) cs) hes.2 hread
      rw [hclose, readMembers_none fuel' (by decide)] at hread
      cases hread
  | more e es ih =>
    have htext : writeEntries fullStyle (.more e es) ++ '}' :: rest =
        e.write fullStyle ++ ',' :: (writeEntries fullStyle es ++ '}' :: rest) := by
      rw [writeEntries_more, List.append_assoc]
      rfl
    rw [htext] at h
    obtain ⟨k, x, hk, hx, ⟨hskip, -⟩ | ⟨fuel', cs', ms', hskip, hread, rfl⟩⟩ :=
      readMembers_entry hes.1 (hnodes e List.mem_cons_self) (comma_ends _) h
    · rw [hcomma] at hskip
      exact absurd (List.cons.inj hskip).1 (by decide)
    · rw [hcomma] at hskip
      obtain ⟨-, rfl⟩ := List.cons.inj hskip
      obtain ⟨hms, hrest⟩ := ih hes.2
        (fun e' he' => hnodes e' (List.mem_cons_of_mem _ he')) hread
      refine ⟨?_, hrest⟩
      change ((labelKey e.label).bind fun k => e.node.value.bind fun x =>
        (entriesValue es).map fun ms => (k, x) :: ms) = _
      rw [hk, hx, hms]
      rfl

/-- A value that was read is what the text says. -/
theorem Node.readsStrictly {n : Node} (h : n.WellFormed) : n.ReadsStrictly := by
  induction n using Node.induct with
  | word chars v =>
    rintro (- | fuel) rest w rest' hends hread
    · cases hread
    · obtain ⟨hne, hchars⟩ := readScalar_chars h
      obtain ⟨c, cs, rfl⟩ := List.exists_cons_of_ne_nil hne
      have hc := hchars c List.mem_cons_self
      have htext : Node.text (.word (c :: cs) v) = c :: cs := List.map_id _
      rw [htext, List.cons_append, readValue] at hread
      · rw [← List.cons_append, readScalar_ends h hends] at hread
        cases hread
        exact ⟨rfl, rfl⟩
      · exact fun _ hq => isWordChar_ne hc (by decide) (List.cons.inj hq).1
      · exact fun _ hq => isWordChar_ne hc (by decide) (List.cons.inj hq).1
      · exact fun _ hq => isWordChar_ne hc (by decide) (List.cons.inj hq).1
  | str raw =>
    rintro (- | fuel) rest w rest' hends hread
    · cases hread
    · have htext : Node.text (.str raw) ++ rest = '"' :: (raw ++ '"' :: rest) := by
        simp only [Node.text, Node.write, textStyle, List.cons_append, List.append_assoc,
          List.nil_append]
      rw [htext, readValue, readString_quoted h] at hread
      obtain ⟨⟨s, rest''⟩, hs, heq⟩ := Option.map_eq_some_iff.mp hread
      obtain ⟨t, ht, heq'⟩ := Option.map_eq_some_iff.mp hs
      cases heq
      cases heq'
      rw [Node.value, ht]
      exact ⟨rfl, rfl⟩
  | empty b gap =>
    rintro (- | fuel) rest w rest' hends hread
    · cases hread
    · have htext : Node.text (.empty b gap) ++ rest =
          b.opening :: (gap.text ++ b.closing :: rest) := by
        simp only [Node.text, Node.write, textStyle, List.cons_append, List.append_assoc,
          List.nil_append]
      rw [htext] at hread
      rcases skipWs_gap h (b.closing :: rest) with heq | ⟨cs', heq⟩
      · cases b with
        | square =>
          rw [Bracket.opening, readValue, heq, Bracket.closing, skipWs_of_not (by decide)] at hread
          cases hread
          exact ⟨rfl, rfl⟩
        | curly =>
          rw [Bracket.opening, readValue, heq, Bracket.closing, skipWs_of_not (by decide)] at hread
          cases hread
          exact ⟨rfl, rfl⟩
      · cases b with
        | square =>
          rw [Bracket.opening, readValue, heq] at hread
          split at hread
          · next hslash => exact absurd (List.cons.inj hslash).1 (by decide)
          · rw [readItems_slash] at hread
            cases hread
        | curly =>
          rw [Bracket.opening, readValue, heq] at hread
          split at hread
          · next hslash => exact absurd (List.cons.inj hslash).1 (by decide)
          · rw [readMembers_none fuel (by decide)] at hread
            cases hread
  | box b es ih =>
    rintro (- | fuel) rest w rest' hends hread
    · cases hread
    · have hes : EntriesWellFormed b es := h
      have hnodes : ∀ e ∈ es.toList, e.node.ReadsStrictly := fun e he =>
        ih e he (hes.entry e he).2.2.1
      have htext : Node.text (.box b es) ++ rest =
          b.opening :: (writeEntries fullStyle es ++ b.closing :: rest) := by
        simp only [Node.text, Node.write, textStyle, List.cons_append, List.append_assoc,
          List.nil_append]
      rw [htext] at hread
      have hstart : ∃ c cs, skipWs (writeEntries fullStyle es ++ b.closing :: rest) = c :: cs ∧
          c ≠ ']' ∧ c ≠ '}' := by
        obtain ⟨e, he, cs, hcs, heq⟩ := exists_gap_starts (g := Gap.text) (k := [',']) hes
          (b.closing :: rest)
        rw [heq]
        rcases skipWs_gap (hes.entry e he).1 cs with hskip | ⟨cs', hskip⟩
        · obtain ⟨c, cs', rfl, hc⟩ := hcs
          rw [hskip, skipWs_of_not (isWs_of_isStartChar hc)]
          exact ⟨c, cs', rfl, isStartChar_ne hc (by decide), isStartChar_ne hc (by decide)⟩
        · exact ⟨'/', cs', hskip, by decide, by decide⟩
      obtain ⟨c, cs, hskip, hsquare, hcurly⟩ := hstart
      cases b with
      | square =>
        rw [Bracket.opening, readValue, Bracket.closing] at hread
        rw [Bracket.closing] at hskip
        rw [hskip] at hread
        split at hread
        · next heq => exact absurd (List.cons.inj heq).1 hsquare
        · obtain ⟨⟨items, rest''⟩, hitems, heq⟩ := Option.map_eq_some_iff.mp hread
          cases heq
          rw [← hskip] at hitems
          obtain ⟨⟨ms, hms, rfl⟩, rfl⟩ := readItems_strict hes hnodes hitems
          rw [Node.value, hms]
          exact ⟨rfl, rfl⟩
      | curly =>
        rw [Bracket.opening, readValue, Bracket.closing] at hread
        rw [Bracket.closing] at hskip
        rw [hskip] at hread
        split at hread
        · next heq => exact absurd (List.cons.inj heq).1 hcurly
        · obtain ⟨⟨ms, rest''⟩, hms, heq⟩ := Option.map_eq_some_iff.mp hread
          cases heq
          rw [← hskip] at hms
          obtain ⟨hvalue, rfl⟩ := readMembers_strict hes hnodes hms
          rw [Node.value, hvalue]
          exact ⟨rfl, rfl⟩

/-- **A document that is read as plain JSON reads as what it says.** -/
theorem loads_strict {d : Doc} (h : d.WellFormed) {v : Json Token} (hread : loads d.text = some v) :
    d.value = some v := by
  have hends : Ends (d.trail.text ++ (d.coda.map fun body => '/' :: '/' :: body).getD []) := by
    refine ends_gap h.trail ?_
    cases d.coda with
    | none => exact fun _ hc => (Option.some_ne_none _ hc.symm).elim
    | some body => exact fun c hc => .inr (.inr (.inr (.inr (Option.some.inj hc).symm)))
  have hstart : Starts (d.root.text ++
      (d.trail.text ++ (d.coda.map fun body => '/' :: '/' :: body).getD [])) :=
    (Node.starts h.root).append _
  unfold loads at hread
  split at hread
  · cases hread
  · next value rest hvalue =>
    have hvalue := read_gap (readValue_slash _) h.lead hvalue
    rw [hstart.skipWs] at hvalue
    obtain ⟨hroot, -⟩ := Node.readsStrictly h.root _ _ _ _ hends hvalue
    split_ifs at hread
    rw [← hread]
    exact hroot

end Memplex.Lib.Jsonc
