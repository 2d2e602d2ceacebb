import Memplex.Adapters.JsoncScan

/-!
# The members that the JSONC editor sees

The end of a value is where the grammar has it (`scanValueEnd_text`), and so one turn of the loop of
`_object_members` goes over one entry (`membersFrom_member`). On the text of an object the loop
lists its entries in their order (`membersFrom_entries`), and what it finds of each is the key and
the text of the value, in which it lists the members again (`seen_text`).
-/

namespace Memplex

open Lib Lib.Json Lib.Jsonc

/-! ## The end of a value -/

/-- A gap is white space up to its first comment. -/
theorem exists_ws_comment {gap : Gap} (hgap : gap.WellFormed) (cs : List Char) :
    ∃ ws rest, gap.text ++ cs = ws ++ rest ∧ (∀ c ∈ ws, isWs c = true) ∧
      (rest = cs ∨ (commentLength rest).isSome = true) := by
  induction gap with
  | nil => exact ⟨[], cs, rfl, fun c hc => absurd hc List.not_mem_nil, .inl rfl⟩
  | cons b gap ih =>
    have hb := hgap b List.mem_cons_self
    have htext : Gap.text (b :: gap) ++ cs = b.text ++ (Gap.text gap ++ cs) := by
      rw [Gap.text, List.flatMap_cons, List.append_assoc]
      rfl
    by_cases hspace : ∃ c, b = .space c
    · obtain ⟨c, rfl⟩ := hspace
      obtain ⟨ws, rest, heq, hws, hrest⟩ := ih fun b' hb' => hgap b' (List.mem_cons_of_mem _ hb')
      refine ⟨c :: ws, rest, ?_, ?_, hrest⟩
      · rw [htext, heq]
        rfl
      · intro d hd
        rcases List.mem_cons.mp hd with rfl | hd
        · exact hb
        · exact hws d hd
    · obtain ⟨cs', heq, hcomment, -⟩ := commentLength_text hb (fun c h => hspace ⟨c, h⟩)
        (Gap.text gap ++ cs)
      refine ⟨[], b.text ++ (Gap.text gap ++ cs), htext, fun c hc => absurd hc List.not_mem_nil,
        .inr ?_⟩
      rw [hcomment]
      rfl

/-- A scalar goes on to the comma, to the comment or to the limit. -/
theorem scalarLength_append {chars rest : List Char} (hchars : ∀ c ∈ chars, c ≠ '/' ∧ c ≠ ',')
    (hrest : rest = [] ∨ rest.head? = some ',' ∨ (commentLength rest).isSome = true) :
    scalarLength (chars ++ rest) = chars.length := by
  induction chars with
  | nil =>
    rcases hrest with rfl | hcomma | hcomment
    · rfl
    · cases rest with
      | nil => rfl
      | cons c rest =>
        rw [List.nil_append, scalarLength, if_pos (.inr (Option.some.inj hcomma))]
        rfl
    · cases rest with
      | nil => rfl
      | cons c rest =>
        rw [List.nil_append, scalarLength, if_pos (.inl hcomment)]
        rfl
  | cons c chars ih =>
    obtain ⟨hslash, hcomma⟩ := hchars c List.mem_cons_self
    rw [List.cons_append, scalarLength, if_neg, ih fun d hd => hchars d (List.mem_cons_of_mem _ hd)]
    · rfl
    · rw [commentLength_none hslash]
      rintro (hno | heq)
      · cases hno
      · exact hcomma heq

/-- The white space at the end of a text goes. -/
theorem dropWhile_trailing {chars ws : List Char} (hne : chars ≠ [])
    (hchars : ∀ c ∈ chars, isPySpace c = false) (hws : ∀ c ∈ ws, isWs c = true) :
    ((chars ++ ws).reverse.dropWhile isPySpace).reverse = chars := by
  have hlast : chars.reverse.dropWhile isPySpace = chars.reverse := by
    obtain ⟨c, cs, hcs⟩ := List.exists_cons_of_ne_nil (mt List.reverse_eq_nil_iff.mp hne)
    have hc : c ∈ chars := List.mem_reverse.mp (hcs ▸ List.mem_cons_self)
    rw [hcs, List.dropWhile_cons_of_neg]
    rw [hchars c hc]
    decide
  rw [List.reverse_append, List.dropWhile_append_of_pos
    fun c hc => isPySpace_of_isWs (hws c (List.mem_reverse.mp hc)), hlast, List.reverse_reverse]

theorem isPySpace_of_isWordChar {c : Char} (h : isWordChar c = true) : isPySpace c = false :=
  isPySpace_of_isMark (by rw [isMark, h, Bool.or_true])

/-- What may follow a value and the gap behind it, within an object. -/
def FollowedBy (stop : ℕ) (cs : List Char) : Prop := cs.head? = some ',' ∨ cs.length = stop

/-- The text of a value without what follows it, up to the limit. -/
theorem take_limit {a cs : List Char} {stop : ℕ} (hstop : stop ≤ cs.length) :
    (a ++ cs).take ((a ++ cs).length - stop) = a ++ cs.take (cs.length - stop) := by
  rw [List.length_append, Nat.add_sub_assoc hstop, List.take_length_add_append]

/-- **The end of a value** is where its text ends. -/
theorem scanValueEnd_text {n : Node} (hn : n.WellFormed) {gap : Gap} (hgap : gap.WellFormed)
    {stop : ℕ} {cs : List Char} (hstop : stop ≤ cs.length) (hcs : FollowedBy stop cs) :
    scanValueEnd stop (n.text ++ (gap.text ++ cs)) = .ok (gap.text ++ cs) := by
  have hlong : ¬ (n.text ++ (gap.text ++ cs)).length ≤ stop := by
    have hlength : 0 < n.text.length := by
      obtain ⟨d, ds, heq, -⟩ := Node.starts (g := Gap.text) (k := [',']) hn
      have hlen := congrArg List.length heq
      rw [List.length_cons] at hlen
      exact Nat.lt_of_lt_of_eq (Nat.succ_pos _) hlen.symm
    simp only [List.length_append]
    omega
  rw [scanValueEnd, if_neg hlong]
  cases n with
  | str raw =>
    have htext : Node.text (.str raw) ++ (gap.text ++ cs) =
        '"' :: (raw ++ '"' :: (gap.text ++ cs)) := by
      simp only [Node.text, Node.write, textStyle, List.cons_append, List.append_assoc,
        List.nil_append]
    rw [htext, List.head?_cons, if_pos rfl, List.tail_cons, scanString_quoted hn, Option.elim_some,
      ← List.drop_drop, List.drop_left]
    rfl
  | empty b gap' =>
    have hopen : (Node.text (.empty b gap') ++ (gap.text ++ cs)).head? = some b.opening := rfl
    rw [hopen, matchingDelimiter_empty hn, if_neg (by cases b <;> decide),
      if_pos (by cases b <;> decide)]
    rfl
  | box b es =>
    have hopen : (Node.text (.box b es) ++ (gap.text ++ cs)).head? = some b.opening := rfl
    rw [hopen, matchingDelimiter_box hn, if_neg (by cases b <;> decide),
      if_pos (by cases b <;> decide)]
    rfl
  | word chars v =>
    obtain ⟨hne, hchars⟩ := readScalar_chars hn
    have htext : Node.text (.word chars v) = chars := List.map_id _
    obtain ⟨d, ds, rfl⟩ := List.exists_cons_of_ne_nil hne
    have hd := hchars d List.mem_cons_self
    have hopen : ∀ {x : Char}, isWordChar x = false →
        (d :: ds ++ (gap.text ++ cs)).head? ≠ some x := by
      intro x hx heq
      exact isWordChar_ne hd hx (Option.some.inj heq)
    obtain ⟨ws, rest, hsplit, hws, hrest⟩ := exists_ws_comment hgap (cs.take (cs.length - stop))
    have hend : rest = [] ∨ rest.head? = some ',' ∨ (commentLength rest).isSome = true := by
      rcases hrest with rfl | hcomment
      · rcases hcs with hcomma | hlen
        · rcases Nat.eq_zero_or_pos (cs.length - stop) with hzero | hpos
          · exact .inl (by rw [hzero]; rfl)
          · exact .inr (.inl (by rw [List.head?_take, if_neg (by omega), hcomma]))
        · exact .inl (by rw [hlen, Nat.sub_self]; rfl)
      · exact .inr (.inr hcomment)
    have hplain : ∀ c ∈ d :: ds ++ ws, c ≠ '/' ∧ c ≠ ',' := by
      intro c hc
      rcases List.mem_append.mp hc with hc | hc
      · exact ⟨isWordChar_ne (hchars c hc) (by decide), isWordChar_ne (hchars c hc) (by decide)⟩
      · constructor <;> rintro rfl <;> exact absurd (hws _ hc) (by decide)
    have hslice : (d :: ds ++ (gap.text ++ cs)).take ((d :: ds ++ (gap.text ++ cs)).length - stop) =
        (d :: ds ++ ws) ++ rest := by
      have hassoc : d :: ds ++ (gap.text ++ cs) = (d :: ds ++ gap.text) ++ cs :=
        (List.append_assoc ..).symm
      rw [hassoc, take_limit hstop, List.append_assoc, hsplit, List.append_assoc]
    have hfront : ∃ more, d :: ds ++ (gap.text ++ cs) = (d :: ds ++ ws) ++ more := by
      have htake := List.take_append_drop ((d :: ds ++ (gap.text ++ cs)).length - stop)
        (d :: ds ++ (gap.text ++ cs))
      rw [hslice, List.append_assoc] at htake
      exact ⟨_, htake.symm⟩
    obtain ⟨more, hmore⟩ := hfront
    have hscalar : (d :: ds ++ (gap.text ++ cs)).take (d :: ds ++ ws).length = d :: ds ++ ws := by
      rw [hmore, List.take_left]
    rw [htext, if_neg (hopen (by decide)),
      if_neg (not_or.mpr ⟨hopen (by decide), hopen (by decide)⟩), hslice,
      scalarLength_append hplain hend, hscalar]
    dsimp only
    rw [dropWhile_trailing hne (fun c hc => isPySpace_of_isWordChar (hchars c hc)) hws, if_neg hne,
      List.drop_left]

/-! ## Members -/

/-- The key of a member is read as what it says. -/
theorem loadKey_quoted {raw : List Char} (h : Quoted raw) {key : String}
    (hkey : quotedText raw = some key) : loadKey ('"' :: (raw ++ ['"'])) = .ok key := by
  have hplain := loads_plain (g := fun _ => []) (fun _ _ _ hc => absurd hc List.not_mem_nil)
    (n := .str raw) h (fun _ hc => absurd hc List.not_mem_nil)
    (fun _ hc => absurd hc List.not_mem_nil)
  have htext : ([] : List Char) ++ (Node.write (plainStyle fun _ => []) (.str raw) ++ []) =
      '"' :: (raw ++ ['"']) := by
    rw [List.nil_append, List.append_nil]
    rfl
  have hvalue : Node.value (.str raw) = some (.str key) := by
    rw [Node.value, hkey]
    rfl
  rw [htext, hvalue] at hplain
  rw [loadKey, hplain]

/-- What stands in an object from the value of a member on. -/
def fromValue (e : Jsonc.Entry Node) (cs : List Char) : List Char :=
  e.node.text ++ (e.after.text ++ cs)

/-- What the scanner finds of a member, in front of `cs`. -/
def memberOf (l : Label) (e : Jsonc.Entry Node) (key : String) (cs : List Char)
    (comma : Option (List Char)) : JsoncMember where
  key := key
  keyStart := '"' :: (l.raw ++ '"' :: (l.before.text ++ ':' :: (l.after.text ++ fromValue e cs)))
  valueStart := fromValue e cs
  valueEnd := e.after.text ++ cs
  comma := comma

theorem halts_cons {c : Char} (hspace : isPySpace c = false) (hslash : c ≠ '/') (cs : List Char) :
    Halts (c :: cs) := by
  intro d hd
  obtain rfl := Option.some.inj hd
  exact ⟨hspace, hslash⟩

theorem Starts.halts {cs : List Char} (h : Starts cs) : Halts cs := by
  obtain ⟨c, cs, rfl, hc⟩ := h
  refine halts_cons ?_ (isStartChar_ne hc (by decide)) cs
  by_cases hquote : c = '"'
  · rw [hquote]
    decide
  · refine isPySpace_of_isMark ?_
    unfold isStartChar at hc
    unfold isMark
    simp only [Bool.or_eq_true, decide_eq_true_eq] at hc ⊢
    tauto

/-- The scanner goes over a member up to what follows it. -/
theorem membersFrom_member {e : Jsonc.Entry Node} (he : e.WellFormed .curly) {l : Label}
    (hl : e.label = some l) {key : String} (hkey : quotedText l.raw = some key) {stop : ℕ}
    {cs : List Char} (hstop : stop ≤ cs.length) (hcs : FollowedBy stop cs)
    (hhalts : stop < cs.length → Halts cs) (fuel : ℕ) :
    membersFrom (fuel + 1) stop (e.write fullStyle ++ cs) =
      if stop < cs.length ∧ cs.head? = some ',' then
        (membersFrom fuel stop cs.tail).map fun rest => memberOf l e key cs (some cs) :: rest
      else do
        let last ← skipTrivia stop cs
        require (last.length = stop) (valueError ("Missing comma after JSONC key " ++ key))
        return [memberOf l e key cs none] := by
  obtain ⟨gap, label, node, after⟩ := e
  obtain rfl : label = some l := hl
  obtain ⟨hgap, ⟨hraw, hbefore, hcolon⟩, hform, hafter⟩ := he
  set value := node.text ++ (after.text ++ cs) with hvalue
  set colon := ':' :: (l.after.text ++ value) with hcolonText
  set keyStart := '"' :: (l.raw ++ '"' :: (l.before.text ++ colon)) with hkeyStart
  have hvalueLong : stop ≤ value.length := by
    simp only [hvalue, List.length_append]
    omega
  have hcolonLong : stop < colon.length := by
    simp only [hcolonText, List.length_cons, List.length_append]
    omega
  have hkeyLong : stop < keyStart.length := by
    simp only [hkeyStart, List.length_cons, List.length_append]
    omega
  have htext : Entry.write fullStyle ⟨gap, some l, node, after⟩ ++ cs = gap.text ++ keyStart :=
    Entry.text_member cs
  have hskipKey : skipTrivia stop (gap.text ++ keyStart) = .ok keyStart :=
    skipTrivia_gap hgap hkeyLong.le fun _ => halts_cons (by decide) (by decide) _
  have hstring : scanString false keyStart.tail = some (l.raw.length + 1) :=
    scanString_quoted hraw _
  have htake : keyStart.take (l.raw.length + 1 + 1) = '"' :: (l.raw ++ ['"']) := by
    have hassoc : keyStart = '"' :: (l.raw ++ ['"']) ++ (l.before.text ++ colon) := by
      rw [hkeyStart]
      simp
    have hlen : ('"' :: (l.raw ++ ['"'])).length = l.raw.length + 1 + 1 := by simp
    rw [hassoc, ← hlen, List.take_left]
  have hdrop : keyStart.drop (l.raw.length + 1 + 1) = l.before.text ++ colon := by
    rw [hkeyStart, List.drop_succ_cons, ← List.drop_drop, List.drop_left]
    rfl
  have hskipColon : skipTrivia stop (l.before.text ++ colon) = .ok colon :=
    skipTrivia_gap hbefore hcolonLong.le fun _ => halts_cons (by decide) (by decide) _
  have hskipValue : skipTrivia stop (l.after.text ++ value) = .ok value :=
    skipTrivia_gap hcolon hvalueLong fun _ => Starts.halts ((Node.starts hform).append _)
  have hend : scanValueEnd stop value = .ok (after.text ++ cs) :=
    scanValueEnd_text hform hafter hstop hcs
  have hskipNext : skipTrivia stop (after.text ++ cs) = .ok cs := skipTrivia_gap hafter hstop hhalts
  rw [htext, membersFrom, hskipKey]
  change (if keyStart.length ≤ stop then _ else _) = _
  rw [if_neg (by omega)]
  have hquote : require (keyStart.head? = some '"')
      (valueError "JSONC object keys must be double-quoted") = .ok () := require_ok.mpr rfl
  have hsep : require (stop < colon.length ∧ colon.head? = some ':')
      (valueError ("Missing ':' after JSONC key " ++ key)) = .ok () :=
    require_ok.mpr ⟨hcolonLong, rfl⟩
  have hbind : ∀ {α β : Type} (a : α) (f : α → Except PyError β), (Except.ok a >>= f) = f a :=
    fun _ _ => rfl
  have htail : colon.tail = l.after.text ++ value := rfl
  rw [hquote, hbind, hstring, Option.elim_some, hbind, htake, loadKey_quoted hraw hkey, hbind,
    hdrop, hskipColon, hbind, hsep, hbind, htail, hskipValue, hbind, hend, hbind, hskipNext, hbind]
  split_ifs with hcomma
  · cases membersFrom fuel stop cs.tail <;> rfl
  · rfl

/-- The key and the value of an entry that has both. -/
theorem entry_label {e : Jsonc.Entry Node} (he : e.WellFormed .curly) {key : String}
    (hkey : labelKey e.label = some key) : ∃ l, e.label = some l ∧ quotedText l.raw = some key := by
  cases hl : e.label with
  | none =>
    have hfits := he.2.1
    rw [hl] at hfits
    exact hfits.elim
  | some l =>
    rw [hl] at hkey
    exact ⟨l, rfl, hkey⟩

/-- The loop ends at the closing brace. -/
theorem membersFrom_close {gap : Gap} (hgap : gap.WellFormed) (fuel : ℕ) (rest : List Char) :
    membersFrom fuel (rest.length + 1) (gap.text ++ '}' :: rest) = .ok [] := by
  cases fuel with
  | zero => rfl
  | succ fuel =>
    have hskip : skipTrivia (rest.length + 1) (gap.text ++ '}' :: rest) = .ok ('}' :: rest) :=
      skipTrivia_gap hgap (le_refl _) fun hlt => absurd hlt (lt_irrefl _)
    rw [membersFrom, hskip]
    exact if_pos (le_refl _)

/-- The loop lists the entries, each with what stands in the text from its value on. -/
theorem membersFrom_entries {R : List Char → List Char → Json Token → Prop} {es : Entries}
    (hes : EntriesWellFormed .curly es)
    (hnodes : ∀ e ∈ es.toList, ∀ rest v, e.node.value = some v → R (e.node.text ++ rest) rest v)
    {kvs : List (String × Json Token)} (hkvs : entriesValue es = some kvs) {fuel : ℕ}
    (hfuel : es.toList.length ≤ fuel) (rest : List Char) :
    ∃ ms, membersFrom fuel (rest.length + 1) (writeEntries fullStyle es ++ '}' :: rest) = .ok ms ∧
      List.Forall₂ (fun m kv => m.key = kv.1 ∧ R m.valueStart m.valueEnd kv.2) ms kvs := by
  induction es generalizing fuel kvs with
  | last e =>
    have hpos : 1 ≤ fuel := hfuel
    obtain ⟨fuel, rfl⟩ : ∃ f, fuel = f + 1 := ⟨fuel - 1, by omega⟩
    obtain ⟨key, hkey, hkvs⟩ := Option.bind_eq_some_iff.mp hkvs
    obtain ⟨v, hv, rfl⟩ := Option.map_eq_some_iff.mp hkvs
    obtain ⟨l, hl, hquoted⟩ := entry_label hes hkey
    have hstop : rest.length + 1 ≤ ('}' :: rest).length := le_refl _
    have hhalts : rest.length + 1 < ('}' :: rest).length → Halts ('}' :: rest) :=
      fun hlt => absurd hlt (lt_irrefl _)
    have hfollowed : FollowedBy (rest.length + 1) ('}' :: rest) := .inr rfl
    have hcomma : ¬ (rest.length + 1 < ('}' :: rest).length ∧ ('}' :: rest).head? = some ',') :=
      fun h => absurd h.1 (lt_irrefl _)
    refine ⟨[memberOf l e key ('}' :: rest) none], ?_, .cons ⟨rfl, ?_⟩ .nil⟩
    · rw [writeEntries_last, membersFrom_member hes hl hquoted hstop hfollowed hhalts,
        if_neg hcomma, skipTrivia_halts hstop hhalts]
      exact Except.bind_ok.mpr ⟨_, rfl, Except.bind_ok.mpr ⟨(), require_ok.mpr rfl, rfl⟩⟩
    · exact hnodes e (List.mem_singleton.mpr rfl) _ v hv
  | trailing e gap =>
    have hpos : 1 ≤ fuel := hfuel
    obtain ⟨fuel, rfl⟩ : ∃ f, fuel = f + 1 := ⟨fuel - 1, by omega⟩
    obtain ⟨key, hkey, hkvs⟩ := Option.bind_eq_some_iff.mp hkvs
    obtain ⟨v, hv, rfl⟩ := Option.map_eq_some_iff.mp hkvs
    obtain ⟨l, hl, hquoted⟩ := entry_label hes.1 hkey
    have htext : writeEntries fullStyle (.trailing e gap) ++ '}' :: rest =
        e.write fullStyle ++ ',' :: (gap.text ++ '}' :: rest) := by
      rw [writeEntries_trailing]
      simp only [textStyle, List.append_assoc, List.cons_append, List.nil_append]
    have hlong : rest.length + 1 < (',' :: (gap.text ++ '}' :: rest)).length := by
      simp only [List.length_cons, List.length_append]
      omega
    refine ⟨[memberOf l e key (',' :: (gap.text ++ '}' :: rest))
      (some (',' :: (gap.text ++ '}' :: rest)))], ?_, .cons ⟨rfl, ?_⟩ .nil⟩
    · rw [htext, membersFrom_member hes.1 hl hquoted hlong.le (.inl rfl)
        (fun _ => halts_cons (by decide) (by decide) _), if_pos ⟨hlong, rfl⟩, List.tail_cons,
        membersFrom_close hes.2]
      rfl
    · exact hnodes e (List.mem_singleton.mpr rfl) _ v hv
  | more e es ih =>
    have hpos : es.toList.length + 1 ≤ fuel := hfuel
    obtain ⟨fuel, rfl⟩ : ∃ f, fuel = f + 1 := ⟨fuel - 1, by omega⟩
    obtain ⟨key, hkey, hkvs⟩ := Option.bind_eq_some_iff.mp hkvs
    obtain ⟨v, hv, hkvs⟩ := Option.bind_eq_some_iff.mp hkvs
    obtain ⟨kvs, hmore, rfl⟩ := Option.map_eq_some_iff.mp hkvs
    obtain ⟨l, hl, hquoted⟩ := entry_label hes.1 hkey
    obtain ⟨ms, hms, hall⟩ := ih hes.2 (fun e' he' => hnodes e' (List.mem_cons_of_mem _ he')) hmore
      (by omega : es.toList.length ≤ fuel)
    have htext : writeEntries fullStyle (.more e es) ++ '}' :: rest =
        e.write fullStyle ++ ',' :: (writeEntries fullStyle es ++ '}' :: rest) := by
      rw [writeEntries_more, List.append_assoc]
      rfl
    have hlong : rest.length + 1 < (',' :: (writeEntries fullStyle es ++ '}' :: rest)).length := by
      simp only [List.length_cons, List.length_append]
      omega
    refine ⟨memberOf l e key (',' :: (writeEntries fullStyle es ++ '}' :: rest))
      (some (',' :: (writeEntries fullStyle es ++ '}' :: rest))) :: ms, ?_, .cons ⟨rfl, ?_⟩ hall⟩
    · rw [htext, membersFrom_member hes.1 hl hquoted hlong.le (.inl rfl)
        (fun _ => halts_cons (by decide) (by decide) _), if_pos ⟨hlong, rfl⟩, List.tail_cons, hms]
      rfl
    · exact hnodes e List.mem_cons_self _ v hv

/-- A value stands at the front of a text, and `rest` behind it. -/
def Stands (start rest : List Char) (v : Json Token) : Prop :=
  ∃ n : Node, n.WellFormed ∧ n.value = some v ∧ start = n.text ++ rest

mutual

/-- What the scanner sees of a value, of which `start` is left in front and `rest` behind: of an
object it lists the members, and sees their values. -/
inductive Sees : List Char → List Char → Json Token → Prop where
  | object {start rest : List Char} {ms : List JsoncMember} {kvs : List (String × Json Token)}
      (hstands : Stands start rest (.obj kvs)) (hms : objectMembers start = .ok ms)
      (hall : SeesAll ms kvs) : Sees start rest (.obj kvs)
  | other {start rest : List Char} {v : Json Token} (hstands : Stands start rest v)
      (hobj : ∀ kvs, v ≠ .obj kvs) : Sees start rest v

/-- The members that the scanner lists of an object, in their order. -/
inductive SeesAll : List JsoncMember → List (String × Json Token) → Prop where
  | nil : SeesAll [] []
  | cons {m : JsoncMember} {v : Json Token} {ms : List JsoncMember}
      {kvs : List (String × Json Token)} (hvalue : Sees m.valueStart m.valueEnd v)
      (hrest : SeesAll ms kvs) : SeesAll (m :: ms) ((m.key, v) :: kvs)

end

/-- The members, one by one. -/
theorem SeesAll.of_forall₂ {ms : List JsoncMember} {kvs : List (String × Json Token)}
    (h : List.Forall₂ (fun m kv => m.key = kv.1 ∧ Sees m.valueStart m.valueEnd kv.2) ms kvs) :
    SeesAll ms kvs := by
  induction h with
  | nil => exact .nil
  | @cons m kv ms kvs hm _ ih =>
    obtain ⟨key, v⟩ := kv
    obtain ⟨rfl, hv⟩ := hm
    exact .cons hv ih

/-- An object has no more entries than its text has characters. -/
theorem length_toList_le (es : Entries) :
    es.toList.length ≤ (writeEntries fullStyle es).length + 1 := by
  induction es with
  | last e => exact Nat.le_add_left _ _
  | trailing e gap => exact Nat.le_add_left _ _
  | more e es ih =>
    rw [writeEntries_more, List.length_append, List.length_cons, Series.toList, List.length_cons]
    omega

/-- **The scanner sees of a value what the value says**, its members and those of its values. -/
theorem seen_text {n : Node} (hn : n.WellFormed) {v : Json Token} (hv : n.value = some v)
    (rest : List Char) : Sees (n.text ++ rest) rest v := by
  induction n using Node.induct generalizing v rest with
  | word chars w =>
    obtain rfl : w = v := Option.some.inj hv
    exact .other ⟨_, hn, rfl, rfl⟩ (readScalar_ne_obj hn)
  | str raw =>
    refine .other ⟨_, hn, hv, rfl⟩ fun kvs heq => ?_
    obtain ⟨s, -, rfl⟩ := Option.map_eq_some_iff.mp hv
    cases heq
  | empty b gap =>
    cases b with
    | square =>
      refine .other ⟨_, hn, hv, rfl⟩ fun kvs heq => ?_
      cases hv
      cases heq
    | curly =>
      cases hv
      refine .object ⟨_, hn, rfl, rfl⟩ ?_ .nil
      have htail : (Node.text (.empty .curly gap) ++ rest).tail = gap.text ++ '}' :: rest := by
        simp only [Node.text, Node.write, textStyle, List.cons_append, List.append_assoc,
          List.nil_append, List.tail_cons]
        rfl
      refine Except.bind_ok.mpr ⟨(), require_ok.mpr rfl, ?_⟩
      refine Except.bind_ok.mpr ⟨'}' :: rest, matchingDelimiter_empty hn rest, ?_⟩
      rw [htail]
      exact membersFrom_close hn _ rest
  | box b es ih =>
    have hes : EntriesWellFormed b es := hn
    cases b with
    | square =>
      refine .other ⟨_, hn, hv, rfl⟩ fun kvs heq => ?_
      obtain ⟨ms, -, rfl⟩ := Option.map_eq_some_iff.mp hv
      cases heq
    | curly =>
      obtain ⟨kvs, hkvs, rfl⟩ := Option.map_eq_some_iff.mp hv
      have htext : Node.text (.box .curly es) ++ rest =
          '{' :: (writeEntries fullStyle es ++ '}' :: rest) := by
        simp only [Node.text, Node.write, textStyle, List.cons_append, List.append_assoc,
          List.nil_append]
        rfl
      have hfuel : es.toList.length ≤ (Node.text (.box .curly es) ++ rest).length := by
        have hle := length_toList_le es
        rw [htext]
        simp only [List.length_cons, List.length_append]
        omega
      obtain ⟨ms, hms, hall⟩ := membersFrom_entries (R := Sees) hes
        (fun e he rest v hv => ih e he (hes.entry e he).2.2.1 hv rest) hkvs hfuel rest
      refine .object ⟨_, hn, hv, rfl⟩ ?_ (.of_forall₂ hall)
      refine Except.bind_ok.mpr ⟨(), require_ok.mpr rfl, ?_⟩
      refine Except.bind_ok.mpr ⟨'}' :: rest, matchingDelimiter_box hes rest, ?_⟩
      rw [htext] at hms ⊢
      exact hms

end Memplex
