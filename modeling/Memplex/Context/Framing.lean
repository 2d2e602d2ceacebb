import Memplex.Lib.Marks
import Memplex.Context.Accounting
import Mathlib.Data.List.ReduceOption

/-!
# Frames cannot be forged

The text of an assembly is a list of frames with a blank line between them. A frame's header has no
bracket and no bar besides its own, as the id is checked and the trust label is one of three, and
its body has no marker, as it stands in the projected text that was checked. A marker has no line
break, so that it stands within one line of the text: the first or the last line of a frame. Cut at
the start markers and then at the end markers, the text gives back what was framed.
-/

namespace Memplex

open Lib

/-! ## Stripped texts -/

/-- A text with no blank at either end. -/
structure Stripped (s : List Char) : Prop where
  first : ∀ c ∈ s.head?, isBlank c = false
  last : ∀ c ∈ s.getLast?, isBlank c = false

/-- The empty text is stripped. -/
theorem stripped_nil : Stripped [] :=
  ⟨fun _ hc => absurd hc (by simp), fun _ hc => absurd hc (by simp)⟩

/-- `strip` leaves a stripped text as it is. -/
theorem stripBlanks_of_stripped {s : String} (h : Stripped s.toList) : stripBlanks s = s := by
  have hfirst : s.toList.dropWhile isBlank = s.toList := by
    cases hs : s.toList with
    | nil => rfl
    | cons c rest =>
      have hc : isBlank c = false := h.first c (by rw [hs]; rfl)
      rw [List.dropWhile_cons, hc]
      rfl
  have hlast : s.toList.rdropWhile isBlank = s.toList := by
    refine List.rdropWhile_eq_self_iff.mpr fun hne => ?_
    rw [h.last _ (List.getLast?_eq_some_getLast hne)]
    exact Bool.false_ne_true
  rw [stripBlanks, hfirst, hlast, String.ofList_toList]

/-- What `strip` leaves is stripped. -/
theorem stripped_stripBlanks (s : String) : Stripped (stripBlanks s).toList := by
  rw [stripBlanks, String.toList_ofList]
  refine ⟨fun c hc => ?_, fun c hc => ?_⟩
  · -- What is dropped at the end leaves the first character, or nothing.
    obtain ⟨back, hback⟩ := List.rdropWhile_prefix isBlank (s.toList.dropWhile isBlank)
    have hhead : (s.toList.dropWhile isBlank).head? = some c := by
      rw [← hback, List.head?_append, Option.mem_def.mp hc]
      rfl
    have hnot := List.head?_dropWhile_not isBlank s.toList
    rw [hhead] at hnot
    simpa using hnot
  · have hne : (s.toList.dropWhile isBlank).rdropWhile isBlank ≠ [] := fun he => by
      rw [he] at hc
      cases hc
    have hlast := List.rdropWhile_last_not isBlank _ hne
    rw [List.getLast?_eq_some_getLast hne] at hc
    rw [← Option.some.inj hc]
    simpa using hlast

/-- Stripped parts that are no empty texts make a stripped text. -/
theorem stripped_intercalate {separator : List Char} {parts : List (List Char)}
    (h : ∀ part ∈ parts, part ≠ [] ∧ Stripped part) :
    Stripped (separator.intercalate parts) := by
  induction parts with
  | nil => exact stripped_nil
  | cons part rest ih =>
    obtain ⟨hne, hpart⟩ := h part List.mem_cons_self
    have hrest := ih fun p hp => h p (List.mem_cons_of_mem _ hp)
    cases rest with
    | nil => simpa [List.intercalate] using hpart
    | cons next rest =>
      have hjoin : separator.intercalate (part :: next :: rest) =
          part ++ separator ++ separator.intercalate (next :: rest) := by
        simp [List.intercalate]
      have hnext : separator.intercalate (next :: rest) ≠ [] := by
        obtain ⟨hne', -⟩ := h next (List.mem_cons_of_mem _ List.mem_cons_self)
        cases rest <;> simp [List.intercalate, hne']
      rw [hjoin]
      refine ⟨fun c hc => hpart.first c ?_, fun c hc => hrest.last c ?_⟩
      · rw [List.append_assoc, List.head?_append_of_ne_nil _ hne] at hc
        exact hc
      · rw [List.getLast?_append_of_ne_nil _ hnext] at hc
        exact hc

/-- A part of a joined text stands in it. -/
theorem infix_intercalate {separator part : List Char} {parts : List (List Char)}
    (h : part ∈ parts) : part <:+: separator.intercalate parts := by
  induction parts with
  | nil => exact absurd h List.not_mem_nil
  | cons first rest ih =>
    cases rest with
    | nil =>
      rw [List.mem_singleton.mp h]
      simp [List.intercalate]
    | cons next rest =>
      have hjoin : separator.intercalate (first :: next :: rest) =
          first ++ separator ++ separator.intercalate (next :: rest) := by
        simp [List.intercalate]
      rw [hjoin]
      rcases List.mem_cons.mp h with rfl | h
      · exact (List.prefix_append _ _).isInfix.trans (List.prefix_append _ _).isInfix
      · exact (ih h).trans (List.suffix_append _ _).isInfix

/-- The parts of a joined text are the stripped values. -/
theorem textPart_some {v : Value} {part : String} (h : textPart v = .ok (some part)) :
    part ≠ "" ∧ Stripped part.toList := by
  cases v with
  | str s =>
    simp only [textPart] at h
    by_cases hs : stripBlanks s = ""
    · rw [if_pos hs] at h
      cases h
    · rw [if_neg hs] at h
      cases h
      exact ⟨hs, stripped_stripBlanks s⟩
  | _ => cases h

/-- What `_join_text` joins. -/
theorem joinText_ok {values : List Value} {separator t : String}
    (h : joinText values separator = .ok t) :
    ∃ parts : List String, t = separator.intercalate parts ∧
      ∀ part, part ∈ parts ↔ ∃ v ∈ values, textPart v = .ok (some part) := by
  obtain ⟨parts, hparts, ht⟩ := Except.bind_ok.mp h
  refine ⟨parts.reduceOption, (Except.ok.inj ht).symm, fun part => ?_⟩
  rw [List.reduceOption_mem_iff, Except.mem_mapM hparts]

/-- A joined text is stripped. -/
theorem joinText_stripped {values : List Value} {separator t : String}
    (h : joinText values separator = .ok t) : Stripped t.toList := by
  obtain ⟨parts, rfl, hparts⟩ := joinText_ok h
  rw [String.toList_intercalate]
  refine stripped_intercalate fun part hpart => ?_
  obtain ⟨s, hs, rfl⟩ := List.mem_map.mp hpart
  obtain ⟨v, -, hv⟩ := (hparts s).mp hs
  obtain ⟨hne, hstripped⟩ := textPart_some hv
  exact ⟨fun he => hne (String.toList_eq_nil_iff.mp he), hstripped⟩

/-- A stripped value stands in the text that it was joined to. -/
theorem joinText_infix {values : List Value} {separator t text : String}
    (h : joinText values separator = .ok t) (hmem : .str text ∈ values) (hne : text ≠ "")
    (hstripped : Stripped text.toList) : text.toList <:+: t.toList := by
  obtain ⟨parts, rfl, hparts⟩ := joinText_ok h
  have hpart : textPart (.str text) = .ok (some text) := by
    simp only [textPart]
    rw [stripBlanks_of_stripped hstripped, if_neg hne]
  rw [String.toList_intercalate]
  exact infix_intercalate (List.mem_map_of_mem ((hparts text).mpr ⟨_, hmem, hpart⟩))

/-- The body of a source is stripped. -/
theorem currentNodeText_stripped {node : ContextNode} {text : String}
    (h : currentNodeText node = .ok text) : Stripped text.toList := by
  have hfirst : ∀ {xs ys : List Value}, firstText (joinText xs " ") (joinText ys " ") = .ok text →
      Stripped text.toList := by
    intro xs ys hxy
    obtain ⟨t, ht, hrest⟩ := Except.bind_ok.mp hxy
    split_ifs at hrest
    · rw [← Except.ok.inj hrest]
      exact joinText_stripped ht
    · exact joinText_stripped hrest
  cases node with
  | function f => exact joinText_stripped h
  | fact f => exact hfirst h
  | preference p => exact hfirst h
  | observation o => exact hfirst h
  | paragraph view =>
    simp only [currentNodeText] at h
    split_ifs at h
    · rw [← Except.ok.inj h]
      exact stripped_nil
    · exact joinText_stripped h

/-! ## The marks -/

/-- The start of a frame. -/
def startMark : List Char := "[MEMORY START".toList

/-- The end of a frame. -/
def endMark : List Char := "[MEMORY END]".toList

theorem startMark_eq : startMark = '[' :: "MEMORY START".toList := by decide

theorem endMark_eq : endMark = '[' :: "MEMORY END]".toList := by decide

/-- A text that was screened has neither mark in it. -/
theorem occurrences_of_markerFree {projected : String}
    (h : ContextEnv.markerFree projected = true) :
    occurrences startMark projected.toList = 0 ∧ occurrences endMark projected.toList = 0 := by
  have hnone : ∀ mark : String, mark.toList ≠ [] → ContextEnv.occursIn mark projected = false →
      occurrences mark.toList projected.toList = 0 := by
    intro mark hne hmark
    refine (occurrences_eq_zero_iff hne).mpr fun rest hrest hprefix => ?_
    have hall := List.any_eq_false.mp hmark rest hrest
    exact hall (List.isPrefixOf_iff_prefix.mpr hprefix)
  simp only [ContextEnv.markerFree, Bool.and_eq_true, Bool.not_eq_true'] at h
  exact ⟨hnone _ (by decide) h.1, hnone _ (by decide) h.2⟩

/-- What the frame of a memory says. -/
structure MemoryFrame where
  memoryId : String
  trust : String
  body : String
deriving DecidableEq

namespace MemoryFrame

/-- The characters of a frame. -/
def render (f : MemoryFrame) : List Char := (frameText f.trust f.memoryId f.body).toList

/-- A frame that cannot be mistaken: its header has no bracket and no bar of its own, and its body
has no mark. -/
structure Wellformed (f : MemoryFrame) : Prop where
  memoryId : ∀ c ∈ "[]|".toList, c ∉ f.memoryId.toList
  trust : ∀ c ∈ "[]|".toList, c ∉ f.trust.toList
  noStart : occurrences startMark f.body.toList = 0
  noEnd : occurrences endMark f.body.toList = 0

/-- The header after the start mark, without its bracket. -/
def header (f : MemoryFrame) : List Char :=
  " | trust=".toList ++ f.trust.toList ++ " | id=".toList ++ f.memoryId.toList

/-- What stands between the start mark and the end mark of a frame. -/
def front (f : MemoryFrame) : List Char := f.header ++ ']' :: '\n' :: (f.body.toList ++ ['\n'])

/-- A frame is its start mark, what stands between, and its end mark. -/
theorem render_eq (f : MemoryFrame) : f.render = startMark ++ f.front ++ endMark := by
  have hstart : "[MEMORY START | trust=".toList = startMark ++ " | trust=".toList := by decide
  have hline : "]\n".toList = [']', '\n'] := by decide
  have hend : "\n[MEMORY END]".toList = '\n' :: endMark := by decide
  unfold render frameText front header
  rw [String.toList_append, String.toList_append, String.toList_append, String.toList_append,
    String.toList_append, String.toList_append, hstart, hline, hend]
  generalize startMark = start
  generalize endMark = stop
  generalize " | trust=".toList = trust
  generalize " | id=".toList = memoryId
  simp

/-- The characters of an assembly of frames. -/
def emit (frames : List MemoryFrame) : List Char := "\n\n".toList.intercalate (frames.map render)

/-! ## Reading frames back -/

/-- Reads what stands between a start mark and the end mark after it: the header up to its bracket,
cut at its bars, and the body between two line breaks. -/
def parseFront (front : List Char) : Option MemoryFrame :=
  match (front.takeWhile (· ≠ ']')).splitOn '|' with
  | [_, trust, memoryId] =>
    some ⟨String.ofList (memoryId.drop 4), String.ofList ((trust.drop 7).dropLast),
      String.ofList ((front.dropWhile (· ≠ ']')).drop 2).dropLast⟩
  | _ => none

/-- Reads what stands between two start marks: one end mark, with nothing after it but a blank
line. -/
def parsePart (part : List Char) : Option MemoryFrame :=
  match splitMarks endMark part with
  | [front, rest] => if rest = [] ∨ rest = ['\n', '\n'] then parseFront front else none
  | _ => none

/-- Reads a text at its marks. -/
def parse (text : List Char) : Option (List MemoryFrame) :=
  match splitMarks startMark text with
  | [] :: parts => parts.mapM parsePart
  | _ => none

section Wellformed

variable {f : MemoryFrame}

/-- A header has none of the brackets and bars but its own. -/
theorem Wellformed.header (hf : f.Wellformed) : '[' ∉ f.header ∧ ']' ∉ f.header := by
  have hone : ∀ c, c ∈ "[]|".toList → c ∉ " | trust=".toList → c ∉ " | id=".toList →
      c ∉ f.header := by
    intro c hc htrust hid hmem
    rcases List.mem_append.mp hmem with hmem | hmem
    · rcases List.mem_append.mp hmem with hmem | hmem
      · rcases List.mem_append.mp hmem with hmem | hmem
        · exact htrust hmem
        · exact hf.trust c hc hmem
      · exact hid hmem
    · exact hf.memoryId c hc hmem
  exact ⟨hone '[' (by decide) (by decide) (by decide),
    hone ']' (by decide) (by decide) (by decide)⟩

/-- A header cut at its bars. -/
theorem Wellformed.header_splitOn (hf : f.Wellformed) : f.header.splitOn '|' =
    [" ".toList, " trust=".toList ++ f.trust.toList ++ " ".toList,
      " id=".toList ++ f.memoryId.toList] := by
  have hjoin : f.header = List.intercalate ['|'] [" ".toList,
      " trust=".toList ++ f.trust.toList ++ " ".toList, " id=".toList ++ f.memoryId.toList] := by
    have htrust : " | trust=".toList = " ".toList ++ '|' :: " trust=".toList := by decide
    have hid : " | id=".toList = " ".toList ++ '|' :: " id=".toList := by decide
    unfold MemoryFrame.header
    rw [htrust, hid]
    generalize " trust=".toList = trust
    generalize " id=".toList = memoryId
    generalize " ".toList = blank
    simp [List.intercalate]
  rw [hjoin]
  refine List.splitOn_intercalate '|' ?_ (List.cons_ne_nil _ _)
  intro part hpart
  rcases List.mem_cons.mp hpart with rfl | hpart
  · decide
  rcases List.mem_cons.mp hpart with rfl | hpart
  · intro hmem
    rcases List.mem_append.mp hmem with hmem | hmem
    · rcases List.mem_append.mp hmem with hmem | hmem
      · exact absurd hmem (by decide)
      · exact hf.trust '|' (by decide) hmem
    · exact absurd hmem (by decide)
  · rw [List.mem_singleton.mp hpart]
    intro hmem
    rcases List.mem_append.mp hmem with hmem | hmem
    · exact absurd hmem (by decide)
    · exact hf.memoryId '|' (by decide) hmem

/-- A front is read back. -/
theorem Wellformed.parseFront (hf : f.Wellformed) : parseFront f.front = some f := by
  have hstop : ∀ c ∈ f.header, decide (c ≠ ']') = true := fun c hc =>
    decide_eq_true fun he => hf.header.2 (he ▸ hc)
  have htake : f.front.takeWhile (· ≠ ']') = f.header := by
    rw [front, List.takeWhile_append_of_pos hstop, List.takeWhile_cons_of_neg (by simp),
      List.append_nil]
  have hdrop : f.front.dropWhile (· ≠ ']') = ']' :: '\n' :: (f.body.toList ++ ['\n']) := by
    rw [front, List.dropWhile_append_of_pos hstop, List.dropWhile_cons_of_neg (by simp)]
  have htrust : ((" trust=".toList ++ f.trust.toList ++ " ".toList).drop 7).dropLast =
      f.trust.toList := by
    have hseven : " trust=".toList.length = 7 := by decide
    have hblank : " ".toList = [' '] := by decide
    rw [List.append_assoc, List.drop_append_of_le_length (by omega), hblank,
      List.drop_eq_nil_of_le (by omega), List.nil_append, List.dropLast_concat]
  have hid : (" id=".toList ++ f.memoryId.toList).drop 4 = f.memoryId.toList := by
    have hfour : " id=".toList.length = 4 := by decide
    rw [List.drop_append_of_le_length (by omega), List.drop_eq_nil_of_le (by omega),
      List.nil_append]
  have hbody : ((']' :: '\n' :: (f.body.toList ++ ['\n'])).drop 2).dropLast = f.body.toList :=
    List.dropLast_concat
  unfold MemoryFrame.parseFront
  rw [htake, hdrop, hf.header_splitOn]
  simp only [htrust, hid, hbody, String.ofList_toList]

/-- A mark stands in a front only where it stands in the header or in the body. -/
theorem occurrences_front (f : MemoryFrame) {mark : List Char} (hne : mark ≠ [])
    (hline : '\n' ∉ mark) :
    occurrences mark f.front =
      occurrences mark (f.header ++ [']']) + occurrences mark f.body.toList := by
  have hsplit : f.front = (f.header ++ [']']) ++ '\n' :: (f.body.toList ++ '\n' :: []) := by
    simp [front]
  rw [hsplit, occurrences_append_cons hline hne, occurrences_append_cons hline hne,
    occurrences_nil, Nat.add_zero]

/-- There is no mark between the marks of a frame. -/
theorem Wellformed.front (hf : f.Wellformed) :
    occurrences startMark f.front = 0 ∧ occurrences endMark f.front = 0 := by
  have hbracket : '[' ∉ f.header ++ [']'] := fun hmem => by
    rcases List.mem_append.mp hmem with hmem | hmem
    · exact hf.header.1 hmem
    · exact absurd (List.mem_singleton.mp hmem) (by decide)
  constructor
  · rw [occurrences_front f (by decide) (by decide), hf.noStart, startMark_eq,
      occurrences_eq_zero_of_notMem hbracket]
  · rw [occurrences_front f (by decide) (by decide), hf.noEnd, endMark_eq,
      occurrences_eq_zero_of_notMem hbracket]

/-- A part with one frame is read back. -/
theorem Wellformed.parsePart (hf : f.Wellformed) {rest : List Char}
    (hrest : rest = [] ∨ rest = ['\n', '\n']) :
    parsePart (f.front ++ endMark ++ rest) = some f := by
  have hnone : occurrences endMark rest = 0 := by
    rcases hrest with rfl | rfl <;> decide
  have hcut : splitMarks endMark (f.front ++ endMark ++ rest) = [f.front, rest] := by
    rw [endMark_eq, splitMarks_append (by decide) (endMark_eq ▸ hf.front.2), ← endMark_eq,
      splitMarks_of_none hnone]
  unfold MemoryFrame.parsePart
  rw [hcut]
  simp only [if_pos hrest, hf.parseFront]

end Wellformed

/-! ## The whole text -/

/-- The frames of a text, one after another. -/
theorem emit_cons_cons (f g : MemoryFrame) (rest : List MemoryFrame) :
    emit (f :: g :: rest) =
      startMark ++ (f.front ++ endMark ++ ['\n', '\n']) ++ emit (g :: rest) := by
  have hblank : "\n\n".toList = ['\n', '\n'] := by decide
  unfold emit
  rw [List.map_cons, List.map_cons, hblank, render_eq f]
  simp [List.intercalate]

theorem emit_singleton (f : MemoryFrame) : emit [f] = startMark ++ (f.front ++ endMark ++ []) := by
  unfold emit
  rw [List.map_singleton, List.intercalate_singleton, render_eq]
  simp

/-- What stands after the start marks of a text. -/
def parts : List MemoryFrame → List (List Char)
  | [] => []
  | [f] => [f.front ++ endMark ++ []]
  | f :: rest => (f.front ++ endMark ++ ['\n', '\n']) :: parts rest

/-- A part has no start mark. -/
theorem noStart_part {f : MemoryFrame} (hf : f.Wellformed) {rest : List Char}
    (hrest : rest = [] ∨ rest = ['\n', '\n']) :
    occurrences startMark (f.front ++ endMark ++ rest) = 0 := by
  have hsplit : f.front ++ endMark ++ rest =
      (f.header ++ [']']) ++ '\n' :: (f.body.toList ++ '\n' :: (endMark ++ rest)) := by
    simp [MemoryFrame.front]
  have hfront := hf.front.1
  rw [occurrences_front f (by decide) (by decide)] at hfront
  have hend : occurrences startMark (endMark ++ rest) = 0 := by
    rcases hrest with rfl | rfl <;> decide
  rw [hsplit, occurrences_append_cons (c := '\n') (by decide) (by decide),
    occurrences_append_cons (c := '\n') (by decide) (by decide), hend]
  omega

/-- Cut at its start marks, a text gives the parts of its frames. -/
theorem splitMarks_emit {frames : List MemoryFrame} (h : ∀ f ∈ frames, f.Wellformed) :
    splitMarks startMark (emit frames) = [] :: parts frames := by
  have hfirst : ∀ ys, splitMarks startMark (startMark ++ ys) = [] :: splitMarks startMark ys :=
    fun ys => by
      rw [startMark_eq]
      exact splitMarks_append (by decide) occurrences_nil ys
  induction frames with
  | nil => rfl
  | cons f rest ih =>
    have hf := h f List.mem_cons_self
    have ih := ih fun g hg => h g (List.mem_cons_of_mem _ hg)
    cases rest with
    | nil => rw [emit_singleton, hfirst, splitMarks_of_none (noStart_part hf (.inl rfl))]; rfl
    | cons g rest =>
      -- The text after this frame begins with the next start mark.
      have hnext : ∃ ys, emit (g :: rest) = startMark ++ ys := by
        cases rest with
        | nil => exact ⟨_, emit_singleton g⟩
        | cons k rest => exact ⟨_, (emit_cons_cons g k rest).trans (List.append_assoc _ _ _)⟩
      obtain ⟨ys, hys⟩ := hnext
      rw [hys, hfirst] at ih
      have hpart := noStart_part hf (.inr rfl)
      rw [startMark_eq] at hpart
      rw [emit_cons_cons, hys, List.append_assoc, hfirst, ← List.append_assoc, startMark_eq,
        splitMarks_append (by decide) hpart, ← startMark_eq, (List.cons.inj ih).2]
      rfl

/-- **The parts of a text are read back.** -/
theorem parse_emit {frames : List MemoryFrame} (h : ∀ f ∈ frames, f.Wellformed) :
    parse (emit frames) = some frames := by
  have hparts : (parts frames).mapM parsePart = some frames := by
    induction frames with
    | nil => rfl
    | cons f rest ih =>
      have hf := h f List.mem_cons_self
      have ih := ih fun g hg => h g (List.mem_cons_of_mem _ hg)
      cases rest with
      | nil =>
        simp only [parts, List.mapM_cons, hf.parsePart (.inl rfl), List.mapM_nil]
        rfl
      | cons g rest =>
        simp only [parts, List.mapM_cons, hf.parsePart (.inr rfl), ih]
        rfl
  unfold parse
  rw [splitMarks_emit h]
  exact hparts

/-- Each mark stands once in a frame. -/
theorem occurrences_render {f : MemoryFrame} (hf : f.Wellformed) {mark : List Char}
    (hmark : mark = startMark ∨ mark = endMark) : occurrences mark f.render = 1 := by
  have hbracket : '[' ∉ "MEMORY START".toList ++ (f.header ++ [']']) := fun hmem => by
    rcases List.mem_append.mp hmem with hmem | hmem
    · exact absurd hmem (by decide)
    rcases List.mem_append.mp hmem with hmem | hmem
    · exact hf.header.1 hmem
    · exact absurd (List.mem_singleton.mp hmem) (by decide)
  have hsplit : f.render = (startMark ++ (f.header ++ [']'])) ++
      '\n' :: (f.body.toList ++ '\n' :: endMark) := by
    rw [render_eq]
    simp [MemoryFrame.front]
  have hhead : ∀ mark rest : List Char, mark = '[' :: rest →
      occurrences mark (startMark ++ (f.header ++ [']'])) =
        if mark <+: startMark ++ (f.header ++ [']']) then 1 else 0 := by
    rintro _ rest rfl
    rw [startMark_eq, List.cons_append, occurrences_cons, occurrences_eq_zero_of_notMem hbracket,
      Nat.add_zero]
  rcases hmark with rfl | rfl
  · have hone : occurrences startMark (startMark ++ (f.header ++ [']'])) = 1 := by
      rw [hhead _ _ startMark_eq, if_pos (List.prefix_append _ _)]
    rw [hsplit, occurrences_append_cons (c := '\n') (by decide) (by decide),
      occurrences_append_cons (c := '\n') (by decide) (by decide), hf.noStart, hone]
    decide
  · have hzero : occurrences endMark (startMark ++ (f.header ++ [']'])) = 0 := by
      have hnot : ¬ endMark <+: startMark ++ (f.header ++ [']']) := fun hp => by
        have htake := List.prefix_iff_eq_take.mp hp
        have hlen : endMark.length ≤ startMark.length := by decide
        rw [List.take_append_of_le_length hlen] at htake
        exact absurd htake (by decide)
      rw [hhead _ _ endMark_eq, if_neg hnot]
    rw [hsplit, occurrences_append_cons (c := '\n') (by decide) (by decide),
      occurrences_append_cons (c := '\n') (by decide) (by decide), hf.noEnd, hzero]
    decide

/-- The marks in a text are those of its frames. -/
theorem occurrences_emit {frames : List MemoryFrame} (h : ∀ f ∈ frames, f.Wellformed)
    {mark : List Char} (hmark : mark = startMark ∨ mark = endMark) :
    occurrences mark (emit frames) = frames.length := by
  have hline : '\n' ∉ mark := by rcases hmark with rfl | rfl <;> decide
  have hne : mark ≠ [] := by rcases hmark with rfl | rfl <;> decide
  induction frames with
  | nil => rfl
  | cons f rest ih =>
    have hf := occurrences_render (h f List.mem_cons_self) hmark
    have ih := ih fun g hg => h g (List.mem_cons_of_mem _ hg)
    cases rest with
    | nil =>
      have hone : emit [f] = f.render := List.intercalate_singleton
      rw [hone, hf]
      rfl
    | cons g rest =>
      have htwo : emit (f :: g :: rest) = f.render ++ '\n' :: ([] ++ '\n' :: emit (g :: rest)) := by
        rw [emit_cons_cons, render_eq]
        simp
      rw [htwo, occurrences_append_cons hline hne, occurrences_append_cons hline hne, hf, ih,
        occurrences_nil, Nat.zero_add, Nat.add_comm]
      rfl

end MemoryFrame

/-! ## The assembly -/

/-- The trust labels. -/
theorem trustLabel_mem (node : ContextNode) : trustLabel node ∈ ["HIGH", "MEDIUM", "LOW"] := by
  have hrow : ∀ k, ((findRow Prod.fst k trustLevels).map Prod.snd).getD "LOW" ∈
      ["HIGH", "MEDIUM", "LOW"] := by
    intro k
    cases hk : findRow Prod.fst k trustLevels with
    | none => simp
    | some row =>
      have hlevels : ∀ row ∈ trustLevels, row.2 ∈ ["HIGH", "MEDIUM", "LOW"] := by decide
      exact hlevels row (findRow_some hk).1
  unfold trustLabel
  dsimp only
  split_ifs
  · simp
  · exact hrow _

/-- What a frame says of a fragment: its id, and the label and the body of its source. -/
structure FrameOf (lookup : String → Option ContextNode) (f : ContextFragment)
    (frame : MemoryFrame) : Prop where
  memoryId : frame.memoryId = f.memoryId
  source : ∃ node, lookup f.memoryId = some node ∧ frame.trust = trustLabel node ∧
    currentNodeText node = .ok frame.body

namespace ContextEnv

variable {E : ContextEnv} {call : AssemblyCall} {lookup : String → Option ContextNode}

/-- A screened body has no mark: it stands in the projected text that was checked. -/
theorem Screened.noMarks {f : ContextFragment} {text : String} (hs : E.Screened f text)
    (hstripped : Stripped text.toList) :
    occurrences startMark text.toList = 0 ∧ occurrences endMark text.toList = 0 := by
  obtain ⟨values, projected, hjoin, hfree⟩ := hs.unmarked
  by_cases hne : text = ""
  · subst hne
    exact ⟨rfl, rfl⟩
  · have hmem : Json.str text ∈ values ++ [.str text, f.sourceType.toValue] :=
      List.mem_append_right _ List.mem_cons_self
    have hinfix := joinText_infix hjoin hmem hne hstripped
    obtain ⟨hstart, hend⟩ := occurrences_of_markerFree hfree
    exact ⟨Nat.le_zero.mp (hstart ▸ occurrences_of_infix hinfix),
      Nat.le_zero.mp (hend ▸ occurrences_of_infix hinfix)⟩

/-- The frame of a fragment is well formed. -/
theorem Sourced.frame {f : ContextFragment} {node : ContextNode} {text : String}
    (hf : E.Sourced call lookup f node text) (hs : E.Screened f text) :
    ∃ frame : MemoryFrame, frame.Wellformed ∧ frame.render = f.context.toList ∧
      FrameOf lookup f frame := by
  obtain ⟨hstart, hend⟩ := hs.noMarks (currentNodeText_stripped hf.body)
  refine ⟨⟨f.memoryId, trustLabel node, text⟩, ⟨?_, ?_, hstart, hend⟩,
    congrArg String.toList hf.framed.symm, rfl, node, hf.found, rfl, hf.body⟩
  · intro c hc hmem
    have hplain := List.all_eq_true.mp hs.plain c hmem
    simp only [Bool.and_eq_true, Bool.not_eq_true', List.contains_eq_mem,
      decide_eq_false_iff_not] at hplain
    have hsub : ∀ c ∈ "[]|".toList, c ∈ "[]|\"'".toList := by decide
    exact hplain.1 (hsub c hc)
  · have hlabels : ∀ t ∈ ["HIGH", "MEDIUM", "LOW"], ∀ c ∈ "[]|".toList, c ∉ t.toList := by decide
    exact hlabels _ (trustLabel_mem node)

/-- Fragments of sources that may be shown make a text of well formed frames. -/
theorem frames_of_fragments {fragments : List ContextFragment}
    (h : ∀ f ∈ fragments, ∃ node text, E.Sourced call lookup f node text ∧ E.Screened f text) :
    ∃ frames : List MemoryFrame, (∀ frame ∈ frames, frame.Wellformed) ∧
      (textOfFragments fragments).toList = MemoryFrame.emit frames ∧
      List.Forall₂ (FrameOf lookup) fragments frames := by
  have hframes : ∃ frames : List MemoryFrame, (∀ frame ∈ frames, frame.Wellformed) ∧
      fragments.map (fun f => f.context.toList) = frames.map MemoryFrame.render ∧
      List.Forall₂ (FrameOf lookup) fragments frames := by
    induction fragments with
    | nil => exact ⟨[], fun _ hf => absurd hf List.not_mem_nil, rfl, .nil⟩
    | cons f rest ih =>
      obtain ⟨node, text, hf, hs⟩ := h f List.mem_cons_self
      obtain ⟨frame, hwell, hrender, hof⟩ := hf.frame hs
      obtain ⟨frames, hrest, hmap, hall⟩ := ih fun g hg => h g (List.mem_cons_of_mem _ hg)
      exact ⟨frame :: frames, List.forall_mem_cons.mpr ⟨hwell, hrest⟩,
        by rw [List.map_cons, List.map_cons, hmap, hrender], .cons hof hall⟩
  obtain ⟨frames, hwell, hmap, hall⟩ := hframes
  refine ⟨frames, hwell, ?_, hall⟩
  rw [textOfFragments, String.toList_intercalate, List.map_map, MemoryFrame.emit, ← hmap]
  rfl

variable (E)

/-- An assembly whose text says what was put into it and nothing else: read at its marks, it gives
one frame for each fragment, with the fragment's id and the label and body of its source, and there
are no other marks in it. -/
structure Unforged (call : AssemblyCall) (candidates : List ContextCandidate)
    (a : ContextAssembly) : Prop where
  frames : ∃ lookup frames,
    ((candidateIds candidates).1 ≠ [] → call.resolve (candidateIds candidates).1 = .ok lookup) ∧
    List.Forall₂ (FrameOf lookup) a.fragments frames ∧
    a.context.toList = MemoryFrame.emit frames ∧
    MemoryFrame.parse a.context.toList = some frames ∧
    occurrences startMark a.context.toList = frames.length ∧
    occurrences endMark a.context.toList = frames.length

/-- **Frames cannot be forged**: for any candidates, whatever their sources say, an assembly that is
returned is read back at its marks as exactly the frames of its fragments. -/
theorem assembleContext_unforged (call : AssemblyCall) (candidates : List ContextCandidate)
    (registry : Option InjectionRiskRegistry) :
    E.Assembles call candidates registry (Unforged call candidates) := by
  refine assembles_of_loop fun hle lookup hresolve => ?_
  set start : Assembling := ⟨"", [], (candidateIds candidates).2, registry⟩
  have hwithin : Within call start := ⟨⟨rfl, fun f hf => absurd hf List.not_mem_nil⟩, hle⟩
  have hrun := @Within.run E call lookup start hwithin (candidateIds candidates).1
  obtain ⟨frames, hwell, htext, hall⟩ := frames_of_fragments fun f hf =>
    @run_sourced E call lookup start rfl (candidateIds candidates).1 f hf
  have hcontext := hrun.context ▸ htext
  refine ⟨lookup, frames, hresolve, hall, hcontext, ?_, ?_, ?_⟩
  · show MemoryFrame.parse (Assembling.context _).toList = _
    rw [hcontext]
    exact MemoryFrame.parse_emit hwell
  · show occurrences _ (Assembling.context _).toList = _
    rw [hcontext]
    exact MemoryFrame.occurrences_emit hwell (.inl rfl)
  · show occurrences _ (Assembling.context _).toList = _
    rw [hcontext]
    exact MemoryFrame.occurrences_emit hwell (.inr rfl)

end ContextEnv

end Memplex
