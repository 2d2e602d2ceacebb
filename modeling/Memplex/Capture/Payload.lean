import Memplex.Backup.Manifest
import Memplex.Lib.Occurs

/-!
# The facts of a payload

`validatePayload` reads what a language model returned for a list of paragraphs: candidates with the
quotes that they cite. It raises on the first thing that is wrong, so a payload is taken as a whole
or not at all. What a candidate says is looked for in its quotes with a space between them, and so a
subject or an object is also found where the end of one quote and the beginning of the next make it
up. `validatePayload_grounded_iff` says that a payload that passes is grounded in its quotes exactly
when no subject and no object of it is found in that way only; dates and relative days are never
found in that way, as they contain no space.

`CharData` is what the language knows about characters, and about texts that `fromisoformat` takes.
-/

namespace Memplex

open Lib

/-! ## Days -/

/-- The fields of a `date`. -/
def ValidDate (year month day : ℕ) : Prop :=
  1 ≤ year ∧ year ≤ 9999 ∧ 1 ≤ month ∧ month ≤ 12 ∧ 1 ≤ day ∧ day ≤ daysInMonth year month

instance (y m d : ℕ) : Decidable (ValidDate y m d) := by unfold ValidDate; infer_instance

/-- A calendar day. -/
@[ext] structure Date where
  year : ℕ
  month : ℕ
  day : ℕ
  /-- The fields are those of a day. -/
  valid : ValidDate year month day
deriving DecidableEq

namespace Date

/-- `date.toordinal`: the days since the last day before year one. -/
def toOrdinal (d : Date) : ℕ :=
  Timestamp.daysBeforeYear d.year + Timestamp.daysBeforeMonth d.year d.month + d.day

/-- A day with these fields, if there is one. -/
def ofFields (year month day : ℕ) : Option Date :=
  if h : ValidDate year month day then some ⟨year, month, day, h⟩ else none

/-- `date.isoformat`. -/
def isoFormat (d : Date) : List Char :=
  fixedDigits 4 d.year ++ '-' :: (fixedDigits 2 d.month ++ '-' :: fixedDigits 2 d.day)

/-- `date.fromisoformat`, of a text in the extended format. -/
def fromIsoFormat (cs : List Char) : Option Date :=
  match readFixed 4 cs with
  | some (year, '-' :: cs) =>
    match readFixed 2 cs with
    | some (month, '-' :: cs) =>
      match readFixed 2 cs with
      | some (day, []) => ofFields year month day
      | _ => none
    | _ => none
  | _ => none

/-- The day before, if it is not the first day of all. -/
def prev (d : Date) : Option Date :=
  if 1 < d.day then ofFields d.year d.month (d.day - 1)
  else if 1 < d.month then ofFields d.year (d.month - 1) (daysInMonth d.year (d.month - 1))
  else ofFields (d.year - 1) 12 31

/-- The day after, if it is not the last day of all. -/
def next (d : Date) : Option Date :=
  if d.day < daysInMonth d.year d.month then ofFields d.year d.month (d.day + 1)
  else if d.month < 12 then ofFields d.year (d.month + 1) 1
  else ofFields (d.year + 1) 1 1

end Date

/-- The words for days that are understood. -/
inductive RelativeDay where
  | yesterday
  | today
  | tomorrow
deriving DecidableEq

namespace RelativeDay

/-- The word. -/
def word : RelativeDay → List Char
  | .yesterday => "yesterday".toList
  | .today => "today".toList
  | .tomorrow => "tomorrow".toList

/-- The days from the day of reference. -/
def offset : RelativeDay → ℤ
  | .yesterday => -1
  | .today => 0
  | .tomorrow => 1

/-- `reference.date() + timedelta(days=offset)`. -/
def dayFrom : RelativeDay → Date → Option Date
  | .yesterday, d => d.prev
  | .today, d => some d
  | .tomorrow, d => d.next

/-- The words in the order of the loop. -/
def all : List RelativeDay := [.yesterday, .today, .tomorrow]

end RelativeDay

/-! ## Texts -/

/-- What `datetime.fromisoformat` makes of a text, as far as it is looked at. -/
structure ParsedTime where
  /-- `parsed.date()`. -/
  date : Date
  /-- `parsed.time().isoformat() == "00:00:00"`. -/
  midnight : Bool
  /-- `parsed.utcoffset()` in microseconds, of an aware time. -/
  utcoffset : Option ℤ

/-- What the language knows about characters and times. -/
structure CharData where
  /-- A character as `str.casefold` writes it. -/
  fold : Char → List Char
  /-- `\d`. -/
  isDecimal : Char → Bool
  /-- `\w`. -/
  isWord : Char → Bool
  /-- `datetime.fromisoformat`. -/
  fromIsoformat : String → Option ParsedTime
  /-- A space is no digit. -/
  isDecimal_space : isDecimal ' ' = false
  /-- A space is no part of a word. -/
  isWord_space : isWord ' ' = false

namespace CharData

variable (T : CharData)

/-- `text.casefold()`. -/
def casefold (text : List Char) : List Char := text.flatMap T.fold

/-- `(?<!\d)` after this character, and `(?!\d)` before it. -/
def NoDigit (c : Option Char) : Prop := ∀ d ∈ c, T.isDecimal d = false

instance (c : Option Char) : Decidable (T.NoDigit c) := by
  unfold NoDigit
  exact Option.decidableForallMem c

/-- `\d{4}-\d{2}-\d{2}` as a whole. -/
def dateShape : List Char → Bool
  | [a, b, c, d, x, e, f, y, g, h] =>
    [a, b, c, d, e, f, g, h].all T.isDecimal && x = '-' && y = '-'
  | _ => false

/-- `re.findall` of the dates between characters that are no digits: `before` is the character
before the text, and `skip` counts what is left of the last match. -/
def dateTokens (before : Option Char) : ℕ → List Char → List (List Char)
  | _, [] => []
  | skip + 1, c :: cs => dateTokens (some c) skip cs
  | 0, c :: cs =>
    if T.NoDigit before ∧ T.dateShape ((c :: cs).take 10) = true ∧
        T.NoDigit ((c :: cs).drop 10).head? then
      (c :: cs).take 10 :: dateTokens (some c) 9 cs
    else dateTokens (some c) 0 cs

/-- `\b` between two characters. -/
def WordEdge (left right : Option Char) : Prop := left.any T.isWord ≠ right.any T.isWord

instance (left right : Option Char) : Decidable (T.WordEdge left right) := by
  unfold WordEdge; infer_instance

end CharData

/-- A character that a letter of the pattern matches under `re.IGNORECASE`. -/
def matchesLetter (letter c : Char) : Prop :=
  c = letter ∨ c = letter.toUpper ∨ (letter = 's' ∧ c = 'ſ')

instance (letter c : Char) : Decidable (matchesLetter letter c) := by
  unfold matchesLetter; infer_instance

/-- A text that a word of the pattern matches under `re.IGNORECASE`. -/
def matchesWord (word text : List Char) : Prop := List.Forall₂ matchesLetter word text

instance (word text : List Char) : Decidable (matchesWord word text) := by
  unfold matchesWord; infer_instance

/-- `re.search(r"\b" + word + r"\b", text, re.IGNORECASE)`: `before` is the character before the
text. -/
def CharData.searchWord (T : CharData) (word : List Char) (before : Option Char) :
    List Char → Bool
  | [] => false
  | c :: cs =>
    decide (matchesWord word ((c :: cs).take word.length) ∧ T.WordEdge before (some c) ∧
      T.WordEdge ((c :: cs).take word.length).getLast? ((c :: cs).drop word.length).head?) ||
    T.searchWord word (some c) cs

/-! ## The payload -/

/-- A paragraph. -/
structure Evidence where
  paragraphId : String
  text : String
deriving DecidableEq

/-- A quote from a paragraph. -/
structure Citation where
  paragraphId : String
  quote : String
deriving DecidableEq

/-- A candidate for a fact. -/
structure FactCandidate where
  subject : String
  predicate : String
  object : String
  evidence : List Citation
  validFrom : Option String
deriving DecidableEq

/-- `MAX_PAYLOAD_CHARS`. -/
def maxPayloadChars : ℕ := 64000

/-- `text.strip()`, of a string. -/
def stripped (s : String) : String := String.ofList (strip s.toList)

/-- `_string`. -/
def boundedString (value : Value) (limit : ℕ) : Except PyError String :=
  match value with
  | .str s =>
    if strip s.toList = [] ∨ limit < s.toList.length then
      .error (valueError "invalid bounded string")
    else .ok (stripped s)
  | _ => .error (valueError "invalid bounded string")

/-- The value, or the error. -/
def orError {α : Type} (e : PyError) (x : Option α) : Except PyError α := x.elim (.error e) .ok

/-- A dictionary. -/
def membersOf : Value → Option Members
  | .obj members => some members
  | _ => none

/-- A list. -/
def itemsOf : Value → Option (List Value)
  | .arr items => some items
  | _ => none

/-- `sources[paragraph_id]`: the later of two paragraphs with one id. -/
def sourceText (evidence : List Evidence) (paragraphId : String) : Option String :=
  (evidence.reverse.find? fun e => e.paragraphId = paragraphId).map Evidence.text

/-- One entry of an evidence list. -/
def readCitation (evidence : List Evidence) (entry : Value) : Except PyError Citation := do
  let members ← orError (valueError "invalid citation fields") (membersOf entry)
  require (members.keys ⊆ ["paragraph_id", "quote"] ∧ ["paragraph_id", "quote"] ⊆ members.keys)
    (valueError "invalid citation fields")
  let paragraphId ← boundedString (members.getD "paragraph_id" .null) 1000
  let quote ← boundedString (members.getD "quote" .null) 4000
  require ((sourceText evidence paragraphId).any fun text => quote.toList <:+: text.toList)
    (valueError "citation does not match original evidence")
  return ⟨paragraphId, quote⟩

/-- `_citations`. -/
def readCitations (evidence : List Evidence) (value : Value) : Except PyError (List Citation) := do
  let entries ← orError (valueError "invalid evidence list") (itemsOf value)
  require (1 ≤ entries.length ∧ entries.length ≤ 8) (valueError "invalid evidence list")
  let result ← entries.mapM (readCitation evidence)
  return result.eraseDups

/-- `" ".join(c.quote for c in citations)`. -/
def joinedQuotes (citations : List Citation) : List Char :=
  joined ' ' (citations.map fun c => c.quote.toList)

section Payload

variable (T : CharData)

/-- The days that the words of the quotes name from a day. -/
def relativeDays (quoted : List Char) (day : Date) : Except PyError (List Date) :=
  (RelativeDay.all.filter fun r => T.searchWord r.word none quoted).mapM fun r =>
    orError ⟨.overflowError, "date value out of range"⟩ (r.dayFrom day)

/-- `supported`: the days that the quotes name. -/
def supportedDays (quoted : List Char) (reference : Option Date) : Except PyError (List Date) := do
  let written := (T.dateTokens none 0 quoted).filterMap Date.fromIsoFormat
  let relative ← reference.elim (.ok []) (relativeDays T quoted)
  return written ++ relative

/-- The text of a day at midnight in UTC. -/
def midnightText (d : Date) : String := String.ofList (d.isoFormat ++ "T00:00:00+00:00".toList)

/-- `_valid_from`. -/
def readValidFrom (citations : List Citation) (reference : Option Date) (value : Value) :
    Except PyError (Option String) :=
  if value = .null then .ok none
  else do
    let text ← boundedString value 40
    let parsed ← orError (valueError "invalid effective date") (T.fromIsoformat text)
    let supported ← supportedDays T (joinedQuotes citations) reference
    require (parsed.date ∈ supported)
      (valueError "date is not grounded in evidence and reference time")
    require (parsed.midnight = true ∧ parsed.utcoffset.getD 0 = 0)
      (valueError "only evidence-grounded calendar dates are supported")
    return some (midnightText parsed.date)

/-- `{"subject", "predicate", "object", "evidence"}`. -/
def candidateFields : List String := ["subject", "predicate", "object", "evidence"]

/-- The candidate of one row. -/
def readCandidate (evidence : List Evidence) (reference : Option Date) (row : Value) :
    Except PyError FactCandidate := do
  let members ← orError (valueError "missing candidate fields") (membersOf row)
  require (candidateFields ⊆ members.keys) (valueError "missing candidate fields")
  require (members.keys ⊆ candidateFields ++ ["valid_from"]) (valueError "unknown candidate fields")
  let subject ← boundedString (members.getD "subject" .null) 2000
  let predicate ← boundedString (members.getD "predicate" .null) 2000
  let object ← boundedString (members.getD "object" .null) 2000
  let citations ← readCitations evidence (members.getD "evidence" .null)
  let validFrom ← readValidFrom T citations reference (members.getD "valid_from" .null)
  require (T.casefold subject.toList <:+: T.casefold (joinedQuotes citations) ∧
      T.casefold object.toList <:+: T.casefold (joinedQuotes citations))
    (valueError "subject and object must be grounded in cited text")
  return ⟨subject, predicate, object, citations, validFrom⟩

/-- The subject and the predicate of a candidate, up to case. -/
def slotOf (c : FactCandidate) : List Char × List Char :=
  (T.casefold c.subject.toList, T.casefold c.predicate.toList)

/-- `result` and `slots`. -/
structure Accepting where
  result : List FactCandidate
  slots : List ((List Char × List Char) × List Char)

/-- One round of the loop, once its candidate is read. -/
def addCandidate (acc : Accepting) (c : FactCandidate) : Except PyError Accepting := do
  require ((findRow Prod.fst (slotOf T c) acc.slots).all fun s => s.2 = T.casefold c.object.toList)
    (valueError "conflicting candidates require review")
  return {
    result := if c ∈ acc.result then acc.result else acc.result ++ [c]
    slots := upsertRow Prod.fst (slotOf T c, T.casefold c.object.toList) acc.slots }

mutual

/-- `json.dumps(value, ensure_ascii=False)`. -/
def dumpsValue : Value → List Char
  | .null => "null".toList
  | .bool true => "true".toList
  | .bool false => "false".toList
  | .num n => dumpsNum n
  | .str s => Json.writeString s
  | .arr items => '[' :: (dumpsItems items ++ [']'])
  | .obj members => '{' :: (dumpsMembers members ++ ['}'])

/-- The elements of a list. -/
def dumpsItems : List Value → List Char
  | [] => []
  | [x] => dumpsValue x
  | x :: xs => dumpsValue x ++ ',' :: ' ' :: dumpsItems xs

/-- The members of a dictionary. -/
def dumpsMembers : Members → List Char
  | [] => []
  | [(k, x)] => Json.writeString k ++ ':' :: ' ' :: dumpsValue x
  | (k, x) :: ms =>
    Json.writeString k ++ ':' :: ' ' :: (dumpsValue x ++ ',' :: ' ' :: dumpsMembers ms)

end

/-- `validate_payload`. -/
def validatePayload (evidence : List Evidence) (reference : Option Date) (maxFacts : ℤ)
    (payload : Value) : Except PyError (List FactCandidate) := do
  let members ← orError (valueError "invalid extraction envelope") (membersOf payload)
  require (members.keys ⊆ ["facts"] ∧ ["facts"] ⊆ members.keys)
    (valueError "invalid extraction envelope")
  require (payload.anyNum isLongInt = false)
    (valueError "Exceeds the limit (4300 digits) for integer string conversion")
  require ((dumpsValue payload).length ≤ maxPayloadChars)
    (valueError "extraction payload exceeds limit")
  let rows ← orError (valueError "invalid fact count") (itemsOf (members.getD "facts" .null))
  require ((rows.length : ℤ) ≤ maxFacts) (valueError "invalid fact count")
  let acc ← rows.foldlM
    (fun acc row => do addCandidate T acc (← readCandidate T evidence reference row)) ⟨[], []⟩
  return acc.result

/-! ## What a candidate rests on -/

/-- A date is written in a text, between characters that are no digits. -/
def DateIn (d : Date) (text : List Char) : Prop := Occurs T.NoDigit T.NoDigit d.isoFormat text

/-- A word for a day stands in a text as a word. -/
def DayWordIn (r : RelativeDay) (text : List Char) : Prop :=
  ∃ w, matchesWord r.word w ∧
    Occurs (fun c => T.WordEdge c w.head?) (fun c => T.WordEdge w.getLast? c) w text

/-- What a candidate must have in its evidence. -/
structure GroundedCandidate (evidence : List Evidence) (reference : Option Date)
    (c : FactCandidate) : Prop where
  /-- Every quote is in the paragraph that it names. -/
  quoted : ∀ q ∈ c.evidence, ∃ e ∈ evidence,
    e.paragraphId = q.paragraphId ∧ q.quote.toList <:+: e.text.toList
  /-- The subject is in one quote. -/
  subject : ∃ q ∈ c.evidence, T.casefold c.subject.toList <:+: T.casefold q.quote.toList
  /-- The object is in one quote. -/
  object : ∃ q ∈ c.evidence, T.casefold c.object.toList <:+: T.casefold q.quote.toList
  /-- The date is written in one quote, or a word in one quote names the day. -/
  validFrom : ∀ text ∈ c.validFrom, ∃ d, text = midnightText d ∧ ∃ q ∈ c.evidence,
    DateIn T d q.quote.toList ∨ ∃ r day, DayWordIn T r q.quote.toList ∧ reference = some day ∧
      (d.toOrdinal : ℤ) = day.toOrdinal + r.offset

/-- What the candidates of a payload must be. -/
structure GroundedPayload (evidence : List Evidence) (reference : Option Date)
    (cs : List FactCandidate) : Prop where
  /-- Each candidate is grounded. -/
  grounded : ∀ c ∈ cs, GroundedCandidate T evidence reference c
  /-- One subject and predicate has one object. -/
  agree : ∀ c ∈ cs, ∀ c' ∈ cs, slotOf T c = slotOf T c' →
    T.casefold c.object.toList = T.casefold c'.object.toList

/-- The text of a field, without the whitespace around it. -/
def fieldText (row : Value) (key : String) : String :=
  match (membersOf row).bind fun members => members.get? key with
  | some (.str s) => stripped s
  | _ => ""

/-- The different quotes of a row. -/
def statedCitations (row : Value) : List Citation :=
  match (membersOf row).bind fun members => members.get? "evidence" with
  | some (.arr entries) =>
    (entries.map fun e => (⟨fieldText e "paragraph_id", fieldText e "quote"⟩ : Citation)).eraseDups
  | _ => []

/-- The rows of a payload. -/
def factRows (payload : Value) : List Value :=
  match (membersOf payload).bind fun members => members.get? "facts" with
  | some (.arr rows) => rows
  | _ => []

/-- A text is found where quotes are joined, and in none of them. -/
def OnlyAcross (text : List Char) (citations : List Citation) : Prop :=
  T.casefold text <:+: T.casefold (joinedQuotes citations) ∧
    ∀ q ∈ citations, ¬ T.casefold text <:+: T.casefold q.quote.toList

/-- No subject and no object is found across the joint of quotes only. -/
def Unsplit (payload : Value) : Prop :=
  ∀ row ∈ factRows payload, ∀ key ∈ ["subject", "object"],
    ¬ OnlyAcross T (fieldText row key).toList (statedCitations row)

/-! ## Days that are read -/

theorem exists_digitChar {c : Char} (h : c.isDigit = true) : ∃ n < 10, c = Nat.digitChar n := by
  have hdigit : ∀ k < 10, Char.ofNat (k + 48) = Nat.digitChar k := by decide
  have hrange : 48 ≤ c.toNat ∧ c.toNat ≤ 57 := by
    simpa [Char.isDigit, UInt32.le_iff_toNat_le] using h
  refine ⟨c.toNat - 48, by omega, ?_⟩
  rw [← hdigit _ (by omega), Nat.sub_add_cancel hrange.1, Char.ofNat_toNat]

/-- Digits are the digits of their number. -/
theorem fixedDigits_ofDigitChars (cs : List Char) (h : ∀ c ∈ cs, c.isDigit = true) :
    fixedDigits cs.length (Nat.ofDigitChars 10 cs 0) = cs := by
  induction cs using List.reverseRecOn with
  | nil => rfl
  | append_singleton cs c ih =>
    have hc : c.isDigit = true := h c (by simp)
    obtain ⟨n, hn, rfl⟩ := exists_digitChar hc
    have hvalue : Nat.ofDigitChars 10 (cs ++ [Nat.digitChar n]) 0 =
        10 * Nat.ofDigitChars 10 cs 0 + n := by
      rw [Nat.ofDigitChars_append, Nat.ofDigitChars_cons_digitChar_of_lt_ten hn,
        Nat.ofDigitChars_nil]
    rw [hvalue, List.length_append, List.length_singleton, fixedDigits]
    have hdiv : (10 * Nat.ofDigitChars 10 cs 0 + n) / 10 = Nat.ofDigitChars 10 cs 0 := by omega
    have hmod : (10 * Nat.ofDigitChars 10 cs 0 + n) % 10 = n := by omega
    rw [hdiv, hmod, ih fun d hd => h d (List.mem_append_left _ hd)]

/-- What was read is the number in its digits. -/
theorem readFixed_eq_some {w n : ℕ} {cs rest : List Char} (h : readFixed w cs = some (n, rest)) :
    cs = fixedDigits w n ++ rest := by
  unfold readFixed at h
  split_ifs at h with hdigits
  obtain ⟨hlen, hall⟩ := hdigits
  cases h
  have hround := fixedDigits_ofDigitChars (cs.take w) (List.all_eq_true.mp hall)
  rw [hlen] at hround
  rw [hround, List.take_append_drop]

theorem Date.ofFields_eq_some {year month day : ℕ} {d : Date}
    (h : ofFields year month day = some d) : d.year = year ∧ d.month = month ∧ d.day = day := by
  unfold ofFields at h
  split_ifs at h
  cases h
  exact ⟨rfl, rfl, rfl⟩

theorem Date.fromIsoFormat_eq_some {cs : List Char} {d : Date} (h : fromIsoFormat cs = some d) :
    cs = d.isoFormat := by
  unfold fromIsoFormat at h
  split at h
  · rename_i year cs₁ hyear
    split at h
    · rename_i month cs₂ hmonth
      split at h
      · rename_i day hday
        obtain ⟨rfl, rfl, rfl⟩ := ofFields_eq_some h
        rw [readFixed_eq_some hyear, readFixed_eq_some hmonth, readFixed_eq_some hday,
          List.append_nil]
        rfl
      · cases h
    · cases h
  · cases h

/-- The days before a year, once the year before is over. -/
theorem daysBeforeYear_succ {year : ℕ} (hyear : 1 ≤ year) :
    Timestamp.daysBeforeYear (year + 1) =
      Timestamp.daysBeforeYear year + Timestamp.daysBeforeMonth year 12 + 31 := by
  have hmonths : Timestamp.daysBeforeMonth year 12 = if isLeap year then 335 else 334 := by
    have hrange : List.range (12 - 1) = [0, 1, 2, 3, 4, 5, 6, 7, 8, 9, 10] := by decide
    rw [Timestamp.daysBeforeMonth, hrange]
    cases hleap : isLeap year <;> simp [daysInMonth, hleap]
  have hleap : isLeap year = true ↔ year % 4 = 0 ∧ (year % 100 ≠ 0 ∨ year % 400 = 0) := by
    simp [isLeap]
  obtain ⟨y, rfl⟩ : ∃ y, year = y + 1 := ⟨year - 1, by omega⟩
  have h4 : (y + 1) / 4 = y / 4 + if (y + 1) % 4 = 0 then 1 else 0 := by split_ifs <;> omega
  have h100 : (y + 1) / 100 = y / 100 + if (y + 1) % 100 = 0 then 1 else 0 := by
    split_ifs <;> omega
  have h400 : (y + 1) / 400 = y / 400 + if (y + 1) % 400 = 0 then 1 else 0 := by
    split_ifs <;> omega
  have hle : y / 100 ≤ y / 4 := by omega
  have hdvd : (y + 1) % 100 = 0 → (y + 1) % 4 = 0 := by omega
  have hdvd' : (y + 1) % 400 = 0 → (y + 1) % 100 = 0 := by omega
  rw [hmonths, Timestamp.daysBeforeYear, Timestamp.daysBeforeYear, Nat.add_sub_cancel,
    Nat.add_sub_cancel, h4, h100, h400]
  generalize y / 4 = q4 at hle ⊢
  generalize y / 100 = q100 at hle ⊢
  generalize y / 400 = q400
  simp only [hleap]
  clear hmonths hleap h4 h100 h400 hyear
  generalize (y + 1) % 4 = r4 at *
  generalize (y + 1) % 100 = r100 at *
  generalize (y + 1) % 400 = r400 at *
  split_ifs <;> omega

theorem daysBeforeMonth_succ {year month : ℕ} (hmonth : 1 ≤ month) :
    Timestamp.daysBeforeMonth year (month + 1) =
      Timestamp.daysBeforeMonth year month + daysInMonth year month := by
  obtain ⟨m, rfl⟩ : ∃ m, month = m + 1 := ⟨month - 1, by omega⟩
  simp only [Timestamp.daysBeforeMonth, Nat.add_sub_cancel, List.range_succ, List.map_append,
    List.sum_append, List.map_singleton, List.sum_singleton]

theorem Date.next_toOrdinal {d d' : Date} (h : d.next = some d') :
    d'.toOrdinal = d.toOrdinal + 1 := by
  obtain ⟨hyear, -, hmonth, hmonth', -, hday⟩ := d.valid
  unfold next at h
  unfold toOrdinal
  split_ifs at h with hlast hdecember
  · obtain ⟨hy, hm, hd⟩ := ofFields_eq_some h
    rw [hy, hm, hd]
    omega
  · obtain ⟨hy, hm, hd⟩ := ofFields_eq_some h
    rw [hy, hm, hd, daysBeforeMonth_succ hmonth]
    omega
  · obtain ⟨hy, hm, hd⟩ := ofFields_eq_some h
    have hmonthEq : d.month = 12 := by omega
    have hlen : daysInMonth d.year 12 = 31 := by simp [daysInMonth]
    have hfirst : Timestamp.daysBeforeMonth (d.year + 1) 1 = 0 := by
      simp [Timestamp.daysBeforeMonth]
    rw [hmonthEq, hlen] at hlast hday
    rw [hy, hm, hd, hmonthEq, hfirst, daysBeforeYear_succ hyear]
    omega

theorem Date.prev_toOrdinal {d d' : Date} (h : d.prev = some d') :
    d'.toOrdinal + 1 = d.toOrdinal := by
  obtain ⟨hyear, -, hmonth, hmonth', hone, hday⟩ := d.valid
  unfold prev at h
  unfold toOrdinal
  split_ifs at h with hfirst hjanuary
  · obtain ⟨hy, hm, hd⟩ := ofFields_eq_some h
    rw [hy, hm, hd]
    omega
  · obtain ⟨hy, hm, hd⟩ := ofFields_eq_some h
    have hmonths := @daysBeforeMonth_succ d.year (d.month - 1) (by omega)
    rw [Nat.sub_add_cancel hmonth] at hmonths
    rw [hy, hm, hd, hmonths]
    omega
  · have hvalid := d'.valid
    obtain ⟨hy, hm, hd⟩ := ofFields_eq_some h
    have hyears := @daysBeforeYear_succ (d.year - 1) (by rw [← hy]; exact hvalid.1)
    rw [Nat.sub_add_cancel hyear] at hyears
    have hmonthEq : d.month = 1 := by omega
    have hzero : Timestamp.daysBeforeMonth d.year 1 = 0 := by simp [Timestamp.daysBeforeMonth]
    rw [hy, hm, hd, hmonthEq, hzero, hyears]
    omega

/-- The day of a word is as many days away as the word says. -/
theorem RelativeDay.dayFrom_toOrdinal {r : RelativeDay} {d d' : Date} (h : r.dayFrom d = some d') :
    (d'.toOrdinal : ℤ) = d.toOrdinal + r.offset := by
  cases r with
  | yesterday =>
    have hprev := Date.prev_toOrdinal h
    simp only [offset]
    omega
  | today =>
    cases h
    simp [offset]
  | tomorrow =>
    have hnext := Date.next_toOrdinal h
    simp only [offset]
    omega

/-! ## Texts that are read -/

/-- A date that is found is one, between characters that are no digits. -/
theorem dateTokens_sound {token : List Char} {skip : ℕ} {pre cs : List Char}
    (h : token ∈ T.dateTokens pre.getLast? skip cs) :
    T.dateShape token = true ∧ Occurs T.NoDigit T.NoDigit token (pre ++ cs) := by
  induction cs generalizing pre skip with
  | nil =>
    rw [CharData.dateTokens] at h
    exact absurd h List.not_mem_nil
  | cons c cs ih =>
    have hlast : (pre ++ [c]).getLast? = some c := by simp
    have happend : pre ++ [c] ++ cs = pre ++ c :: cs := by simp
    cases skip with
    | succ skip =>
      rw [CharData.dateTokens, ← hlast] at h
      rw [← happend]
      exact ih h
    | zero =>
      rw [CharData.dateTokens] at h
      split_ifs at h with hhere
      · rcases List.mem_cons.mp h with rfl | h
        · refine ⟨hhere.2.1, pre, (c :: cs).drop 10, ?_, hhere.1, hhere.2.2⟩
          rw [List.append_assoc, List.take_append_drop]
        · rw [← hlast] at h
          rw [← happend]
          exact ih h
      · rw [← hlast] at h
        rw [← happend]
        exact ih h

/-- A word that is found stands there as a word. -/
theorem searchWord_sound {word pre cs : List Char} (hword : word ≠ [])
    (h : T.searchWord word pre.getLast? cs = true) :
    ∃ w, matchesWord word w ∧
      Occurs (fun c => T.WordEdge c w.head?) (fun c => T.WordEdge w.getLast? c) w (pre ++ cs) := by
  induction cs generalizing pre with
  | nil => exact absurd h Bool.false_ne_true
  | cons c cs ih =>
    rw [CharData.searchWord, Bool.or_eq_true, decide_eq_true_iff] at h
    rcases h with ⟨hmatch, hleft, hright⟩ | h
    · refine ⟨(c :: cs).take word.length, hmatch, pre, (c :: cs).drop word.length, ?_, ?_, hright⟩
      · rw [List.append_assoc, List.take_append_drop]
      · cases word with
        | nil => exact absurd rfl hword
        | cons l word => exact hleft
    · have hlast : (pre ++ [c]).getLast? = some c := by simp
      rw [← hlast] at h
      have happend : pre ++ [c] ++ cs = pre ++ c :: cs := by simp
      rw [← happend]
      exact ih h

variable {T}

theorem Date.isoFormat_ne_nil (d : Date) : d.isoFormat ≠ [] := by
  intro h
  have hlen := congrArg List.length h
  simp [isoFormat, fixedDigits_length] at hlen

theorem Date.space_notMem_isoFormat (d : Date) : ' ' ∉ d.isoFormat := by
  intro h
  have hdigit : ∀ w n, ' ' ∉ fixedDigits w n := fun w n hmem =>
    absurd (fixedDigits_isDigit w n ' ' hmem) (by decide)
  simp [isoFormat, hdigit] at h

/-- A date in the joined quotes is in one of them. -/
theorem dateIn_joinedQuotes {d : Date} {citations : List Citation}
    (h : DateIn T d (joinedQuotes citations)) : ∃ q ∈ citations, DateIn T d q.quote.toList := by
  have hend : T.NoDigit none := fun c hc => absurd hc (by simp)
  obtain ⟨text, htext, hin⟩ := Occurs.of_joined d.isoFormat_ne_nil d.space_notMem_isoFormat
    (fun _ => hend) (fun _ => hend) h
  obtain ⟨q, hq, rfl⟩ := List.mem_map.mp htext
  exact ⟨q, hq, hin⟩

/-- What a word of the pattern matches contains no space. -/
theorem matchesWord_space {r : RelativeDay} {w : List Char} (h : matchesWord r.word w) :
    ' ' ∉ w := by
  have hletters : ∀ l ∈ r.word, ¬ matchesLetter l ' ' := by cases r <;> decide
  intro hmem
  obtain ⟨i, hi, hget⟩ := List.mem_iff_getElem.mp hmem
  have hlen := h.length_eq
  have hmatch := h.get (i := i) (by omega) hi
  simp only [List.get_eq_getElem, hget] at hmatch
  exact hletters _ (List.getElem_mem _) hmatch

theorem matchesWord_ne_nil {r : RelativeDay} {w : List Char} (h : matchesWord r.word w) :
    w ≠ [] := by
  intro hnil
  rw [hnil] at h
  have hlen : r.word.length = 0 := h.length_eq
  cases r <;> exact absurd hlen (by decide)

/-- A word in the joined quotes is in one of them. -/
theorem dayWordIn_joinedQuotes {r : RelativeDay} {citations : List Citation}
    (h : DayWordIn T r (joinedQuotes citations)) :
    ∃ q ∈ citations, DayWordIn T r q.quote.toList := by
  obtain ⟨w, hw, hin⟩ := h
  have hedge : ∀ c, T.WordEdge (some ' ') c → T.WordEdge none c := by
    intro c hc
    simpa [CharData.WordEdge, T.isWord_space] using hc
  have hedge' : ∀ c, T.WordEdge c (some ' ') → T.WordEdge c none := by
    intro c hc
    simpa [CharData.WordEdge, T.isWord_space] using hc
  obtain ⟨text, htext, hin⟩ := Occurs.of_joined (matchesWord_ne_nil hw) (matchesWord_space hw)
    (hedge _) (hedge' _) hin
  obtain ⟨q, hq, rfl⟩ := List.mem_map.mp htext
  exact ⟨q, hq, w, hw, hin⟩

theorem orError_ok {α : Type} {e : PyError} {x : Option α} {a : α} :
    orError e x = .ok a ↔ x = some a := by
  cases x with
  | none => simp [orError]
  | some b => simp [orError]

theorem membersOf_eq_some {value : Value} {members : Members} :
    membersOf value = some members ↔ value = .obj members := by
  cases value <;> simp [membersOf]

theorem itemsOf_eq_some {value : Value} {items : List Value} :
    itemsOf value = some items ↔ value = .arr items := by
  cases value <;> simp [itemsOf]

theorem boundedString_ok {value : Value} {limit : ℕ} {text : String}
    (h : boundedString value limit = .ok text) : ∃ s, value = .str s ∧ text = stripped s := by
  cases value with
  | str s =>
    unfold boundedString at h
    dsimp only at h
    split_ifs at h
    exact ⟨s, rfl, (Except.ok.inj h).symm⟩
  | _ => cases h

/-- A field that passed is the text that stands there. -/
theorem boundedString_getD {members : Members} {key : String} {limit : ℕ} {text : String}
    (h : boundedString (members.getD key .null) limit = .ok text) :
    text = fieldText (.obj members) key := by
  obtain ⟨s, hs, rfl⟩ := boundedString_ok h
  rw [getD_null_eq (by simp)] at hs
  simp [fieldText, membersOf, hs]

/-- A citation that passed is in the paragraph that it names. -/
theorem readCitation_ok {evidence : List Evidence} {entry : Value} {q : Citation}
    (h : readCitation evidence entry = .ok q) :
    q = ⟨fieldText entry "paragraph_id", fieldText entry "quote"⟩ ∧
      ∃ e ∈ evidence, e.paragraphId = q.paragraphId ∧ q.quote.toList <:+: e.text.toList := by
  simp only [readCitation, Except.bind_ok, orError_ok, require_ok] at h
  obtain ⟨members, hmembers, -, -, id, hid, quote, hquote, -, hsource, heq⟩ := h
  cases Except.ok.inj heq
  cases membersOf_eq_some.mp hmembers
  refine ⟨by rw [boundedString_getD hid, boundedString_getD hquote], ?_⟩
  rw [Option.any_eq_true] at hsource
  obtain ⟨text, htext, hinfix⟩ := hsource
  obtain ⟨e, he, rfl⟩ := Option.map_eq_some_iff.mp htext
  refine ⟨e, List.mem_reverse.mp (List.mem_of_find?_eq_some he), ?_, by simpa using hinfix⟩
  simpa using List.find?_some he

/-- The citations that passed are those that the row states, and each is in its paragraph. -/
theorem readCitations_getD {evidence : List Evidence} {members : Members} {cs : List Citation}
    (h : readCitations evidence (members.getD "evidence" .null) = .ok cs) :
    cs = statedCitations (.obj members) ∧ ∀ q ∈ cs, ∃ e ∈ evidence,
      e.paragraphId = q.paragraphId ∧ q.quote.toList <:+: e.text.toList := by
  simp only [readCitations, Except.bind_ok, orError_ok, require_ok, itemsOf_eq_some] at h
  obtain ⟨entries, hentries, -, -, result, hresult, heq⟩ := h
  cases Except.ok.inj heq
  rw [getD_null_eq (by simp)] at hentries
  have hall := Except.mapM_ok hresult
  constructor
  · have hmap : result =
        entries.map fun e => (⟨fieldText e "paragraph_id", fieldText e "quote"⟩ : Citation) := by
      clear hresult hentries heq
      induction hall with
      | nil => rfl
      | cons hread _ ih => rw [List.map_cons, (readCitation_ok hread).1, ih]
    simp [statedCitations, membersOf, hentries, hmap]
  · intro q hq
    rw [List.mem_eraseDups] at hq
    obtain ⟨entry, -, hread⟩ := (Except.mem_mapM hresult q).mp hq
    exact (readCitation_ok hread).2

/-- A day that is supported is named in a quote. -/
theorem mem_supportedDays {citations : List Citation} {reference : Option Date} {days : List Date}
    {d : Date} (h : supportedDays T (joinedQuotes citations) reference = .ok days) (hd : d ∈ days) :
    ∃ q ∈ citations, DateIn T d q.quote.toList ∨ ∃ r day, DayWordIn T r q.quote.toList ∧
      reference = some day ∧ (d.toOrdinal : ℤ) = day.toOrdinal + r.offset := by
  simp only [supportedDays, Except.bind_ok] at h
  obtain ⟨relative, hrelative, heq⟩ := h
  cases Except.ok.inj heq
  rcases List.mem_append.mp hd with hd | hd
  · obtain ⟨token, htoken, hread⟩ := List.mem_filterMap.mp hd
    have hin : DateIn T d (joinedQuotes citations) := by
      have hsound := (@dateTokens_sound T token 0 [] _ htoken).2
      rw [Date.fromIsoFormat_eq_some hread] at hsound
      exact hsound
    obtain ⟨q, hq, hin⟩ := dateIn_joinedQuotes hin
    exact ⟨q, hq, .inl hin⟩
  · cases reference with
    | none =>
      cases Except.ok.inj hrelative
      exact absurd hd List.not_mem_nil
    | some day =>
      obtain ⟨r, hr, hday⟩ := (Except.mem_mapM hrelative d).mp hd
      rw [orError_ok] at hday
      have hfound := (List.mem_filter.mp hr).2
      have hword : r.word ≠ [] := by cases r <;> decide
      obtain ⟨q, hq, hin⟩ := dayWordIn_joinedQuotes (@searchWord_sound T r.word [] _ hword hfound)
      exact ⟨q, hq, .inr ⟨r, day, hin, rfl, RelativeDay.dayFrom_toOrdinal hday⟩⟩

/-- The date that passed is grounded. -/
theorem readValidFrom_ok {citations : List Citation} {reference : Option Date} {value : Value}
    {validFrom : Option String} (h : readValidFrom T citations reference value = .ok validFrom) :
    ∀ text ∈ validFrom, ∃ d, text = midnightText d ∧ ∃ q ∈ citations,
      DateIn T d q.quote.toList ∨ ∃ r day, DayWordIn T r q.quote.toList ∧ reference = some day ∧
        (d.toOrdinal : ℤ) = day.toOrdinal + r.offset := by
  intro text htext
  unfold readValidFrom at h
  split_ifs at h
  · cases Except.ok.inj h
    exact absurd htext (by simp)
  · simp only [Except.bind_ok, require_ok] at h
    obtain ⟨_, -, parsed, -, days, hdays, -, hmem, -, -, heq⟩ := h
    cases Except.ok.inj heq
    cases Option.some.inj htext
    exact ⟨parsed.date, rfl, mem_supportedDays hdays hmem⟩

/-- What is known of a candidate that was read. -/
structure ReadFrom (T : CharData) (evidence : List Evidence) (reference : Option Date) (row : Value)
    (c : FactCandidate) : Prop where
  subject : c.subject = fieldText row "subject"
  object : c.object = fieldText row "object"
  citations : c.evidence = statedCitations row
  quoted : ∀ q ∈ c.evidence, ∃ e ∈ evidence,
    e.paragraphId = q.paragraphId ∧ q.quote.toList <:+: e.text.toList
  validFrom : ∀ text ∈ c.validFrom, ∃ d, text = midnightText d ∧ ∃ q ∈ c.evidence,
    DateIn T d q.quote.toList ∨ ∃ r day, DayWordIn T r q.quote.toList ∧ reference = some day ∧
      (d.toOrdinal : ℤ) = day.toOrdinal + r.offset
  /-- The subject and the object are in the joined quotes. -/
  across : T.casefold c.subject.toList <:+: T.casefold (joinedQuotes c.evidence) ∧
    T.casefold c.object.toList <:+: T.casefold (joinedQuotes c.evidence)

theorem readCandidate_ok {evidence : List Evidence} {reference : Option Date} {row : Value}
    {c : FactCandidate} (h : readCandidate T evidence reference row = .ok c) :
    ReadFrom T evidence reference row c := by
  simp only [readCandidate, Except.bind_ok, orError_ok, require_ok, membersOf_eq_some] at h
  obtain ⟨members, rfl, -, -, -, -, subject, hsubject, predicate, -, object, hobject, citations,
    hcitations, validFrom, hvalidFrom, -, hacross, heq⟩ := h
  cases Except.ok.inj heq
  exact ⟨boundedString_getD hsubject, boundedString_getD hobject, (readCitations_getD hcitations).1,
    (readCitations_getD hcitations).2, readValidFrom_ok hvalidFrom, hacross⟩

/-- A row whose subject and object are not found across a joint only gives a grounded candidate. -/
theorem ReadFrom.grounded_iff {evidence : List Evidence} {reference : Option Date} {row : Value}
    {c : FactCandidate} (h : ReadFrom T evidence reference row c) :
    GroundedCandidate T evidence reference c ↔ ∀ key ∈ ["subject", "object"],
      ¬ OnlyAcross T (fieldText row key).toList (statedCitations row) := by
  have hfound : ∀ text, T.casefold text <:+: T.casefold (joinedQuotes c.evidence) →
      (¬ OnlyAcross T text c.evidence ↔
        ∃ q ∈ c.evidence, T.casefold text <:+: T.casefold q.quote.toList) := by
    intro text htext
    simp [OnlyAcross, htext]
  rw [List.forall_mem_cons, List.forall_mem_singleton, ← h.subject, ← h.object, ← h.citations,
    hfound _ h.across.1, hfound _ h.across.2]
  exact ⟨fun hc => ⟨hc.subject, hc.object⟩, fun hc => ⟨h.quoted, hc.1, hc.2, h.validFrom⟩⟩

/-! ## The loop -/

/-- What the loop has established after some rows. -/
structure Accepting.Holds (T : CharData) (evidence : List Evidence) (reference : Option Date)
    (rows : List Value) (acc : Accepting) : Prop where
  /-- Each candidate was read from a row. -/
  fromRow : ∀ c ∈ acc.result, ∃ row ∈ rows, ReadFrom T evidence reference row c
  /-- Each row was read to a candidate. -/
  ofRow : ∀ row ∈ rows, ∃ c ∈ acc.result, ReadFrom T evidence reference row c
  /-- The slots hold the objects of the candidates. -/
  slots : ∀ c ∈ acc.result,
    findRow Prod.fst (slotOf T c) acc.slots = some (slotOf T c, T.casefold c.object.toList)

variable {evidence : List Evidence} {reference : Option Date}

/-- A round of the loop. -/
theorem Accepting.Holds.step {rows : List Value} {row : Value} {acc acc' : Accepting}
    {c : FactCandidate} (hacc : acc.Holds T evidence reference rows)
    (hread : readCandidate T evidence reference row = .ok c)
    (hadd : addCandidate T acc c = .ok acc') :
    acc'.Holds T evidence reference (rows ++ [row]) := by
  have hrow := readCandidate_ok hread
  simp only [addCandidate, Except.bind_ok, require_ok] at hadd
  obtain ⟨-, hagree, heq⟩ := hadd
  cases Except.ok.inj heq
  have hmem : ∀ c', c' ∈ (if c ∈ acc.result then acc.result else acc.result ++ [c]) ↔
      c' ∈ acc.result ∨ c' = c := by
    intro c'
    split_ifs with hin
    · exact ⟨.inl, fun h => h.elim id fun heq => heq ▸ hin⟩
    · rw [List.mem_append, List.mem_singleton]
  refine ⟨fun c' hc' => ?_, fun row' hrow' => ?_, fun c' hc' => ?_⟩
  · rcases (hmem c').mp hc' with hold | rfl
    · obtain ⟨row', hrow', hread'⟩ := hacc.fromRow c' hold
      exact ⟨row', List.mem_append_left _ hrow', hread'⟩
    · exact ⟨row, by simp, hrow⟩
  · rcases List.mem_append.mp hrow' with hold | hnew
    · obtain ⟨c', hc', hread'⟩ := hacc.ofRow row' hold
      exact ⟨c', (hmem c').mpr (.inl hc'), hread'⟩
    · rw [List.mem_singleton.mp hnew]
      exact ⟨c, (hmem c).mpr (.inr rfl), hrow⟩
  · rw [findRow_upsertRow]
    rcases (hmem c').mp hc' with hold | rfl
    · split_ifs with hslot
      · -- The slot was filled by a candidate with the same object.
        dsimp only at hslot
        have hfilled := hacc.slots c' hold
        rw [← hslot] at hfilled
        rw [hfilled] at hagree
        have hobject : T.casefold c'.object.toList = T.casefold c.object.toList := by
          simpa using hagree
        rw [hslot, hobject]
      · exact hacc.slots c' hold
    · rw [if_pos rfl]

/-- The loop over the rest of the rows. -/
theorem Accepting.Holds.run {rest rows : List Value} {acc acc' : Accepting}
    (hacc : acc.Holds T evidence reference rows)
    (h : rest.foldlM
      (fun acc row => do addCandidate T acc (← readCandidate T evidence reference row)) acc =
        .ok acc') :
    acc'.Holds T evidence reference (rows ++ rest) := by
  induction rest generalizing rows acc with
  | nil =>
    cases Except.ok.inj h
    rw [List.append_nil]
    exact hacc
  | cons row rest ih =>
    rw [List.foldlM_cons] at h
    obtain ⟨next, hnext, hrest⟩ := Except.bind_ok.mp h
    obtain ⟨c, hread, hadd⟩ := Except.bind_ok.mp hnext
    have hstep := ih (hacc.step hread hadd) hrest
    rwa [List.append_assoc] at hstep

/-- What an accepted payload established. -/
theorem validatePayload_ok {maxFacts : ℤ} {payload : Value} {cs : List FactCandidate}
    (h : validatePayload T evidence reference maxFacts payload = .ok cs) :
    ∃ acc : Accepting, acc.result = cs ∧ acc.Holds T evidence reference (factRows payload) := by
  simp only [validatePayload, Except.bind_ok, orError_ok, require_ok, membersOf_eq_some,
    itemsOf_eq_some] at h
  obtain ⟨members, rfl, -, -, -, -, -, -, rows, hrows, -, -, acc, hacc, heq⟩ := h
  rw [getD_null_eq (by simp)] at hrows
  have hstart : (⟨[], []⟩ : Accepting).Holds T evidence reference [] :=
    ⟨fun c hc => absurd hc List.not_mem_nil, fun c hc => absurd hc List.not_mem_nil,
      fun c hc => absurd hc List.not_mem_nil⟩
  refine ⟨acc, Except.ok.inj heq, ?_⟩
  have hfacts : factRows (.obj members) = rows := by simp [factRows, membersOf, hrows]
  rw [hfacts]
  exact hstart.run hacc

/-- The candidates of a payload that is accepted are grounded exactly when no subject and no object
of it is found across a joint only. -/
theorem validatePayload_grounded_iff (T : CharData) (evidence : List Evidence)
    (reference : Option Date) (maxFacts : ℤ) (payload : Value) (cs : List FactCandidate)
    (h : validatePayload T evidence reference maxFacts payload = .ok cs) :
    GroundedPayload T evidence reference cs ↔ Unsplit T payload := by
  obtain ⟨acc, rfl, hacc⟩ := validatePayload_ok h
  constructor
  · intro hgrounded row hrow
    obtain ⟨c, hc, hread⟩ := hacc.ofRow row hrow
    exact hread.grounded_iff.mp (hgrounded.grounded c hc)
  · intro hunsplit
    refine ⟨fun c hc => ?_, fun c hc c' hc' hslot => ?_⟩
    · obtain ⟨row, hrow, hread⟩ := hacc.fromRow c hc
      exact hread.grounded_iff.mpr (hunsplit row hrow)
    · have hobject := hacc.slots c hc
      rw [hslot, hacc.slots c' hc'] at hobject
      exact (Prod.mk.inj (Option.some.inj hobject)).2.symm

end Payload

/-! ## Payloads -/

/-- Characters of ASCII, and times that are dates. -/
def asciiData : CharData where
  fold c := [c.toLower]
  isDecimal := Char.isDigit
  isWord c := c.isAlphanum || c = '_'
  fromIsoformat text := (Date.fromIsoFormat text.toList).map fun d => ⟨d, true, none⟩
  isDecimal_space := by decide
  isWord_space := by decide

/-- A payload with one row. -/
def payloadOf (subject predicate object : String) (quotes : List (String × String))
    (validFrom : Option String) : Value :=
  .obj [("facts", .arr [.obj [("subject", .str subject), ("predicate", .str predicate),
    ("object", .str object),
    ("evidence", .arr (quotes.map fun q =>
      .obj [("paragraph_id", .str q.1), ("quote", .str q.2)])),
    ("valid_from", Value.ofOptStr validFrom)]])]

/-- A row with a date in its only quote. -/
theorem dated_grounded_iff :
    GroundedPayload asciiData [⟨"p1", "On 2024-05-01 Ada joined Acme."⟩] none
        [⟨"ada", "joined", "Acme", [⟨"p1", "On 2024-05-01 Ada joined Acme."⟩],
          some "2024-05-01T00:00:00+00:00"⟩] ↔
      Unsplit asciiData (payloadOf "ada" "joined" "Acme"
        [("p1", "On 2024-05-01 Ada joined Acme.")] (some "2024-05-01")) :=
  validatePayload_grounded_iff asciiData [⟨"p1", "On 2024-05-01 Ada joined Acme."⟩] none 4 _ _
    (Except.ok_of_toOption (by decide +kernel))

/-- A city that is named by the end of one quote and the beginning of another. -/
theorem splitName_accepted :
    ∃ (T : CharData) (evidence : List Evidence) (maxFacts : ℤ) (payload : Value)
      (cs : List FactCandidate), (evidence.map Evidence.paragraphId).Nodup ∧
        validatePayload T evidence none maxFacts payload = .ok cs ∧
        ¬ GroundedPayload T evidence none cs := by
  let evidence : List Evidence := [⟨"p1", "We saw something new"⟩, ⟨"p2", "York is in England"⟩]
  let c : FactCandidate := ⟨"New York", "is in", "England",
    [⟨"p1", "something new"⟩, ⟨"p2", "York is in England"⟩], none⟩
  refine ⟨asciiData, evidence, 4, payloadOf "New York" "is in" "England"
    [("p1", "something new"), ("p2", "York is in England")] none, [c], by decide,
    Except.ok_of_toOption (by decide +kernel), ?_⟩
  intro h
  obtain ⟨q, hq, hinfix⟩ := (h.grounded c (List.mem_singleton.mpr rfl)).subject
  revert q
  decide

end Memplex
