import Memplex.Lib.Json.Reader

/-!
# Writing JSON text, and reading it back

`write num` prints a value without whitespace, with `num` for its numbers and the short escapes of
Python's `json.dumps(..., ensure_ascii=False)` in its strings. `readValue_write` is the round trip:
where every number of a value is printed as a token that reads as `tok`, the reader takes the whole
printed value off the front of the text and returns it with its numbers replaced by their tokens.
The reader's fuel is covered by `weight`, which `weight_le_length` bounds by the length of the text.
-/

namespace Memplex.Lib.Json

variable {ν : Type}

/-- The escape of one character. -/
def escapeChar (c : Char) : List Char :=
  if c = '"' then ['\\', '"']
  else if c = '\\' then ['\\', '\\']
  else if c = '\n' then ['\\', 'n']
  else if c = '\r' then ['\\', 'r']
  else if c = '\t' then ['\\', 't']
  else if c = '\x0c' then ['\\', 'f']
  else if c = '\x08' then ['\\', 'b']
  else if c.toNat < 32 then
    ['\\', 'u', '0', '0', Nat.digitChar (c.toNat / 16), Nat.digitChar (c.toNat % 16)]
  else [c]

/-- A string between its quotes. -/
def writeString (s : String) : List Char := '"' :: (s.toList.flatMap escapeChar ++ ['"'])

mutual

/-- The text of a value. -/
def write (num : ν → List Char) : Json ν → List Char
  | .null => ['n', 'u', 'l', 'l']
  | .bool true => ['t', 'r', 'u', 'e']
  | .bool false => ['f', 'a', 'l', 's', 'e']
  | .num n => num n
  | .str s => writeString s
  | .arr items => '[' :: (writeItems num items ++ [']'])
  | .obj members => '{' :: (writeMembers num members ++ ['}'])

/-- The elements of an array, with commas between them. -/
def writeItems (num : ν → List Char) : List (Json ν) → List Char
  | [] => []
  | [x] => write num x
  | x :: xs => write num x ++ ',' :: writeItems num xs

/-- The members of an object, with commas between them. -/
def writeMembers (num : ν → List Char) : List (String × Json ν) → List Char
  | [] => []
  | [(k, x)] => writeString k ++ ':' :: write num x
  | (k, x) :: ms => writeString k ++ ':' :: (write num x ++ ',' :: writeMembers num ms)

end

/-! ## Strings -/

theorem hexVal_digitChar (n : ℕ) (hn : n < 16) : hexVal (Nat.digitChar n) = some n := by
  revert n
  decide

theorem hex4_control (n : ℕ) (hn : n < 32) :
    hex4 '0' '0' (Nat.digitChar (n / 16)) (Nat.digitChar (n % 16)) = some n := by
  have h0 : hexVal '0' = some 0 := by decide
  simp only [hex4, h0, hexVal_digitChar _ (by omega : n / 16 < 16),
    hexVal_digitChar _ (Nat.mod_lt n (by norm_num)), Option.pure_def, Option.bind_eq_bind,
    Option.bind_some, Option.some.injEq]
  omega

/-- Scanning an escaped character yields the character. -/
theorem scanChars_escapeChar (c : Char) (rest : List Char) :
    scanChars (escapeChar c ++ rest) = (scanChars rest).map fun (cs, r) => (c :: cs, r) := by
  unfold escapeChar
  split_ifs with h1 h2 h3 h4 h5 h6 h7 h8
  · subst h1; simp [scanChars, unescape]
  · subst h2; simp [scanChars, unescape]
  · subst h3; simp [scanChars, unescape]
  · subst h4; simp [scanChars, unescape]
  · subst h5; simp [scanChars, unescape]
  · subst h6; simp [scanChars, unescape]
  · subst h7; simp [scanChars, unescape]
  · have hc : Char.ofNat c.toNat = c := Char.ofNat_toNat c
    have hhigh : isHighSurrogate c.toNat = false := by
      unfold isHighSurrogate; simp; omega
    have hlow : isLowSurrogate c.toNat = false := by
      unfold isLowSurrogate; simp; omega
    simp only [List.cons_append, List.nil_append, scanChars, hex4_control _ h8, hhigh, hlow, hc,
      Bool.false_eq_true, if_false]
  · rw [List.singleton_append]
    rw [scanChars]
    · rw [if_neg h8]
    all_goals simp [h1, h2]

/-- A written string reads back. -/
theorem readString_write (s : String) (rest : List Char) :
    readString (s.toList.flatMap escapeChar ++ '"' :: rest) = some (s, rest) := by
  have h : ∀ cs : List Char,
      scanChars (cs.flatMap escapeChar ++ '"' :: rest) = some (cs, rest) := by
    intro cs
    induction cs with
    | nil => simp [scanChars]
    | cons c cs ih =>
      rw [List.flatMap_cons, List.append_assoc, scanChars_escapeChar, ih]
      rfl
  rw [readString, h]
  simp only [Option.map_some, String.ofList_toList]

/-! ## Values -/

/-- The text after a written value: the end, a comma or a closing bracket. -/
def Closed (rest : List Char) : Prop := ∀ c ∈ rest.head?, c = ',' ∨ c = ']' ∨ c = '}'

/-- The first character of a written value: no whitespace, and no closing bracket. -/
def Opens (cs : List Char) : Prop :=
  ∃ c cs', cs = c :: cs' ∧ isWs c = false ∧ c ≠ ']' ∧ c ≠ '}'

/-- The number `n` is printed as a token that reads as `tok n`, whatever closes it. -/
structure Reads (num : ν → List Char) (tok : ν → Token) (n : ν) : Prop where
  /-- The printed number opens a value. -/
  opens : Opens (num n)
  /-- The reader takes exactly the printed number off the front. -/
  reads : ∀ fuel rest, Closed rest →
    readValue (fuel + 1) (num n ++ rest) = some (.num (tok n), rest)

mutual

/-- The fuel that reading a written value takes. -/
def weight : Json ν → ℕ
  | .arr items => 1 + weightItems items
  | .obj members => 1 + weightMembers members
  | _ => 1

/-- The fuel of the elements of an array. -/
def weightItems : List (Json ν) → ℕ
  | [] => 0
  | x :: xs => 1 + weight x + weightItems xs

/-- The fuel of the members of an object. -/
def weightMembers : List (String × Json ν) → ℕ
  | [] => 0
  | (_, x) :: ms => 1 + weight x + weightMembers ms

end

theorem Opens.skipWs {cs : List Char} (h : Opens cs) : skipWs cs = cs := by
  obtain ⟨c, cs', rfl, hw, -, -⟩ := h
  simp [Json.skipWs, hw]

theorem Opens.append {cs : List Char} (h : Opens cs) (ds : List Char) : Opens (cs ++ ds) := by
  obtain ⟨c, cs', rfl, hw⟩ := h
  exact ⟨c, cs' ++ ds, rfl, hw⟩

theorem Closed.skipWs {rest : List Char} (h : Closed rest) : skipWs rest = rest := by
  cases rest with
  | nil => rfl
  | cons c cs =>
    have hc : isWs c = false := by
      rcases h c rfl with rfl | rfl | rfl <;> decide
    simp [Json.skipWs, hc]

theorem closed_comma (cs : List Char) : Closed (',' :: cs) := by
  intro c hc; simp at hc; exact Or.inl hc.symm

theorem closed_bracket (cs : List Char) : Closed (']' :: cs) := by
  intro c hc; simp at hc; exact Or.inr (Or.inl hc.symm)

theorem closed_brace (cs : List Char) : Closed ('}' :: cs) := by
  intro c hc; simp at hc; exact Or.inr (Or.inr hc.symm)

variable {num : ν → List Char} {tok : ν → Token}

/-- A written value opens with a character that is neither whitespace nor a closing bracket. -/
theorem write_opens (v : Json ν) (hv : v.All (Reads num tok)) : Opens (write num v) := by
  match v with
  | .null => exact ⟨_, _, rfl, by decide, by decide, by decide⟩
  | .bool true => exact ⟨_, _, rfl, by decide, by decide, by decide⟩
  | .bool false => exact ⟨_, _, rfl, by decide, by decide, by decide⟩
  | .num n => exact hv.opens
  | .str s => exact ⟨_, _, rfl, by decide, by decide, by decide⟩
  | .arr items => exact ⟨_, _, rfl, by decide, by decide, by decide⟩
  | .obj members => exact ⟨_, _, rfl, by decide, by decide, by decide⟩

/-- What reading back one value means, for the elements and the members of a larger one. -/
def ReadsBack (num : ν → List Char) (tok : ν → Token) (v : Json ν) : Prop :=
  ∀ fuel rest, weight v ≤ fuel → Closed rest →
    readValue fuel (write num v ++ rest) = some (v.map tok, rest)

/-- The elements of a written array read back, up to the closing bracket. -/
theorem readItems_write (items : List (Json ν)) (hne : items ≠ [])
    (ho : ∀ x ∈ items, Opens (write num x)) (hr : ∀ x ∈ items, ReadsBack num tok x)
    (fuel : ℕ) (hf : weightItems items ≤ fuel) (rest : List Char) :
    readItems fuel (writeItems num items ++ ']' :: rest) = some (items.map (map tok), rest) := by
  induction items generalizing fuel with
  | nil => exact absurd rfl hne
  | cons x xs ih =>
    obtain ⟨fuel, rfl⟩ : ∃ f, fuel = f + 1 := ⟨fuel - 1, by rw [weightItems] at hf; omega⟩
    rw [weightItems] at hf
    have hx := hr x (List.mem_cons_self ..)
    cases xs with
    | nil =>
      have hread := hx fuel (']' :: rest) (by omega) (closed_bracket rest)
      rw [writeItems, readItems, hread]
      simp [(closed_bracket rest).skipWs]
    | cons y ys =>
      have hys : ∀ z ∈ y :: ys, z ∈ x :: y :: ys := fun z hz => List.mem_cons_of_mem _ hz
      have hopen : Opens (writeItems num (y :: ys) ++ ']' :: rest) := by
        cases ys
        · exact (ho y (by simp)).append _
        · exact ((ho y (by simp)).append _).append _
      have hread := hx fuel (',' :: (writeItems num (y :: ys) ++ ']' :: rest)) (by omega)
        (closed_comma _)
      have htail := ih (by simp) (fun z hz => ho z (hys z hz)) (fun z hz => hr z (hys z hz))
        fuel (by omega)
      rw [writeItems, readItems, List.append_assoc, List.cons_append, hread]
      · simp only [(closed_comma _).skipWs, hopen.skipWs, htail, Option.map_some, List.map_cons]
      · simp

/-- A written key reads back, and the separator after it stays. -/
theorem readMembers_key (fuel : ℕ) (k : String) (v : Json ν) (hv : Opens (write num v))
    (rest : List Char) :
    readMembers (fuel + 1) (writeString k ++ ':' :: (write num v ++ rest)) =
      match readValue fuel (write num v ++ rest) with
      | none => none
      | some (value, rest'') =>
        match skipWs rest'' with
        | '}' :: rest''' => some ([(k, value)], rest''')
        | ',' :: rest''' =>
          (readMembers fuel (skipWs rest''')).map fun (ms, r) => ((k, value) :: ms, r)
        | _ => none := by
  have hws : skipWs (':' :: (write num v ++ rest)) = ':' :: (write num v ++ rest) := by
    have hc : isWs ':' = false := by decide
    simp [Json.skipWs, hc]
  rw [writeString, List.cons_append, List.append_assoc, List.singleton_append, readMembers,
    readString_write]
  simp only [hws, (hv.append rest).skipWs] <;> rfl

/-- The members of a written object read back, up to the closing brace. -/
theorem readMembers_write (members : List (String × Json ν)) (hne : members ≠ [])
    (ho : ∀ m ∈ members, Opens (write num m.2)) (hr : ∀ m ∈ members, ReadsBack num tok m.2)
    (fuel : ℕ) (hf : weightMembers members ≤ fuel) (rest : List Char) :
    readMembers fuel (writeMembers num members ++ '}' :: rest) =
      some (members.map fun m => (m.1, m.2.map tok), rest) := by
  induction members generalizing fuel with
  | nil => exact absurd rfl hne
  | cons m ms ih =>
    obtain ⟨k, x⟩ := m
    obtain ⟨fuel, rfl⟩ : ∃ f, fuel = f + 1 := ⟨fuel - 1, by rw [weightMembers] at hf; omega⟩
    rw [weightMembers] at hf
    have hx : ReadsBack num tok x := hr (k, x) (List.mem_cons_self ..)
    have hox : Opens (write num x) := ho (k, x) (List.mem_cons_self ..)
    cases ms with
    | nil =>
      have hread := hx fuel ('}' :: rest) (by omega) (closed_brace rest)
      rw [writeMembers, List.append_assoc, List.cons_append, readMembers_key _ _ _ hox, hread]
      simp [(closed_brace rest).skipWs]
    | cons n ns =>
      have hns : ∀ z ∈ n :: ns, z ∈ (k, x) :: n :: ns := fun z hz => List.mem_cons_of_mem _ hz
      have hopen : Opens (writeMembers num (n :: ns) ++ '}' :: rest) := by
        obtain ⟨l, y⟩ := n
        cases ns <;> exact ⟨'"', _, rfl, by decide, by decide, by decide⟩
      have hread := hx fuel (',' :: (writeMembers num (n :: ns) ++ '}' :: rest)) (by omega)
        (closed_comma _)
      have htail := ih (by simp) (fun z hz => ho z (hns z hz)) (fun z hz => hr z (hns z hz))
        fuel (by omega)
      rw [writeMembers, List.append_assoc, List.cons_append, List.append_assoc, List.cons_append,
        readMembers_key _ _ _ hox, hread]
      · simp only [(closed_comma _).skipWs, hopen.skipWs, htail, Option.map_some, List.map_cons]
      · simp

/-- The round trip: a written value reads back with its numbers as tokens. -/
theorem readValue_write (v : Json ν) (hv : v.All (Reads num tok)) : ReadsBack num tok v := by
  induction v using induct with
  | null =>
    rintro (- | fuel) rest hf -
    · simp [weight] at hf
    · rfl
  | bool b =>
    rintro (- | fuel) rest hf -
    · simp [weight] at hf
    · cases b <;> rfl
  | num n =>
    rintro (- | fuel) rest hf hc
    · simp [weight] at hf
    · exact hv.reads fuel rest hc
  | str s =>
    rintro (- | fuel) rest hf -
    · simp [weight] at hf
    · rw [write, writeString, List.cons_append, List.append_assoc, List.singleton_append, readValue,
        readString_write]
      rfl
  | arr items ih =>
    rintro (- | fuel) rest hf -
    · simp [weight] at hf
    · rw [all_arr] at hv
      rw [weight] at hf
      rw [write, List.cons_append, List.append_assoc, List.singleton_append, readValue, map_arr]
      cases items with
      | nil =>
        have hs : skipWs (']' :: rest) = ']' :: rest := (closed_bracket rest).skipWs
        simp [writeItems, hs]
      | cons x xs =>
        have ho : ∀ z ∈ x :: xs, Opens (write num z) := fun z hz => write_opens z (hv z hz)
        have hopen : Opens (writeItems num (x :: xs) ++ ']' :: rest) := by
          cases xs
          · exact (ho x (by simp)).append _
          · exact ((ho x (by simp)).append _).append _
        have hitems := readItems_write (x :: xs) (by simp) ho (fun z hz => ih z hz (hv z hz))
          fuel (by omega) rest
        rw [hopen.skipWs]
        obtain ⟨c, cs, hcs, -, hne, -⟩ := hopen
        rw [hcs] at hitems ⊢
        split
        · rename_i heq; simp_all
        · rw [hitems]; rfl
  | obj members ih =>
    rintro (- | fuel) rest hf -
    · simp [weight] at hf
    · rw [all_obj] at hv
      rw [weight] at hf
      rw [write, List.cons_append, List.append_assoc, List.singleton_append, readValue, map_obj]
      cases members with
      | nil =>
        have hs : skipWs ('}' :: rest) = '}' :: rest := (closed_brace rest).skipWs
        simp [writeMembers, hs]
      | cons m ms =>
        have ho : ∀ z ∈ m :: ms, Opens (write num z.2) := fun z hz => write_opens z.2 (hv z hz)
        have hopen : Opens (writeMembers num (m :: ms) ++ '}' :: rest) := by
          obtain ⟨l, y⟩ := m
          cases ms <;> exact ⟨'"', _, rfl, by decide, by decide, by decide⟩
        have hmembers := readMembers_write (m :: ms) (by simp) ho
          (fun z hz => ih z hz (hv z hz)) fuel (by omega) rest
        rw [hopen.skipWs]
        obtain ⟨c, cs, hcs, -, -, hne⟩ := hopen
        rw [hcs] at hmembers ⊢
        split
        · rename_i heq; simp_all
        · rw [hmembers]; rfl

/-- Reading a written value needs no more fuel than the text has characters. -/
theorem weight_le_length (v : Json ν) (hv : v.All (Reads num tok)) :
    weight v ≤ (write num v).length := by
  induction v using induct with
  | null => simp [weight, write]
  | bool b => cases b <;> simp [weight, write]
  | num n =>
    obtain ⟨c, cs, hcs, -⟩ := hv.opens
    simp [weight, write, hcs]
  | str s => simp [weight, write, writeString]
  | arr items ih =>
    rw [all_arr] at hv
    have h : weightItems items ≤ (writeItems num items).length + 1 := by
      induction items with
      | nil => simp [weightItems]
      | cons x xs ihs =>
        have hx := ih x (List.mem_cons_self ..) (hv x (List.mem_cons_self ..))
        have hxs := ihs (fun z hz => ih z (List.mem_cons_of_mem _ hz))
          fun z hz => hv z (List.mem_cons_of_mem _ hz)
        cases xs with
        | nil => simp only [weightItems, writeItems] at *; omega
        | cons y ys =>
          rw [weightItems, writeItems, List.length_append, List.length_cons]
          · omega
          · simp
    simp only [weight, write, List.length_cons, List.length_append, List.length_nil]
    omega
  | obj members ih =>
    rw [all_obj] at hv
    have h : weightMembers members ≤ (writeMembers num members).length + 1 := by
      induction members with
      | nil => simp [weightMembers]
      | cons m ms ihs =>
        obtain ⟨k, x⟩ := m
        have hx := ih (k, x) (List.mem_cons_self ..) (hv (k, x) (List.mem_cons_self ..))
        have hms := ihs (fun z hz => ih z (List.mem_cons_of_mem _ hz))
          fun z hz => hv z (List.mem_cons_of_mem _ hz)
        cases ms with
        | nil =>
          simp only [weightMembers, writeMembers, List.length_append, List.length_cons] at *
          omega
        | cons y ys =>
          rw [weightMembers, writeMembers, List.length_append, List.length_cons,
            List.length_append, List.length_cons]
          · simp only at hx; omega
          · simp
    simp only [weight, write, List.length_cons, List.length_append, List.length_nil]
    omega

/-- A whole written text loads as the value it was written from. -/
theorem loads_write (v : Json ν) (hv : v.All (Reads num tok)) :
    loads (write num v) = some (v.map tok) := by
  have hread := readValue_write v hv ((write num v).length + 1) []
    (by have := weight_le_length v hv; omega) (by intro c hc; simp at hc)
  rw [List.append_nil] at hread
  rw [loads, (write_opens v hv).skipWs, hread]
  simp [Json.skipWs]

end Memplex.Lib.Json
