import Memplex.Protocol.JcsReads

/-!
# What `json.loads` returns

`jsonLoads` reads a text without hooks: a number becomes an integer or a float, with the limit that
Python sets on the digits of an integer, and a dictionary keeps the place of the first and the value
of the last of the members that share a key. The canonical text of a value without floats reads back
as the value, up to the order of its members (`jsonLoads_serializeJcs`).
-/

namespace Memplex

open Lib Lib.Json

/-- `sys.get_int_max_str_digits()`. -/
def intMaxStrDigits : ℕ := 4300

/-- A token that `int` refuses. -/
def isLongToken : Token → Bool
  | .number t => !t.isFloat && intMaxStrDigits < t.whole.length
  | _ => false

/-- The number that `json.loads` makes of a token. -/
def plainNum : Token → Num
  | .number t => if t.isFloat then .float (.finite t.toDec) else .int t.toInt
  | .nan => .float .nan
  | .infinity neg => .float (.inf neg)

mutual

/-- The value that `json.loads` makes of a text that was read as tokens. -/
def plainValue : Json Token → Value
  | .null => .null
  | .bool b => .bool b
  | .num t => .num (plainNum t)
  | .str s => .str s
  | .arr items => .arr (plainItems items)
  | .obj members => .obj (plainMembers [] members)

/-- `plainValue` on the elements of an array. -/
def plainItems : List (Json Token) → List Value
  | [] => []
  | x :: xs => plainValue x :: plainItems xs

/-- `plainValue` on the members of an object: the dictionary `d`, with the members set one by one. -/
def plainMembers (d : Members) : List (String × Json Token) → Members
  | [] => d
  | (k, x) :: ms => plainMembers (d.set k (plainValue x)) ms

end

/-- `json.loads(text)`. -/
def jsonLoads (text : List Char) : Except PyError Value :=
  match loads text with
  | none => .error (valueError "Expecting value")
  | some tokens => do
    require (tokens.anyNum isLongToken = false)
      (valueError "Exceeds the limit (4300 digits) for integer string conversion")
    return plainValue tokens

/-- A number as the token that its text reads as. -/
def numToken (n : Num) : Token := .number (numTok n)

theorem plainNum_numToken (i : ℤ) : plainNum (numToken (.int i)) = .int i := by
  have hint : plainNum (numToken (.int i)) = .int (intTok i).toInt := rfl
  rw [hint, intTok_toInt]

/-- Members with distinct keys become the members of the dictionary. -/
theorem plainMembers_eq {d : Members} {members : List (String × Json Token)}
    (hd : (d.map Prod.fst ++ members.map Prod.fst).Nodup) :
    plainMembers d members = d ++ members.map fun m => (m.1, plainValue m.2) := by
  induction members generalizing d with
  | nil => exact (List.append_nil d).symm
  | cons m ms ih =>
    obtain ⟨k, x⟩ := m
    rw [List.map_cons] at hd
    have hnew : k ∉ d.map Prod.fst := fun hk =>
      (List.nodup_append.mp hd).2.2 k hk k List.mem_cons_self rfl
    have hset : d.set k (plainValue x) = d ++ [(k, plainValue x)] := by
      rw [Members.set, upsertRow, if_neg]
      rintro ⟨m, hm, hkey⟩
      have hk : m.1 = k := hkey
      exact hnew (hk ▸ List.mem_map_of_mem hm)
    rw [plainMembers, hset, ih (by simpa using hd), List.map_cons, List.append_assoc]
    rfl

/-- Where no two members of an object share a key, every number becomes what it is. -/
theorem plainValue_eq {v : Json Token} (h : v.wellKeyed = true) :
    plainValue v = v.map plainNum := by
  induction v using induct with
  | null => rfl
  | bool b => rfl
  | num t => rfl
  | str s => rfl
  | arr items ih =>
    rw [wellKeyed_arr] at h
    have hitems : plainItems items = items.map plainValue := by
      clear h ih
      induction items with
      | nil => rfl
      | cons x xs ih => rw [plainItems, ih, List.map_cons]
    rw [plainValue, map_arr, hitems]
    exact congrArg Json.arr (List.map_congr_left fun x hx => ih x hx (h x hx))
  | obj members ih =>
    rw [wellKeyed_obj] at h
    rw [plainValue, map_obj, plainMembers_eq (by simpa using h.1), List.nil_append]
    exact congrArg Json.obj (List.map_congr_left fun m hm => by rw [ih m hm (h.2 m hm)])

/-- An integer that canonical JSON has. -/
def SafeInt (n : Num) : Prop := ∃ i : ℤ, n = .int i ∧ i.natAbs ≤ maxJavascriptSafeInteger

theorem SafeInt.safeNum {n : Num} (h : SafeInt n) : SafeNum n := by
  obtain ⟨i, rfl, hi⟩ := h
  exact hi

/-- An integer that canonical JSON has is short enough for Python. -/
theorem SafeInt.not_long {n : Num} (h : SafeInt n) : isLongToken (numToken n) = false := by
  obtain ⟨i, rfl, hi⟩ := h
  have hlt : i.natAbs < 10 ^ 16 := lt_of_le_of_lt hi (by decide)
  have hlen : (Nat.toDigits 10 i.natAbs).length ≤ 16 :=
    (Nat.length_toDigits_le_iff (by decide) (by decide)).mpr hlt
  have hshort : ¬ intMaxStrDigits < (Nat.toDigits 10 i.natAbs).length := by
    unfold intMaxStrDigits
    omega
  exact decide_eq_false hshort

/-- The canonical text of a value without floats reads back as the value. -/
theorem jsonLoads_serializeJcs {v : Value} (hsafe : v.All SafeInt) (hkeyed : v.wellKeyed = true) :
    jsonLoads (serializeJcs v) = .ok (sortKeys v) := by
  have hloads : loads (serializeJcs v) = some ((sortKeys v).map numToken) :=
    loads_serializeJcs (hsafe.mono fun _ => SafeInt.safeNum)
  have hsorted : (sortKeys v).All SafeInt := all_sortKeys hsafe
  have hlong : ((sortKeys v).map numToken).anyNum isLongToken = false :=
    anyNum_eq_false.mpr (all_map (hsorted.mono fun _ => SafeInt.not_long))
  have hplain : plainValue ((sortKeys v).map numToken) = sortKeys v := by
    rw [plainValue_eq (wellKeyed_map _ (wellKeyed_sortKeys hkeyed)), map_map]
    refine map_eq_self (hsorted.mono fun n hn => ?_)
    obtain ⟨i, rfl, -⟩ := hn
    exact congrArg Num.int (intTok_toInt i)
  rw [jsonLoads, hloads]
  exact Except.bind_ok.mpr ⟨(), require_ok.mpr hlong, congrArg Except.ok hplain⟩

end Memplex
