import Memplex.Protocol.Jcs

/-!
# Canonical JSON reads back

What a JSON reader sees of a canonical text. `serializeJcs v` is the plain written form of `v` with
the members of every object sorted (`serializeJcs_eq_write`), its numbers are texts of well-formed
number tokens, and so `loads_serializeJcs` returns the sorted value with a token for every number.
The token of a float has the float as its exact value (`floatTok_toDec`). A float with an integer
value prints like that integer (`floatTok_integral`), which is why a reader cannot tell the two
apart and why it need not.
-/

namespace Memplex

open Lib Lib.Json

/-! ## Digits -/

/-- A number other than zero does not begin with a zero. -/
theorem toDigits_head (n : ℕ) (hn : n ≠ 0) : ∃ c cs, Nat.toDigits 10 n = c :: cs ∧ c ≠ '0' := by
  induction n using Nat.strong_induction_on with
  | _ n ih =>
    by_cases hlt : n < 10
    · exact ⟨_, [], Nat.toDigits_of_lt_base hlt, by rwa [ne_eq, Nat.digitChar_eq_zero]⟩
    · obtain ⟨c, cs, hc, hc0⟩ := ih (n / 10) (by omega) (by omega)
      refine ⟨c, cs ++ [Nat.digitChar (n % 10)], ?_, hc0⟩
      rw [Nat.toDigits_of_base_le (by norm_num) (by omega), hc]
      rfl

/-- The digits of a number times a power of ten. -/
theorem toDigits_mul_pow (n k : ℕ) (hn : n ≠ 0) :
    Nat.toDigits 10 (n * 10 ^ k) = Nat.toDigits 10 n ++ List.replicate k '0' := by
  induction k with
  | zero => simp
  | succ k ih =>
    have hpos : 0 < n * 10 ^ k := by positivity
    have hstep := Nat.toDigits_append_toDigits (b := 10) (n := n * 10 ^ k) (d := 0) (by norm_num)
      hpos (by norm_num)
    rw [Nat.toDigits_zero, ih, add_zero] at hstep
    rw [List.replicate_succ', ← List.append_assoc, hstep]
    congr 1
    ring

/-- Leading zeros do not change the value of digits. -/
theorem ofDigitChars_zeros (k : ℕ) (ds : List Char) :
    Nat.ofDigitChars 10 (List.replicate k '0' ++ ds) 0 = Nat.ofDigitChars 10 ds 0 := by
  rw [Nat.ofDigitChars_append, Nat.ofDigitChars_replicate_zero, mul_zero]

/-- The number whose digits begin a token. -/
theorem whole_of_digits {n : ℕ} (hn : n ≠ 0) (back : List Char) (hback : ∀ c ∈ back, c.isDigit) :
    ∃ c ds, Nat.toDigits 10 n ++ back = c :: ds ∧ c ≠ '0' ∧ c.isDigit ∧ ∀ d ∈ ds, d.isDigit := by
  obtain ⟨c, cs, hcs, hc0⟩ := toDigits_head n hn
  have hdig : ∀ x ∈ Nat.toDigits 10 n, x.isDigit := fun _ hx =>
    Nat.isDigit_of_mem_toDigits (by decide) (by decide) hx
  rw [hcs] at hdig ⊢
  refine ⟨c, cs ++ back, rfl, hc0, hdig c (by simp), fun d hd => ?_⟩
  rcases List.mem_append.mp hd with hd | hd
  · exact hdig d (List.mem_cons_of_mem _ hd)
  · exact hback d hd

theorem isDigit_of_mem_replicate {k : ℕ} {c : Char} (hc : c ∈ List.replicate k '0') :
    c.isDigit = true := by
  rw [(List.mem_replicate.mp hc).2]; decide

/-! ## Integers -/

/-- The number token that an integer is printed as. -/
def intTok (i : ℤ) : NumTok := ⟨decide (i < 0), Nat.toDigits 10 i.natAbs, none, none⟩

theorem intTok_wellFormed (i : ℤ) : (intTok i).WellFormed where
  whole := by
    by_cases hi : i.natAbs = 0
    · left; simp [intTok, hi]
    · right
      have h := whole_of_digits hi [] (by simp)
      rwa [List.append_nil] at h
  frac := by simp [intTok]
  exp := by simp [intTok]

theorem strInt_eq (i : ℤ) : strInt i = (intTok i).text := by
  simp [strInt, intTok, NumTok.text, NumTok.fracText, NumTok.expText]

theorem intTok_toInt (i : ℤ) : (intTok i).toInt = i := by
  unfold NumTok.toInt intTok
  simp only [Nat.ofDigitChars_ten_toDigits, decide_eq_true_eq]
  split_ifs <;> omega

/-! ## Floats -/

theorem floatTok_wellFormed (d : Dec) : (floatTok d).WellFormed := by
  have hdig : ∀ c ∈ d.digits, c.isDigit := d.digits_isDigit
  have hne : d.digits ≠ [] := List.ne_nil_of_length_pos d.digits_length_pos
  unfold floatTok
  split_ifs with hd hsci hlen h0 hl
  · exact ⟨Or.inl rfl, by simp, by simp⟩
  · -- One digit before the exponent, and no fraction.
    obtain ⟨c, cs, hcs, hc0⟩ := toDigits_head d.mant hd
    have hcs' : d.digits = c :: cs := hcs
    have hc : c.isDigit := hdig c (by rw [hcs']; simp)
    refine ⟨Or.inr ⟨c, [], by simp [hcs'], hc0, hc, by simp⟩, by simp, ?_⟩
    rintro e ⟨⟩
    exact ⟨Nat.toDigits_ne_nil, fun _ hx => Nat.isDigit_of_mem_toDigits (by decide) (by decide) hx⟩
  · -- One digit before the point, the others after it, then the exponent.
    obtain ⟨c, cs, hcs, hc0⟩ := toDigits_head d.mant hd
    have hcs' : d.digits = c :: cs := hcs
    have hc : c.isDigit := hdig c (by rw [hcs']; simp)
    refine ⟨Or.inr ⟨c, [], by simp [hcs'], hc0, hc, by simp⟩, ?_, ?_⟩
    · rintro ds ⟨⟩
      refine ⟨?_, fun x hx => hdig x (List.mem_of_mem_drop hx)⟩
      intro hnil
      rw [List.drop_eq_nil_iff] at hnil
      have := d.digits_length_pos
      omega
    · rintro e ⟨⟩
      exact ⟨Nat.toDigits_ne_nil,
        fun _ hx => Nat.isDigit_of_mem_toDigits (by decide) (by decide) hx⟩
  · refine ⟨Or.inl rfl, ?_, by simp⟩
    rintro ds ⟨⟩
    refine ⟨by simp [hne], fun x hx => ?_⟩
    rcases List.mem_append.mp hx with hx | hx
    · exact isDigit_of_mem_replicate hx
    · exact hdig x hx
  · exact ⟨Or.inr (whole_of_digits hd _ fun _ hx => isDigit_of_mem_replicate hx), by simp, by simp⟩
  · obtain ⟨c, cs, hcs, hc0⟩ := toDigits_head d.mant hd
    have hcs' : d.digits = c :: cs := hcs
    have hpos : 0 < d.point.toNat := by omega
    refine ⟨Or.inr ⟨c, cs.take (d.point.toNat - 1), ?_, hc0, hdig c (by rw [hcs']; simp), ?_⟩, ?_,
      by simp⟩
    · simp only [hcs']
      obtain ⟨k, hk⟩ : ∃ k, d.point.toNat = k + 1 := ⟨d.point.toNat - 1, by omega⟩
      rw [hk, List.take_succ_cons, Nat.add_sub_cancel]
    · intro x hx
      exact hdig x (by rw [hcs']; exact List.mem_cons_of_mem _ (List.mem_of_mem_take hx))
    · rintro ds ⟨⟩
      refine ⟨?_, fun x hx => hdig x (List.mem_of_mem_drop hx)⟩
      rw [ne_eq, List.drop_eq_nil_iff]
      omega

/-- The exact value of a token without exponent, from its digits in one row. -/
theorem toDec_noExp (neg : Bool) (whole : List Char) (frac : Option (List Char)) :
    (⟨neg, whole, frac, none⟩ : NumTok).toDec =
      Dec.ofParts neg (Nat.ofDigitChars 10 (whole ++ frac.getD []) 0)
        (-((frac.getD []).length : ℤ)) := by
  simp [NumTok.toDec]

/-- The token of a float has the float as its exact value, zero apart. -/
theorem floatTok_toDec (d : Dec) (hd : d.mant ≠ 0) : (floatTok d).toDec = d := by
  have hself := d.ofParts_self
  have hval := d.ofDigitChars_digits
  have hpoint : d.point = d.digits.length + d.exp := rfl
  unfold floatTok
  rw [if_neg hd]
  split_ifs with hsci hlen h0 hl
  · have hexp : Nat.ofDigitChars 10 (Nat.toDigits 10 (d.point - 1).natAbs) 0 =
        (d.point - 1).natAbs := Nat.ofDigitChars_ten_toDigits
    have htake : d.digits.take 1 = d.digits := List.take_of_length_le (by omega)
    simp only [NumTok.toDec, htake, Option.getD_none, List.append_nil, hval, List.length_nil]
    by_cases hneg : d.point - 1 < 0
    · simp only [hneg, decide_true, hexp]
      rw [show (-((d.point - 1).natAbs : ℤ) - ((0 : ℕ) : ℤ)) = d.exp by omega, hself]
    · simp only [hneg, decide_false, hexp]
      rw [show (((d.point - 1).natAbs : ℤ) - ((0 : ℕ) : ℤ)) = d.exp by omega, hself]
  · have hexp : Nat.ofDigitChars 10 (Nat.toDigits 10 (d.point - 1).natAbs) 0 =
        (d.point - 1).natAbs := Nat.ofDigitChars_ten_toDigits
    have hlenpos := d.digits_length_pos
    simp only [NumTok.toDec, Option.getD_some, List.take_append_drop, hval, List.length_drop]
    by_cases hneg : d.point - 1 < 0
    · simp only [hneg, decide_true, hexp]
      rw [show (-((d.point - 1).natAbs : ℤ) - ((d.digits.length - 1 : ℕ) : ℤ)) = d.exp by omega,
        hself]
    · simp only [hneg, decide_false, hexp]
      rw [show (((d.point - 1).natAbs : ℤ) - ((d.digits.length - 1 : ℕ) : ℤ)) = d.exp by omega,
        hself]
  · have hdigits : Nat.ofDigitChars 10
        (['0'] ++ (List.replicate (-d.point).toNat '0' ++ d.digits)) 0 = d.mant := by
      rw [List.singleton_append, Nat.ofDigitChars_cons]
      simpa using (ofDigitChars_zeros _ _).trans hval
    rw [toDec_noExp, Option.getD_some, hdigits]
    rw [List.length_append, List.length_replicate,
      show (-(((-d.point).toNat + d.digits.length : ℕ) : ℤ)) = d.exp by omega, hself]
  · have hdigits : Nat.ofDigitChars 10 (d.digits ++
        List.replicate (d.point - d.digits.length).toNat '0') 0 =
        d.mant * 10 ^ (d.point - d.digits.length).toNat := by
      rw [Nat.ofDigitChars_append, hval, Nat.ofDigitChars_replicate_zero, mul_comm]
    rw [toDec_noExp, Option.getD_none, List.append_nil, hdigits, Dec.ofParts_mul_pow]
    rw [show (-((([] : List Char).length : ℕ) : ℤ) + ((d.point - d.digits.length).toNat : ℕ)) =
      d.exp by simp; omega, hself]
  · rw [toDec_noExp, Option.getD_some, List.take_append_drop, hval, List.length_drop,
      show (-((d.digits.length - d.point.toNat : ℕ) : ℤ)) = d.exp by omega, hself]

/-- A float that prints without fraction and exponent prints like the integer it equals. -/
theorem floatTok_integral (d : Dec) (h : (floatTok d).isFloat = false) :
    (floatTok d).text = strInt (floatTok d).toInt := by
  rw [strInt_eq]
  unfold floatTok at h ⊢
  split_ifs at h ⊢ with hd hsci hlen h0 hl
  · decide
  · simp [NumTok.isFloat] at h
  · simp [NumTok.isFloat] at h
  · simp [NumTok.isFloat] at h
  · have hpos : 0 < 10 ^ (d.point - d.digits.length).toNat := by positivity
    have hval : Nat.ofDigitChars 10 (d.digits ++
        List.replicate (d.point - d.digits.length).toNat '0') 0 =
        d.mant * 10 ^ (d.point - d.digits.length).toNat := by
      rw [Nat.ofDigitChars_append, d.ofDigitChars_digits, Nat.ofDigitChars_replicate_zero, mul_comm]
    have hdigits : d.digits ++ List.replicate (d.point - d.digits.length).toNat '0' =
        Nat.toDigits 10 (d.mant * 10 ^ (d.point - d.digits.length).toNat) :=
      (toDigits_mul_pow _ _ hd).symm
    have hmant : 0 < d.mant * 10 ^ (d.point - d.digits.length).toNat := by positivity
    generalize d.mant * 10 ^ (d.point - d.digits.length).toNat = n at hval hdigits hmant
    cases hneg : d.neg with
    | true =>
      simp only [NumTok.toInt, hval, if_true, intTok]
      rw [hdigits, show (-(n : ℤ)).natAbs = n by omega, decide_eq_true (by omega : -(n : ℤ) < 0)]
    | false =>
      simp only [NumTok.toInt, hval, Bool.false_eq_true, if_false, intTok]
      rw [hdigits, show ((n : ℤ)).natAbs = n by omega,
        decide_eq_false (by omega : ¬ (n : ℤ) < 0)]
  · simp [NumTok.isFloat] at h

/-! ## Sorted members -/

theorem sortByKey_perm {α : Type} (members : List (String × α)) :
    (sortByKey members).Perm members := List.perm_insertionSort _ _

/-- Sorting by key commutes with a change of the values. -/
theorem sortByKey_map {α β : Type} (f : α → β) (members : List (String × α)) :
    sortByKey (members.map fun m => (m.1, f m.2)) =
      (sortByKey members).map fun m => (m.1, f m.2) :=
  (List.map_insertionSort (fun m n : String × α => utf16Units m.1 ≤ utf16Units n.1)
    (fun m n : String × β => utf16Units m.1 ≤ utf16Units n.1) (fun m => (m.1, f m.2)) members
    fun _ _ _ _ => Iff.rfl).symm

/-- The order of members is total and transitive, so that sorted members stay as they are. -/
theorem sortByKey_idem {α : Type} (members : List (String × α)) :
    sortByKey (sortByKey members) = sortByKey members := by
  let r : String × α → String × α → Prop := fun m n => utf16Units m.1 ≤ utf16Units n.1
  have htotal : Std.Total r := ⟨fun m n => le_total (utf16Units m.1) (utf16Units n.1)⟩
  have htrans : IsTrans (String × α) r := ⟨fun _ _ _ h h' => le_trans h h'⟩
  have hsorted : (sortByKey members).Pairwise r := List.pairwise_insertionSort r members
  exact hsorted.insertionSort_eq

mutual

/-- A value with the members of every object sorted by key. -/
def sortKeys : Value → Value
  | .arr items => .arr (sortKeysItems items)
  | .obj members => .obj (sortByKey (sortKeysMembers members))
  | v => v

/-- `sortKeys` on the elements of an array. -/
def sortKeysItems : List Value → List Value
  | [] => []
  | x :: xs => sortKeys x :: sortKeysItems xs

/-- `sortKeys` on the values of an object. -/
def sortKeysMembers : Members → Members
  | [] => []
  | (k, x) :: ms => (k, sortKeys x) :: sortKeysMembers ms

end

theorem sortKeys_arr (items : List Value) :
    sortKeys (.arr items) = .arr (items.map sortKeys) := by
  have h : sortKeysItems items = items.map sortKeys := by
    induction items with
    | nil => rfl
    | cons x xs ih => rw [sortKeysItems, ih, List.map_cons]
  rw [sortKeys, h]

theorem sortKeys_obj (members : Members) :
    sortKeys (.obj members) = .obj ((sortByKey members).map fun m => (m.1, sortKeys m.2)) := by
  have h : sortKeysMembers members = members.map fun m => (m.1, sortKeys m.2) := by
    induction members with
    | nil => rfl
    | cons m ms ih => rw [sortKeysMembers, ih, List.map_cons]
  rw [sortKeys, h, sortByKey_map]

theorem serializeItems_eq (items : List Value) :
    serializeItems items = items.map serializeJcs := by
  induction items with
  | nil => rfl
  | cons x xs ih => rw [serializeItems, ih, List.map_cons]

theorem serializeMembers_eq (members : Members) :
    serializeMembers members = members.map fun m => (m.1, serializeJcs m.2) := by
  induction members with
  | nil => rfl
  | cons m ms ih => rw [serializeMembers, ih, List.map_cons]

/-- The elements of a list matter to its text by their texts. -/
theorem serializeJcs_arr_congr {xs ys : List Value}
    (h : xs.map serializeJcs = ys.map serializeJcs) :
    serializeJcs (.arr xs) = serializeJcs (.arr ys) := by
  rw [serializeJcs, serializeJcs, serializeItems_eq, serializeItems_eq, h]

/-- The members of an object matter to its text by their keys and the texts of their values. -/
theorem serializeJcs_obj_congr {ms ns : Members} (h : serializeMembers ms = serializeMembers ns) :
    serializeJcs (.obj ms) = serializeJcs (.obj ns) := by
  rw [serializeJcs, serializeJcs, h]

theorem writeItems_eq (num : Num → List Char) (items : List Value) :
    writeItems num items = List.intercalate [','] (items.map (write num)) := by
  induction items with
  | nil => rfl
  | cons x xs ih =>
    cases xs with
    | nil => simp [writeItems, List.intercalate]
    | cons y ys =>
      rw [writeItems, ih]
      · simp [List.intercalate]
      · simp

theorem writeMembers_eq (num : Num → List Char) (members : Members) :
    writeMembers num members = List.intercalate [',']
      (members.map fun m => writeString m.1 ++ ':' :: write num m.2) := by
  induction members with
  | nil => rfl
  | cons m ms ih =>
    cases ms with
    | nil => simp [writeMembers, List.intercalate]
    | cons n ns =>
      rw [writeMembers, ih]
      · simp [List.intercalate]
      · simp

/-- The canonical text is the plain written form of the sorted value. -/
theorem serializeJcs_eq_write (v : Value) : serializeJcs v = write numText (sortKeys v) := by
  induction v using induct with
  | null => rfl
  | bool b => cases b <;> rfl
  | num n => rfl
  | str s => rfl
  | arr items ih =>
    have h : items.map serializeJcs = (items.map sortKeys).map (write numText) := by
      rw [List.map_map]
      exact List.map_congr_left ih
    rw [serializeJcs, serializeItems_eq, sortKeys_arr, write, writeItems_eq, h]
  | obj members ih =>
    have h : (sortByKey members).map (fun m => writeString m.1 ++ ':' :: serializeJcs m.2) =
        ((sortByKey members).map fun m => (m.1, sortKeys m.2)).map
          fun m => writeString m.1 ++ ':' :: write numText m.2 := by
      rw [List.map_map]
      refine List.map_congr_left fun m hm => ?_
      rw [ih m ((sortByKey_perm members).mem_iff.mp hm)]
      rfl
    rw [serializeJcs, serializeMembers_eq, sortByKey_map, sortKeys_obj, write, writeMembers_eq, ← h,
      List.map_map]
    rfl

/-! ## Reading a canonical text -/

/-- The number token that a number is printed as. -/
def numTok : Num → NumTok
  | .int i => intTok i
  | .float (.finite d) => floatTok d
  | .float _ => intTok 0

/-- A number that canonical JSON has: an integer of the safe range or a finite float. -/
def SafeNum : Num → Prop
  | .int i => i.natAbs ≤ maxJavascriptSafeInteger
  | .float (.finite _) => True
  | .float _ => False

theorem numText_eq {n : Num} (hn : SafeNum n) : numText n = (numTok n).text := by
  match n with
  | .int i => exact strInt_eq i
  | .float (.finite d) => exact serializeJcsFloat_eq d
  | .float (.inf _) => exact hn.elim
  | .float .nan => exact hn.elim

theorem numTok_wellFormed (n : Num) : (numTok n).WellFormed := by
  match n with
  | .int i => exact intTok_wellFormed i
  | .float (.finite d) => exact floatTok_wellFormed d
  | .float (.inf _) => exact intTok_wellFormed 0
  | .float .nan => exact intTok_wellFormed 0

theorem assertJsonValue_arr {items : List Value} :
    assertJsonValue (.arr items) = .ok () ↔ ∀ x ∈ items, assertJsonValue x = .ok () := by
  show assertJsonItems items = .ok () ↔ _
  induction items with
  | nil => simp [assertJsonItems]
  | cons x xs ih =>
    rw [assertJsonItems, Except.bind_ok, List.forall_mem_cons, ← ih]
    exact ⟨fun ⟨_, hx, hxs⟩ => ⟨hx, hxs⟩, fun ⟨hx, hxs⟩ => ⟨(), hx, hxs⟩⟩

/-- A key that the check accepts. -/
def KeyOk (k : String) : Prop := '\x00' ∉ k.toList ∧ k ≠ ""

theorem assertJsonValue_obj {members : Members} :
    assertJsonValue (.obj members) = .ok () ↔
      ∀ m ∈ members, KeyOk m.1 ∧ assertJsonValue m.2 = .ok () := by
  show assertJsonMembers members = .ok () ↔ _
  induction members with
  | nil => simp [assertJsonMembers]
  | cons m ms ih =>
    obtain ⟨k, x⟩ := m
    rw [List.forall_mem_cons, ← ih]
    simp only [assertJsonMembers, Except.bind_ok, assertUnicodeScalarString, require_ok, KeyOk]
    exact ⟨fun ⟨_, h0, _, hk, _, hx, hms⟩ => ⟨⟨⟨h0, hk⟩, hx⟩, hms⟩,
      fun ⟨⟨⟨h0, hk⟩, hx⟩, hms⟩ => ⟨(), h0, (), hk, (), hx, hms⟩⟩

/-- The numbers of a checked value are safe. -/
theorem all_safeNum {v : Value} (h : assertJsonValue v = .ok ()) : v.All SafeNum := by
  induction v using induct with
  | null => trivial
  | bool b => trivial
  | num n =>
    match n with
    | .int i =>
      show i.natAbs ≤ maxJavascriptSafeInteger
      rw [assertJsonValue, require_ok] at h
      exact h
    | .float (.finite d) => trivial
    | .float (.inf _) => exact absurd h (by simp [assertJsonValue])
    | .float .nan => exact absurd h (by simp [assertJsonValue])
  | str s => trivial
  | arr items ih =>
    rw [assertJsonValue_arr] at h
    exact (all_arr _ _).mpr fun x hx => ih x hx (h x hx)
  | obj members ih =>
    rw [assertJsonValue_obj] at h
    exact (all_obj _ _).mpr fun m hm => ih m hm (h m hm).2

theorem all_sortKeys {p : Num → Prop} {v : Value} (h : v.All p) : (sortKeys v).All p := by
  induction v using induct with
  | null => trivial
  | bool b => trivial
  | num n => exact h
  | str s => trivial
  | arr items ih =>
    rw [all_arr] at h
    rw [sortKeys_arr, all_arr]
    intro x hx
    obtain ⟨y, hy, rfl⟩ := List.mem_map.mp hx
    exact ih y hy (h y hy)
  | obj members ih =>
    rw [all_obj] at h
    rw [sortKeys_obj, all_obj]
    intro m hm
    obtain ⟨n, hn, rfl⟩ := List.mem_map.mp hm
    have hn' := (sortByKey_perm members).mem_iff.mp hn
    exact ih n hn' (h n hn')

/-- Sorting keeps the keys of every object. -/
theorem wellKeyed_sortKeys {v : Value} (h : v.wellKeyed = true) :
    (sortKeys v).wellKeyed = true := by
  induction v using induct with
  | null => rfl
  | bool b => rfl
  | num n => rfl
  | str s => rfl
  | arr items ih =>
    rw [wellKeyed_arr] at h
    rw [sortKeys_arr, wellKeyed_arr, List.forall_mem_map]
    exact fun x hx => ih x hx (h x hx)
  | obj members ih =>
    rw [wellKeyed_obj] at h
    rw [sortKeys_obj, wellKeyed_obj, List.map_map, List.forall_mem_map]
    have hperm := sortByKey_perm members
    exact ⟨(hperm.map Prod.fst).nodup_iff.mpr h.1, fun m hm =>
      ih m (hperm.mem_iff.mp hm) (h.2 m (hperm.mem_iff.mp hm))⟩

/-- The reader's view of a canonical text: the sorted value with a token for every number. -/
theorem loads_serializeJcs {v : Value} (h : v.All SafeNum) :
    loads (serializeJcs v) = some ((sortKeys v).map fun n => .number (numTok n)) := by
  have hreads : (sortKeys v).All (Reads numText fun n => .number (numTok n)) := by
    refine All.mono (all_sortKeys h) fun n hn => ?_
    exact reads_of_text (numTok_wellFormed n) (numText_eq hn)
  rw [serializeJcs_eq_write, loads_write _ hreads]

end Memplex
