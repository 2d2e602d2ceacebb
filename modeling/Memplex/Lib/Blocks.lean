import Memplex.Lib.Marks

/-!
# Blocks between tags

`strip` removes from a text what `re.sub("opening.*?closing", "", text)` removes: from the left,
each opening tag that some closing tag follows, up to the first one that does. The elements of a
text carry a key, by which the tags are recognised, so that a text may carry the places of its
characters along.

A block that is removed has one closing tag, at its end, whatever opening tags it has. The removal
is given by three equations: nothing is left of nothing, a block at the beginning goes, and what no
block begins at stays.
-/

namespace Memplex.Lib

variable {α κ : Type*} [DecidableEq κ]

/-- An opening and a closing tag that begin alike, with an element that does not come again in
them, and then differ. -/
structure TagPair (κ : Type*) where
  /-- The first element of both. -/
  first : κ
  /-- The rest of the opening tag. -/
  opening : List κ
  /-- The rest of the closing tag. -/
  closing : List κ
  first_notMem_opening : first ∉ opening
  first_notMem_closing : first ∉ closing
  /-- No text continues with both. -/
  apart : ∀ xs, opening <+: xs → ¬ closing <+: xs

namespace TagPair

variable (T : TagPair κ) (key : α → κ)

/-- The opening tag. -/
def openMark : List κ := T.first :: T.opening

/-- The closing tag. -/
def closeMark : List κ := T.first :: T.closing

/-- The number of opening tags. -/
def opens (xs : List α) : ℕ := occurrences T.openMark (xs.map key)

/-- The number of closing tags. -/
def closes (xs : List α) : ℕ := occurrences T.closeMark (xs.map key)

/-- An opening tag. -/
def IsOpen (a : List α) : Prop := a.map key = T.openMark

/-- A closing tag. -/
def IsClose (e : List α) : Prop := e.map key = T.closeMark

instance (a : List α) : Decidable (T.IsOpen key a) :=
  inferInstanceAs (Decidable (a.map key = T.openMark))

instance (e : List α) : Decidable (T.IsClose key e) :=
  inferInstanceAs (Decidable (e.map key = T.closeMark))

/-- A block that ends at its first closing tag. -/
def Flat (b : List α) : Prop :=
  ∃ a m e, b = a ++ m ++ e ∧ T.IsOpen key a ∧ T.closes key m = 0 ∧ T.IsClose key e

/-- A text that begins with a block. -/
def Starts (xs : List α) : Prop := ∃ b ys, xs = b ++ ys ∧ T.Flat key b

/-! ## The removal -/

/-- The first place of a mark. -/
def firstPlace (mark : List κ) : List κ → Option ℕ
  | [] => none
  | x :: xs => if mark <+: x :: xs then some 0 else (firstPlace mark xs).map (· + 1)

/-- The length of the block that a text begins with. -/
def blockLength (xs : List α) : Option ℕ :=
  if T.openMark <+: xs.map key then
    (firstPlace T.closeMark ((xs.map key).drop T.openMark.length)).map fun n =>
      T.openMark.length + n + T.closeMark.length
  else none

/-- The removal of the blocks, from a place where `skip` more elements belong to the last one. -/
def stripFrom : ℕ → List α → List α
  | _, [] => []
  | skip + 1, _ :: xs => stripFrom skip xs
  | 0, x :: xs =>
    match T.blockLength key (x :: xs) with
    | some n => stripFrom (n - 1) xs
    | none => x :: stripFrom 0 xs

/-- `re.sub("opening.*?closing", "", text)`. -/
def strip (xs : List α) : List α := T.stripFrom key 0 xs

section FirstPlace

variable {mark : List κ}

/-- Where a mark stands first, what comes before has none. -/
theorem firstPlace_some {xs : List κ} {n : ℕ} (h : firstPlace mark xs = some n) :
    ∃ m y, xs = m ++ mark ++ y ∧ m.length = n ∧ occurrences mark m = 0 := by
  induction xs generalizing n with
  | nil => cases h
  | cons x xs ih =>
    unfold firstPlace at h
    split_ifs at h with hstands
    · cases h
      obtain ⟨y, hy⟩ := hstands
      exact ⟨[], y, hy.symm, rfl, rfl⟩
    · obtain ⟨k, hk, rfl⟩ := Option.map_eq_some_iff.mp h
      obtain ⟨m, y, rfl, hlen, hnone⟩ := ih hk
      have hnot : ¬ mark <+: x :: m := fun hp =>
        hstands (hp.trans ⟨mark ++ y, by simp⟩)
      refine ⟨x :: m, y, rfl, by rw [List.length_cons, hlen], ?_⟩
      rw [occurrences_cons, if_neg hnot, hnone]

/-- A mark that has no first place stands nowhere. -/
theorem firstPlace_none {xs : List κ} (h : firstPlace mark xs = none) :
    occurrences mark xs = 0 := by
  induction xs with
  | nil => rfl
  | cons x xs ih =>
    unfold firstPlace at h
    split_ifs at h with hstands
    rw [occurrences_cons, if_neg hstands, ih (Option.map_eq_none_iff.mp h)]

end FirstPlace

variable {T key}

section Tags

variable {a e : List α}

omit [DecidableEq κ] in
/-- A tag is its first element and a rest without it. -/
theorem IsOpen.cons (h : T.IsOpen key a) :
    ∃ x rest, a = x :: rest ∧ key x = T.first ∧ rest.map key = T.opening :=
  List.map_eq_cons_iff.mp h

omit [DecidableEq κ] in
theorem IsClose.cons (h : T.IsClose key e) :
    ∃ x rest, e = x :: rest ∧ key x = T.first ∧ rest.map key = T.closing :=
  List.map_eq_cons_iff.mp h

theorem opens_append_first {x : α} (hx : key x = T.first) (xs ys : List α) :
    T.opens key (xs ++ x :: ys) = T.opens key xs + T.opens key (x :: ys) := by
  unfold opens openMark
  rw [List.map_append, List.map_cons, hx]
  exact occurrences_append_first T.first_notMem_opening _ _

theorem closes_append_first {x : α} (hx : key x = T.first) (xs ys : List α) :
    T.closes key (xs ++ x :: ys) = T.closes key xs + T.closes key (x :: ys) := by
  unfold closes closeMark
  rw [List.map_append, List.map_cons, hx]
  exact occurrences_append_first T.first_notMem_closing _ _

/-- Before an opening tag the closing tags can be counted apart. -/
theorem closes_append_open (ha : T.IsOpen key a) (xs ys : List α) :
    T.closes key (xs ++ (a ++ ys)) = T.closes key xs + T.closes key ys := by
  obtain ⟨x, rest, rfl, hx, hrest⟩ := ha.cons
  have hnot : ¬ T.first :: T.closing <+: T.first :: (rest.map key ++ ys.map key) := fun h => by
    have hclosing := (List.cons_prefix_cons.mp h).2
    rw [hrest] at hclosing
    exact T.apart _ (List.prefix_append _ _) hclosing
  rw [List.cons_append, closes_append_first hx]
  congr 1
  unfold closes closeMark
  rw [List.map_cons, List.map_append, hx, occurrences_cons, if_neg hnot, Nat.zero_add,
    occurrences_append_of_notMem (hrest ▸ T.first_notMem_opening)]

/-- A closing tag adds one to the closing tags before and after it. -/
theorem closes_append_close (he : T.IsClose key e) (xs ys : List α) :
    T.closes key (xs ++ (e ++ ys)) = T.closes key xs + 1 + T.closes key ys := by
  obtain ⟨x, rest, rfl, hx, hrest⟩ := he.cons
  have hstands : T.first :: T.closing <+: T.first :: (rest.map key ++ ys.map key) := by
    rw [hrest]
    exact List.prefix_append (T.first :: T.closing) _
  rw [List.cons_append, closes_append_first hx, Nat.add_assoc]
  congr 1
  unfold closes closeMark
  rw [List.map_cons, List.map_append, hx, occurrences_cons, if_pos hstands,
    occurrences_append_of_notMem (hrest ▸ T.first_notMem_closing)]

/-- An opening tag adds one to the opening tags before and after it. -/
theorem opens_append_open (ha : T.IsOpen key a) (xs ys : List α) :
    T.opens key (xs ++ (a ++ ys)) = T.opens key xs + 1 + T.opens key ys := by
  obtain ⟨x, rest, rfl, hx, hrest⟩ := ha.cons
  have hstands : T.first :: T.opening <+: T.first :: (rest.map key ++ ys.map key) := by
    rw [hrest]
    exact List.prefix_append (T.first :: T.opening) _
  rw [List.cons_append, opens_append_first hx, Nat.add_assoc]
  congr 1
  unfold opens openMark
  rw [List.map_cons, List.map_append, hx, occurrences_cons, if_pos hstands,
    occurrences_append_of_notMem (hrest ▸ T.first_notMem_opening)]

/-- A text with a closing tag is cut at its first one in one way. -/
theorem first_close_unique {m m' e e' y y' : List α} (he : T.IsClose key e)
    (he' : T.IsClose key e') (hm : T.closes key m = 0) (hm' : T.closes key m' = 0)
    (h : m ++ (e ++ y) = m' ++ (e' ++ y')) : m = m' ∧ e = e' ∧ y = y' := by
  -- Where one part is longer, the closing tag after the other one stands in it.
  have hshort : ∀ {m m' e e' y y' : List α}, T.IsClose key e → T.IsClose key e' →
      T.closes key m' = 0 → m ++ (e ++ y) = m' ++ (e' ++ y') → m'.length ≤ m.length := by
    intro m m' e e' y y' he he' hm' h
    by_contra hlt
    have hlt := Nat.lt_of_not_le hlt
    have hm : m <+: m' ++ (e' ++ y') := ⟨e ++ y, h⟩
    have hm' : m' <+: m' ++ (e' ++ y') := ⟨e' ++ y', rfl⟩
    obtain ⟨t, ht⟩ := List.prefix_of_prefix_length_le hm hm' (Nat.le_of_lt hlt)
    subst ht
    have hrest : e ++ y = t ++ (e' ++ y') := by
      rw [List.append_assoc] at h
      exact List.append_cancel_left h
    have htne : t ≠ [] := fun hnil => by
      rw [hnil, List.append_nil] at hlt
      exact absurd hlt (Nat.lt_irrefl _)
    obtain ⟨x, ts, rfl⟩ := List.exists_cons_of_ne_nil htne
    have hone : T.closes key (e ++ y) ≥ 1 := by
      have := closes_append_close he [] y
      rw [List.nil_append] at this
      omega
    obtain ⟨z, rest, rfl, hz, hzrest⟩ := he'.cons
    -- The tag at the beginning ends before the first element of the next one.
    have hprefix : T.first :: T.closing <+: key x :: ts.map key := by
      have hp : T.closeMark <+: (e ++ y).map key := by
        rw [List.map_append, he]
        exact List.prefix_append _ _
      rw [hrest, List.map_append, List.cons_append, List.map_cons, List.map_cons, hz] at hp
      exact (prefix_cons_append_first T.first_notMem_closing).mp hp
    have hcount : T.closes key (x :: ts) ≥ 1 := by
      unfold closes closeMark
      rw [List.map_cons, occurrences_cons, if_pos hprefix]
      omega
    have hle : T.closes key (x :: ts) ≤ T.closes key (m ++ x :: ts) := by
      unfold closes
      rw [List.map_append]
      exact occurrences_le_append_left _ _
    omega
  have hlen : m.length = m'.length :=
    Nat.le_antisymm (hshort he' he hm h.symm) (hshort he he' hm' h)
  obtain ⟨rfl, hrest⟩ := List.append_inj h hlen
  have helen : e.length = e'.length := by
    have h1 := congrArg List.length he
    have h2 := congrArg List.length he'
    rw [List.length_map] at h1 h2
    omega
  obtain ⟨rfl, rfl⟩ := List.append_inj hrest helen
  exact ⟨rfl, rfl, rfl⟩

/-- A text begins with one block at most. -/
theorem Flat.unique {b b' y y' : List α} (hb : T.Flat key b) (hb' : T.Flat key b')
    (h : b ++ y = b' ++ y') : b = b' ∧ y = y' := by
  obtain ⟨a, m, e, rfl, ha, hm, he⟩ := hb
  obtain ⟨a', m', e', rfl, ha', hm', he'⟩ := hb'
  have halen : a.length = a'.length := by
    have h1 := congrArg List.length ha
    have h2 := congrArg List.length ha'
    rw [List.length_map] at h1 h2
    omega
  simp only [List.append_assoc] at h
  obtain ⟨rfl, hrest⟩ := List.append_inj h halen
  obtain ⟨rfl, rfl, rfl⟩ := first_close_unique he he' hm hm' hrest
  exact ⟨rfl, rfl⟩

end Tags

/-! ## What the removal does -/

/-- A block's length is found at its beginning. -/
theorem blockLength_some {xs : List α} {n : ℕ} (h : T.blockLength key xs = some n) :
    ∃ b ys, xs = b ++ ys ∧ b.length = n ∧ T.Flat key b := by
  unfold blockLength at h
  split_ifs at h with hopen
  obtain ⟨k, hk, rfl⟩ := Option.map_eq_some_iff.mp h
  obtain ⟨m, y, hsplit, hlen, hnone⟩ := firstPlace_some hk
  obtain ⟨rest, hrest⟩ := hopen
  rw [← hrest, List.drop_left] at hsplit
  subst hsplit
  obtain ⟨a, t, rfl, ha, ht⟩ := List.map_eq_append_iff.mp hrest.symm
  obtain ⟨me, y', rfl, hme, -⟩ := List.map_eq_append_iff.mp ht
  obtain ⟨m', e, rfl, hm', he⟩ := List.map_eq_append_iff.mp hme
  refine ⟨a ++ m' ++ e, y', by simp, ?_, a, m', e, rfl, ha, ?_, he⟩
  · have h1 := congrArg List.length ha
    have h2 := congrArg List.length hm'
    have h3 := congrArg List.length he
    rw [List.length_map] at h1 h2 h3
    simp only [List.length_append]
    omega
  · unfold closes
    rw [hm', hnone]

/-- Where no length is found there is no block. -/
theorem blockLength_none {xs : List α} (h : T.blockLength key xs = none) : ¬ T.Starts key xs := by
  rintro ⟨b, ys, rfl, a, m, e, rfl, ha, -, he⟩
  unfold blockLength at h
  have hopen : T.openMark <+: (a ++ m ++ e ++ ys).map key := by
    simp only [List.append_assoc]
    rw [List.map_append, ha]
    exact List.prefix_append _ _
  rw [if_pos hopen] at h
  have hnone := firstPlace_none (Option.map_eq_none_iff.mp h)
  simp only [List.append_assoc] at hnone
  rw [List.map_append, ha, List.drop_left] at hnone
  have hone := closes_append_close he m ys
  unfold closes at hone
  omega

theorem stripFrom_skip (skipped xs : List α) :
    T.stripFrom key skipped.length (skipped ++ xs) = T.strip key xs := by
  induction skipped with
  | nil => rfl
  | cons x skipped ih => exact ih

@[simp] theorem strip_nil : T.strip key ([] : List α) = [] := rfl

/-- A block at the beginning goes. -/
theorem strip_flat {b : List α} (hb : T.Flat key b) (xs : List α) :
    T.strip key (b ++ xs) = T.strip key xs := by
  have hne : b ≠ [] := by
    obtain ⟨a, m, e, rfl, ha, -, -⟩ := hb
    obtain ⟨x, rest, rfl, -, -⟩ := ha.cons
    simp
  obtain ⟨x, rest, rfl⟩ := List.exists_cons_of_ne_nil hne
  cases hlen : T.blockLength key (x :: rest ++ xs) with
  | none => exact absurd ⟨_, _, rfl, hb⟩ (blockLength_none hlen)
  | some n =>
    obtain ⟨b', ys, hsplit, hn, hb'⟩ := blockLength_some hlen
    obtain ⟨rfl, -⟩ := hb.unique hb' hsplit
    rw [List.cons_append] at hlen
    rw [strip, List.cons_append, stripFrom, hlen]
    simp only
    rw [← hn, List.length_cons, Nat.add_sub_cancel]
    exact stripFrom_skip rest xs

/-- What no block begins at stays. -/
theorem strip_cons {x : α} {xs : List α} (h : ¬ T.Starts key (x :: xs)) :
    T.strip key (x :: xs) = x :: T.strip key xs := by
  cases hlen : T.blockLength key (x :: xs) with
  | none => rw [strip, stripFrom, hlen]; rfl
  | some n =>
    obtain ⟨b, ys, hsplit, -, hb⟩ := blockLength_some hlen
    exact absurd ⟨b, ys, hsplit, hb⟩ h

variable (T key) in
/-- Induction along the removal. -/
theorem strip_induction {P : List α → Prop} (nil : P [])
    (block : ∀ b xs, T.Flat key b → P xs → P (b ++ xs))
    (keep : ∀ x xs, ¬ T.Starts key (x :: xs) → P xs → P (x :: xs)) (xs : List α) : P xs := by
  induction hn : xs.length using Nat.strong_induction_on generalizing xs with
  | _ n ih =>
    by_cases hstarts : T.Starts key xs
    · obtain ⟨b, ys, rfl, hb⟩ := hstarts
      have hpos : 0 < b.length := by
        obtain ⟨a, m, e, rfl, ha, -, -⟩ := hb
        obtain ⟨x, rest, rfl, -, -⟩ := ha.cons
        simp
      exact block b ys hb (ih ys.length (by rw [← hn, List.length_append]; omega) ys rfl)
    · cases xs with
      | nil => exact nil
      | cons x xs =>
        exact keep x xs hstarts (ih xs.length (by rw [← hn, List.length_cons]; omega) xs rfl)

/-! ## Elements that carry more than their keys -/

section Map

variable {β : Type*} {g : β → α}

/-- A block of elements is one of what they carry. -/
theorem flat_map {b : List β} : T.Flat key (b.map g) ↔ T.Flat (key ∘ g) b := by
  constructor
  · rintro ⟨a, m, e, hsplit, ha, hm, he⟩
    obtain ⟨am, e', rfl, ham, rfl⟩ := List.map_eq_append_iff.mp hsplit
    obtain ⟨a', m', rfl, rfl, rfl⟩ := List.map_eq_append_iff.mp ham
    refine ⟨a', m', e', rfl, ?_, ?_, ?_⟩
    · rw [IsOpen, ← List.map_map]
      exact ha
    · unfold closes
      rw [← List.map_map]
      exact hm
    · rw [IsClose, ← List.map_map]
      exact he
  · rintro ⟨a, m, e, rfl, ha, hm, he⟩
    refine ⟨a.map g, m.map g, e.map g, by simp, ?_, ?_, ?_⟩
    · rw [IsOpen, List.map_map]
      exact ha
    · unfold closes
      rw [List.map_map]
      exact hm
    · rw [IsClose, List.map_map]
      exact he

end Map

end TagPair

end Memplex.Lib
