import Mathlib.Data.List.Basic
import Mathlib.Data.List.Infix

/-!
# Marks in a text

A mark is a text that stands inside other texts. `occurrences` counts the places where it stands,
overlapping ones too, and `splitMarks` cuts a text at a mark from the left, as `str.split` does. A
character that the mark does not have separates its occurrences, and a mark whose first character
does not come again in it cannot begin inside itself, so that a cut gives back what was joined.
-/

namespace Memplex.Lib

variable {α : Type*} [DecidableEq α]

/-- The number of places of a text at which `mark` stands. -/
def occurrences (mark : List α) : List α → ℕ
  | [] => 0
  | x :: xs => (if mark <+: x :: xs then 1 else 0) + occurrences mark xs

/-- Puts `x` before the first part. -/
def consHead (x : α) : List (List α) → List (List α)
  | [] => [[x]]
  | part :: parts => (x :: part) :: parts

/-- The parts of a text between its marks, from the place where `skip` more characters belong to
the last mark. -/
def splitFrom (mark : List α) : ℕ → List α → List (List α)
  | _, [] => [[]]
  | skip + 1, _ :: xs => splitFrom mark skip xs
  | 0, x :: xs =>
    if mark <+: x :: xs then [] :: splitFrom mark (mark.length - 1) xs
    else consHead x (splitFrom mark 0 xs)

/-- `text.split(mark)`. -/
def splitMarks (mark text : List α) : List (List α) := splitFrom mark 0 text

section Occurrences

variable {mark : List α}

@[simp] theorem occurrences_nil : occurrences mark [] = 0 := rfl

theorem occurrences_cons (x : α) (xs : List α) :
    occurrences mark (x :: xs) = (if mark <+: x :: xs then 1 else 0) + occurrences mark xs := rfl

omit [DecidableEq α] in
/-- A mark reaches past a character only when it has that character. -/
theorem prefix_append_cons {c : α} (hc : c ∉ mark) {xs ys : List α} :
    mark <+: xs ++ c :: ys ↔ mark <+: xs := by
  constructor
  · rintro ⟨rest, h⟩
    rcases List.append_eq_append_iff.mp h with ⟨between, rfl, -⟩ | ⟨between, rfl, hbetween⟩
    · exact List.prefix_append _ _
    · cases between with
      | nil => simp
      | cons d between =>
        obtain ⟨rfl, -⟩ := List.cons.inj hbetween
        exact absurd (List.mem_append_right _ List.mem_cons_self) hc
  · exact fun h => h.trans (List.prefix_append _ _)

/-- A character that the mark does not have separates its occurrences. -/
theorem occurrences_append_cons {c : α} (hc : c ∉ mark) (hne : mark ≠ []) (xs ys : List α) :
    occurrences mark (xs ++ c :: ys) = occurrences mark xs + occurrences mark ys := by
  induction xs with
  | nil =>
    have hnot : ¬ mark <+: c :: ys := fun h =>
      hne (List.prefix_nil.mp ((prefix_append_cons hc).mp (show mark <+: [] ++ c :: ys from h)))
    rw [List.nil_append, occurrences_cons, if_neg hnot, occurrences_nil]
  | cons x xs ih =>
    have hiff : mark <+: x :: xs ++ c :: ys ↔ mark <+: x :: xs := prefix_append_cons hc
    rw [List.cons_append] at hiff
    rw [List.cons_append, occurrences_cons, occurrences_cons, ih]
    simp only [hiff]
    omega

/-- A mark cannot stand where its first character does not. -/
theorem occurrences_eq_zero_of_notMem {a : α} {rest xs : List α} (ha : a ∉ xs) :
    occurrences (a :: rest) xs = 0 := by
  induction xs with
  | nil => rfl
  | cons x xs ih =>
    rw [List.mem_cons, not_or] at ha
    have hnot : ¬ a :: rest <+: x :: xs := fun h => ha.1 (List.cons_prefix_cons.mp h).1
    rw [occurrences_cons, if_neg hnot, ih ha.2]

/-- What a mark cannot begin in adds no occurrence. -/
theorem occurrences_append_of_notMem {a : α} {rest xs : List α} (ha : a ∉ xs) (ys : List α) :
    occurrences (a :: rest) (xs ++ ys) = occurrences (a :: rest) ys := by
  induction xs with
  | nil => rfl
  | cons x xs ih =>
    rw [List.mem_cons, not_or] at ha
    have hnot : ¬ a :: rest <+: x :: (xs ++ ys) := fun h => ha.1 (List.cons_prefix_cons.mp h).1
    rw [List.cons_append, occurrences_cons, if_neg hnot, ih ha.2, Nat.zero_add]

omit [DecidableEq α] in
/-- A mark whose first character does not come again ends before that character. -/
theorem prefix_cons_append_first {a : α} {rest : List α} (ha : a ∉ rest) {x : α} {xs ys : List α} :
    a :: rest <+: x :: xs ++ a :: ys ↔ a :: rest <+: x :: xs := by
  rw [List.cons_append, List.cons_prefix_cons, List.cons_prefix_cons, prefix_append_cons ha]

/-- The first character of a mark separates its occurrences, where it does not come again. -/
theorem occurrences_append_first {a : α} {rest : List α} (ha : a ∉ rest) (xs ys : List α) :
    occurrences (a :: rest) (xs ++ a :: ys) =
      occurrences (a :: rest) xs + occurrences (a :: rest) (a :: ys) := by
  induction xs with
  | nil => rw [List.nil_append, occurrences_nil, Nat.zero_add]
  | cons x xs ih =>
    have hiff : a :: rest <+: x :: xs ++ a :: ys ↔ a :: rest <+: x :: xs :=
      prefix_cons_append_first ha
    rw [List.cons_append] at hiff
    rw [List.cons_append, occurrences_cons, occurrences_cons, ih]
    simp only [hiff]
    omega

/-- Inside a longer text a mark stands at least as often. -/
theorem occurrences_le_append_left (xs ys : List α) :
    occurrences mark ys ≤ occurrences mark (xs ++ ys) := by
  induction xs with
  | nil => exact Nat.le_refl _
  | cons x xs ih =>
    rw [List.cons_append, occurrences_cons]
    omega

theorem occurrences_le_append_right (xs ys : List α) :
    occurrences mark xs ≤ occurrences mark (xs ++ ys) := by
  induction xs with
  | nil => exact Nat.zero_le _
  | cons x xs ih =>
    rw [List.cons_append, occurrences_cons, occurrences_cons]
    have hmono : mark <+: x :: xs → mark <+: x :: (xs ++ ys) := fun h =>
      h.trans (List.prefix_append (x :: xs) ys)
    split_ifs with hshort hlong
    · omega
    · exact absurd (hmono hshort) hlong
    · omega
    · omega

/-- A part of a text has no mark that the text does not have. -/
theorem occurrences_of_infix {xs ys : List α} (h : xs <:+: ys) :
    occurrences mark xs ≤ occurrences mark ys := by
  obtain ⟨front, back, rfl⟩ := h
  calc occurrences mark xs
      ≤ occurrences mark (front ++ xs) := occurrences_le_append_left front xs
    _ ≤ occurrences mark (front ++ xs ++ back) := occurrences_le_append_right _ back

/-- A mark stands somewhere in a text exactly when it is a part of it. -/
theorem occurrences_eq_zero_iff (hne : mark ≠ []) {xs : List α} :
    occurrences mark xs = 0 ↔ ∀ rest ∈ xs.tails, ¬ mark <+: rest := by
  induction xs with
  | nil =>
    simp [List.tails, hne]
  | cons x xs ih =>
    rw [occurrences_cons, List.tails_cons, List.forall_mem_cons, ← ih]
    split_ifs with h
    · simp [h]
    · simp [h]

end Occurrences

section Split

/-- The characters that belong to a mark are skipped. -/
theorem splitFrom_skip (mark skipped xs : List α) :
    splitFrom mark skipped.length (skipped ++ xs) = splitFrom mark 0 xs := by
  induction skipped with
  | nil => rfl
  | cons x skipped ih => exact ih

/-- A text without the mark is one part. -/
theorem splitMarks_of_none {mark xs : List α} (h : occurrences mark xs = 0) :
    splitMarks mark xs = [xs] := by
  unfold splitMarks
  induction xs with
  | nil => rfl
  | cons x xs ih =>
    rw [occurrences_cons] at h
    have hnot : ¬ mark <+: x :: xs := fun hp => by rw [if_pos hp] at h; omega
    rw [splitFrom, if_neg hnot, ih (by omega)]
    rfl

/-- A part without the mark ends where the mark stands: no occurrence can begin before the mark and
end inside it, as its first character does not come again. -/
theorem splitMarks_append {a : α} {rest : List α} (ha : a ∉ rest) {xs : List α}
    (h : occurrences (a :: rest) xs = 0) (ys : List α) :
    splitMarks (a :: rest) (xs ++ (a :: rest) ++ ys) = xs :: splitMarks (a :: rest) ys := by
  unfold splitMarks
  induction xs with
  | nil =>
    have hstands : a :: rest <+: a :: (rest ++ ys) := List.prefix_append (a :: rest) ys
    rw [List.nil_append, List.cons_append, splitFrom, if_pos hstands]
    exact congrArg ([] :: ·) (splitFrom_skip _ rest ys)
  | cons x xs ih =>
    rw [occurrences_cons] at h
    have hnot : ¬ a :: rest <+: x :: xs := fun hp => by rw [if_pos hp] at h; omega
    have hnot' : ¬ a :: rest <+: x :: (xs ++ (a :: rest) ++ ys) := by
      rintro ⟨tail, htail⟩
      obtain ⟨rfl, htail⟩ := List.cons.inj htail
      -- The rest of the mark has no `a`, so that it ends before the next mark.
      have hprefix : rest <+: xs ++ a :: (rest ++ ys) := ⟨tail, by simpa using htail⟩
      have hshort := (prefix_append_cons ha).mp hprefix
      exact hnot (List.cons_prefix_cons.mpr ⟨rfl, hshort⟩)
    rw [List.cons_append, List.cons_append, splitFrom, if_neg hnot', ih (by omega)]
    rfl

end Split

end Memplex.Lib
