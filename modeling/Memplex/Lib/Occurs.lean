import Mathlib.Data.List.Basic
import Mathlib.Data.List.Infix

/-!
# Words in joined texts

A word stands in a text where the text is something before it, the word, and something after it, and
what borders on it does: `before` speaks of the character before the word and `after` of the one
after it, where there are such. A word without the separator that stands in texts joined by it
stands in one of them (`Occurs.of_joined`), as long as a separator borders like an end of the text
does.
-/

namespace Memplex.Lib

variable {α : Type*}

/-- A word stands in a text between what borders on it. -/
def Occurs (before after : Option α → Prop) (word text : List α) : Prop :=
  ∃ pre post, text = pre ++ word ++ post ∧ before pre.getLast? ∧ after post.head?

/-- The texts one after the other, with a separator between them. -/
def joined (sep : α) : List (List α) → List α
  | [] => []
  | [text] => text
  | text :: texts => text ++ sep :: joined sep texts

theorem joined_cons_cons (sep : α) (text text' : List α) (texts : List (List α)) :
    joined sep (text :: text' :: texts) = text ++ sep :: joined sep (text' :: texts) := rfl

variable {before after : Option α → Prop} {sep : α} {word : List α}

/-- A word without the separator lies on one side of it. -/
theorem Occurs.of_append {left right : List α} (hsep : sep ∉ word)
    (hbefore : before (some sep) → before none) (hafter : after (some sep) → after none)
    (h : Occurs before after word (left ++ sep :: right)) :
    Occurs before after word left ∨ Occurs before after word right := by
  obtain ⟨pre, post, heq, hpre, hpost⟩ := h
  rw [List.append_assoc] at heq
  rcases List.append_eq_append_iff.mp heq with ⟨mid, rfl, hmid⟩ | ⟨mid, rfl, hmid⟩
  · cases mid with
    | nil =>
      -- The word would begin with the separator, if it is not empty.
      cases word with
      | nil =>
        refine .inl ⟨left, [], by simp, ?_, ?_⟩
        · simpa using hpre
        · rw [List.nil_append, List.nil_append] at hmid
          rw [← hmid] at hpost
          exact hafter hpost
      | cons c word =>
        have hc : c = sep := by simpa using (List.cons.inj hmid).1.symm
        exact absurd (hc ▸ List.mem_cons_self) hsep
    | cons c mid =>
      obtain ⟨rfl, hright⟩ := List.cons.inj hmid
      refine .inr ⟨mid, post, by simpa using hright, ?_, hpost⟩
      cases hlast : mid.getLast? with
      | none =>
        refine hbefore ?_
        rw [List.getLast?_eq_none_iff.mp hlast] at hpre
        simpa using hpre
      | some d =>
        have hpre' := hpre
        rw [List.getLast?_append, List.getLast?_cons, hlast] at hpre'
        simpa using hpre'
  · rcases List.append_eq_append_iff.mp hmid with ⟨rest, rfl, hrest⟩ | ⟨rest, rfl, hrest⟩
    · -- The word ends before the separator.
      refine .inl ⟨pre, rest, by simp, hpre, ?_⟩
      cases rest with
      | nil =>
        rw [hrest] at hpost
        exact hafter hpost
      | cons d rest =>
        rw [hrest] at hpost
        exact hpost
    · cases rest with
      | nil =>
        refine .inl ⟨pre, [], by simp, hpre, hafter ?_⟩
        rw [List.nil_append] at hrest
        rw [← hrest] at hpost
        exact hpost
      | cons d rest =>
        have hd : sep = d := (List.cons.inj hrest).1
        exact absurd (List.mem_append_right mid (hd ▸ List.mem_cons_self)) hsep

/-- A word without the separator that stands in joined texts stands in one of them. -/
theorem Occurs.of_joined {texts : List (List α)} (hword : word ≠ []) (hsep : sep ∉ word)
    (hbefore : before (some sep) → before none) (hafter : after (some sep) → after none)
    (h : Occurs before after word (joined sep texts)) :
    ∃ text ∈ texts, Occurs before after word text := by
  induction texts with
  | nil =>
    obtain ⟨pre, post, heq, -⟩ := h
    have hnil : pre ++ word ++ post = [] := heq.symm
    exact absurd (List.append_eq_nil_iff.mp (List.append_eq_nil_iff.mp hnil).1).2 hword
  | cons t texts ih =>
    cases texts with
    | nil => exact ⟨t, List.mem_singleton.mpr rfl, h⟩
    | cons t' texts =>
      rw [joined_cons_cons] at h
      rcases h.of_append hsep hbefore hafter with h | h
      · exact ⟨t, List.mem_cons_self, h⟩
      · obtain ⟨text, hmem, htext⟩ := ih h
        exact ⟨text, List.mem_cons_of_mem _ hmem, htext⟩

end Memplex.Lib
