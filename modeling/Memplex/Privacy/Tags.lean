import Memplex.Lib.Splices
import Memplex.Py.Value

/-!
# Private tags

`strip_private_tags` removes what a pattern finds between `<private>` and the next `</private>`. The
pattern ignores case and does not nest. So it keeps what follows an inner block of a private block,
and its result may have a block that the text did not have. `stripPrivateTags_withheld_iff` says of
which texts nothing private is left: those without an opening tag that the test before the pattern
overlooks, without such a nested block, and without an opening tag in pieces around blocks that a
closing tag follows.
-/

namespace Memplex

open Lib

/-- `<private>` and `</private>`. -/
def privateTags : TagPair Char where
  first := '<'
  opening := "private>".toList
  closing := "/private>".toList
  first_notMem_opening := by decide
  first_notMem_closing := by decide
  apart := by
    have hopening : "private>".toList = 'p' :: "rivate>".toList := by decide
    have hclosing : "/private>".toList = '/' :: "private>".toList := by decide
    rintro xs ⟨rest, rfl⟩ hclose
    rw [hopening, hclosing, List.cons_append] at hclose
    exact absurd (List.cons_prefix_cons.mp hclose).1 (by decide)

/-- The character that the pattern, which ignores case, takes a character for. Of the characters
outside of ASCII it takes a capital I with a dot and a small one without for the letter. -/
def patternKey (c : Char) : Char :=
  if c.toNat = 0x130 ∨ c.toNat = 0x131 then 'i' else c.toLower

/-- `"<private>" in text.lower()`. Only the capitals of the tag's letters become letters of the tag:
a capital I with a dot becomes two characters, of which the second is none of the tag's. -/
def mentionsTag (text : List Char) : Bool := privateTags.opens Char.toLower text ≠ 0

/-- The characters of `strip_private_tags`, which may carry more with them. -/
def redact {α : Type} (char : α → Char) (text : List α) : List α :=
  if mentionsTag (text.map char) then privateTags.strip (patternKey ∘ char) text else text

/-- `strip_private_tags`. -/
def stripPrivateTags (text : String) : String := String.ofList (redact id text.toList)

/-- The places of the characters that `strip_private_tags` keeps. -/
def keptPlaces (text : String) : List ℕ := (redact Prod.fst text.toList.zipIdx).map Prod.snd

/-- A text with a private block in it, as the pattern reads it. -/
def HasPrivate (text : String) : Prop := privateTags.HasBlock patternKey text.toList

/-- A place of a text inside of a balanced private block. -/
def InsidePrivate (text : String) (i : ℕ) : Prop :=
  ∃ front a inner e back, text.toList = front ++ (a ++ (inner ++ (e ++ back))) ∧
    privateTags.IsOpen patternKey a ∧ privateTags.IsClose patternKey e ∧
    privateTags.Balanced patternKey inner ∧
    front.length + a.length ≤ i ∧ i < front.length + a.length + inner.length

/-- A text of which nothing private is left. -/
structure Withheld (text : String) : Prop where
  /-- The result has no private block. -/
  noBlock : ¬ HasPrivate (stripPrivateTags text)
  /-- No character that is kept was inside of a balanced private block. -/
  noInside : ∀ i ∈ keptPlaces text, ¬ InsidePrivate text i
  /-- Stripping the result changes nothing. -/
  fixed : stripPrivateTags (stripPrivateTags text) = stripPrivateTags text

/-- The texts that the pattern can deal with. -/
structure Orderly (text : String) : Prop where
  /-- A text with a block has an opening tag that its lower case shows. -/
  mentioned : HasPrivate text → mentionsTag text.toList = true
  /-- After the first closing tag inside of a balanced block there are only blocks. -/
  tidy : ∀ front a inner e back, text.toList = front ++ (a ++ (inner ++ (e ++ back))) →
    privateTags.IsOpen patternKey a → privateTags.IsClose patternKey e →
    privateTags.Balanced patternKey inner → privateTags.Tidy patternKey inner
  /-- No opening tag in pieces around blocks is followed, outside of blocks, by a closing tag. -/
  whole : ¬ privateTags.Spliced patternKey text.toList

/-! ## What is kept -/

section Kept

variable {text : String}

/-- Where a tag is mentioned, the pattern is at work. -/
theorem toList_stripPrivateTags (h : mentionsTag text.toList = true) :
    (stripPrivateTags text).toList = privateTags.strip patternKey text.toList := by
  unfold stripPrivateTags redact
  rw [String.toList_ofList, List.map_id, if_pos h]
  rfl

/-- Where no tag is mentioned, nothing is done. -/
theorem stripPrivateTags_of_not (h : ¬ mentionsTag text.toList = true) :
    stripPrivateTags text = text := by
  unfold stripPrivateTags redact
  rw [List.map_id, if_neg h, String.ofList_toList]

/-- The result has a block exactly where the pattern makes one. -/
theorem hasPrivate_strip_iff (h : mentionsTag text.toList = true) :
    HasPrivate (stripPrivateTags text) ↔ privateTags.Spliced patternKey text.toList := by
  unfold HasPrivate
  rw [toList_stripPrivateTags h]
  exact TagPair.hasBlock_strip_iff _

/-- A text without a block is not changed. -/
theorem stripPrivateTags_of_noBlock (h : ¬ HasPrivate text) : stripPrivateTags text = text := by
  by_cases hm : mentionsTag text.toList = true
  · refine String.toList_injective ?_
    rw [toList_stripPrivateTags hm, TagPair.strip_of_noBlock h]
  · exact stripPrivateTags_of_not hm

/-- A place inside of a private block is one inside of a block. -/
theorem InsidePrivate.hasPrivate {i : ℕ} (h : InsidePrivate text i) : HasPrivate text := by
  obtain ⟨front, a, inner, e, back, hsplit, ha, he, -⟩ := h
  exact ⟨front, a, inner, e, back, hsplit, ha, he⟩

/-- The places of a text around one of its blocks. -/
theorem zipIdx_split {front a inner e back : List Char}
    (hsplit : text.toList = front ++ (a ++ (inner ++ (e ++ back)))) :
    text.toList.zipIdx = front.zipIdx ++ (a.zipIdx front.length ++
      (inner.zipIdx (front.length + a.length) ++
        (e.zipIdx (front.length + a.length + inner.length) ++
          back.zipIdx (front.length + a.length + inner.length + e.length)))) := by
  rw [hsplit, List.zipIdx_append, List.zipIdx_append, List.zipIdx_append, List.zipIdx_append,
    Nat.zero_add]

/-- **No place inside of a private block is kept exactly where the blocks are tidy.** -/
theorem noInside_iff (hm : mentionsTag text.toList = true) :
    (∀ i ∈ keptPlaces text, ¬ InsidePrivate text i) ↔
      ∀ front a inner e back, text.toList = front ++ (a ++ (inner ++ (e ++ back))) →
        privateTags.IsOpen patternKey a → privateTags.IsClose patternKey e →
        privateTags.Balanced patternKey inner → privateTags.Tidy patternKey inner := by
  have hkept : keptPlaces text =
      (privateTags.strip (patternKey ∘ Prod.fst) text.toList.zipIdx).map Prod.snd := by
    unfold keptPlaces redact
    rw [List.zipIdx_map_fst, if_pos hm]
  have hopen : ∀ (xs : List Char) (k : ℕ), privateTags.IsOpen patternKey xs →
      privateTags.IsOpen (patternKey ∘ Prod.fst) (xs.zipIdx k) := fun xs k h =>
    (TagPair.isOpen_map _).mp ((List.zipIdx_map_fst k xs).symm ▸ h)
  have hclose : ∀ (xs : List Char) (k : ℕ), privateTags.IsClose patternKey xs →
      privateTags.IsClose (patternKey ∘ Prod.fst) (xs.zipIdx k) := fun xs k h =>
    (TagPair.isClose_map _).mp ((List.zipIdx_map_fst k xs).symm ▸ h)
  constructor
  · intro hinside front a inner e back hsplit ha he hbalanced
    by_contra htidy
    have hzip := zipIdx_split hsplit
    have hmap := List.zipIdx_map_fst (front.length + a.length) inner
    obtain ⟨x, hx, hleft⟩ := @TagPair.mem_strip_of_untidy _ _ _ _ _ front.zipIdx _ _ _
      (back.zipIdx (front.length + a.length + inner.length + e.length))
      (hopen a front.length ha) (hclose e (front.length + a.length + inner.length) he)
      (TagPair.Balanced.of_map (hmap.symm ▸ hbalanced))
      (fun h => htidy (hmap ▸ (TagPair.tidy_map _).mpr h))
    rw [← hzip] at hleft
    have hplace : x.2 ∈ keptPlaces text := hkept ▸ List.mem_map_of_mem hleft
    exact hinside x.2 hplace ⟨front, a, inner, e, back, hsplit, ha, he, hbalanced,
      List.le_snd_of_mem_zipIdx hx, by have := List.snd_lt_of_mem_zipIdx hx; omega⟩
  · rintro htidy i hi ⟨front, a, inner, e, back, hsplit, ha, he, hbalanced, hle, hlt⟩
    have hzip := zipIdx_split hsplit
    have hmap := List.zipIdx_map_fst (front.length + a.length) inner
    rw [hkept] at hi
    obtain ⟨x, hx, rfl⟩ := List.mem_map.mp hi
    have hnodup : text.toList.zipIdx.Nodup := by
      refine List.Nodup.of_map Prod.snd ?_
      rw [List.zipIdx_map_snd]
      exact List.nodup_range'
    -- The place is one of the inside, as the places before and after it are others.
    have hmem : x ∈ inner.zipIdx (front.length + a.length) := by
      have hxs := (TagPair.strip_sublist _).subset hx
      rw [hzip] at hxs
      rcases List.mem_append.mp hxs with h | hxs
      · have := List.snd_lt_of_mem_zipIdx h
        omega
      rcases List.mem_append.mp hxs with h | hxs
      · have := List.snd_lt_of_mem_zipIdx h
        omega
      rcases List.mem_append.mp hxs with h | hxs
      · exact h
      rcases List.mem_append.mp hxs with h | h
      · have := List.le_snd_of_mem_zipIdx h
        omega
      · have := List.le_snd_of_mem_zipIdx h
        omega
    rw [hzip] at hx hnodup
    exact TagPair.notMem_strip_of_tidy (hopen a _ ha) (hclose e _ he)
      ((TagPair.tidy_map _).mp (hmap.symm ▸ htidy front a inner e back hsplit ha he hbalanced))
      hnodup hmem hx

end Kept

/-- **Private content is withheld exactly from the orderly texts.** -/
theorem stripPrivateTags_withheld_iff (text : String) : Withheld text ↔ Orderly text := by
  by_cases hm : mentionsTag text.toList = true
  · constructor
    · rintro ⟨hblock, hinside, -⟩
      exact ⟨fun _ => hm, (noInside_iff hm).mp hinside,
        fun h => hblock ((hasPrivate_strip_iff hm).mpr h)⟩
    · rintro ⟨-, htidy, hwhole⟩
      have hblock : ¬ HasPrivate (stripPrivateTags text) := fun h =>
        hwhole ((hasPrivate_strip_iff hm).mp h)
      exact ⟨hblock, (noInside_iff hm).mpr htidy, stripPrivateTags_of_noBlock hblock⟩
  · have hsame := stripPrivateTags_of_not hm
    constructor
    · rintro ⟨hblock, -, -⟩
      rw [hsame] at hblock
      refine ⟨fun h => absurd h hblock, ?_, fun h => hblock ?_⟩
      · intro front a inner e back hsplit ha he _
        exact absurd ⟨front, a, inner, e, back, hsplit, ha, he⟩ hblock
      · have hleft := h.hasBlock
        rwa [TagPair.strip_of_noBlock hblock] at hleft
    · rintro ⟨hmentioned, -, -⟩
      have hblock : ¬ HasPrivate text := fun h => hm (hmentioned h)
      exact ⟨by rwa [hsame], fun i _ hi => hblock hi.hasPrivate, by rw [hsame, hsame]⟩

/-- What stands after an inner block of a private block is kept. -/
theorem nested_not_withheld :
    ¬ ∀ text : String, Withheld text := by
  intro h
  refine (h "<private>a<private>b</private>c</private>").noInside 30 (by decide +kernel)
    ⟨[], "<private>".toList, "a<private>b</private>c".toList, "</private>".toList, [], by decide,
      by decide, by decide, ⟨by decide, ?_⟩, by decide, by decide⟩
  have hall : ∀ p ∈ "a<private>b</private>c".toList.inits,
      privateTags.closes patternKey p ≤ privateTags.opens patternKey p := by decide +kernel
  exact fun p hp => hall p (List.mem_inits _ _ |>.mpr hp)

end Memplex
