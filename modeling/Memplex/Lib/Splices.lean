import Memplex.Lib.Blocks

/-!
# What a removal of blocks leaves

Two things can go wrong where blocks are removed up to their first closing tags. In a balanced
block that holds another one, what follows the first closing tag is not removed with it, unless it
is a run of blocks (`mem_strip_of_untidy`, `notMem_strip_of_tidy`). And what is left of a text can
be a block that was none before, when its opening tag stood in pieces around removed blocks
(`hasBlock_strip_iff`).
-/

namespace Memplex.Lib.TagPair

variable {α κ : Type*} [DecidableEq κ] (T : TagPair κ) (key : α → κ)

/-- A run of blocks. -/
inductive Blocks : List α → Prop
  | nil : Blocks []
  | cons (b xs : List α) : T.Flat key b → Blocks xs → Blocks (b ++ xs)

/-- A text whose tags match: no part at its beginning closes more than it opens. -/
structure Balanced (m : List α) : Prop where
  closed : T.closes key m = T.opens key m
  opened : ∀ p, p <+: m → T.closes key p ≤ T.opens key p

/-- The inside of a block of which nothing is left: after its first closing tag there are only
blocks. -/
def Tidy (inner : List α) : Prop :=
  T.closes key inner = 0 ∨ ∃ m e rest, inner = m ++ (e ++ rest) ∧ T.closes key m = 0 ∧
    T.IsClose key e ∧ T.Blocks key rest

/-- A text in which some block, of whatever inside, stands. -/
def HasBlock (xs : List α) : Prop :=
  ∃ front a m e back, xs = front ++ (a ++ (m ++ (e ++ back))) ∧ T.IsOpen key a ∧ T.IsClose key e

/-- A text at whose end no block is open: from wherever there is an opening tag, there is a closing
one. -/
def Outside (u : List α) : Prop := ∀ q, q <:+ u → T.opens key q ≠ 0 → T.closes key q ≠ 0

/-- The elements of a mark in their order, with blocks between them. -/
inductive Spread : List κ → List α → Prop
  | nil : Spread [] []
  | element (k : κ) (ks : List κ) (x : α) (xs : List α) : key x = k → Spread ks xs →
      Spread (k :: ks) (x :: xs)
  | block (k : κ) (ks : List κ) (b xs : List α) : T.Flat key b → Spread (k :: ks) xs →
      Spread (k :: ks) (b ++ xs)

/-- A tag that stands whole or in pieces around blocks. -/
def Pieces (rest : List κ) (a : List α) : Prop :=
  ∃ x xs, a = x :: xs ∧ key x = T.first ∧ T.Spread key rest xs

/-- An opening tag in pieces that a closing tag, whole or in pieces, follows, both outside of
blocks. -/
def Spliced (s : List α) : Prop :=
  ∃ front a mid e back, s = front ++ (a ++ (mid ++ (e ++ back))) ∧ T.Outside key front ∧
    T.Pieces key T.opening a ∧ ¬ T.IsOpen key a ∧ T.Outside key mid ∧ T.Pieces key T.closing e

variable {T key}

/-! ## Small facts -/

/-- A text with a closing tag is cut at its first one. -/
theorem exists_first_close {xs : List α} (h : T.closes key xs ≠ 0) :
    ∃ m e y, xs = m ++ (e ++ y) ∧ T.closes key m = 0 ∧ T.IsClose key e := by
  cases hplace : firstPlace T.closeMark (xs.map key) with
  | none => exact absurd (firstPlace_none hplace) h
  | some n =>
    obtain ⟨m, y, hsplit, -, hnone⟩ := firstPlace_some hplace
    rw [List.append_assoc] at hsplit
    obtain ⟨m', t, rfl, rfl, ht⟩ := List.map_eq_append_iff.mp hsplit
    obtain ⟨e, y', rfl, he, -⟩ := List.map_eq_append_iff.mp ht
    exact ⟨m', e, y', rfl, hnone, he⟩

/-- An opening tag that a closing one follows begins a block. -/
theorem starts_of_open {a xs : List α} (ha : T.IsOpen key a) (h : T.closes key xs ≠ 0) :
    T.Starts key (a ++ xs) := by
  obtain ⟨m, e, y, rfl, hm, he⟩ := exists_first_close h
  exact ⟨a ++ m ++ e, y, by simp, a, m, e, rfl, ha, hm, he⟩

/-- What is left is a part of the text, in its order. -/
theorem strip_sublist (xs : List α) : (T.strip key xs).Sublist xs := by
  induction xs using strip_induction T key with
  | nil => exact List.Sublist.refl _
  | block b xs hb ih =>
    rw [strip_flat hb]
    exact ih.trans (List.sublist_append_right b xs)
  | keep x xs hx ih =>
    rw [strip_cons hx]
    exact ih.cons_cons x

/-- A text without closing tags stays as it is. -/
theorem strip_of_noClose {xs : List α} (h : T.closes key xs = 0) : T.strip key xs = xs := by
  induction xs using strip_induction T key with
  | nil => rfl
  | block b xs hb ih =>
    obtain ⟨a, m, e, rfl, ha, hm, he⟩ := hb
    have hone := closes_append_close he (a ++ m) xs
    rw [← List.append_assoc] at hone
    omega
  | keep x xs hx ih =>
    have hle : T.closes key xs ≤ T.closes key (x :: xs) :=
      occurrences_le_append_left [key x] (xs.map key)
    rw [strip_cons hx, ih (by omega)]

/-- A run of blocks goes. -/
theorem strip_blocks {bs : List α} (h : T.Blocks key bs) (xs : List α) :
    T.strip key (bs ++ xs) = T.strip key xs := by
  induction h with
  | nil => rfl
  | cons b bs hb _ ih => rw [List.append_assoc, strip_flat hb, ih]

/-- Where a text with something before a tag begins with a block, the block is a part of what is
before it, or opens there and has not ended. -/
theorem Flat.split {b ys front rest : List α} {z : α} (hb : T.Flat key b) (hz : key z = T.first)
    (hne : front ≠ []) (h : b ++ ys = front ++ z :: rest) :
    (∃ f, front = b ++ f) ∨ ∃ a f m e, front = a ++ f ∧ T.IsOpen key a ∧ T.closes key f = 0 ∧
      T.IsClose key e ∧ T.closes key m = 0 ∧ m ++ (e ++ ys) = f ++ z :: rest := by
  obtain ⟨a, m, e, rfl, ha, hm, he⟩ := hb
  -- The opening tag ends before the tag, as its first element does not come again.
  have hfront : ∃ f, front = a ++ f := by
    obtain ⟨x, tail, rfl, hx, htail⟩ := ha.cons
    obtain ⟨y, front', rfl⟩ := List.exists_cons_of_ne_nil hne
    have hprefix : T.first :: T.opening <+: key y :: front'.map key := by
      have hp : T.openMark <+: (front'.map key).cons (key y) ++ T.first :: rest.map key := by
        refine ⟨(m ++ (e ++ ys)).map key, ?_⟩
        have hmap := congrArg (List.map key) h
        simp only [List.map_append, List.map_cons, List.append_assoc, hz] at hmap
        simp only [List.map_append]
        rw [← hmap, hx, htail]
        rfl
      exact (prefix_cons_append_first T.first_notMem_opening).mp hp
    have hlen : (x :: tail).length ≤ (y :: front').length := by
      have h1 := hprefix.length_le
      have h2 := congrArg List.length htail
      simp only [List.length_cons, List.length_map] at h1 h2 ⊢
      omega
    have hpre : x :: tail <+: (y :: front') ++ z :: rest := by
      rw [← h]
      exact ⟨m ++ e ++ ys, by simp⟩
    obtain ⟨f, hf⟩ := List.prefix_of_prefix_length_le hpre (List.prefix_append _ _) hlen
    exact ⟨f, hf.symm⟩
  obtain ⟨f, rfl⟩ := hfront
  have hrest : m ++ (e ++ ys) = f ++ z :: rest := by
    simp only [List.append_assoc] at h
    exact List.append_cancel_left h
  by_cases hf : T.closes key f = 0
  · exact .inr ⟨a, f, m, e, rfl, ha, hf, he, hm, hrest⟩
  · obtain ⟨m', e', y, rfl, hm', he'⟩ := exists_first_close hf
    simp only [List.append_assoc] at hrest
    obtain ⟨rfl, rfl, -⟩ := first_close_unique he he' hm hm' hrest
    exact .inl ⟨y, by simp⟩

/-! ## What is left of a balanced block -/

/-- The text before an opening tag does not change what the block at it removes: it goes up to the
first closing tag, with what is before it or from itself on. -/
theorem strip_reach {a m e : List α} (ha : T.IsOpen key a) (hm : T.closes key m = 0)
    (he : T.IsClose key e) (front v : List α) :
    ∃ kept : List α, kept.Sublist front ∧
      T.strip key (front ++ (a ++ (m ++ (e ++ v)))) = kept ++ T.strip key v := by
  obtain ⟨z, tail, hzt, hz, -⟩ := ha.cons
  induction hn : front.length using Nat.strong_induction_on generalizing front with
  | _ n ih =>
    cases front with
    | nil =>
      refine ⟨[], List.Sublist.refl _, ?_⟩
      have hflat : T.Flat key (a ++ m ++ e) := ⟨a, m, e, rfl, ha, hm, he⟩
      have hgone := strip_flat hflat v
      simp only [List.append_assoc] at hgone
      exact hgone
    | cons x front =>
      by_cases hstarts : T.Starts key (x :: front ++ (a ++ (m ++ (e ++ v))))
      · obtain ⟨b, ys, hsplit, hb⟩ := hstarts
        have hsplit' : b ++ ys = x :: front ++ z :: (tail ++ (m ++ (e ++ v))) := by
          rw [← hsplit, hzt]
          rfl
        rcases hb.split hz (List.cons_ne_nil _ _) hsplit' with ⟨f, hf⟩ | hopen
        · -- The block ends before the tag.
          have hpos : 0 < b.length := by
            obtain ⟨a', m', e', rfl, ha', -, -⟩ := hb
            obtain ⟨y, rest, rfl, -, -⟩ := ha'.cons
            simp
          have hlen := congrArg List.length hf
          rw [List.length_append] at hlen
          obtain ⟨kept, hkept, hstrip⟩ := ih f.length (by omega) f rfl
          refine ⟨kept, hkept.trans (hf ▸ List.sublist_append_right b f), ?_⟩
          rw [hf, List.append_assoc, strip_flat hb, hstrip]
        · -- The block ends where the block at the tag would.
          obtain ⟨a', f, m', e', -, -, hf, he', hm', hrest⟩ := hopen
          have hwhole : m' ++ (e' ++ ys) = (f ++ (a ++ m)) ++ (e ++ v) := by
            rw [hrest, hzt]
            simp
          have hnone : T.closes key (f ++ (a ++ m)) = 0 := by
            rw [closes_append_open ha, hf, hm]
          obtain ⟨-, -, rfl⟩ := first_close_unique he' he hm' hnone hwhole
          exact ⟨[], List.nil_sublist _, by rw [hsplit, strip_flat hb, List.nil_append]⟩
      · obtain ⟨kept, hkept, hstrip⟩ := ih front.length (by rw [← hn]; simp) front rfl
        refine ⟨x :: kept, hkept.cons_cons x, ?_⟩
        rw [List.cons_append] at hstarts ⊢
        rw [strip_cons hstarts, hstrip]
        rfl

/-- Nothing is left of the inside of a tidy block. -/
theorem notMem_strip_of_tidy {front a inner e back : List α} (ha : T.IsOpen key a)
    (he : T.IsClose key e) (htidy : T.Tidy key inner)
    (hd : (front ++ (a ++ (inner ++ (e ++ back)))).Nodup) {x : α} (hx : x ∈ inner) :
    x ∉ T.strip key (front ++ (a ++ (inner ++ (e ++ back)))) := by
  -- What is left stands before the block or from its end on.
  have hleft : ∃ kept : List α, kept.Sublist front ∧ ∃ later : List α, later.Sublist (e ++ back) ∧
      T.strip key (front ++ (a ++ (inner ++ (e ++ back)))) = kept ++ later := by
    rcases htidy with hnone | ⟨m, e', rest, rfl, hm, he', hblocks⟩
    · obtain ⟨kept, hkept, hstrip⟩ := strip_reach ha hnone he front back
      exact ⟨kept, hkept, _, (strip_sublist back).trans (List.sublist_append_right e back), hstrip⟩
    · obtain ⟨kept, hkept, hstrip⟩ := strip_reach ha hm he' front (rest ++ (e ++ back))
      rw [strip_blocks hblocks] at hstrip
      exact ⟨kept, hkept, _, strip_sublist (e ++ back), by simpa using hstrip⟩
  obtain ⟨kept, hkept, later, hlater, hstrip⟩ := hleft
  rw [hstrip]
  intro hmem
  obtain ⟨-, hrest, hdisjoint⟩ := List.nodup_append.mp hd
  obtain ⟨-, hrest', hdisjoint'⟩ := List.nodup_append.mp hrest
  obtain ⟨-, -, hdisjoint''⟩ := List.nodup_append.mp hrest'
  rcases List.mem_append.mp hmem with hmem | hmem
  · exact hdisjoint x (hkept.subset hmem) x
      (List.mem_append_right _ (List.mem_append_left _ hx)) rfl
  · exact hdisjoint'' x hx x (hlater.subset hmem) rfl

/-- Before a tag, of what is no run of blocks and leaves no block open, something is left. -/
theorem mem_strip_of_not_blocks {rest : List α} (hrest : ¬ T.Blocks key rest)
    (hout : ∀ p a m, rest = p ++ (a ++ m) → T.IsOpen key a → T.closes key m ≠ 0) {z : α}
    (hz : key z = T.first) (ys : List α) : ∃ x ∈ rest, x ∈ T.strip key (rest ++ z :: ys) := by
  induction hn : rest.length using Nat.strong_induction_on generalizing rest with
  | _ n ih =>
    cases rest with
    | nil => exact absurd .nil hrest
    | cons x rest =>
      by_cases hstarts : T.Starts key (x :: rest ++ z :: ys)
      · obtain ⟨b, back, hsplit, hb⟩ := hstarts
        rcases hb.split hz (List.cons_ne_nil _ _) hsplit.symm with ⟨f, hf⟩ | hopen
        · have hpos : 0 < b.length := by
            obtain ⟨a', m', e', rfl, ha', -, -⟩ := hb
            obtain ⟨y, tail, rfl, -, -⟩ := ha'.cons
            simp
          have hlen := congrArg List.length hf
          rw [List.length_append] at hlen
          obtain ⟨y, hy, hmem⟩ := ih f.length (by omega)
            (fun hblocks => hrest (hf ▸ .cons b f hb hblocks))
            (fun p a m hp => hout (b ++ p) a m (by rw [hf, hp, List.append_assoc])) rfl
          refine ⟨y, hf ▸ List.mem_append_right _ hy, ?_⟩
          rw [hf, List.append_assoc, strip_flat hb]
          exact hmem
        · obtain ⟨a, f, m, e, hfront, ha, hf, -⟩ := hopen
          exact absurd hf (hout [] a f hfront ha)
      · refine ⟨x, List.mem_cons_self, ?_⟩
        rw [List.cons_append] at hstarts ⊢
        rw [strip_cons hstarts]
        exact List.mem_cons_self

/-- In a balanced text every opening tag is closed. -/
theorem Balanced.closed_of_open {inner : List α} (h : T.Balanced key inner) (p a m : List α)
    (hsplit : inner = p ++ (a ++ m)) (ha : T.IsOpen key a) : T.closes key m ≠ 0 := by
  intro hnone
  have hclosed := h.closed
  have hopened := h.opened p ⟨a ++ m, hsplit.symm⟩
  rw [hsplit, closes_append_open ha, opens_append_open ha, hnone] at hclosed
  omega

/-- Of the inside of a balanced block that is not tidy something is left. -/
theorem mem_strip_of_untidy {front a inner e back : List α} (ha : T.IsOpen key a)
    (he : T.IsClose key e) (hbalanced : T.Balanced key inner) (htidy : ¬ T.Tidy key inner) :
    ∃ x ∈ inner, x ∈ T.strip key (front ++ (a ++ (inner ++ (e ++ back)))) := by
  have hclose : T.closes key inner ≠ 0 := fun hnone => htidy (.inl hnone)
  obtain ⟨m, e', rest, rfl, hm, he'⟩ := exists_first_close hclose
  have hblocks : ¬ T.Blocks key rest := fun hb => htidy (.inr ⟨m, e', rest, rfl, hm, he', hb⟩)
  obtain ⟨z, tail, rfl, hz, -⟩ := he.cons
  obtain ⟨kept, -, hstrip⟩ := strip_reach ha hm he' front (rest ++ (z :: tail ++ back))
  obtain ⟨x, hx, hmem⟩ := mem_strip_of_not_blocks hblocks
    (fun p a' m' hp => hbalanced.closed_of_open (m ++ (e' ++ p)) a' m' (by rw [hp]; simp)) hz
    (tail ++ back)
  refine ⟨x, List.mem_append_right _ (List.mem_append_right _ hx), ?_⟩
  have hassoc : front ++ (a ++ ((m ++ (e' ++ rest)) ++ (z :: tail ++ back))) =
      front ++ (a ++ (m ++ (e' ++ (rest ++ (z :: tail ++ back))))) := by simp
  rw [hassoc, hstrip]
  exact List.mem_append_right _ hmem

/-! ## Blocks that a removal makes -/

/-- Where no block begins, an opening tag at the beginning has no closing tag after it. -/
theorem noClose_of_open {a xs : List α} (ha : T.IsOpen key a) (h : ¬ T.Starts key (a ++ xs)) :
    T.closes key xs = 0 := by
  by_contra hne
  exact h (starts_of_open ha hne)

/-- A text that begins with a block begins with the first element of a tag. -/
theorem Starts.first {x : α} {xs : List α} (h : T.Starts key (x :: xs)) : key x = T.first := by
  obtain ⟨b, ys, hsplit, a, m, e, rfl, ha, -⟩ := h
  obtain ⟨y, tail, rfl, hy, -⟩ := ha.cons
  obtain ⟨rfl, -⟩ := List.cons.inj (hsplit.trans (by simp : _ = y :: (tail ++ (m ++ (e ++ ys)))))
  exact hy

/-- Where a text is outside of blocks, the removal goes on from there as from a beginning. -/
theorem strip_append_of_outside {u : List α} (hu : T.Outside key u) {z : α}
    (hz : key z = T.first) (v : List α) :
    T.strip key (u ++ z :: v) = T.strip key u ++ T.strip key (z :: v) := by
  induction u using strip_induction T key with
  | nil => rfl
  | block b u hb ih =>
    rw [List.append_assoc, strip_flat hb, strip_flat hb,
      ih fun q hq => hu q (hq.trans (List.suffix_append b u))]
  | keep x u hx ih =>
    have hnot : ¬ T.Starts key (x :: u ++ z :: v) := by
      rintro ⟨b, ys, hsplit, hb⟩
      rcases hb.split hz (List.cons_ne_nil _ _) hsplit.symm with ⟨f, hf⟩ | hopen
      · exact hx ⟨b, f, hf, hb⟩
      · obtain ⟨a, f, m, e, hfront, ha, hf, -⟩ := hopen
        have hopens : T.opens key (x :: u) ≠ 0 := by
          have hone := opens_append_open ha [] f
          rw [List.nil_append] at hone
          rw [hfront, hone]
          omega
        have hcloses := hu (x :: u) (List.suffix_refl _) hopens
        have hnone := closes_append_open ha [] f
        rw [List.nil_append, hf] at hnone
        rw [hfront, hnone] at hcloses
        exact hcloses rfl
    rw [List.cons_append] at hnot ⊢
    rw [strip_cons hnot, strip_cons hx, ih fun q hq => hu q (hq.trans (List.suffix_cons x u))]
    rfl

/-- The elements of a mark in pieces stay, and the blocks between them go. -/
theorem strip_spread {ks : List κ} {xs : List α} (h : T.Spread key ks xs) (hks : T.first ∉ ks)
    (v : List α) : ∃ t : List α, t.map key = ks ∧ T.strip key (xs ++ v) = t ++ T.strip key v := by
  induction h with
  | nil => exact ⟨[], rfl, rfl⟩
  | element k ks x xs hx _ ih =>
    rw [List.mem_cons, not_or] at hks
    obtain ⟨t, ht, hstrip⟩ := ih hks.2
    have hnot : ¬ T.Starts key (x :: (xs ++ v)) := fun hs => hks.1 (hx ▸ hs.first.symm)
    refine ⟨x :: t, by rw [List.map_cons, hx, ht], ?_⟩
    rw [List.cons_append, strip_cons hnot, hstrip]
    rfl
  | block k ks b xs hb _ ih =>
    obtain ⟨t, ht, hstrip⟩ := ih hks
    exact ⟨t, ht, by rw [List.append_assoc, strip_flat hb, hstrip]⟩

/-- A mark in pieces agrees with what stands at its beginning: two marks there have a text that
begins with both. -/
theorem Spread.agrees {ks : List κ} {xs : List α} (h : T.Spread key ks xs) {os : List κ}
    (hos : T.first ∉ os) {v : List α} (hp : os <+: (xs ++ v).map key) :
    ∃ w, ks <+: w ∧ os <+: w := by
  induction h generalizing os with
  | nil => exact ⟨_, List.nil_prefix, hp⟩
  | element k ks x xs hx _ ih =>
    cases os with
    | nil => exact ⟨_, List.prefix_refl _, List.nil_prefix⟩
    | cons o os =>
      rw [List.cons_append, List.map_cons, hx] at hp
      obtain ⟨rfl, hrest⟩ := List.cons_prefix_cons.mp hp
      obtain ⟨w, hw, hw'⟩ := ih (fun hmem => hos (List.mem_cons_of_mem _ hmem)) hrest
      exact ⟨o :: w, List.cons_prefix_cons.mpr ⟨rfl, hw⟩, List.cons_prefix_cons.mpr ⟨rfl, hw'⟩⟩
  | block k ks b xs hb _ ih =>
    cases os with
    | nil => exact ⟨_, List.prefix_refl _, List.nil_prefix⟩
    | cons o os =>
      obtain ⟨a, m, e, rfl, ha, -⟩ := hb
      obtain ⟨y, tail, rfl, hy, -⟩ := ha.cons
      simp only [List.cons_append, List.map_cons] at hp
      obtain ⟨rfl, -⟩ := List.cons_prefix_cons.mp hp
      exact absurd (hy ▸ List.mem_cons_self) hos

/-- A mark in pieces at whose beginning the mark stands is whole. -/
theorem Spread.whole {ks : List κ} {xs : List α} (h : T.Spread key ks xs) (hks : T.first ∉ ks)
    {v : List α} (hp : ks <+: (xs ++ v).map key) : xs.map key = ks := by
  induction h with
  | nil => rfl
  | element k ks x xs hx _ ih =>
    rw [List.cons_append, List.map_cons, hx] at hp
    rw [List.map_cons, hx, ih (fun hmem => hks (List.mem_cons_of_mem _ hmem))
      (List.cons_prefix_cons.mp hp).2]
  | block k ks b xs hb _ ih =>
    obtain ⟨a, m, e, rfl, ha, -⟩ := hb
    obtain ⟨y, tail, rfl, hy, -⟩ := ha.cons
    simp only [List.cons_append, List.map_cons] at hp
    obtain ⟨rfl, -⟩ := List.cons_prefix_cons.mp hp
    exact absurd (hy ▸ List.mem_cons_self) hks

/-- What stands at the beginning of a text that begins with a block. -/
theorem Starts.opening {x : α} {xs : List α} (h : T.Starts key (x :: xs)) :
    T.opening <+: xs.map key := by
  obtain ⟨b, ys, hsplit, a, m, e, rfl, ha, -⟩ := h
  obtain ⟨y, tail, rfl, -, htail⟩ := ha.cons
  obtain ⟨-, rfl⟩ := List.cons.inj (hsplit.trans (by simp : _ = y :: (tail ++ (m ++ (e ++ ys)))))
  rw [List.map_append, htail]
  exact List.prefix_append _ _

/-- A tag in pieces at which no block begins is left whole. -/
theorem strip_pieces {ks : List κ} {a : List α} (h : T.Pieces key ks a) (hks : T.first ∉ ks)
    (v : List α) (hnot : ¬ T.Starts key (a ++ v)) :
    ∃ t : List α, t.map key = T.first :: ks ∧ T.strip key (a ++ v) = t ++ T.strip key v := by
  obtain ⟨x, xs, rfl, hx, hspread⟩ := h
  obtain ⟨t, ht, hstrip⟩ := strip_spread hspread hks v
  rw [List.cons_append] at hnot ⊢
  exact ⟨x :: t, by rw [List.map_cons, hx, ht], by rw [strip_cons hnot, hstrip]; rfl⟩

/-- What a spliced text leaves has a block. -/
theorem Spliced.hasBlock {s : List α} (h : T.Spliced key s) : T.HasBlock key (T.strip key s) := by
  obtain ⟨front, a, mid, e, back, rfl, hfront, ha, hcut, hmid, he⟩ := h
  have hnot : ∀ v, ¬ T.Starts key (a ++ v) := by
    intro v hstarts
    obtain ⟨x, xs, rfl, hx, hspread⟩ := ha
    have hwhole := hspread.whole T.first_notMem_opening hstarts.opening
    exact hcut (by rw [IsOpen, openMark, List.map_cons, hx, hwhole])
  have hnot' : ∀ v, ¬ T.Starts key (e ++ v) := by
    intro v hstarts
    obtain ⟨x, xs, rfl, hx, hspread⟩ := he
    obtain ⟨w, hclosing, hopening⟩ := hspread.agrees T.first_notMem_opening hstarts.opening
    exact T.apart w hopening hclosing
  obtain ⟨open_, hopen, hstripa⟩ := strip_pieces ha T.first_notMem_opening
    (mid ++ (e ++ back)) (hnot _)
  obtain ⟨close_, hclose, hstripe⟩ := strip_pieces he T.first_notMem_closing back (hnot' _)
  obtain ⟨x, xs, rfl, hx, -⟩ := ha
  obtain ⟨z, zs, rfl, hz, -⟩ := he
  refine ⟨T.strip key front, open_, T.strip key mid, close_, T.strip key back, ?_, hopen, hclose⟩
  rw [List.cons_append, strip_append_of_outside hfront hx, ← List.cons_append, hstripa]
  rw [List.cons_append, strip_append_of_outside hmid hz, ← List.cons_append, hstripe]

/-- After a block one is outside of blocks as after what follows it: the block has a closing tag,
and in that tag no other begins. -/
theorem Outside.block {b u : List α} (hb : T.Flat key b) (hu : T.Outside key u) :
    T.Outside key (b ++ u) := by
  obtain ⟨a, m, e, rfl, ha, hm, he⟩ := hb
  rintro q ⟨p, hq⟩ hopens
  have hclosed : ∀ c, T.closes key (c ++ (e ++ u)) ≠ 0 := fun c => by
    rw [closes_append_close he]
    omega
  rcases List.append_eq_append_iff.mp hq with ⟨c, hc, rfl⟩ | ⟨c, rfl, rfl⟩
  · rcases List.append_eq_append_iff.mp hc with ⟨d, rfl, hd⟩ | ⟨d, -, rfl⟩
    · -- What is left of the block is a part of its closing tag.
      cases d with
      | nil =>
        rw [List.nil_append] at hd
        rw [← hd]
        exact hclosed []
      | cons x d =>
        obtain ⟨z, tail, rfl, -, htail⟩ := he.cons
        obtain ⟨-, rfl⟩ := List.cons.inj hd
        have hfirst : T.first ∉ c.map key := fun hmem => by
          obtain ⟨k, hk, hfirst⟩ := List.mem_map.mp hmem
          have hmem' : key k ∈ T.closing :=
            htail ▸ List.mem_map_of_mem (List.mem_append_right d hk)
          exact T.first_notMem_closing (hfirst ▸ hmem')
        have hopens' : T.opens key (c ++ u) = T.opens key u := by
          unfold opens openMark
          rw [List.map_append, occurrences_append_of_notMem hfirst]
        have hcloses' : T.closes key (c ++ u) = T.closes key u := by
          unfold closes closeMark
          rw [List.map_append, occurrences_append_of_notMem hfirst]
        rw [hcloses']
        exact hu u (List.suffix_refl _) (hopens' ▸ hopens)
    · rw [List.append_assoc]
      exact hclosed d
  · exact hu q ⟨c, rfl⟩ hopens

/-- An element that stays adds no open block, unless no closing tag follows at all. -/
theorem closes_of_opens {y : α} {u v : List α} (hy : ¬ T.Starts key (y :: (u ++ v)))
    (hu : T.Outside key u) (hopens : T.opens key (y :: u) ≠ 0)
    (hsome : T.closes key (u ++ v) ≠ 0) : T.closes key (y :: u) ≠ 0 := by
  intro hnone
  have hle : ∀ xs, T.closes key xs ≤ T.closes key (y :: xs) := fun xs =>
    occurrences_le_append_left [key y] (xs.map key)
  have hstands : T.openMark <+: (y :: u).map key := by
    by_contra hnot
    have hrest : T.opens key u ≠ 0 := by
      unfold opens at hopens ⊢
      rw [List.map_cons] at hnot hopens
      rwa [occurrences_cons, if_neg hnot, Nat.zero_add] at hopens
    have := hle u
    have := hu u (List.suffix_refl _) hrest
    omega
  obtain ⟨tail, htail⟩ := hstands
  obtain ⟨a, f, hsplit, ha, -⟩ := List.map_eq_append_iff.mp htail.symm
  have hwhole : y :: (u ++ v) = a ++ (f ++ v) := by
    rw [← List.cons_append, hsplit, List.append_assoc]
  have hclosed := noClose_of_open ha (hwhole ▸ hy)
  have hcount := closes_append_open ha [] (f ++ v)
  rw [List.nil_append, ← hwhole, hclosed] at hcount
  have hzero : T.closes key ([] : List α) = 0 := rfl
  have := hle (u ++ v)
  omega

/-- What is left with a closing tag from some element on comes from a part of the text that is
outside of blocks there. -/
theorem exists_of_strip {s r₁ r₂ : List α} {x : α} (h : T.strip key s = r₁ ++ x :: r₂)
    (hclose : T.closes key (x :: r₂) ≠ 0) :
    ∃ u v, s = u ++ x :: v ∧ ¬ T.Starts key (x :: v) ∧ T.strip key v = r₂ ∧ T.Outside key u := by
  induction s using strip_induction T key generalizing r₁ with
  | nil => exact absurd h.symm (by simp)
  | block b s hb ih =>
    rw [strip_flat hb] at h
    obtain ⟨u, v, rfl, hnot, hstrip, hu⟩ := ih h
    exact ⟨b ++ u, v, (List.append_assoc _ _ _).symm, hnot, hstrip, hu.block hb⟩
  | keep y s hy ih =>
    rw [strip_cons hy] at h
    cases r₁ with
    | nil =>
      obtain ⟨rfl, rfl⟩ := List.cons.inj h
      refine ⟨[], s, rfl, hy, rfl, fun q hq hopens => ?_⟩
      rw [List.suffix_nil.mp hq] at hopens
      exact absurd rfl hopens
    | cons z r₁ =>
      obtain ⟨rfl, hrest⟩ := List.cons.inj h
      obtain ⟨u, v, rfl, hnot, hstrip, hu⟩ := ih hrest
      refine ⟨y :: u, v, rfl, hnot, hstrip, fun q hq hopens => ?_⟩
      rcases List.suffix_cons_iff.mp hq with rfl | hq
      · refine closes_of_opens hy hu hopens fun hnone => ?_
        -- With no closing tag in it the rest stays, and has the closing tag of what is left.
        rw [strip_of_noClose hnone] at hrest
        have hle : T.closes key (x :: r₂) ≤ T.closes key (r₁ ++ x :: r₂) := by
          unfold closes
          rw [List.map_append]
          exact occurrences_le_append_left _ _
        have hzero : T.closes key (r₁ ++ x :: r₂) = 0 :=
          (congrArg (T.closes key) hrest).symm.trans hnone
        exact hclose (Nat.le_zero.mp (hzero ▸ hle))
      · exact hu q hq hopens

/-- The first element that is left of a text has a run of blocks before it. -/
theorem strip_eq_cons {v r : List α} {y : α} (h : T.strip key v = y :: r) :
    ∃ bs v', v = bs ++ y :: v' ∧ T.Blocks key bs ∧ T.strip key v' = r := by
  induction v using strip_induction T key with
  | nil => cases h
  | block b v hb ih =>
    rw [strip_flat hb] at h
    obtain ⟨bs, v', rfl, hbs, hr⟩ := ih h
    exact ⟨b ++ bs, v', (List.append_assoc _ _ _).symm, .cons b bs hb hbs, hr⟩
  | keep x v hx ih =>
    rw [strip_cons hx] at h
    obtain ⟨rfl, rfl⟩ := List.cons.inj h
    exact ⟨[], v, rfl, .nil, rfl⟩

/-- Blocks before an element of a mark in pieces. -/
theorem Spread.blocks {bs : List α} (h : T.Blocks key bs) {k : κ} {ks : List κ} {xs : List α}
    (hxs : T.Spread key (k :: ks) xs) : T.Spread key (k :: ks) (bs ++ xs) := by
  induction h with
  | nil => exact hxs
  | cons b bs hb _ ih => exact List.append_assoc b bs xs ▸ .block k ks b _ hb ih

/-- What is left at the beginning of a text comes from the same in pieces. -/
theorem exists_spread {v t r : List α} (h : T.strip key v = t ++ r) :
    ∃ xs v', v = xs ++ v' ∧ T.Spread key (t.map key) xs ∧ T.strip key v' = r := by
  induction t generalizing v with
  | nil => exact ⟨[], v, rfl, .nil, h⟩
  | cons y t ih =>
    obtain ⟨bs, v', rfl, hbs, hr⟩ := strip_eq_cons h
    obtain ⟨xs, w, rfl, hspread, hr⟩ := ih hr
    exact ⟨bs ++ y :: xs, w, by simp, .blocks hbs (.element _ _ y xs rfl hspread), hr⟩

/-- **A removal makes a block exactly where an opening tag is spliced.** -/
theorem hasBlock_strip_iff (s : List α) :
    T.HasBlock key (T.strip key s) ↔ T.Spliced key s := by
  refine ⟨?_, Spliced.hasBlock⟩
  rintro ⟨f, a, m, e, g, h, ha, he⟩
  obtain ⟨x, a', rfl, hx, ha'⟩ := ha.cons
  have hclose : T.closes key (x :: (a' ++ (m ++ (e ++ g)))) ≠ 0 := by
    have hone := closes_append_close he (x :: a' ++ m) g
    simp only [List.append_assoc, List.cons_append] at hone
    rw [hone]
    omega
  obtain ⟨front, v, rfl, hnot, hstrip, hfront⟩ := exists_of_strip h hclose
  obtain ⟨xs, v', rfl, hspread, hstrip'⟩ := exists_spread hstrip
  obtain ⟨z, e', rfl, hz, he'⟩ := he.cons
  have hclose' : T.closes key (z :: (e' ++ g)) ≠ 0 := by
    have hone := closes_append_close he [] g
    rw [List.nil_append, List.cons_append] at hone
    rw [hone]
    omega
  obtain ⟨mid, w, rfl, -, hstrip'', hmid⟩ := exists_of_strip hstrip' hclose'
  obtain ⟨ys, back, rfl, hspread', -⟩ := exists_spread hstrip''
  refine ⟨front, x :: xs, mid, z :: ys, back, by simp, hfront, ⟨x, xs, rfl, hx, ha' ▸ hspread⟩, ?_,
    hmid, ⟨z, ys, rfl, hz, he' ▸ hspread'⟩⟩
  -- A whole opening tag that stays has no closing tag after it, so that all after it stays.
  intro hwhole
  have hnone := noClose_of_open hwhole (by simpa using hnot)
  have hle : T.closes key (m ++ (z :: e' ++ g)) = 0 := by
    rw [← hstrip', strip_of_noClose hnone, hnone]
  have hone := closes_append_close he m g
  omega

/-- What has no block stays as it is. -/
theorem strip_of_noBlock {xs : List α} (h : ¬ T.HasBlock key xs) : T.strip key xs = xs := by
  induction xs using strip_induction T key with
  | nil => rfl
  | block b xs hb ih =>
    obtain ⟨a, m, e, rfl, ha, -, he⟩ := hb
    exact absurd ⟨[], a, m, e, xs, by simp, ha, he⟩ h
  | keep x xs hx ih =>
    rw [strip_cons hx, ih fun ⟨f, a, m, e, g, hsplit, ha, he⟩ =>
      h ⟨x :: f, a, m, e, g, by rw [hsplit]; rfl, ha, he⟩]

/-! ## Elements that carry more than their keys -/

section Map

variable {β : Type*} {g : β → α}

theorem closes_map (xs : List β) : T.closes key (xs.map g) = T.closes (key ∘ g) xs := by
  unfold closes
  rw [List.map_map]

theorem opens_map (xs : List β) : T.opens key (xs.map g) = T.opens (key ∘ g) xs := by
  unfold opens
  rw [List.map_map]

omit [DecidableEq κ] in
theorem isClose_map (xs : List β) : T.IsClose key (xs.map g) ↔ T.IsClose (key ∘ g) xs := by
  unfold IsClose
  rw [List.map_map]

omit [DecidableEq κ] in
theorem isOpen_map (xs : List β) : T.IsOpen key (xs.map g) ↔ T.IsOpen (key ∘ g) xs := by
  unfold IsOpen
  rw [List.map_map]

/-- A run of blocks of what elements carry is one of the elements. -/
theorem blocks_of_map {xs : List β} (h : T.Blocks key (xs.map g)) : T.Blocks (key ∘ g) xs := by
  generalize hxs : xs.map g = ys at h
  induction h generalizing xs with
  | nil => rw [List.map_eq_nil_iff.mp hxs]; exact .nil
  | cons b ys hb _ ih =>
    obtain ⟨b', ys', rfl, rfl, hys⟩ := List.map_eq_append_iff.mp hxs
    exact .cons b' ys' (flat_map.mp hb) (ih hys)

theorem blocks_map {xs : List β} (h : T.Blocks (key ∘ g) xs) : T.Blocks key (xs.map g) := by
  induction h with
  | nil => exact .nil
  | cons b ys hb _ ih =>
    rw [List.map_append]
    exact .cons _ _ (flat_map.mpr hb) ih

/-- Whether a block is tidy is seen in what its elements carry. -/
theorem tidy_map (xs : List β) : T.Tidy key (xs.map g) ↔ T.Tidy (key ∘ g) xs := by
  unfold Tidy
  rw [closes_map]
  refine or_congr Iff.rfl ⟨?_, ?_⟩
  · rintro ⟨m, e, rest, hsplit, hm, he, hblocks⟩
    obtain ⟨m', t, rfl, rfl, ht⟩ := List.map_eq_append_iff.mp hsplit
    obtain ⟨e', rest', rfl, rfl, rfl⟩ := List.map_eq_append_iff.mp ht
    exact ⟨m', e', rest', rfl, (closes_map m').symm.trans hm, (isClose_map e').mp he,
      blocks_of_map hblocks⟩
  · rintro ⟨m, e, rest, rfl, hm, he, hblocks⟩
    exact ⟨m.map g, e.map g, rest.map g, by simp, (closes_map m).trans hm, (isClose_map e).mpr he,
      blocks_map hblocks⟩

/-- A balanced text of what elements carry is one of the elements. -/
theorem Balanced.of_map {xs : List β} (h : T.Balanced key (xs.map g)) :
    T.Balanced (key ∘ g) xs := by
  refine ⟨by rw [← closes_map, ← opens_map]; exact h.closed, ?_⟩
  rintro p ⟨q, rfl⟩
  rw [← closes_map, ← opens_map]
  exact h.opened _ ⟨q.map g, (List.map_append).symm⟩

end Map

end Memplex.Lib.TagPair
