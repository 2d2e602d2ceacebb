import Mathlib.Data.List.Nodup
import Mathlib.Data.List.Infix
import Mathlib.Data.Set.Function

/-!
# Merkle trees over a list

`reduce` combines the neighbours of a list level by level until one value is left, where the last one
of an odd level is combined with itself. With a hash as the combination this gives the root of a
Merkle tree. The shape of that tree is itself such a reduction, of `Tree`s, whose digest is the root
(`reduce_digest`). Where the hash has no collision among the messages of two trees, equal roots are
roots of equal trees (`digest_inj`), and for lists without duplicates the trees tell the lists
(`leaves_inj`), in spite of the duplication.
-/

namespace Memplex.Lib.Merkle

/-! ## Levels -/

section Reduce

variable {α β : Type*} (f : α → α → α)

/-- The level above: neighbours are combined, and the last of an odd level with itself. -/
def pairUp : List α → List α
  | x :: y :: rest => f x y :: pairUp rest
  | [x] => [f x x]
  | [] => []

theorem length_pairUp (xs : List α) : (pairUp f xs).length = (xs.length + 1) / 2 := by
  induction xs using pairUp.induct with
  | case1 x y rest ih =>
    rw [pairUp, List.length_cons, ih, List.length_cons, List.length_cons]
    omega
  | case2 x => simp [pairUp]
  | case3 => simp [pairUp]

/-- The value at the top, if there is one. -/
def reduce : List α → Option α
  | [] => none
  | [x] => some x
  | x :: y :: rest => reduce (pairUp f (x :: y :: rest))
termination_by xs => xs.length
decreasing_by
  rw [length_pairUp, List.length_cons, List.length_cons]
  omega

variable {f} {g : β → β → β} {h : α → β}

theorem pairUp_map (hmap : ∀ x y, h (f x y) = g (h x) (h y)) (xs : List α) :
    pairUp g (xs.map h) = (pairUp f xs).map h := by
  induction xs using pairUp.induct with
  | case1 x y rest ih => simp only [List.map_cons, pairUp, ih, hmap]
  | case2 x => simp only [List.map_cons, List.map_nil, pairUp, hmap]
  | case3 => rfl

/-- A reduction commutes with what the combination commutes with. -/
theorem reduce_map (hmap : ∀ x y, h (f x y) = g (h x) (h y)) (xs : List α) :
    reduce g (xs.map h) = (reduce f xs).map h := by
  induction xs using reduce.induct f with
  | case1 => rw [List.map_nil, reduce, reduce, Option.map_none]
  | case2 x => rw [List.map_cons, List.map_nil, reduce, reduce, Option.map_some]
  | case3 x y rest ih =>
    rw [reduce, ← ih, ← pairUp_map hmap, List.map_cons, List.map_cons, reduce]

end Reduce

/-! ## Trees -/

/-- The shape of a reduction. -/
inductive Tree (α : Type*) where
  | leaf (a : α)
  | node (l r : Tree α)

namespace Tree

variable {α : Type*}

/-- The leaves, from left to right. -/
def leaves : Tree α → List α
  | leaf a => [a]
  | node l r => l.leaves ++ r.leaves

/-- The leaves of a level. -/
def flat (ts : List (Tree α)) : List α := ts.flatMap leaves

/-- A level above repeats some leaves at its end. -/
theorem flat_pairUp (ts : List (Tree α)) :
    ∃ extra, flat (pairUp node ts) = flat ts ++ extra ∧ ∀ a ∈ extra, a ∈ flat ts := by
  induction ts using pairUp.induct with
  | case1 x y rest ih =>
    obtain ⟨extra, heq, hmem⟩ := ih
    refine ⟨extra, ?_, fun a ha => ?_⟩
    · calc flat (pairUp node (x :: y :: rest))
          = (x.leaves ++ y.leaves) ++ flat (pairUp node rest) := rfl
        _ = (x.leaves ++ y.leaves) ++ (flat rest ++ extra) := by rw [heq]
        _ = flat (x :: y :: rest) ++ extra := by simp [flat]
    · have hrest := hmem a ha
      simp only [flat, List.flatMap_cons, List.mem_append]
      exact .inr (.inr hrest)
  | case2 x => exact ⟨x.leaves, by simp [pairUp, flat, leaves], fun a ha => by simpa [flat] using ha⟩
  | case3 => exact ⟨[], rfl, by simp⟩

/-- The tree of a level has its leaves, and repeats some of them at its end. -/
theorem leaves_reduce (ts : List (Tree α)) {t : Tree α} (ht : reduce node ts = some t) :
    ∃ extra, t.leaves = flat ts ++ extra ∧ ∀ a ∈ extra, a ∈ flat ts := by
  induction ts using reduce.induct node with
  | case1 => simp [reduce] at ht
  | case2 x =>
    rw [reduce] at ht
    cases Option.some.inj ht
    exact ⟨[], by simp [flat], by simp⟩
  | case3 x y rest ih =>
    rw [reduce] at ht
    obtain ⟨more, hmore, hmem⟩ := ih ht
    obtain ⟨extra, hextra, hmem'⟩ := flat_pairUp (x :: y :: rest)
    refine ⟨extra ++ more, by rw [hmore, hextra, List.append_assoc], fun a ha => ?_⟩
    rcases List.mem_append.mp ha with ha | ha
    · exact hmem' a ha
    · have hin := hmem a ha
      rw [hextra] at hin
      exact (List.mem_append.mp hin).elim id (hmem' a)

/-- The tree of a list. -/
def ofList (xs : List α) : Option (Tree α) := reduce node (xs.map leaf)

/-- Two lists without duplicates that are continued to one list by elements of their own are one. -/
theorem eq_of_append_eq {xs ys us vs : List α} (hx : xs.Nodup) (hy : ys.Nodup)
    (hu : ∀ a ∈ us, a ∈ xs) (hv : ∀ a ∈ vs, a ∈ ys) (heq : xs ++ us = ys ++ vs) : xs = ys := by
  -- The shorter one starts the longer one.
  have hone : ∀ {xs ys us vs : List α}, ys.Nodup → (∀ a ∈ us, a ∈ xs) →
      xs ++ us = ys ++ vs → xs.length ≤ ys.length → xs = ys := by
    intro xs ys us vs hy hu heq hlen
    have hprefix : xs <+: ys := List.prefix_of_prefix_length_le (List.prefix_append xs us)
      (heq ▸ List.prefix_append ys vs) hlen
    obtain ⟨s, rfl⟩ := hprefix
    cases s with
    | nil => rw [List.append_nil]
    | cons a s =>
      -- Its continuation would repeat one of its elements.
      rw [List.append_assoc, List.append_cancel_left_eq] at heq
      have ha : a ∈ xs := hu a (by rw [heq]; exact List.mem_cons_self)
      exact absurd rfl ((List.nodup_append.mp hy).2.2 a ha a List.mem_cons_self)
  rcases Nat.le_total xs.length ys.length with hlen | hlen
  · exact hone hy hu heq hlen
  · exact (hone hx hv heq.symm hlen).symm

/-- The tree of a list without duplicates tells the list. -/
theorem leaves_inj {xs ys : List α} (hx : xs.Nodup) (hy : ys.Nodup) {t : Tree α}
    (htx : ofList xs = some t) (hty : ofList ys = some t) : xs = ys := by
  have hflat : ∀ zs : List α, flat (zs.map leaf) = zs := fun zs => by
    induction zs with
    | nil => rfl
    | cons z zs ih =>
      calc flat ((z :: zs).map leaf) = z :: flat (zs.map leaf) := rfl
        _ = z :: zs := by rw [ih]
  obtain ⟨us, hus, hu⟩ := leaves_reduce _ htx
  obtain ⟨vs, hvs, hv⟩ := leaves_reduce _ hty
  rw [hflat] at hus hu hvs hv
  exact eq_of_append_eq hx hy hu hv (hus.symm.trans hvs)

/-- What is in a list is a leaf of its tree. -/
theorem mem_leaves {xs : List α} {t : Tree α} (ht : ofList xs = some t) {a : α} (ha : a ∈ xs) :
    a ∈ t.leaves := by
  obtain ⟨us, hus, -⟩ := leaves_reduce _ ht
  rw [hus]
  exact List.mem_append_left us (List.mem_flatMap.mpr ⟨leaf a, List.mem_map_of_mem ha, by simp [leaves]⟩)

theorem ofList_isSome {xs : List α} (h : xs ≠ []) : (ofList xs).isSome = true := by
  have hred : ∀ ts : List (Tree α), ts ≠ [] → (reduce node ts).isSome = true := fun ts => by
    induction ts using reduce.induct node with
    | case1 => exact fun hne => absurd rfl hne
    | case2 x => exact fun _ => by rw [reduce]; rfl
    | case3 x y rest ih =>
      intro _
      rw [reduce]
      exact ih (by simp [pairUp])
  exact hred _ (by simpa using h)

end Tree

/-! ## Digests -/

section Digest

variable {α μ δ : Type*} (hash : μ → δ) (leafMessage : α → μ) (nodeMessage : δ → δ → μ)

namespace Tree

/-- The digest of a tree. -/
def digest : Tree α → δ
  | leaf a => hash (leafMessage a)
  | node l r => hash (nodeMessage l.digest r.digest)

/-- What is hashed at the top of a tree. -/
def message : Tree α → μ
  | leaf a => leafMessage a
  | node l r => nodeMessage (l.digest hash leafMessage nodeMessage)
      (r.digest hash leafMessage nodeMessage)

/-- What is hashed in a tree. -/
def messages : Tree α → Set μ
  | leaf a => {leafMessage a}
  | node l r => {message hash leafMessage nodeMessage (node l r)} ∪ l.messages ∪ r.messages

variable {hash leafMessage nodeMessage}

theorem digest_eq (t : Tree α) : t.digest hash leafMessage nodeMessage =
    hash (t.message hash leafMessage nodeMessage) := by
  cases t <;> rfl

theorem message_mem (t : Tree α) : t.message hash leafMessage nodeMessage ∈
    t.messages hash leafMessage nodeMessage := by
  cases t with
  | leaf a => rfl
  | node l r => exact .inl (.inl rfl)

/-- The leaves of a tree are hashed in it. -/
theorem leafMessage_mem {t : Tree α} {a : α} (ha : a ∈ t.leaves) :
    leafMessage a ∈ t.messages hash leafMessage nodeMessage := by
  induction t with
  | leaf b =>
    rw [List.mem_singleton.mp ha]
    rfl
  | node l r ihl ihr =>
    rcases List.mem_append.mp ha with ha | ha
    · exact .inl (.inr (ihl ha))
    · exact .inr (ihr ha)

/-- Without a collision among their messages, trees with equal digests are equal. -/
theorem digest_inj (hleaf : Function.Injective leafMessage)
    (hnode : ∀ a b a' b', nodeMessage a b = nodeMessage a' b' → a = a' ∧ b = b')
    (hkinds : ∀ x a b, leafMessage x ≠ nodeMessage a b) {t t' : Tree α}
    (hinj : Set.InjOn hash
      (t.messages hash leafMessage nodeMessage ∪ t'.messages hash leafMessage nodeMessage))
    (heq : t.digest hash leafMessage nodeMessage = t'.digest hash leafMessage nodeMessage) :
    t = t' := by
  induction t generalizing t' with
  | leaf a =>
    have hmsg := hinj (.inl (leaf a).message_mem) (.inr t'.message_mem)
      ((digest_eq _).symm.trans (heq.trans (digest_eq t')))
    cases t' with
    | leaf a' => rw [hleaf hmsg]
    | node l r => exact absurd hmsg (hkinds _ _ _)
  | node l r ihl ihr =>
    have hmsg := hinj (.inl (node l r).message_mem) (.inr t'.message_mem)
      ((digest_eq _).symm.trans (heq.trans (digest_eq t')))
    cases t' with
    | leaf a => exact absurd hmsg.symm (hkinds _ _ _)
    | node l' r' =>
      obtain ⟨hl, hr⟩ := hnode _ _ _ _ hmsg
      have hsub : ∀ {u u' : Set μ}, u ⊆ (node l r).messages hash leafMessage nodeMessage →
          u' ⊆ (node l' r').messages hash leafMessage nodeMessage → Set.InjOn hash (u ∪ u') :=
        fun hu hu' => hinj.mono (Set.union_subset_union hu hu')
      rw [ihl (hsub (fun _ hx => .inl (.inr hx)) fun _ hx => .inl (.inr hx)) hl,
        ihr (hsub (fun _ hx => .inr hx) fun _ hx => .inr hx) hr]

end Tree

/-- The root that the digests of a list reduce to is the digest of its tree. -/
theorem reduce_digest (xs : List α) :
    reduce (fun a b => hash (nodeMessage a b)) (xs.map fun x => hash (leafMessage x)) =
      (Tree.ofList xs).map (Tree.digest hash leafMessage nodeMessage) := by
  have hleaf : (xs.map fun x => hash (leafMessage x)) =
      (xs.map Tree.leaf).map (Tree.digest hash leafMessage nodeMessage) := by
    rw [List.map_map]
    rfl
  rw [hleaf, Tree.ofList]
  exact reduce_map (fun _ _ => rfl) _

end Digest

end Memplex.Lib.Merkle
