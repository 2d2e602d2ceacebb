import Memplex.Working.Scopes

/-!
# The lifecycle of working memory

What a run does with the items of the two containers: how many there are, which one makes room for
another, and when one is no longer returned. The capacity and the choice of the oldest item that is
not pinned hold in every run. An item that has expired stays in its container until some call prunes
it, and `pin` and `unpin` do not prune: they take an expired entry up again, which
`set_reference_pinned` does not. In a run in which they meet live entries only, what has expired is
never returned (`lifecycle_of_pinsLive`). The induction is over the run, with the invariants that
sequence numbers are those of past insertions (`Numbered`) and that whatever has the number of an
expired item has expired (`Gone`).
-/

namespace Memplex.Working

open Lib

/-! ## Items -/

/-- The place of an item: the key of an entry, or that of a reference. -/
abbrev Slot := String ⊕ (String × String × String)

/-- An item of either container, with what its lifecycle depends on. -/
structure Item (τ : Type) where
  slot : Slot
  sequence : ℕ
  pinned : Bool
  expiresAt : Option τ

variable {τ : Type}

/-- The item of an entry. -/
def Row.item (row : Row τ) : Item τ :=
  ⟨.inl row.key, row.sequence, row.entry.pinned, row.entry.expiresAt⟩

/-- The item of a reference. -/
def Reference.item (r : Reference τ) : Item τ :=
  ⟨.inr r.key, r.insertionSequence, r.pinned, r.expiresAt⟩

namespace Memory

/-- The items of both containers. -/
def items (m : Memory τ) : List (Item τ) :=
  m.entries.rows.map Row.item ++ m.references.rows.map Reference.item

/-- The places that are taken. -/
def slots (m : Memory τ) : List Slot := m.items.map Item.slot

/-- `len(self._entries) + len(self._references)`. -/
def size (m : Memory τ) : ℕ := m.entries.rows.length + m.references.rows.length

theorem mem_items {m : Memory τ} {item : Item τ} : item ∈ m.items ↔
    (∃ row ∈ m.entries.rows, row.item = item) ∨ ∃ r ∈ m.references.rows, r.item = item := by
  simp [items]

theorem mem_slots {m : Memory τ} {slot : Slot} :
    slot ∈ m.slots ↔ ∃ item ∈ m.items, item.slot = slot := by
  simp [slots]

/-- There is one item at a place. -/
theorem item_unique {m : Memory τ} {item item' : Item τ} (h : item ∈ m.items) (h' : item' ∈ m.items)
    (hslot : item.slot = item'.slot) : item = item' := by
  rcases mem_items.mp h with ⟨row, hrow, rfl⟩ | ⟨r, hr, rfl⟩
  · rcases mem_items.mp h' with ⟨row', hrow', rfl⟩ | ⟨r', hr', rfl⟩
    · have hkey : row.key = row'.key := Sum.inl.inj hslot
      have hget := findRow_of_mem m.entries.nodup hrow
      rw [hkey, findRow_of_mem m.entries.nodup hrow'] at hget
      rw [Option.some.inj hget]
    · exact nomatch hslot
  · rcases mem_items.mp h' with ⟨row', hrow', rfl⟩ | ⟨r', hr', rfl⟩
    · exact nomatch hslot
    · have hkey : r.key = r'.key := Sum.inr.inj hslot
      have hget := findRow_of_mem m.references.nodup hr
      rw [hkey, findRow_of_mem m.references.nodup hr'] at hget
      rw [Option.some.inj hget]

/-- Another entry is put in its place. -/
theorem mem_items_set_entry {m m' : Memory τ} {row : Row τ}
    (hentries : m'.entries = m.entries.set row)
    (hreferences : m'.references = m.references) {item : Item τ} :
    item ∈ m'.items ↔ item = row.item ∨ item ∈ m.items ∧ item.slot ≠ row.item.slot := by
  rw [mem_items, mem_items, hentries, hreferences]
  constructor
  · rintro (⟨x, hx, rfl⟩ | ⟨r, hr, rfl⟩)
    · rcases mem_upsertRow.mp hx with rfl | ⟨hx, hkey⟩
      · exact .inl rfl
      · exact .inr ⟨.inl ⟨x, hx, rfl⟩, fun h => hkey (Sum.inl.inj h)⟩
    · exact .inr ⟨.inr ⟨r, hr, rfl⟩, nofun⟩
  · rintro (rfl | ⟨⟨x, hx, rfl⟩ | ⟨r, hr, rfl⟩, hslot⟩)
    · exact .inl ⟨row, mem_upsertRow.mpr (.inl rfl), rfl⟩
    · exact .inl ⟨x, mem_upsertRow.mpr (.inr ⟨hx, fun h => hslot (congrArg Sum.inl h)⟩), rfl⟩
    · exact .inr ⟨r, hr, rfl⟩

/-- Another reference is put in its place. -/
theorem mem_items_set_reference {m m' : Memory τ} {r : Reference τ}
    (hentries : m'.entries = m.entries)
    (hreferences : m'.references = m.references.set r) {item : Item τ} :
    item ∈ m'.items ↔ item = r.item ∨ item ∈ m.items ∧ item.slot ≠ r.item.slot := by
  rw [mem_items, mem_items, hentries, hreferences]
  constructor
  · rintro (⟨row, hrow, rfl⟩ | ⟨x, hx, rfl⟩)
    · exact .inr ⟨.inl ⟨row, hrow, rfl⟩, nofun⟩
    · rcases mem_upsertRow.mp hx with rfl | ⟨hx, hkey⟩
      · exact .inl rfl
      · exact .inr ⟨.inr ⟨x, hx, rfl⟩, fun h => hkey (Sum.inr.inj h)⟩
  · rintro (rfl | ⟨⟨row, hrow, rfl⟩ | ⟨x, hx, rfl⟩, hslot⟩)
    · exact .inr ⟨r, mem_upsertRow.mpr (.inl rfl), rfl⟩
    · exact .inl ⟨row, hrow, rfl⟩
    · exact .inr ⟨x, mem_upsertRow.mpr (.inr ⟨hx, fun h => hslot (congrArg Sum.inr h)⟩), rfl⟩

/-- What is taken away from one place. -/
theorem mem_items_erase_entry (m : Memory τ) (key : String) (item : Item τ) :
    item ∈ ({ m with entries := m.entries.erase key } : Memory τ).items ↔
      item ∈ m.items ∧ item.slot ≠ .inl key := by
  rw [mem_items, mem_items]
  constructor
  · rintro (⟨x, hx, rfl⟩ | ⟨r, hr, rfl⟩)
    · obtain ⟨hx, hkey⟩ := mem_eraseRow.mp hx
      exact ⟨.inl ⟨x, hx, rfl⟩, fun h => hkey (Sum.inl.inj h)⟩
    · exact ⟨.inr ⟨r, hr, rfl⟩, nofun⟩
  · rintro ⟨⟨x, hx, rfl⟩ | ⟨r, hr, rfl⟩, hslot⟩
    · exact .inl ⟨x, mem_eraseRow.mpr ⟨hx, fun h => hslot (congrArg Sum.inl h)⟩, rfl⟩
    · exact .inr ⟨r, hr, rfl⟩

theorem mem_items_erase_reference (m : Memory τ) (key : String × String × String)
    (item : Item τ) : item ∈ ({ m with references := m.references.erase key } : Memory τ).items ↔
      item ∈ m.items ∧ item.slot ≠ .inr key := by
  rw [mem_items, mem_items]
  constructor
  · rintro (⟨row, hrow, rfl⟩ | ⟨x, hx, rfl⟩)
    · exact ⟨.inl ⟨row, hrow, rfl⟩, nofun⟩
    · obtain ⟨hx, hkey⟩ := mem_eraseRow.mp hx
      exact ⟨.inr ⟨x, hx, rfl⟩, fun h => hkey (Sum.inr.inj h)⟩
  · rintro ⟨⟨row, hrow, rfl⟩ | ⟨x, hx, rfl⟩, hslot⟩
    · exact .inl ⟨row, hrow, rfl⟩
    · exact .inr ⟨x, mem_eraseRow.mpr ⟨hx, fun h => hslot (congrArg Sum.inr h)⟩, rfl⟩

/-- Pruning drops what has expired. -/
theorem mem_items_prune {clock : Clock τ} {now : τ} {m : Memory τ} {item : Item τ} :
    item ∈ (m.prune clock now).items ↔
      item ∈ m.items ∧ expired clock now item.expiresAt = false := by
  rw [mem_items, mem_items]
  constructor
  · rintro (⟨row, hrow, rfl⟩ | ⟨r, hr, rfl⟩)
    · obtain ⟨hrow, hlive⟩ := List.mem_filter.mp hrow
      exact ⟨.inl ⟨row, hrow, rfl⟩, (Bool.not_eq_true' _).mp hlive⟩
    · obtain ⟨hr, hlive⟩ := List.mem_filter.mp hr
      exact ⟨.inr ⟨r, hr, rfl⟩, (Bool.not_eq_true' _).mp hlive⟩
  · rintro ⟨⟨row, hrow, rfl⟩ | ⟨r, hr, rfl⟩, hlive⟩
    · exact .inl ⟨row, List.mem_filter.mpr ⟨hrow, (Bool.not_eq_true' _).mpr hlive⟩, rfl⟩
    · exact .inr ⟨r, List.mem_filter.mpr ⟨hr, (Bool.not_eq_true' _).mpr hlive⟩, rfl⟩

theorem size_prune (clock : Clock τ) (now : τ) (m : Memory τ) : (m.prune clock now).size ≤ m.size :=
  Nat.add_le_add (List.length_filter_le ..) (List.length_filter_le ..)

/-! ## Making room -/

/-- The oldest of some items that are not pinned. -/
structure Oldest (m : Memory τ) (victim : Item τ) : Prop where
  mem : victim ∈ m.items
  unpinned : victim.pinned = false
  le : ∀ other ∈ m.items, other.pinned = false → victim.sequence ≤ other.sequence

/-- The oldest entry and the oldest reference bound what is not pinned. -/
theorem oldest_entry {m : Memory τ} {row : Row τ} (h : m.oldestLegacy = some row) :
    row ∈ m.entries.rows ∧ row.entry.pinned = false ∧
      ∀ x ∈ m.entries.rows, x.entry.pinned = false → row.sequence ≤ x.sequence := by
  have hmem := List.argmin_mem h
  obtain ⟨hrow, hpinned⟩ := List.mem_filter.mp hmem
  refine ⟨hrow, (Bool.not_eq_true' _).mp hpinned, fun x hx hfree => ?_⟩
  exact List.le_of_mem_argmin (List.mem_filter.mpr ⟨hx, (Bool.not_eq_true' _).mpr hfree⟩) h

theorem oldest_reference {m : Memory τ} {r : Reference τ} (h : m.oldestReference = some r) :
    r ∈ m.references.rows ∧ r.pinned = false ∧
      ∀ x ∈ m.references.rows, x.pinned = false → r.insertionSequence ≤ x.insertionSequence := by
  have hmem := List.argmin_mem h
  obtain ⟨hr, hpinned⟩ := List.mem_filter.mp hmem
  refine ⟨hr, (Bool.not_eq_true' _).mp hpinned, fun x hx hfree => ?_⟩
  exact List.le_of_mem_argmin (List.mem_filter.mpr ⟨hx, (Bool.not_eq_true' _).mpr hfree⟩) h

/-- Where there is no oldest entry, every entry is pinned. -/
theorem oldest_entry_none {m : Memory τ} (h : m.oldestLegacy = none) :
    ∀ x ∈ m.entries.rows, x.entry.pinned = true := by
  intro x hx
  by_contra hfree
  have hempty := List.argmin_eq_none.mp h
  rw [List.filter_eq_nil_iff] at hempty
  exact hempty x hx (by simpa using hfree)

theorem oldest_reference_none {m : Memory τ} (h : m.oldestReference = none) :
    ∀ x ∈ m.references.rows, x.pinned = true := by
  intro x hx
  by_contra hfree
  have hempty := List.argmin_eq_none.mp h
  rw [List.filter_eq_nil_iff] at hempty
  exact hempty x hx (by simpa using hfree)

/-- An item goes, and nothing else. -/
structure Drops (m : Memory τ) (victim : Item τ) (room : Memory τ) : Prop where
  items : ∀ item, item ∈ room.items ↔ item ∈ m.items ∧ item.slot ≠ victim.slot
  size : room.size < m.size
  maxEntries : room.maxEntries = m.maxEntries
  insertionSequence : room.insertionSequence = m.insertionSequence

theorem drops_entry {m : Memory τ} {row : Row τ} (h : row ∈ m.entries.rows) :
    m.Drops row.item { m with entries := m.entries.erase row.key } where
  items := mem_items_erase_entry m row.key
  size := Nat.add_lt_add_right (length_eraseRow h) _
  maxEntries := rfl
  insertionSequence := rfl

theorem drops_reference {m : Memory τ} {r : Reference τ} (h : r ∈ m.references.rows) :
    m.Drops r.item { m with references := m.references.erase r.key } where
  items := mem_items_erase_reference m r.key
  size := Nat.add_lt_add_left (length_eraseRow h) _
  maxEntries := rfl
  insertionSequence := rfl

/-- `_make_room_locked`: there is room, or the oldest item that is not pinned goes. -/
theorem makeRoom_some {m room : Memory τ} (h : m.makeRoom = some room) :
    room = m ∧ m.size < m.maxEntries ∨ ∃ victim, m.Oldest victim ∧ m.Drops victim room := by
  unfold makeRoom at h
  split_ifs at h with hroom
  · exact .inl ⟨(Option.some.inj h).symm, hroom⟩
  · refine .inr ?_
    cases hl : m.oldestLegacy with
    | none =>
      have hentries := oldest_entry_none hl
      cases hr : m.oldestReference with
      | none =>
        rw [hl, hr] at h
        cases h
      | some r =>
        obtain ⟨hmem, hpinned, hle⟩ := oldest_reference hr
        rw [hl, hr] at h
        refine ⟨r.item, ⟨mem_items.mpr (.inr ⟨r, hmem, rfl⟩), hpinned, fun other ho hfree => ?_⟩,
          Option.some.inj h ▸ drops_reference hmem⟩
        rcases mem_items.mp ho with ⟨x, hx, rfl⟩ | ⟨x, hx, rfl⟩
        · exact Bool.noConfusion ((hentries x hx).symm.trans hfree)
        · exact hle x hx hfree
    | some row =>
      obtain ⟨hrow, hrowFree, hrowLe⟩ := oldest_entry hl
      cases hr : m.oldestReference with
      | none =>
        have hreferences := oldest_reference_none hr
        rw [hl, hr] at h
        refine ⟨row.item, ⟨mem_items.mpr (.inl ⟨row, hrow, rfl⟩), hrowFree,
          fun other ho hfree => ?_⟩, Option.some.inj h ▸ drops_entry hrow⟩
        rcases mem_items.mp ho with ⟨x, hx, rfl⟩ | ⟨x, hx, rfl⟩
        · exact hrowLe x hx hfree
        · exact Bool.noConfusion ((hreferences x hx).symm.trans hfree)
      | some r =>
        obtain ⟨hmem, hpinned, hle⟩ := oldest_reference hr
        rw [hl, hr] at h
        dsimp only at h
        split_ifs at h with hlt
        · refine ⟨r.item, ⟨mem_items.mpr (.inr ⟨r, hmem, rfl⟩), hpinned, fun other ho hfree => ?_⟩,
            Option.some.inj h ▸ drops_reference hmem⟩
          rcases mem_items.mp ho with ⟨x, hx, rfl⟩ | ⟨x, hx, rfl⟩
          · exact hlt.le.trans (hrowLe x hx hfree)
          · exact hle x hx hfree
        · refine ⟨row.item, ⟨mem_items.mpr (.inl ⟨row, hrow, rfl⟩), hrowFree,
            fun other ho hfree => ?_⟩, Option.some.inj h ▸ drops_entry hrow⟩
          rcases mem_items.mp ho with ⟨x, hx, rfl⟩ | ⟨x, hx, rfl⟩
          · exact hrowLe x hx hfree
          · exact (not_lt.mp hlt).trans (hle x hx hfree)

/-! ## Putting an item in its place -/

/-- An item is put in its place, in a memory that has the place or gets room for it. -/
structure Puts (m : Memory τ) (item : Item τ) (m' : Memory τ) : Prop where
  sequence : item.sequence = m.insertionSequence + 1
  insertionSequence : m'.insertionSequence = m.insertionSequence + 1
  maxEntries : m'.maxEntries = m.maxEntries
  size : m.size ≤ m.maxEntries → m'.size ≤ m.maxEntries
  items : ∀ x ∈ m'.items, x = item ∨ x ∈ m.items
  /-- What is no longer there made room. -/
  gone : ∀ x ∈ m.items, x.slot ∉ m'.slots → m.Oldest x

/-- The last step of the two methods that add: `there` says whether the place is taken. -/
theorem puts_of_room {m m' : Memory τ} {item : Item τ} (there : Bool) (room : Memory τ)
    (hroom : (if there then some m else m.makeRoom) = some room)
    (hthere : there = true ↔ item.slot ∈ m.slots)
    (hsequence : item.sequence = room.insertionSequence + 1)
    (hnext : m'.insertionSequence = room.insertionSequence + 1)
    (hmax : m'.maxEntries = room.maxEntries)
    (hgrows : m'.size ≤ room.size + 1) (hsame : item.slot ∈ room.slots → m'.size = room.size)
    (hitems : ∀ x, x ∈ m'.items ↔ x = item ∨ x ∈ room.items ∧ x.slot ≠ item.slot) :
    m.Puts item m' := by
  have hplace : item.slot ∈ m'.slots := mem_slots.mpr ⟨item, (hitems item).mpr (.inl rfl), rfl⟩
  have hstays : ∀ x ∈ room.items, x.slot ∈ m'.slots := by
    intro x hx
    by_cases hslot : x.slot = item.slot
    · rwa [hslot]
    · exact mem_slots.mpr ⟨x, (hitems x).mpr (.inr ⟨hx, hslot⟩), rfl⟩
  -- Where no room has to be made, nothing goes.
  have hfits : room = m → (item.slot ∈ m.slots ∨ m.size < m.maxEntries) → m.Puts item m' := by
    rintro rfl hfree
    refine ⟨hsequence, hnext, hmax, fun hle => ?_, fun x hx => ?_, fun x hx hgone => ?_⟩
    · rcases hfree with hslot | hlt
      · exact (hsame hslot).le.trans hle
      · exact hgrows.trans hlt
    · exact ((hitems x).mp hx).imp_right And.left
    · exact absurd (hstays x hx) hgone
  cases htaken : there with
  | true =>
    rw [htaken, if_pos rfl] at hroom
    exact hfits (Option.some.inj hroom).symm (.inl (hthere.mp htaken))
  | false =>
    rw [htaken, if_neg Bool.false_ne_true] at hroom
    rcases makeRoom_some hroom with ⟨rfl, hlt⟩ | ⟨victim, holdest, hdrops⟩
    · exact hfits rfl (.inr hlt)
    · rw [hdrops.insertionSequence] at hsequence hnext
      rw [hdrops.maxEntries] at hmax
      refine ⟨hsequence, hnext, hmax, fun hle => ?_, fun x hx => ?_, fun x hx hgone => ?_⟩
      · have hlt := hdrops.size
        omega
      · exact ((hitems x).mp hx).imp_right fun h => ((hdrops.items x).mp h.1).1
      · by_cases hslot : x.slot = victim.slot
        · rwa [item_unique hx holdest.mem hslot]
        · exact absurd (hstays x ((hdrops.items x).mpr ⟨hx, hslot⟩)) hgone

theorem entry_mem_slots {m : Memory τ} {key : String} :
    .inl key ∈ m.slots ↔ ∃ row ∈ m.entries.rows, row.key = key := by
  rw [mem_slots]
  constructor
  · rintro ⟨item, hitem, hslot⟩
    rcases mem_items.mp hitem with ⟨row, hrow, rfl⟩ | ⟨r, hr, rfl⟩
    · exact ⟨row, hrow, Sum.inl.inj hslot⟩
    · exact nomatch hslot
  · rintro ⟨row, hrow, rfl⟩
    exact ⟨row.item, mem_items.mpr (.inl ⟨row, hrow, rfl⟩), rfl⟩

theorem reference_mem_slots {m : Memory τ} {key : String × String × String} :
    .inr key ∈ m.slots ↔ ∃ r ∈ m.references.rows, r.key = key := by
  rw [mem_slots]
  constructor
  · rintro ⟨item, hitem, hslot⟩
    rcases mem_items.mp hitem with ⟨row, hrow, rfl⟩ | ⟨r, hr, rfl⟩
    · exact nomatch hslot
    · exact ⟨r, hr, Sum.inr.inj hslot⟩
  · rintro ⟨r, hr, rfl⟩
    exact ⟨r.item, mem_items.mpr (.inr ⟨r, hr, rfl⟩), rfl⟩

variable (clock : Clock τ)

/-- `add` changes nothing, or prunes, or puts its entry in its place of the pruned memory. -/
theorem add_effect (m : Memory τ) (call : AddCall τ) :
    m.add clock call = m ∨ m.add clock call = m.prune clock call.pruneNow ∨
      ∃ item : Item τ, item.slot = .inl call.scopedKey ∧
        (m.prune clock call.pruneNow).Puts item (m.add clock call) := by
  cases hroom : m.roomFor clock call with
  | none =>
    rw [add, hroom]
    dsimp only
    split_ifs
    · exact .inl rfl
    · exact .inr (.inl rfl)
  | some room =>
    refine .inr (.inr ⟨(room.newRow clock call).item, rfl, ?_⟩)
    have hplace : (m.prune clock call.pruneNow).entries.contains call.scopedKey = true ↔
        .inl call.scopedKey ∈ (m.prune clock call.pruneNow).slots := by
      rw [entry_mem_slots]
      exact findRow_isSome
    have hadd : m.add clock call = { room with
        entries := room.entries.set (room.newRow clock call)
        insertionSequence := room.insertionSequence + 1 } := by
      rw [add, hroom]
    have hlength : (m.add clock call).entries.rows.length = room.entries.rows.length +
        if ∃ x ∈ room.entries.rows, x.key = call.scopedKey then 0 else 1 := by
      rw [hadd]
      exact length_upsertRow
    have hreferences : (m.add clock call).references = room.references := by rw [hadd]
    have hgiven : ¬ (call.key = "" ∨ call.content = "") := by
      intro hempty
      rw [roomFor, if_pos hempty] at hroom
      cases hroom
    rw [roomFor, if_neg hgiven] at hroom
    refine puts_of_room _ room hroom hplace rfl ?_ ?_ ?_ ?_ fun x => ?_
    · rw [hadd]
    · rw [hadd]
    · rw [size, size, hlength, hreferences]
      split_ifs <;> omega
    · intro hslot
      have hthere : ∃ x ∈ room.entries.rows, x.key = call.scopedKey := entry_mem_slots.mp hslot
      rw [size, size, hlength, hreferences, if_pos hthere, Nat.add_zero]
    · exact mem_items_set_entry (by rw [hadd]) hreferences

/-- `add_reference` does the same. -/
theorem addReference_effect (m : Memory τ) (memoryId storageNamespace tenantId : String)
    (pinned : Bool) (ttlSeconds : Option τ) (pruneNow deadlineNow : τ) :
    (m.addReference clock memoryId storageNamespace tenantId pinned ttlSeconds pruneNow
        deadlineNow).1 = m ∨
      (m.addReference clock memoryId storageNamespace tenantId pinned ttlSeconds pruneNow
        deadlineNow).1 = m.prune clock pruneNow ∨
      ∃ item : Item τ, item.slot = .inr (storageNamespace, tenantId, memoryId) ∧
        (m.prune clock pruneNow).Puts item
          (m.addReference clock memoryId storageNamespace tenantId pinned ttlSeconds pruneNow
            deadlineNow).1 := by
  unfold addReference
  by_cases hempty : memoryId = "" ∨ storageNamespace = "" ∨ tenantId = ""
  · rw [if_pos hempty]
    exact .inl rfl
  · rw [if_neg hempty]
    dsimp only
    split
    · exact .inr (.inl rfl)
    · next room hroom =>
      have hplace : (m.prune clock pruneNow).references.contains
          (storageNamespace, tenantId, memoryId) = true ↔
          .inr (storageNamespace, tenantId, memoryId) ∈ (m.prune clock pruneNow).slots := by
        rw [reference_mem_slots]
        exact findRow_isSome
      generalize hr : (⟨storageNamespace, tenantId, memoryId, _, pinned, _,
        room.insertionSequence + 1⟩ : Reference τ) = r
      have hkey : r.key = (storageNamespace, tenantId, memoryId) := by rw [← hr]; rfl
      have hslot : r.item.slot = .inr (storageNamespace, tenantId, memoryId) :=
        congrArg Sum.inr hkey
      refine .inr (.inr ⟨r.item, hslot, ?_⟩)
      have hlength : (room.references.set r).rows.length = room.references.rows.length +
          if ∃ x ∈ room.references.rows, x.key = r.key then 0 else 1 := length_upsertRow
      refine puts_of_room _ room hroom (hslot ▸ hplace) ?_ rfl rfl ?_ ?_ fun x => ?_
      · rw [← hr]
        rfl
      · change room.entries.rows.length + (room.references.set r).rows.length ≤ room.size + 1
        rw [hlength, size]
        split_ifs <;> omega
      · intro hthere
        have hthere : ∃ x ∈ room.references.rows, x.key = r.key := by
          rw [hkey]
          exact reference_mem_slots.mp (hslot ▸ hthere)
        change room.entries.rows.length + (room.references.set r).rows.length = room.size
        rw [hlength, if_pos hthere, Nat.add_zero, size]
      · exact mem_items_set_reference (m := room) (by rfl) (by rfl)

end Memory

/-! ## One call -/

namespace Call

/-- The reading of the clock for which a call prunes. -/
def pruneNow : Call τ → Option τ
  | .add call => some call.pruneNow
  | .addReference _ _ _ _ _ pruneNow _ => some pruneNow
  | .recallReferences _ _ _ now => some now
  | .setReferencePinned _ _ _ _ _ pruneNow _ => some pruneNow
  | .recallContext _ _ _ now => some now
  | .len now => some now
  | .pin _ | .unpin _ _ _ | .removeReference _ _ _ | .remove _ | .clear => none

/-- The place in which a call puts a new item. -/
def adds : Call τ → Option Slot
  | .add call => some (.inl call.scopedKey)
  | .addReference memoryId storageNamespace tenantId _ _ _ _ =>
    some (.inr (storageNamespace, tenantId, memoryId))
  | _ => none

/-- The place whose item a call pins, or takes the pin from. -/
def repins : Call τ → Option Slot
  | .pin key => some (.inl key)
  | .unpin key _ _ => some (.inl key)
  | .setReferencePinned memoryId storageNamespace tenantId _ _ _ _ =>
    some (.inr (storageNamespace, tenantId, memoryId))
  | _ => none

/-- A call that takes the item away from a place. -/
def removes : Call τ → Slot → Prop
  | .remove key, slot => slot = .inl key
  | .removeReference memoryId storageNamespace tenantId, slot =>
    slot = .inr (storageNamespace, tenantId, memoryId)
  | .clear, _ => True
  | _, _ => False

/-- An item that the call does not find expired when it prunes. -/
def Spares (clock : Clock τ) (call : Call τ) (item : Item τ) : Prop :=
  ∀ now ∈ call.pruneNow, Memory.expired clock now item.expiresAt = false

end Call

/-- A call evicts an item that it neither prunes nor removes. -/
structure Evicted (clock : Clock τ) (m : Memory τ) (call : Call τ) (item : Item τ) : Prop where
  mem : item ∈ m.items
  spared : call.Spares clock item
  kept : ¬ call.removes item.slot
  gone : item.slot ∉ (m.apply clock call).slots

/-- The oldest item that is not pinned, of those that a call does not prune. -/
def OldestSpared (clock : Clock τ) (m : Memory τ) (call : Call τ) (item : Item τ) : Prop :=
  item.pinned = false ∧ ∀ other ∈ m.items, other.pinned = false → call.Spares clock other →
    item.sequence ≤ other.sequence

/-- What a call does. -/
structure Step (clock : Clock τ) (m : Memory τ) (call : Call τ) (m' : Memory τ) : Prop where
  maxEntries : m'.maxEntries = m.maxEntries
  size : m.size ≤ m.maxEntries → m'.size ≤ m'.maxEntries
  insertionSequence : m.insertionSequence ≤ m'.insertionSequence
  /-- An item that is there was there, or is new, or was pinned or unpinned. -/
  items : ∀ item ∈ m'.items, item ∈ m.items ∨
    (call.adds = some item.slot ∧ item.sequence = m.insertionSequence + 1 ∧
      m'.insertionSequence = m.insertionSequence + 1) ∨
    ∃ old ∈ m.items, old.slot = item.slot ∧ old.sequence = item.sequence ∧
      call.repins = some old.slot ∧ call.Spares clock old
  evicted : ∀ item ∈ m.items, call.Spares clock item → ¬ call.removes item.slot →
    item.slot ∉ m'.slots → OldestSpared clock m call item

section Step

variable {clock : Clock τ} {m m' : Memory τ} {call : Call τ}

/-- A call that at most prunes. -/
theorem step_prune {now : τ} (hnow : call.pruneNow = some now) :
    Step clock m call (m.prune clock now) where
  maxEntries := rfl
  size h := (Memory.size_prune clock now m).trans h
  insertionSequence := le_rfl
  items item hitem := .inl (Memory.mem_items_prune.mp hitem).1
  evicted item hitem hspared _ hgone := by
    refine absurd (Memory.mem_slots.mpr ⟨item, Memory.mem_items_prune.mpr ⟨hitem, ?_⟩, rfl⟩) hgone
    exact hspared now hnow

theorem step_same : Step clock m call m where
  maxEntries := rfl
  size h := h
  insertionSequence := le_rfl
  items _ hitem := .inl hitem
  evicted item hitem _ _ hgone := absurd (Memory.mem_slots.mpr ⟨item, hitem, rfl⟩) hgone

/-- A call that puts an item in its place of the pruned memory. -/
theorem step_puts {now : τ} (hnow : call.pruneNow = some now) {item : Item τ}
    (hadds : call.adds = some item.slot) (h : (m.prune clock now).Puts item m') :
    Step clock m call m' where
  maxEntries := h.maxEntries
  size hle := h.maxEntries ▸ h.size ((Memory.size_prune clock now m).trans hle)
  insertionSequence := h.insertionSequence ▸ Nat.le_succ _
  items x hx := by
    rcases h.items x hx with rfl | hx
    · exact .inr (.inl ⟨hadds, h.sequence, h.insertionSequence⟩)
    · exact .inl (Memory.mem_items_prune.mp hx).1
  evicted x hx hspared _ hgone := by
    have hlive : ∀ y ∈ m.items, call.Spares clock y → y ∈ (m.prune clock now).items :=
      fun y hy hs => Memory.mem_items_prune.mpr ⟨hy, hs now hnow⟩
    have holdest := h.gone x (hlive x hx hspared) hgone
    exact ⟨holdest.unpinned, fun y hy hfree hs => holdest.le y (hlive y hy hs) hfree⟩

/-- A call that takes items away. -/
theorem step_removes (hmax : m'.maxEntries = m.maxEntries) (hsize : m'.size ≤ m.size)
    (hsequence : m'.insertionSequence = m.insertionSequence)
    (hitems : ∀ item ∈ m'.items, item ∈ m.items)
    (hkept : ∀ item ∈ m.items, ¬ call.removes item.slot → item ∈ m'.items) :
    Step clock m call m' where
  maxEntries := hmax
  size h := hmax ▸ hsize.trans h
  insertionSequence := hsequence.ge
  items item hitem := .inl (hitems item hitem)
  evicted item hitem _ hstays hgone :=
    absurd (Memory.mem_slots.mpr ⟨item, hkept item hitem hstays, rfl⟩) hgone

/-- A call that pins an item, or takes its pin. -/
theorem step_repins {p : Memory τ} {old item : Item τ} (hp : Step clock m call p)
    (hold : old ∈ m.items) (hspared : call.Spares clock old) (hrepins : call.repins = some old.slot)
    (hslot : old.slot = item.slot) (hsequence : old.sequence = item.sequence)
    (hmax : m'.maxEntries = p.maxEntries) (hsize : m'.size = p.size)
    (hnext : m'.insertionSequence = p.insertionSequence)
    (hitems : ∀ x, x ∈ m'.items ↔ x = item ∨ x ∈ p.items ∧ x.slot ≠ item.slot) :
    Step clock m call m' where
  maxEntries := hmax.trans hp.maxEntries
  size h := by
    rw [hmax, hsize]
    exact hp.size h
  insertionSequence := hnext ▸ hp.insertionSequence
  items x hx := by
    rcases (hitems x).mp hx with rfl | ⟨hx, -⟩
    · exact .inr (.inr ⟨old, hold, hslot, hsequence, hrepins, hspared⟩)
    · rw [hnext]
      exact hp.items x hx
  evicted x hx hs hstays hgone := by
    refine hp.evicted x hx hs hstays fun hthere => hgone ?_
    obtain ⟨y, hy, hyx⟩ := Memory.mem_slots.mp hthere
    by_cases hplace : y.slot = item.slot
    · exact Memory.mem_slots.mpr ⟨item, (hitems item).mpr (.inl rfl), hplace.symm.trans hyx⟩
    · exact Memory.mem_slots.mpr ⟨y, (hitems y).mpr (.inr ⟨hy, hplace⟩), hyx⟩

/-- An entry is changed in its place. -/
theorem step_update {key : String} {change : Entry τ → Entry τ}
    (hrepins : call.repins = some (.inl key)) (hprunes : call.pruneNow = none) :
    Step clock m call (m.update key change).1 := by
  unfold Memory.update
  cases hget : m.entries.get? key with
  | none => exact step_same
  | some row =>
    obtain ⟨hrow, hkey⟩ := findRow_some hget
    dsimp only
    generalize hnew : ({ row with entry := change row.entry } : Row τ) = new
    have hsame : new.key = row.key ∧ new.sequence = row.sequence := by rw [← hnew]; exact ⟨rfl, rfl⟩
    have hslot : row.item.slot = new.item.slot := congrArg Sum.inl hsame.1.symm
    have hspared : call.Spares clock row.item := by
      intro now hnow
      rw [hprunes] at hnow
      cases hnow
    refine step_repins step_same (Memory.mem_items.mpr (.inl ⟨row, hrow, rfl⟩)) hspared
      (hrepins.trans (congrArg (some ∘ Sum.inl) hkey.symm)) hslot hsame.2.symm rfl ?_ rfl
      fun x => Memory.mem_items_set_entry (by rfl) (by rfl)
    refine congrArg (· + m.references.rows.length) (length_upsertRow.trans ?_)
    rw [if_pos ⟨row, hrow, hsame.1.symm⟩, Nat.add_zero]

/-- What every call does. -/
theorem step_apply (clock : Clock τ) (m : Memory τ) (call : Call τ) :
    Step clock m call (m.apply clock call) := by
  cases call with
  | add call =>
    change Step clock m (.add call) (m.add clock call)
    rcases Memory.add_effect clock m call with heq | heq | ⟨item, hslot, hputs⟩
    · rw [heq]
      exact step_same
    · rw [heq]
      exact step_prune rfl
    · exact step_puts rfl (congrArg some hslot.symm) hputs
  | addReference memoryId storageNamespace tenantId pinned ttlSeconds pruneNow deadlineNow =>
    rw [Memory.apply]
    rcases Memory.addReference_effect clock m memoryId storageNamespace tenantId pinned ttlSeconds
      pruneNow deadlineNow with heq | heq | ⟨item, hslot, hputs⟩
    · rw [heq]
      exact step_same
    · rw [heq]
      exact step_prune rfl
    · exact step_puts rfl (congrArg some hslot.symm) hputs
  | recallReferences storageNamespace tenantId limit now => exact step_prune rfl
  | removeReference memoryId storageNamespace tenantId =>
    have hitems := Memory.mem_items_erase_reference m (storageNamespace, tenantId, memoryId)
    refine step_removes rfl ?_ rfl (fun item hitem => ((hitems item).mp hitem).1)
      fun item hitem hstays => (hitems item).mpr ⟨hitem, hstays⟩
    exact Nat.add_le_add_left (List.length_filter_le ..) _
  | setReferencePinned memoryId storageNamespace tenantId pinned ttlSeconds pruneNow deadlineNow =>
    unfold Memory.apply Memory.setReferencePinned
    dsimp only
    cases hget : (m.prune clock pruneNow).references.get?
      (storageNamespace, tenantId, memoryId) with
    | none => exact step_prune rfl
    | some r =>
      obtain ⟨hr, hkey⟩ := findRow_some hget
      have hitem : r.item ∈ (m.prune clock pruneNow).items :=
        Memory.mem_items.mpr (.inr ⟨r, hr, rfl⟩)
      obtain ⟨hold, hlive⟩ := Memory.mem_items_prune.mp hitem
      dsimp only
      generalize hnew :
        ({ r with ttlSeconds := _, pinned := pinned, expiresAt := _ } : Reference τ) = new
      have hsame : new.key = r.key ∧ new.insertionSequence = r.insertionSequence := by
        rw [← hnew]
        exact ⟨rfl, rfl⟩
      have hslot : r.item.slot = new.item.slot := congrArg Sum.inr hsame.1.symm
      refine step_repins (step_prune rfl) hold (fun now hnow => Option.some.inj hnow ▸ hlive)
        (congrArg (some ∘ Sum.inr) hkey.symm) hslot hsame.2.symm rfl ?_ rfl fun x =>
        Memory.mem_items_set_reference (by rfl) (by rfl)
      refine congrArg ((m.prune clock pruneNow).entries.rows.length + ·) (length_upsertRow.trans ?_)
      rw [if_pos ⟨r, hr, hsame.1.symm⟩, Nat.add_zero]
  | pin key => exact step_update rfl rfl
  | unpin key ttlSeconds now => exact step_update rfl rfl
  | remove key =>
    have hitems := Memory.mem_items_erase_entry m key
    refine step_removes rfl ?_ rfl (fun item hitem => ((hitems item).mp hitem).1)
      fun item hitem hstays => (hitems item).mpr ⟨hitem, hstays⟩
    exact Nat.add_le_add_right (List.length_filter_le ..) _
  | clear =>
    exact step_removes rfl (Nat.zero_le _) rfl (fun _ h => (List.not_mem_nil h).elim)
      fun _ _ h => (h trivial).elim
  | recallContext limit scope acl now => exact step_prune rfl
  | len now => exact step_prune rfl

end Step

/-! ## Runs -/

/-- The readings of the clock in a call, in their order. -/
def Call.readings : Call τ → List τ
  | .add call => [call.deadlineNow, call.createdNow, call.pruneNow]
  | .addReference _ _ _ _ _ pruneNow deadlineNow => [pruneNow, deadlineNow]
  | .recallReferences _ _ _ now => [now]
  | .setReferencePinned _ _ _ _ _ pruneNow deadlineNow => [pruneNow, deadlineNow]
  | .unpin _ _ now => [now]
  | .recallContext _ _ _ now => [now]
  | .len now => [now]
  | .removeReference _ _ _ | .pin _ | .remove _ | .clear => []

/-- A call at its moment: not every method reads the clock. -/
structure TimedCall (τ : Type) where
  moment : τ
  call : Call τ

/-- The moment of a call, and its readings. -/
def TimedCall.readings (timed : TimedCall τ) : List τ := timed.moment :: timed.call.readings

namespace Memory

variable (clock : Clock τ)

/-- The memory after a run of calls at their moments. -/
def execTimed (m : Memory τ) (run : List (TimedCall τ)) : Memory τ :=
  m.exec clock (run.map TimedCall.call)

/-- The references that `recall_references` returns the ids of. -/
def recalledReferences (m : Memory τ) (storageNamespace tenantId : String) (limit : ℤ) (now : τ) :
    List (Reference τ) :=
  let references := (m.prune clock now).references.rows.filter fun r =>
    r.storageNamespace = storageNamespace ∧ r.tenantId = tenantId
  (references.mergeSort fun a b => b.insertionSequence ≤ a.insertionSequence).take limit.toNat

theorem recallReferences_eq (m : Memory τ) (storageNamespace tenantId : String) (limit : ℤ)
    (now : τ) : (m.recallReferences clock storageNamespace tenantId limit now).2 =
      (m.recalledReferences clock storageNamespace tenantId limit now).map Reference.memoryId := rfl

/-- The items that a call returns. -/
def returned (m : Memory τ) : Call τ → List (Item τ)
  | .recallContext limit scope acl now => (m.recalled clock limit scope acl now).map Row.item
  | .recallReferences storageNamespace tenantId limit now =>
    (m.recalledReferences clock storageNamespace tenantId limit now).map Reference.item
  | _ => []

end Memory

/-- The lifecycle of the items in a run from `m`. A number stands for one item: whatever is added
anew gets another. -/
structure Lifecycle (clock : Clock τ) (m : Memory τ) (run : List (TimedCall τ)) : Prop where
  capped : ∀ before after, run = before ++ after → (m.execTimed clock before).size ≤ m.maxEntries
  numbered : ∀ before after, run = before ++ after → ∀ item ∈ (m.execTimed clock before).items,
    ∀ item' ∈ (m.execTimed clock before).items, item.sequence = item'.sequence → item = item'
  /-- What is evicted is the oldest item that is not pinned. -/
  evicts : ∀ before timed after, run = before ++ timed :: after → ∀ item,
    Evicted clock (m.execTimed clock before) timed.call item →
      OldestSpared clock (m.execTimed clock before) timed.call item
  /-- What has expired is not returned from then on. -/
  expires : ∀ before between timed after, run = before ++ (between ++ timed :: after) →
    ∀ now, (∀ reading ∈ (between ++ [timed]).flatMap TimedCall.readings,
      clock.le now reading = true) →
    ∀ item ∈ (m.execTimed clock before).items, Memory.expired clock now item.expiresAt = true →
    ∀ returned ∈ (m.execTimed clock (before ++ between)).returned clock timed.call,
      returned.sequence ≠ item.sequence

/-- In a run from `m`, no call of `pin` or `unpin` meets an entry that has expired. -/
def PinsLive (clock : Clock τ) (m : Memory τ) (run : List (TimedCall τ)) : Prop :=
  ∀ before timed after, run = before ++ timed :: after →
    ∀ row ∈ (m.execTimed clock before).entries.rows,
      (timed.call = .pin row.key ∨ ∃ ttlSeconds now, timed.call = .unpin row.key ttlSeconds now) →
        Memory.expired clock timed.moment row.entry.expiresAt = false

section Runs

variable {clock : Clock τ} {m : Memory τ}

theorem execTimed_cons (timed : TimedCall τ) (run : List (TimedCall τ)) :
    m.execTimed clock (timed :: run) = (m.apply clock timed.call).execTimed clock run := rfl

theorem execTimed_append (run run' : List (TimedCall τ)) :
    m.execTimed clock (run ++ run') = (m.execTimed clock run).execTimed clock run' := by
  unfold Memory.execTimed Memory.exec
  rw [List.map_append, List.foldl_append]

/-- A run keeps what each call keeps. -/
theorem execTimed_inv {P : Memory τ → Prop} (hstep : ∀ m call, P m → P (m.apply clock call))
    (h : P m) (run : List (TimedCall τ)) : P (m.execTimed clock run) := by
  induction run generalizing m with
  | nil => exact h
  | cons timed run ih => exact ih (hstep m timed.call h)

/-- The rest of a run is one from the state that the first calls leave. -/
theorem PinsLive.append {run run' : List (TimedCall τ)} (h : PinsLive clock m (run ++ run')) :
    PinsLive clock (m.execTimed clock run) run' := by
  intro before timed after heq row hrow hcall
  refine h (run ++ before) timed after ?_ row ?_ hcall
  · rw [heq, List.append_assoc]
  · rwa [execTimed_append]

/-- The first calls of a run are one. -/
theorem PinsLive.prefix_ {run run' : List (TimedCall τ)} (h : PinsLive clock m (run ++ run')) :
    PinsLive clock m run := by
  intro before timed after heq row hrow hcall
  refine h before timed (after ++ run') ?_ row hrow hcall
  rw [heq, List.append_assoc, List.cons_append]

/-- Sequence numbers are those of past insertions, one for each item, and the capacity holds. -/
structure Numbered (maxEntries : ℕ) (m : Memory τ) : Prop where
  maxEntries : m.maxEntries = maxEntries
  capped : m.size ≤ m.maxEntries
  le : ∀ item ∈ m.items, item.sequence ≤ m.insertionSequence
  unique : ∀ item ∈ m.items, ∀ item' ∈ m.items, item.sequence = item'.sequence →
    item.slot = item'.slot

/-- Every item after a call has the number of one before, at its place, or a new one. -/
theorem Step.numbers {m' : Memory τ} {call : Call τ} (h : Step clock m call m') {item : Item τ}
    (hitem : item ∈ m'.items) : (∃ old ∈ m.items, old.slot = item.slot ∧
      old.sequence = item.sequence) ∨
      (call.adds = some item.slot ∧ item.sequence = m.insertionSequence + 1 ∧
        m'.insertionSequence = m.insertionSequence + 1) := by
  rcases h.items item hitem with hold | hnew | ⟨old, hold, hslot, hsequence, -⟩
  · exact .inl ⟨item, hold, rfl, rfl⟩
  · exact .inr hnew
  · exact .inl ⟨old, hold, hslot, hsequence⟩

theorem Numbered.apply {maxEntries : ℕ} (h : Numbered maxEntries m) (call : Call τ) :
    Numbered maxEntries (m.apply clock call) := by
  have hstep := step_apply clock m call
  refine ⟨hstep.maxEntries.trans h.maxEntries, hstep.size h.capped, fun item hitem => ?_,
    fun item hitem item' hitem' hsame => ?_⟩
  · rcases hstep.numbers hitem with ⟨old, hold, -, hsequence⟩ | ⟨-, hsequence, hnext⟩
    · exact hsequence ▸ (h.le old hold).trans hstep.insertionSequence
    · exact (hsequence.trans hnext.symm).le
  · rcases hstep.numbers hitem with ⟨old, hold, hslot, hsequence⟩ | ⟨hadds, hsequence, -⟩
    · rcases hstep.numbers hitem' with ⟨old', hold', hslot', hsequence'⟩ | ⟨-, hsequence', -⟩
      · have hsame' := h.unique old hold old' hold' (by omega)
        rw [← hslot, ← hslot', hsame']
      · have hle := h.le old hold
        omega
    · rcases hstep.numbers hitem' with ⟨old', hold', -, hsequence'⟩ | ⟨hadds', -, -⟩
      · have hle := h.le old' hold'
        omega
      · exact Option.some.inj (hadds.symm.trans hadds')

/-! ## What has expired -/

theorem expired_mono (hle : ∀ a b c, clock.le a b → clock.le b c → clock.le a c) {now later : τ}
    (hlater : clock.le now later = true) {expiresAt : Option τ}
    (h : Memory.expired clock now expiresAt = true) :
    Memory.expired clock later expiresAt = true := by
  cases expiresAt with
  | none => exact h
  | some deadline => exact hle _ _ _ h hlater

/-- Whatever has a number had expired by a moment. -/
def Gone (clock : Clock τ) (now : τ) (number : ℕ) (m : Memory τ) : Prop :=
  number ≤ m.insertionSequence ∧ ∀ item ∈ m.items, item.sequence = number →
    Memory.expired clock now item.expiresAt = true

/-- A call after the moment takes nothing up again, unless it is a `pin` or `unpin` of it. -/
theorem Gone.apply (hle : ∀ a b c, clock.le a b → clock.le b c → clock.le a c) {now : τ}
    {number : ℕ} (h : Gone clock now number m) {timed : TimedCall τ}
    (hreadings : ∀ reading ∈ timed.readings, clock.le now reading = true)
    (hlive : PinsLive clock m [timed]) : Gone clock now number (m.apply clock timed.call) := by
  have hstep := step_apply clock m timed.call
  refine ⟨h.1.trans hstep.insertionSequence, fun item hitem hnumber => ?_⟩
  rcases hstep.items item hitem with
    hold | ⟨-, hnew, -⟩ | ⟨old, hold, -, hsequence, hrepins, hspared⟩
  · exact h.2 item hold hnumber
  · have hpast := h.1
    omega
  · exfalso
    have hexpired := h.2 old hold (hsequence.trans hnumber)
    have hmoment := expired_mono hle (hreadings _ List.mem_cons_self) hexpired
    -- The entry that the call pins was live at its moment.
    have hentry : ∀ key, old.slot = .inl key → (timed.call = .pin key ∨
        ∃ ttlSeconds now, timed.call = .unpin key ttlSeconds now) → False := by
      rintro key hslot hcall
      rcases Memory.mem_items.mp hold with ⟨row, hrow, rfl⟩ | ⟨r, hr, rfl⟩
      · obtain rfl : row.key = key := Sum.inl.inj hslot
        have hfresh := hlive [] timed [] rfl row hrow hcall
        exact Bool.noConfusion (hmoment.symm.trans hfresh)
      · exact nomatch hslot
    obtain ⟨moment, call⟩ := timed
    cases call with
    | pin key => exact hentry key (Option.some.inj hrepins).symm (.inl rfl)
    | unpin key ttlSeconds now =>
      exact hentry key (Option.some.inj hrepins).symm (.inr ⟨ttlSeconds, now, rfl⟩)
    | setReferencePinned memoryId storageNamespace tenantId pinned ttlSeconds pruneNow
        deadlineNow =>
      have hpruned := expired_mono hle
        (hreadings pruneNow (List.mem_cons_of_mem _ List.mem_cons_self)) hexpired
      exact Bool.noConfusion (hpruned.symm.trans (hspared pruneNow rfl))
    | _ => cases hrepins

theorem Gone.execTimed (hle : ∀ a b c, clock.le a b → clock.le b c → clock.le a c) {now : τ}
    {number : ℕ} (h : Gone clock now number m) {run : List (TimedCall τ)}
    (hreadings : ∀ reading ∈ run.flatMap TimedCall.readings, clock.le now reading = true)
    (hlive : PinsLive clock m run) : Gone clock now number (m.execTimed clock run) := by
  induction run generalizing m with
  | nil => exact h
  | cons timed run ih =>
    rw [List.flatMap_cons] at hreadings
    have hhead : PinsLive clock m ([timed] ++ run) := hlive
    exact ih (h.apply hle (fun r hr => hreadings r (List.mem_append_left _ hr)) hhead.prefix_)
      (fun r hr => hreadings r (List.mem_append_right _ hr)) hhead.append

/-- A call returns what it does not prune. -/
theorem returned_live {call : Call τ} {item : Item τ} (h : item ∈ m.returned clock call) :
    item ∈ m.items ∧ ∃ now ∈ call.readings, Memory.expired clock now item.expiresAt = false := by
  cases call with
  | recallContext limit scope acl now =>
    obtain ⟨row, hrow, rfl⟩ := List.mem_map.mp h
    have hsorted := (List.mem_filter.mp (List.mem_of_mem_take hrow)).1
    have hpruned := (List.mem_filter.mp (List.mem_mergeSort.mp hsorted)).1
    obtain ⟨hitem, hlive⟩ :=
      Memory.mem_items_prune.mp (Memory.mem_items.mpr (.inl ⟨row, hpruned, rfl⟩))
    exact ⟨hitem, now, List.mem_singleton_self _, hlive⟩
  | recallReferences storageNamespace tenantId limit now =>
    obtain ⟨r, hr, rfl⟩ := List.mem_map.mp h
    have hpruned := (List.mem_filter.mp (List.mem_mergeSort.mp (List.mem_of_mem_take hr))).1
    obtain ⟨hitem, hlive⟩ :=
      Memory.mem_items_prune.mp (Memory.mem_items.mpr (.inr ⟨r, hpruned, rfl⟩))
    exact ⟨hitem, now, List.mem_singleton_self _, hlive⟩
  | _ => exact (List.not_mem_nil h).elim

/-- A call that meets live entries only, and a rest that does. -/
theorem pinsLive_cons {timed : TimedCall τ} {run : List (TimedCall τ)}
    (hhead : ∀ row ∈ m.entries.rows, (timed.call = .pin row.key ∨
      ∃ ttlSeconds now, timed.call = .unpin row.key ttlSeconds now) →
        Memory.expired clock timed.moment row.entry.expiresAt = false)
    (hrest : PinsLive clock (m.apply clock timed.call) run) : PinsLive clock m (timed :: run) := by
  intro before other after heq row hrow hcall
  cases before with
  | nil =>
    obtain ⟨rfl, rfl⟩ := List.cons.inj heq
    exact hhead row hrow hcall
  | cons first before =>
    obtain ⟨rfl, rfl⟩ := List.cons.inj heq
    exact hrest before other after rfl row hrow hcall

variable (maxEntries : ℤ) (defaultTtl : τ)

theorem numbered_execTimed (run : List (TimedCall τ)) :
    Numbered (max 1 maxEntries.toNat) ((Memory.new maxEntries defaultTtl).execTimed clock run) := by
  refine execTimed_inv (fun m call h => h.apply call) ⟨rfl, Nat.zero_le _, ?_, ?_⟩ run
  · exact fun item h => (List.not_mem_nil h).elim
  · exact fun item h => (List.not_mem_nil h).elim

/-- In every run in which `pin` and `unpin` meet live entries only, the items have their
lifecycle. -/
theorem lifecycle_of_pinsLive (hle : ∀ a b c, clock.le a b → clock.le b c → clock.le a c)
    (run : List (TimedCall τ)) (hlive : PinsLive clock (.new maxEntries defaultTtl) run) :
    Lifecycle clock (.new maxEntries defaultTtl) run where
  capped before _ _ := by
    have h : Numbered _ ((Memory.new maxEntries defaultTtl).execTimed clock before) :=
      numbered_execTimed maxEntries defaultTtl before
    exact h.capped.trans h.maxEntries.le
  numbered before _ _ item hitem item' hitem' hsame := by
    have h : Numbered _ ((Memory.new maxEntries defaultTtl).execTimed clock before) :=
      numbered_execTimed maxEntries defaultTtl before
    exact Memory.item_unique hitem hitem' (h.unique item hitem item' hitem' hsame)
  evicts before timed _ _ item h :=
    (step_apply clock _ timed.call).evicted item h.mem h.spared h.kept h.gone
  expires before between timed after heq now hreadings item hitem hexpired returned hreturned
      hsame := by
    have hnumbered : Numbered _ ((Memory.new maxEntries defaultTtl).execTimed clock before) :=
      numbered_execTimed maxEntries defaultTtl before
    rw [List.flatMap_append] at hreadings
    -- The number of the item is gone from the moment on.
    have hgone : Gone clock now item.sequence
        ((Memory.new maxEntries defaultTtl).execTimed clock before) := by
      refine ⟨hnumbered.le item hitem, fun other hother hnumber => ?_⟩
      rwa [Memory.item_unique hother hitem (hnumbered.unique other hother item hitem hnumber)]
    rw [heq] at hlive
    have hlater := hgone.execTimed hle (fun r hr => hreadings r (List.mem_append_left _ hr))
      hlive.append.prefix_
    rw [execTimed_append] at hreturned
    obtain ⟨hthere, reading, hreading, hspared⟩ := returned_live hreturned
    have hlate : clock.le now reading = true := by
      refine hreadings reading (List.mem_append_right _ ?_)
      rw [List.flatMap_cons]
      exact List.mem_append_left _ (List.mem_cons_of_mem _ hreading)
    have hdead := expired_mono hle hlate (hlater.2 returned hthere hsame)
    exact Bool.noConfusion (hdead.symm.trans hspared)

end Runs

/-! ## Two runs -/

/-- A clock of natural numbers. -/
def natClock : Clock ℕ := ⟨Nat.ble, Nat.add, id⟩

/-- An entry that lives for ten moments. -/
def addNote : TimedCall ℕ :=
  ⟨0, .add ⟨"k", "text", "note", some 10, false, none, none, none, "tenant", 0, 0, 0⟩⟩

/-- A run in which the entry is pinned in time. -/
theorem pinned_in_time :
    Lifecycle natClock (.new 64 900)
      [addNote, ⟨5, .pin "k"⟩, ⟨20, .recallContext 1 none none 20⟩] := by
  refine lifecycle_of_pinsLive 64 900 ?_ _
    (pinsLive_cons ?_ (pinsLive_cons ?_ (pinsLive_cons ?_ ?_)))
  · intro a b c hab hbc
    exact Nat.ble_eq_true_of_le ((Nat.le_of_ble_eq_true hab).trans (Nat.le_of_ble_eq_true hbc))
  · exact fun row hrow => (List.not_mem_nil hrow).elim
  · intro row hrow _
    obtain rfl := List.mem_singleton.mp hrow
    rfl
  · rintro row - (h | ⟨_, _, h⟩) <;> cases h
  · rintro before timed after heq
    cases before <;> cases heq

/-- An entry that has expired is pinned, and returned again. -/
theorem pin_revives : ¬ Lifecycle natClock (.new 64 900)
    [addNote, ⟨15, .pin "k"⟩, ⟨20, .recallContext 1 none none 20⟩] := by
  intro h
  have hreturned := h.expires [addNote] [⟨15, .pin "k"⟩] ⟨20, .recallContext 1 none none 20⟩ [] rfl
    15 (by decide) ⟨.inl "k", 1, false, some 10⟩ (List.mem_singleton_self _) rfl
    ⟨.inl "k", 1, true, none⟩
  refine hreturned ?_ rfl
  have hrecall : Recalls none "k" := by decide
  have hrecalled : ((Memory.new 64 900).execTimed natClock [addNote, ⟨15, .pin "k"⟩]).recalled
      natClock 1 none none 20 = [⟨"k", ⟨"text", "note", true, none, 0, none, none, "tenant"⟩, 1⟩] :=
    recalled_singleton natClock rfl rfl hrecall
  exact List.mem_map.mpr ⟨_, hrecalled ▸ List.mem_singleton_self _, rfl⟩
end Memplex.Working
