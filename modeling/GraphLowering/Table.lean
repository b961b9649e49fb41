/-!
# Tables

A finite map from numbers, kept as its entries in ascending order of the keys. The order is part of
the type, so that listing a table needs no sorting and two tables with the same value at every key
are equal (`Table.ext_get?`). `Table.get?_insert`, `Table.get?_filter` and `Table.get?_erase` say
what the operations do to the values.
-/

namespace GraphLowering

/-- A finite map from numbers to values. -/
structure Table (α : Type) where
  entries : List (Nat × α)
  ascending : entries.Pairwise fun a b => a.1 < b.1
deriving DecidableEq

namespace Table

variable {α : Type}

def empty : Table α :=
  ⟨[], .nil⟩

def valueIn? (key : Nat) : List (Nat × α) → Option α
  | [] => none
  | (k, v) :: rest => if key = k then some v else valueIn? key rest

def get? (t : Table α) (key : Nat) : Option α :=
  valueIn? key t.entries

def contains (t : Table α) (key : Nat) : Bool :=
  (t.get? key).isSome

def keys (t : Table α) : List Nat :=
  t.entries.map (·.1)

def size (t : Table α) : Nat :=
  t.entries.length

/-- Puts an entry at its place in an ascending list, in place of one with the same key. -/
def insertEntry (key : Nat) (value : α) : List (Nat × α) → List (Nat × α)
  | [] => [(key, value)]
  | (k, v) :: rest =>
    if key < k then (key, value) :: (k, v) :: rest
    else if key = k then (key, value) :: rest
    else (k, v) :: insertEntry key value rest

theorem mem_insertEntry {key : Nat} {value : α} {entry : Nat × α} {entries : List (Nat × α)}
    (h : entry ∈ insertEntry key value entries) : entry = (key, value) ∨ entry ∈ entries := by
  induction entries with
  | nil => exact .inl (List.mem_singleton.mp h)
  | cons head rest ih =>
    obtain ⟨k, v⟩ := head
    simp only [insertEntry] at h
    split at h
    · exact List.mem_cons.mp h
    · split at h
      · exact (List.mem_cons.mp h).imp_right (List.mem_cons_of_mem _)
      · rcases List.mem_cons.mp h with h | h
        · exact .inr (h ▸ List.mem_cons_self)
        · exact (ih h).imp_right (List.mem_cons_of_mem _)

theorem pairwise_insertEntry (key : Nat) (value : α) {entries : List (Nat × α)}
    (h : entries.Pairwise fun a b => a.1 < b.1) :
    (insertEntry key value entries).Pairwise fun a b => a.1 < b.1 := by
  induction entries with
  | nil => exact List.pairwise_singleton _ _
  | cons head rest ih =>
    obtain ⟨k, v⟩ := head
    obtain ⟨hk, hrest⟩ := List.pairwise_cons.mp h
    simp only [insertEntry]
    split
    · next hlt =>
      refine List.pairwise_cons.mpr ⟨fun entry he => ?_, h⟩
      rcases List.mem_cons.mp he with rfl | he
      · exact hlt
      · exact Nat.lt_trans hlt (hk entry he)
    · split
      · next heq =>
        subst heq
        exact List.pairwise_cons.mpr ⟨hk, hrest⟩
      · refine List.pairwise_cons.mpr ⟨fun entry he => ?_, ih hrest⟩
        rcases mem_insertEntry he with rfl | he
        · show k < key
          omega
        · exact hk entry he

def insert (t : Table α) (key : Nat) (value : α) : Table α :=
  ⟨insertEntry key value t.entries, pairwise_insertEntry key value t.ascending⟩

def filter (t : Table α) (keep : Nat → α → Bool) : Table α :=
  ⟨t.entries.filter fun entry => keep entry.1 entry.2, t.ascending.filter _⟩

def erase (t : Table α) (key : Nat) : Table α :=
  t.filter fun k _ => k != key

/-! ## The values of a table -/

@[simp] theorem get?_empty (key : Nat) : (empty : Table α).get? key = none :=
  rfl

theorem valueIn?_insertEntry (key k : Nat) (value : α) (entries : List (Nat × α)) :
    valueIn? k (insertEntry key value entries) = if k = key then some value
      else valueIn? k entries := by
  induction entries with
  | nil => rfl
  | cons head rest ih =>
    obtain ⟨k', v⟩ := head
    simp only [insertEntry]
    split
    · rfl
    · split
      · next heq =>
        subst heq
        by_cases h : k = key <;> simp [valueIn?, h]
      · next hne =>
        by_cases h : k = k'
        · have hk : ¬ k = key := by omega
          subst h
          simp [valueIn?, hk]
        · simp [valueIn?, h, ih]

theorem get?_insert (t : Table α) (key k : Nat) (value : α) :
    (t.insert key value).get? k = if k = key then some value else t.get? k :=
  valueIn?_insertEntry key k value t.entries

theorem valueIn?_eq_none_of_lt {k : Nat} {entries : List (Nat × α)}
    (h : ∀ entry ∈ entries, k < entry.1) :
    valueIn? k entries = none := by
  induction entries with
  | nil => rfl
  | cons head rest ih =>
    have hhead : ¬ k = head.1 := Nat.ne_of_lt (h head List.mem_cons_self)
    simp [valueIn?, hhead, ih fun entry he => h entry (List.mem_cons_of_mem _ he)]

theorem valueIn?_filter (keep : Nat → α → Bool) (k : Nat) {entries : List (Nat × α)}
    (h : entries.Pairwise fun a b => a.1 < b.1) :
    valueIn? k (entries.filter fun entry => keep entry.1 entry.2) =
      (valueIn? k entries).filter (keep k) := by
  induction entries with
  | nil => rfl
  | cons head rest ih =>
    obtain ⟨k', v⟩ := head
    obtain ⟨hhead, hrest⟩ := List.pairwise_cons.mp h
    have hnone : valueIn? k' rest = none := valueIn?_eq_none_of_lt hhead
    by_cases hk : k = k'
    · subst hk
      cases hkeep : keep k v <;> simp [valueIn?, Option.filter, hkeep, ih hrest, hnone]
    · cases hkeep : keep k' v <;> simp [valueIn?, hkeep, hk, ih hrest]

theorem get?_filter (t : Table α) (keep : Nat → α → Bool) (k : Nat) :
    (t.filter keep).get? k = (t.get? k).filter (keep k) :=
  valueIn?_filter keep k t.ascending

theorem get?_erase (t : Table α) (key k : Nat) :
    (t.erase key).get? k = if k = key then none else t.get? k := by
  rw [erase, get?_filter]
  by_cases h : k = key <;> cases t.get? k <;> simp [Option.filter, h]

theorem mem_entries {t : Table α} {k : Nat} {v : α} : (k, v) ∈ t.entries ↔ t.get? k = some v := by
  obtain ⟨entries, ascending⟩ := t
  show (k, v) ∈ entries ↔ valueIn? k entries = some v
  induction entries with
  | nil => simp [valueIn?]
  | cons head rest ih =>
    obtain ⟨k', v'⟩ := head
    obtain ⟨hhead, hrest⟩ := List.pairwise_cons.mp ascending
    by_cases hk : k = k'
    · subst hk
      have hnot : (k, v) ∉ rest := fun h => Nat.lt_irrefl k (hhead _ h)
      simp [valueIn?, hnot, eq_comm]
    · simp [valueIn?, hk, ih hrest]

theorem mem_keys {t : Table α} {k : Nat} : k ∈ t.keys ↔ t.contains k := by
  unfold keys contains
  rw [List.mem_map, Option.isSome_iff_exists]
  constructor
  · rintro ⟨⟨_, v⟩, h, rfl⟩
    exact ⟨v, mem_entries.mp h⟩
  · rintro ⟨v, h⟩
    exact ⟨(k, v), mem_entries.mpr h, rfl⟩

theorem nodup_keys (t : Table α) : t.keys.Nodup :=
  List.pairwise_map.mpr (t.ascending.imp Nat.ne_of_lt)

theorem length_keys (t : Table α) : t.keys.length = t.size :=
  List.length_map _

theorem size_eq {β : Type} {s : Table α} {t : Table β} (h : ∀ k, s.contains k ↔ t.contains k) :
    s.size = t.size := by
  have hperm : s.keys.Perm t.keys :=
    (List.perm_ext_iff_of_nodup s.nodup_keys t.nodup_keys).mpr fun k => by
      rw [mem_keys, mem_keys, h]
  rw [← s.length_keys, ← t.length_keys, hperm.length_eq]

theorem ext_get? {s t : Table α} (h : ∀ k, s.get? k = t.get? k) : s = t := by
  have nodup (u : Table α) : u.entries.Nodup :=
    u.ascending.imp fun hlt heq => Nat.ne_of_lt hlt (congrArg Prod.fst heq)
  have hperm : s.entries.Perm t.entries :=
    (List.perm_ext_iff_of_nodup (nodup s) (nodup t)).mpr fun ⟨k, v⟩ => by
      rw [mem_entries, mem_entries, h]
  have heq : s.entries = t.entries :=
    hperm.eq_of_pairwise (fun _ _ _ _ hab hba => absurd hab (Nat.lt_asymm hba)) s.ascending t.ascending
  cases s
  cases t
  cases heq
  rfl

end Table

end GraphLowering
