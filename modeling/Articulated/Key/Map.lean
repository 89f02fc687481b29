import Articulated.Key

/-!
# Assignments ordered by key

`KeyMap β` assigns values to finitely many keys. Its entries stand in ascending order of the key,
by construction, so two maps with the same assignments are equal and walking through a map always
goes in the same order. A `KeySet` is the set of keys alone, in the same order.

The view of a map is `get?`: `insert` changes it at one key.
-/

namespace Articulated

/-! ## 1. Sorted entries -/

namespace Key

/-- Inserts an entry into a list sorted by key, in place of an entry with the same key. -/
def insertEntry {β : Type} (k : Key) (b : β) : List (Key × β) → List (Key × β)
  | [] => [(k, b)]
  | (k', b') :: rest =>
    if k < k' then (k, b) :: (k', b') :: rest
    else if k' < k then (k', b') :: insertEntry k b rest
    else (k, b) :: rest

theorem lt_trans' {a b c : Key} (h : a < b) (h' : b < c) : a < c :=
  UInt64.lt_trans (a := a.raw) (b := b.raw) (c := c.raw) h h'

theorem eq_of_not_lt {a b : Key} (h : ¬ a < b) (h' : ¬ b < a) : a = b := by
  have h₁ : ¬ a.raw.toNat < b.raw.toNat := fun hlt => h (UInt64.lt_iff_toNat_lt.2 hlt)
  have h₂ : ¬ b.raw.toNat < a.raw.toNat := fun hlt => h' (UInt64.lt_iff_toNat_lt.2 hlt)
  have : a.raw = b.raw := UInt64.toNat.inj (by omega)
  cases a
  cases b
  simpa using this

theorem mem_insertEntry {β : Type} {k : Key} {b : β} {e : Key × β} :
    ∀ {l : List (Key × β)}, e ∈ insertEntry k b l → e = (k, b) ∨ e ∈ l
  | [], h => by simpa [insertEntry] using h
  | (k', b') :: rest, h => by
    unfold insertEntry at h
    split at h
    · simpa using h
    · split at h
      · rcases List.mem_cons.1 h with h | h
        · exact .inr (h ▸ List.mem_cons_self)
        · exact (mem_insertEntry h).imp id (List.mem_cons_of_mem _)
      · rcases List.mem_cons.1 h with h | h
        · exact .inl h
        · exact .inr (List.mem_cons_of_mem _ h)

/-- Inserting keeps the order. -/
theorem sorted_insertEntry {β : Type} (k : Key) (b : β) :
    ∀ {l : List (Key × β)}, l.Pairwise (fun e f => e.1 < f.1) →
      (insertEntry k b l).Pairwise (fun e f => e.1 < f.1)
  | [], _ => by simp [insertEntry]
  | (k', b') :: rest, h => by
    obtain ⟨hhead, hrest⟩ := List.pairwise_cons.1 h
    unfold insertEntry
    split
    · rename_i hlt
      refine List.pairwise_cons.2 ⟨fun e he => ?_, h⟩
      rcases List.mem_cons.1 he with he | he
      · exact he ▸ hlt
      · exact lt_trans' hlt (hhead e he)
    · rename_i hge
      split
      · rename_i hgt
        refine List.pairwise_cons.2 ⟨fun e he => ?_, sorted_insertEntry k b hrest⟩
        rcases mem_insertEntry he with he | he
        · exact he ▸ hgt
        · exact hhead e he
      · rename_i hle
        have : k = k' := eq_of_not_lt hge hle
        exact List.pairwise_cons.2 ⟨fun e he => this ▸ hhead e he, hrest⟩

end Key

/-! ## 2. Maps -/

/-- An assignment of values to finitely many keys. -/
@[ext]
structure KeyMap (β : Type) where
  /-- The keys with their values. -/
  entries : List (Key × β)
  /-- The keys ascend. -/
  sorted : entries.Pairwise fun e f => e.1 < f.1

namespace KeyMap

variable {β : Type}

/-- The assignment to no key. -/
def empty : KeyMap β := ⟨[], .nil⟩

/-- The value of a key. -/
def get? (m : KeyMap β) (k : Key) : Option β := m.entries.lookup k

/-- Whether a key has a value. -/
def contains (m : KeyMap β) (k : Key) : Bool := (m.get? k).isSome

/-- Assigns a value to a key, in place of the value it had. -/
def insert (m : KeyMap β) (k : Key) (b : β) : KeyMap β :=
  ⟨Key.insertEntry k b m.entries, Key.sorted_insertEntry k b m.sorted⟩

/-- The number of keys. -/
def size (m : KeyMap β) : Nat := m.entries.length

/-- The keys in ascending order. -/
def keys (m : KeyMap β) : List Key := m.entries.map Prod.fst

end KeyMap

/-! ## 3. Sets -/

/-- A finite set of keys. -/
@[ext]
structure KeySet where
  /-- The keys of the set, ascending. -/
  toList : List Key
  /-- The keys ascend. -/
  sorted : toList.Pairwise (· < ·)

namespace KeySet

/-- The keys of a map. -/
def ofMap {β : Type} (m : KeyMap β) : KeySet :=
  ⟨m.keys, List.pairwise_map.2 m.sorted⟩

/-- The set of the keys of a list. -/
def ofList (ks : List Key) : KeySet :=
  ofMap (ks.foldl (fun (m : KeyMap Unit) k => m.insert k ()) KeyMap.empty)

/-- The set of the keys of some lists. -/
def ofLists (kss : List (List Key)) : KeySet := ofList kss.flatten

/-- Whether a key is in the set. -/
def contains (s : KeySet) (k : Key) : Bool := s.toList.contains k

/-- The number of keys. -/
def size (s : KeySet) : Nat := s.toList.length

end KeySet

end Articulated
