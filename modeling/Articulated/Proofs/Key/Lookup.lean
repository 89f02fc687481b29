import Articulated.Key.Map
import Mathlib.Data.List.Perm.Basic

/-!
# Maps and sets of keys through their members

A map of keys is determined by `KeyMap.get?`, and a set of keys by its members. The lists that
carry them are sorted, and nothing else about them needs to be known.

* `KeyMap.get?_insert`: an insertion is seen at its own key and nowhere else.
* `KeyMap.mem_entries`, `KeyMap.mem_keys`: the entries are the values that `get?` gives.
* `KeySet.mem_ofLists`, `KeySet.ext_mem`: a set of keys is made of the members of its lists, and
  sets with the same members are equal.
-/

namespace Articulated

/-! ## 1. The order of keys -/

namespace Key

theorem lt_irrefl (a : Key) : ¬ a < a := UInt64.lt_irrefl a.raw

theorem lt_asymm {a b : Key} (h : a < b) : ¬ b < a := fun h' => lt_irrefl a (lt_trans' h h')

theorem ne_of_lt {a b : Key} (h : a < b) : a ≠ b := fun e => lt_irrefl b (e ▸ h)

theorem le_iff_not_lt {a b : Key} : a ≤ b ↔ ¬ b < a := by
  show a.raw ≤ b.raw ↔ ¬ b.raw < a.raw
  exact UInt64.not_lt.symm

theorem le_of_lt {a b : Key} (h : a < b) : a ≤ b := le_iff_not_lt.2 (lt_asymm h)

theorem lt_or_eq_or_lt (a b : Key) : a < b ∨ a = b ∨ b < a := by
  by_cases hab : a < b
  · exact .inl hab
  · by_cases hba : b < a
    · exact .inr (.inr hba)
    · exact .inr (.inl (eq_of_not_lt hab hba))

theorem le_total (a b : Key) : a ≤ b ∨ b ≤ a := by
  rw [le_iff_not_lt, le_iff_not_lt]
  by_cases hba : b < a
  · exact .inr (lt_asymm hba)
  · exact .inl hba

theorem le_trans {a b c : Key} (h : a ≤ b) (h' : b ≤ c) : a ≤ c :=
  UInt64.le_trans (a := a.raw) (b := b.raw) (c := c.raw) h h'

theorem le_refl (a : Key) : a ≤ a := le_iff_not_lt.2 (lt_irrefl a)

theorem le_antisymm {a b : Key} (h : a ≤ b) (h' : b ≤ a) : a = b :=
  eq_of_not_lt (le_iff_not_lt.1 h') (le_iff_not_lt.1 h)

/-- Two ascending lists of keys with the same members are equal. -/
theorem eq_of_ascending {l m : List Key} (hl : l.Pairwise (· < ·)) (hm : m.Pairwise (· < ·))
    (h : ∀ k, k ∈ l ↔ k ∈ m) : l = m := by
  have hperm : l.Perm m :=
    (List.perm_ext_iff_of_nodup (hl.imp ne_of_lt) (hm.imp ne_of_lt)).2 h
  exact hperm.eq_of_pairwise (fun a b _ _ hab hba => absurd hba (lt_asymm hab)) hl hm

/-! ## 2. Entries -/

theorem lookup_cons_eq {β : Type} (q k : Key) (b : β) (l : List (Key × β)) :
    ((k, b) :: l).lookup q = if q = k then some b else l.lookup q := by
  rw [List.lookup_cons]
  by_cases h : q = k
  · rw [if_pos h, beq_iff_eq.2 h]
  · rw [if_neg h, beq_false_of_ne h]

theorem ne_of_not_mem {β : Type} {k : Key} {l : List (Key × β)} (hk : k ∉ l.map Prod.fst)
    {e : Key × β} (he : e ∈ l) : e.1 ≠ k := fun heq => hk (heq ▸ List.mem_map_of_mem he)

theorem lookup_eq_none {β : Type} {k : Key} {l : List (Key × β)} (hk : k ∉ l.map Prod.fst) :
    l.lookup k = none :=
  List.lookup_eq_none_iff.2 fun _ he => bne_iff_ne.2 (ne_of_not_mem hk he).symm

theorem mem_of_lookup {β : Type} {k : Key} {b : β} :
    ∀ {l : List (Key × β)}, l.lookup k = some b → (k, b) ∈ l
  | [], h => nomatch h
  | (q, c) :: rest, h => by
    rw [lookup_cons_eq] at h
    by_cases hk : k = q
    · rw [if_pos hk] at h
      rw [hk, Option.some.inj h]
      exact List.mem_cons_self
    · rw [if_neg hk] at h
      exact List.mem_cons_of_mem _ (mem_of_lookup h)

theorem lookup_insertEntry {β : Type} (k q : Key) (b : β) :
    ∀ l : List (Key × β),
      (insertEntry k b l).lookup q = if q = k then some b else l.lookup q
  | [] => lookup_cons_eq q k b []
  | (k', b') :: rest => by
    unfold insertEntry
    split
    · rw [lookup_cons_eq]
    · rename_i hge
      split
      · rename_i hgt
        rw [lookup_cons_eq, lookup_cons_eq, lookup_insertEntry k q b rest]
        by_cases h : q = k
        · have hne : q ≠ k' := fun e => ne_of_lt hgt (e.symm.trans h)
          rw [if_neg hne, if_pos h, if_pos h]
        · rw [if_neg h, if_neg h]
      · rename_i hle
        have hkk : k = k' := eq_of_not_lt hge hle
        rw [lookup_cons_eq, lookup_cons_eq, ← hkk]
        by_cases h : q = k
        · rw [if_pos h, if_pos h]
        · rw [if_neg h, if_neg h, if_neg h]

/-- In a list with distinct keys, an entry is what the lookup of its key finds. -/
theorem lookup_of_mem {β : Type} {k : Key} {b : β} :
    ∀ {l : List (Key × β)}, (l.map Prod.fst).Nodup → (k, b) ∈ l → l.lookup k = some b
  | (q, c) :: rest, hnodup, h => by
    obtain ⟨hq, hrest⟩ := List.nodup_cons.1 hnodup
    rw [lookup_cons_eq]
    rcases List.mem_cons.1 h with heq | h
    · obtain ⟨rfl, rfl⟩ := Prod.mk.inj heq
      exact if_pos rfl
    · rw [if_neg (ne_of_not_mem hq h), lookup_of_mem hrest h]

/-- The same of a list that is sorted by key. -/
theorem mem_iff_lookup {β : Type} {k : Key} {b : β} {l : List (Key × β)}
    (h : l.Pairwise fun e f => e.1 < f.1) : (k, b) ∈ l ↔ l.lookup k = some b :=
  ⟨lookup_of_mem (List.pairwise_map.2 (h.imp ne_of_lt)), mem_of_lookup⟩

end Key

/-! ## 3. Maps -/

namespace KeyMap

variable {β : Type}

@[simp] theorem get?_empty (k : Key) : (empty : KeyMap β).get? k = none := rfl

theorem get?_insert (m : KeyMap β) (k q : Key) (b : β) :
    (m.insert k b).get? q = if q = k then some b else m.get? q :=
  Key.lookup_insertEntry k q b m.entries

theorem mem_entries {m : KeyMap β} {k : Key} {b : β} :
    (k, b) ∈ m.entries ↔ m.get? k = some b :=
  Key.mem_iff_lookup m.sorted

theorem mem_keys {m : KeyMap β} {k : Key} : k ∈ m.keys ↔ ∃ b, m.get? k = some b := by
  unfold keys
  constructor
  · intro h
    obtain ⟨⟨k', b⟩, he, rfl⟩ := List.mem_map.1 h
    exact ⟨b, mem_entries.1 he⟩
  · intro h
    obtain ⟨b, h⟩ := h
    exact List.mem_map.2 ⟨(k, b), mem_entries.2 h, rfl⟩

theorem mem_keys_insert {m : KeyMap β} {k q : Key} {b : β} :
    q ∈ (m.insert k b).keys ↔ q = k ∨ q ∈ m.keys := by
  rw [mem_keys, mem_keys, get?_insert]
  by_cases h : q = k <;> simp [h]

/-- Maps that give every key the same value are equal. -/
theorem ext_get? {m m' : KeyMap β} (h : ∀ k, m.get? k = m'.get? k) : m = m' := by
  refine KeyMap.ext ?_
  have hdistinct : ∀ n : KeyMap β, n.entries.Nodup := fun n =>
    List.Pairwise.imp (fun hlt heq => Key.ne_of_lt hlt (congrArg Prod.fst heq)) n.sorted
  have hperm : m.entries.Perm m'.entries := by
    refine (List.perm_ext_iff_of_nodup (hdistinct m) (hdistinct m')).2 fun ⟨k, b⟩ => ?_
    rw [mem_entries, mem_entries, h]
  exact hperm.eq_of_pairwise (fun _ _ _ _ hef hfe => absurd hfe (Key.lt_asymm hef)) m.sorted
    m'.sorted

end KeyMap

/-! ## 4. Sets -/

namespace KeySet

theorem nodup (s : KeySet) : s.toList.Nodup := s.sorted.imp Key.ne_of_lt

theorem mem_foldl_insert (ks : List Key) (k : Key) :
    ∀ m : KeyMap Unit,
      k ∈ (ks.foldl (fun (m : KeyMap Unit) k => m.insert k ()) m).keys ↔ k ∈ ks ∨ k ∈ m.keys := by
  induction ks with
  | nil => simp
  | cons a ks ih =>
    intro m
    rw [List.foldl_cons, ih, KeyMap.mem_keys_insert, List.mem_cons]
    exact ⟨fun h => h.elim (.inl ∘ .inr) (·.elim (.inl ∘ .inl) .inr),
      fun h => h.elim (·.elim (.inr ∘ .inl) .inl) (.inr ∘ .inr)⟩

theorem mem_ofList {ks : List Key} {k : Key} : k ∈ (ofList ks).toList ↔ k ∈ ks := by
  refine (mem_foldl_insert ks k KeyMap.empty).trans ?_
  simp [KeyMap.keys, KeyMap.empty]

theorem mem_ofLists {kss : List (List Key)} {k : Key} :
    k ∈ (ofLists kss).toList ↔ ∃ ks ∈ kss, k ∈ ks := by
  rw [ofLists, mem_ofList, List.mem_flatten]

/-- Sets with the same members are equal. -/
theorem ext_mem {s t : KeySet} (h : ∀ k, k ∈ s.toList ↔ k ∈ t.toList) : s = t :=
  KeySet.ext (Key.eq_of_ascending s.sorted t.sorted h)

end KeySet

end Articulated
