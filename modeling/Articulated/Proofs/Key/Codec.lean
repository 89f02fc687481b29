import Articulated.Proofs.Key.Lookup
import Mathlib.Algebra.Group.Nat.Defs

/-!
# Keys as bits

A key is four bit fields side by side, and a variable uses the tag, the index and those of the two
id fields that its kind has. The layout is described here once in arithmetic, where fields are
digits, and once in bits, where they are cut out by shifts and masks.

* `KeyFields.unpack_pack`, `KeyFields.pack_unpack`: fields that fit and numbers of 64 bits
  correspond.
* `KeyFields.pack_lt_pack_iff`: numbers are ordered like their fields, the tag first.
* `KeyFields.pack_eq_or`, `Key.fields_and`: the same in bits.
* `Variable.key?_eq_some_iff`: the key of a variable, through its fields.
* `Key.encode_of_decode`: what is decoded is encoded by the bits of the key that it uses.
* `Variable.key_codec`: encoding and decoding, the image of the encoder, and the order of keys.
-/

namespace Articulated

/-! ## 1. Fields as digits -/

namespace KeyFields

/-- The order of fields, one after the other. -/
def Before (f g : KeyFields) : Prop :=
  f.tag < g.tag ∨ f.tag = g.tag ∧ (f.link < g.link ∨ f.link = g.link ∧
    (f.joint < g.joint ∨ f.joint = g.joint ∧ f.index < g.index))

instance (f g : KeyFields) : Decidable (f.Before g) := inferInstanceAs (Decidable (_ ∨ _))

theorem unpack_tag_lt (n : Nat) : (unpack n).tag < tagCount := Nat.mod_lt _ (by decide)

theorem unpack_fits (n : Nat) : (unpack n).Fits :=
  ⟨Nat.le_of_lt_succ (Nat.mod_lt _ (by decide)), Nat.le_of_lt_succ (Nat.mod_lt _ (by decide)),
    Nat.le_of_lt_succ (Nat.mod_lt _ (by decide))⟩

theorem pack_lt {f : KeyFields} (htag : f.tag < tagCount) (h : f.Fits) : f.pack < 2 ^ 64 := by
  obtain ⟨hlink, hjoint, hindex⟩ := h
  unfold pack
  simp only [tagCount, maxId, maxIndex, idCount, indexCount] at *
  omega

/-- Fields that fit are found again. -/
theorem unpack_pack {f : KeyFields} (htag : f.tag < tagCount) (h : f.Fits) :
    unpack f.pack = f := by
  obtain ⟨hlink, hjoint, hindex⟩ := h
  obtain ⟨tag, link, joint, index⟩ := f
  simp only [tagCount, maxId, maxIndex] at htag hlink hjoint hindex
  simp only [unpack, pack, tagCount, idCount, indexCount, KeyFields.mk.injEq]
  omega

/-- A number of 64 bits is put together again from its fields. -/
theorem pack_unpack {n : Nat} (hn : n < 2 ^ 64) : (unpack n).pack = n := by
  simp only [unpack, pack, tagCount, idCount, indexCount]
  omega

/-- Two numbers of two digits are compared by the first digit, then by the second. -/
theorem digits_lt_iff {n a b a' b' : Nat} (hb : b < n) (hb' : b' < n) :
    a * n + b < a' * n + b' ↔ a < a' ∨ a = a' ∧ b < b' := by
  rcases Nat.lt_trichotomy a a' with hlt | rfl | hgt
  · have hle : (a + 1) * n ≤ a' * n := Nat.mul_le_mul_right n hlt
    rw [Nat.add_mul, Nat.one_mul] at hle
    exact iff_of_true (by omega) (.inl hlt)
  · omega
  · have hle : (a' + 1) * n ≤ a * n := Nat.mul_le_mul_right n hgt
    rw [Nat.add_mul, Nat.one_mul] at hle
    exact iff_of_false (by omega) (by omega)

/-- **Packed fields are ordered like the fields, the tag first.** -/
theorem pack_lt_pack_iff {f g : KeyFields} (hf : f.Fits) (hg : g.Fits) :
    f.pack < g.pack ↔ f.Before g := by
  have hid : ∀ {i : Nat}, i ≤ maxId → i < idCount := fun hi => Nat.lt_succ_of_le hi
  have hindex : ∀ {i : Nat}, i ≤ maxIndex → i < indexCount := fun hi => Nat.lt_succ_of_le hi
  unfold pack Before
  rw [digits_lt_iff (hindex hf.2.2) (hindex hg.2.2), digits_lt_iff (hid hf.2.1) (hid hg.2.1),
    digits_lt_iff (hid hf.1) (hid hg.1)]
  have hjoin : ∀ {n a b a' b' : Nat}, b < n → b' < n →
      (a * n + b = a' * n + b' ↔ a = a' ∧ b = b') := by
    intro n a b a' b' hb hb'
    have hlt := @digits_lt_iff n a b a' b' hb hb'
    have hgt := @digits_lt_iff n a' b' a b hb' hb
    omega
  rw [hjoin (hid hf.2.1) (hid hg.2.1), hjoin (hid hf.1) (hid hg.1)]
  omega

/-! ## 2. Fields as bits -/

/-- **Packing is shifting the fields to their places.** -/
theorem pack_eq_or {f : KeyFields} (h : f.Fits) :
    f.pack = f.tag <<< 56 ||| f.link <<< 40 ||| f.joint <<< 24 ||| f.index := by
  obtain ⟨hlink, hjoint, hindex⟩ := h
  simp only [maxId, maxIndex] at hlink hjoint hindex
  have hlow : f.joint <<< 24 ||| f.index = f.joint <<< 24 + f.index :=
    (Nat.shiftLeft_add_eq_or_of_lt (by omega) _).symm
  have hmid : f.link <<< 40 ||| (f.joint <<< 24 + f.index) =
      f.link <<< 40 + (f.joint <<< 24 + f.index) :=
    (Nat.shiftLeft_add_eq_or_of_lt (by rw [Nat.shiftLeft_eq]; omega) _).symm
  have hhigh : f.tag <<< 56 ||| (f.link <<< 40 + (f.joint <<< 24 + f.index)) =
      f.tag <<< 56 + (f.link <<< 40 + (f.joint <<< 24 + f.index)) :=
    (Nat.shiftLeft_add_eq_or_of_lt (by rw [Nat.shiftLeft_eq, Nat.shiftLeft_eq]; omega) _).symm
  rw [Nat.or_assoc, Nat.or_assoc, hlow, hmid, hhigh]
  simp only [pack, idCount, indexCount, Nat.shiftLeft_eq]
  omega

/-- Fields combined bit by bit. -/
def and (f g : KeyFields) : KeyFields :=
  ⟨f.tag &&& g.tag, f.link &&& g.link, f.joint &&& g.joint, f.index &&& g.index⟩

/-- The fields of a combination of bits are the combinations of the fields. -/
theorem unpack_and (m n : Nat) : unpack (m &&& n) = (unpack m).and (unpack n) := by
  have hdiv : ∀ {k a b : Nat}, (a &&& b) / 2 ^ k = a / 2 ^ k &&& b / 2 ^ k := Nat.and_div_two_pow
  have hmod : ∀ {k a b : Nat}, (a &&& b) % 2 ^ k = a % 2 ^ k &&& b % 2 ^ k := Nat.and_mod_two_pow
  have hindex : indexCount = 2 ^ 24 := rfl
  have hid : idCount = 2 ^ 16 := rfl
  have htag : tagCount = 2 ^ 8 := rfl
  simp only [unpack, and, hindex, hid, htag, hdiv, hmod]

/-- A field of which all bits are kept. -/
theorem and_ones {a : Nat} (k : Nat) (ha : a < 2 ^ k) : a &&& (2 ^ k - 1) = a := by
  rw [Nat.and_two_pow_sub_one_eq_mod, Nat.mod_eq_of_lt ha]

end KeyFields

/-! ## 3. Keys through their fields -/

namespace Key

theorem fields_fits (k : Key) : k.fields.Fits := KeyFields.unpack_fits _

theorem pack_fields (k : Key) : k.fields.pack = k.raw.toNat :=
  KeyFields.pack_unpack k.raw.toNat_lt

theorem eq_of_fields {k k' : Key} (h : k.fields = k'.fields) : k = k' := by
  have hraw : k.raw = k'.raw :=
    UInt64.toNat.inj (by rw [← pack_fields, ← pack_fields, h])
  cases k
  exact congrArg Key.mk hraw

/-- **Keys are ordered like their fields.** -/
theorem lt_iff_before {k k' : Key} : k < k' ↔ k.fields.Before k'.fields := by
  rw [← KeyFields.pack_lt_pack_iff k.fields_fits k'.fields_fits, pack_fields, pack_fields]
  exact UInt64.lt_iff_toNat_lt

/-- The top byte is the tag. -/
theorem topByte_eq (k : Key) : (k.raw >>> 56).toNat = k.fields.tag := by
  have hlt := k.raw.toNat_lt
  rw [UInt64.toNat_shiftRight, Nat.shiftRight_eq_div_pow]
  show k.raw.toNat / 2 ^ 56 = _
  simp only [fields, KeyFields.unpack, tagCount, idCount, indexCount]
  omega

/-- A selection of bits selects from every field. -/
theorem fields_and (k : Key) (bits : UInt64) :
    (Key.mk (k.raw &&& bits)).fields = k.fields.and (KeyFields.unpack bits.toNat) := by
  unfold fields
  rw [UInt64.toNat_and, KeyFields.unpack_and]

end Key

/-! ## 4. What a variable uses -/

namespace Variable

/-- The link of a variable, if its kind has one. -/
def link? : Variable → Option Nat
  | pose link _ | twist link _ | twistAccel link _ | wrench link _ _ => some link
  | _ => none

/-- The joint of a variable, if its kind has one. -/
def joint? : Variable → Option Nat
  | wrench _ joint _ | torque joint _ | jointAngle joint _ | jointVel joint _
  | jointAccel joint _ => some joint
  | _ => none

/-- The time of a variable, or its phase. -/
def index : Variable → Nat
  | pose _ t | twist _ t | twistAccel _ t | wrench _ _ t | torque _ t | jointAngle _ t
  | jointVel _ t | jointAccel _ t => t
  | phaseDuration phase => phase

/-- The tags of all kinds. -/
def tags : List Char := ['p', 'V', 'A', 'F', 'T', 'q', 'v', 'a', 'P']

/-- The bits of a key that mean something: all but those of the id fields that the kind does not
have. -/
def usedBits (v : Variable) : UInt64 :=
  0xff00000000ffffff ||| (if v.link?.isSome then 0x00ffff0000000000 else 0)
    ||| (if v.joint?.isSome then 0x000000ffff000000 else 0)

theorem fields_eq (v : Variable) :
    v.fields = ⟨v.tag.toNat, v.link?.getD 0, v.joint?.getD 0, v.index⟩ := by
  cases v <;> rfl

theorem tag_mem (v : Variable) : v.tag ∈ tags := by
  cases v <;> simp [tag, tags]

theorem tag_lt (v : Variable) : v.fields.tag < tagCount := by
  have hall : tags.all (fun c => decide (c.toNat < tagCount)) = true := by decide
  rw [fields_eq]
  exact of_decide_eq_true (List.all_eq_true.1 hall v.tag v.tag_mem)

theorem unpack_usedBits (v : Variable) : KeyFields.unpack v.usedBits.toNat =
    ⟨2 ^ 8 - 1, if v.link?.isSome then 2 ^ 16 - 1 else 0, if v.joint?.isSome then 2 ^ 16 - 1 else 0,
      2 ^ 24 - 1⟩ := by
  have hbits : ∀ link joint : Bool, KeyFields.unpack (0xff00000000ffffff |||
      (if link then 0x00ffff0000000000 else 0) ||| (if joint then 0x000000ffff000000 else 0) :
        UInt64).toNat = ⟨2 ^ 8 - 1, if link then 2 ^ 16 - 1 else 0,
          if joint then 2 ^ 16 - 1 else 0, 2 ^ 24 - 1⟩ := by decide
  exact hbits v.link?.isSome v.joint?.isSome

/-- The fields that a kind does not have always fit. -/
theorem fits_iff {v : Variable} : v.fields.Fits ↔
    (∀ l, v.link? = some l → l ≤ maxId) ∧ (∀ j, v.joint? = some j → j ≤ maxId) ∧
      v.index ≤ maxIndex := by
  have hfield : ∀ id : Option Nat, id.getD 0 ≤ maxId ↔ ∀ i, id = some i → i ≤ maxId := by
    intro id
    cases id with
    | none => exact iff_of_true (Nat.zero_le _) nofun
    | some i => exact ⟨fun h i' heq => Option.some.inj heq ▸ h, fun h => h i rfl⟩
  rw [fields_eq, KeyFields.Fits, hfield, hfield]

/-- **A key is that of a variable exactly if the fields of the variable fit and are its own.** -/
theorem key?_eq_some_iff {v : Variable} {k : Key} :
    v.key? = some k ↔ v.fields.Fits ∧ k.fields = v.fields := by
  unfold key?
  by_cases hfits : v.fields.Fits
  · have hfields : (Key.mk (UInt64.ofNat v.fields.pack)).fields = v.fields := by
      unfold Key.fields
      rw [UInt64.toNat_ofNat_of_lt' (KeyFields.pack_lt v.tag_lt hfits),
        KeyFields.unpack_pack v.tag_lt hfits]
    rw [if_pos hfits]
    constructor
    · intro h
      exact ⟨hfits, Option.some.inj h ▸ hfields⟩
    · intro h
      exact congrArg some (Key.eq_of_fields (hfields.trans h.2.symm))
  · rw [if_neg hfits]
    exact ⟨nofun, fun h => absurd h.1 hfits⟩

theorem exists_key_iff {v : Variable} : (∃ k, v.key? = some k) ↔ v.fields.Fits := by
  unfold key?
  by_cases hfits : v.fields.Fits
  · rw [if_pos hfits]
    exact iff_of_true ⟨_, rfl⟩ hfits
  · rw [if_neg hfits]
    exact iff_of_false nofun hfits

end Variable

/-! ## 5. Decoding -/

namespace Key

/-- What the character of a tag says of the tag. -/
theorem tag_eq_of_char {k : Key} {c : Char} (h : Char.ofNat k.fields.tag = c) :
    k.fields.tag = c.toNat := by
  have htag : k.fields.tag < tagCount := KeyFields.unpack_tag_lt _
  have hvalid : k.fields.tag.isValidChar := .inl (Nat.lt_trans htag (by decide))
  rw [← h, Char.ofNat, dif_pos hvalid]
  rfl

/-- The fields of a variable determine what is decoded. -/
theorem decode_of_fields {k : Key} {v : Variable} (h : k.fields = v.fields) :
    k.variable? = some v := by
  unfold Key.variable?
  rw [h]
  cases v <;> rfl

/-- What is decoded has the tag of the key, and its other fields as far as its kind has them. -/
theorem fields_of_decode {k : Key} {v : Variable} (h : k.variable? = some v) :
    v.fields = ⟨k.fields.tag, if v.link?.isSome then k.fields.link else 0,
      if v.joint?.isSome then k.fields.joint else 0, k.fields.index⟩ := by
  unfold Key.variable? at h
  dsimp only at h
  split at h
  case h_10 => cases h
  all_goals
    rename_i hchar
    obtain rfl := Option.some.inj h
    rw [tag_eq_of_char hchar]
    rfl

/-- **A key decodes exactly if its tag is that of a kind.** -/
theorem decode_eq_none_iff {k : Key} :
    k.variable? = none ↔ ∀ c ∈ Variable.tags, k.fields.tag ≠ c.toNat := by
  constructor
  · intro hnone c hc htag
    have hchar : Char.ofNat k.fields.tag = c := by rw [htag, Char.ofNat_toNat]
    unfold Key.variable? at hnone
    simp only [Variable.tags, List.mem_cons, List.not_mem_nil, or_false] at hc
    rcases hc with rfl | rfl | rfl | rfl | rfl | rfl | rfl | rfl | rfl <;>
      simp only [hchar] at hnone <;> cases hnone
  · intro hnot
    cases hv : k.variable? with
    | none => rfl
    | some v =>
      have htag := congrArg KeyFields.tag (fields_of_decode hv)
      rw [Variable.fields_eq] at htag
      exact absurd htag.symm (hnot _ v.tag_mem)

/-- **What is decoded is encoded by the bits of the key that it uses.** -/
theorem encode_of_decode {k : Key} {v : Variable} (h : k.variable? = some v) :
    v.key? = some ⟨k.raw &&& v.usedBits⟩ := by
  have hfields : (Key.mk (k.raw &&& v.usedBits)).fields = v.fields := by
    obtain ⟨hlink, hjoint, hindex⟩ := k.fields_fits
    have htag : k.fields.tag < 2 ^ 8 := KeyFields.unpack_tag_lt _
    have hid : ∀ {n : Nat} (used : Bool), n ≤ maxId →
        (n &&& if used then 2 ^ 16 - 1 else 0) = if used then n else 0 := by
      intro n used hn
      cases used with
      | false => exact Nat.and_zero n
      | true => exact KeyFields.and_ones 16 (Nat.lt_succ_of_le hn)
    rw [fields_and, v.unpack_usedBits, fields_of_decode h, KeyFields.and, hid _ hlink,
      hid _ hjoint, KeyFields.and_ones 8 htag, KeyFields.and_ones 24 (Nat.lt_succ_of_le hindex)]
  exact Variable.key?_eq_some_iff.2 ⟨hfields ▸ fields_fits _, hfields⟩

end Key

/-! ## 6. The codec -/

namespace Variable

/-- The key of a variable has its tag, its ids and its index in their places. -/
theorem raw_of_key {v : Variable} {k : Key} (h : v.key? = some k) : k.raw.toNat =
    v.tag.toNat <<< 56 ||| v.link?.getD 0 <<< 40 ||| v.joint?.getD 0 <<< 24 ||| v.index := by
  obtain ⟨hfits, hfields⟩ := key?_eq_some_iff.1 h
  rw [← k.pack_fields, hfields, KeyFields.pack_eq_or hfits, fields_eq]

/-- **Encoding and decoding.** A variable has no key exactly if an id or the index does not fit,
and the key of a variable has its parts in their places and stands for this variable alone. A key
stands for no variable exactly if its top byte is none of the tags; else what it stands for has a
key, which is that key with the id fields cleared that the kind does not have. Keys of variables
are ordered by tag, link, joint and index, where an id that a kind does not have counts as zero. -/
theorem key_codec :
    (∀ v : Variable, v.key? = none ↔ (∃ l, v.link? = some l ∧ maxId < l) ∨
      (∃ j, v.joint? = some j ∧ maxId < j) ∨ maxIndex < v.index) ∧
    (∀ (v : Variable) (k : Key), v.key? = some k → k.variable? = some v ∧ k.raw.toNat =
      v.tag.toNat <<< 56 ||| v.link?.getD 0 <<< 40 ||| v.joint?.getD 0 <<< 24 ||| v.index) ∧
    (∀ (v w : Variable) (k : Key), v.key? = some k → w.key? = some k → v = w) ∧
    (∀ k : Key, k.variable? = none ↔ ∀ c ∈ tags, (k.raw >>> 56).toNat ≠ c.toNat) ∧
    (∀ (k : Key) (v : Variable), k.variable? = some v →
      v.key? = some ⟨k.raw &&& v.usedBits⟩ ∧
        (k.raw &&& v.usedBits = k.raw ↔ ∃ w : Variable, w.key? = some k)) ∧
    (∀ (v w : Variable) (k k' : Key), v.key? = some k → w.key? = some k' →
      (k < k' ↔ (KeyFields.mk v.tag.toNat (v.link?.getD 0) (v.joint?.getD 0) v.index).Before
        ⟨w.tag.toNat, w.link?.getD 0, w.joint?.getD 0, w.index⟩)) := by
  have hdecode : ∀ (v : Variable) (k : Key), v.key? = some k → k.variable? = some v :=
    fun v k h => Key.decode_of_fields (key?_eq_some_iff.1 h).2
  refine ⟨fun v => ?_, fun v k h => ⟨hdecode v k h, raw_of_key h⟩, fun v w k hv hw => ?_,
    fun k => ?_, fun k v h => ?_, fun v w k k' hv hw => ?_⟩
  · rw [← Option.not_isSome_iff_eq_none, Option.isSome_iff_exists, exists_key_iff, fits_iff]
    simp only [not_and_or, not_forall, exists_prop, Nat.not_le]
  · exact Option.some.inj ((hdecode v k hv).symm.trans (hdecode w k hw))
  · rw [Key.decode_eq_none_iff, Key.topByte_eq]
  · have hkey := Key.encode_of_decode h
    refine ⟨hkey, fun hraw => ⟨v, hkey.trans (congrArg (some ∘ Key.mk) hraw)⟩, fun hw => ?_⟩
    obtain ⟨w, hw⟩ := hw
    obtain rfl : w = v := Option.some.inj ((hdecode w k hw).symm.trans h)
    exact congrArg Key.raw (Option.some.inj (hkey.symm.trans hw))
  · rw [Key.lt_iff_before, (key?_eq_some_iff.1 hv).2, (key?_eq_some_iff.1 hw).2, fields_eq,
      fields_eq]

/-- A torque has no link, and a key with its tag and a link set is the key of no variable. -/
theorem key_codec_stray_link :
    Key.variable? ⟨0x5400010002000003⟩ = some (.torque 2 3) ∧
      (Variable.torque 2 3).key? = some ⟨0x5400000002000003⟩ ∧
      ¬ ∃ w : Variable, w.key? = some ⟨0x5400010002000003⟩ := by
  have hdecode : Key.variable? ⟨0x5400010002000003⟩ = some (.torque 2 3) := rfl
  obtain ⟨hkey, himage⟩ := key_codec.2.2.2.2.1 _ _ hdecode
  exact ⟨hdecode, hkey, fun h => absurd (himage.2 h) (by decide)⟩

end Variable

end Articulated
