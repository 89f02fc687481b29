import Articulated.Proofs.Number.Comparison
import Mathlib

/-!
# IEEE numbers compare lawfully

A double precision number is unpacked into a sign, a mantissa and an exponent before it is
compared. This file reads the comparison as that of places in a lexicographic order of three
integers (`place`): the kind of number, then the exponent, then the mantissa, the last two negated
for negative numbers. A NaN has no place, and the two zeros share one.

* `le_iff_place`, `lt_iff_place`, `beq_self_iff_place`: the three comparisons in terms of places.
* `unpack_pack_abs`: packing the absolute value of an unpacked number loses nothing.
* `isNumber_iff_isNaN`: the numbers are those that are not NaN.
* `isFinite_eq`: the numbers that differ from themselves by zero are the finite ones.
* The instance of `LawfulScalar` for `Float`.
-/

namespace Articulated.Machine

open Float.Model
open Float.Model.UnpackedFloat

/-! ## 1. Places -/

/-- A place in the order of the numbers. -/
structure Place where
  kind : Int
  exponent : Int
  mantissa : Int
deriving DecidableEq

namespace Place

/-- The lexicographic order. -/
def Before (p q : Place) : Prop :=
  p.kind < q.kind ∨ p.kind = q.kind ∧ (p.exponent < q.exponent ∨
    p.exponent = q.exponent ∧ p.mantissa ≤ q.mantissa)

theorem before_trans {p q r : Place} (h : p.Before q) (h' : q.Before r) : p.Before r := by
  unfold Before at *
  omega

theorem before_total (p q : Place) : p.Before q ∨ q.Before p := by
  unfold Before
  omega

theorem before_antisymm {p q : Place} (h : p.Before q) (h' : q.Before p) : p = q := by
  obtain ⟨k, e, m⟩ := p
  obtain ⟨k', e', m'⟩ := q
  simp only [Before] at h h'
  rw [Place.mk.injEq]
  omega

end Place

/-- The place of an unpacked number; a NaN has none. -/
def place : UnpackedFloat → Option Place
  | .notANumber => none
  | .infinity .negative => some ⟨-2, 0, 0⟩
  | .finite .negative m e _ => some ⟨-1, -e, -m⟩
  | .zero _ => some ⟨0, 0, 0⟩
  | .finite .positive m e _ => some ⟨1, e, m⟩
  | .infinity .positive => some ⟨2, 0, 0⟩

/-! ## 2. Comparisons through places -/

section Lexicographic

variable (e e' : Int) (m m' : Nat)

theorem lexicographic_isLE :
    ((compare e e').then (compare m m')).isLE = true ↔ e < e' ∨ e = e' ∧ m ≤ m' := by
  rcases Int.lt_trichotomy e e' with h | h | h
  · simp [Int.compare_eq_lt.2 h, h]
  · subst h
    simp [Nat.isLE_compare]
  · have hn : ¬ e < e' ∧ e ≠ e' := by omega
    simp [Int.compare_eq_gt.2 h, hn]

theorem lexicographic_isGE :
    ((compare e e').then (compare m m')).isGE = true ↔ e' < e ∨ e = e' ∧ m' ≤ m := by
  rcases Int.lt_trichotomy e e' with h | h | h
  · have hn : ¬ e' < e ∧ e ≠ e' := by omega
    simp [Int.compare_eq_lt.2 h, hn]
  · subst h
    simp [Nat.isGE_compare]
  · simp [Int.compare_eq_gt.2 h, h]

theorem lexicographic_eq_lt :
    (compare e e').then (compare m m') = .lt ↔ e < e' ∨ e = e' ∧ m < m' := by
  rw [Ordering.then_eq_lt, Int.compare_eq_lt, Int.compare_eq_eq, Nat.compare_eq_lt]

theorem lexicographic_eq_gt :
    (compare e e').then (compare m m') = .gt ↔ e' < e ∨ e = e' ∧ m' < m := by
  rw [Ordering.then_eq_gt, Int.compare_eq_gt, Int.compare_eq_eq, Nat.compare_eq_gt]

end Lexicographic

section Signs

theorem compare_negative_negative : compare Sign.negative Sign.negative = .eq := rfl
theorem compare_negative_positive : compare Sign.negative Sign.positive = .lt := rfl
theorem compare_positive_negative : compare Sign.positive Sign.negative = .gt := rfl
theorem compare_positive_positive : compare Sign.positive Sign.positive = .eq := rfl

end Signs

/-- Floats compare as at most exactly if they have places that do. -/
theorem le_iff_place (u v : UnpackedFloat) :
    u.le v = true ↔ ∃ p q, place u = some p ∧ place v = some q ∧ p.Before q := by
  rcases u with (_ | _) | _ | (_ | _) | ⟨_ | _, m, e, hm⟩ <;>
    rcases v with (_ | _) | _ | (_ | _) | ⟨_ | _, m', e', hm'⟩ <;>
    simp [UnpackedFloat.le, UnpackedFloat.compare, place, Place.Before,
      compare_negative_negative, compare_negative_positive, compare_positive_negative,
      compare_positive_positive, lexicographic_isLE, lexicographic_isGE]

theorem lt_iff_place (u v : UnpackedFloat) :
    u.lt v = true ↔ ∃ p q, place u = some p ∧ place v = some q ∧ ¬ q.Before p := by
  rcases u with (_ | _) | _ | (_ | _) | ⟨_ | _, m, e, hm⟩ <;>
    rcases v with (_ | _) | _ | (_ | _) | ⟨_ | _, m', e', hm'⟩ <;>
    simp [UnpackedFloat.lt, UnpackedFloat.compare, place, Place.Before,
      compare_negative_negative, compare_negative_positive, compare_positive_negative,
      compare_positive_positive, lexicographic_eq_lt, lexicographic_eq_gt] <;>
    omega

/-- A float equals itself exactly if it has a place. -/
theorem beq_self_iff_place (u : UnpackedFloat) : u.beq u = true ↔ ∃ p, place u = some p := by
  rcases u with (_ | _) | _ | (_ | _) | ⟨_ | _, m, e, hm⟩ <;>
    simp [UnpackedFloat.beq, UnpackedFloat.compare, place, compare_negative_negative,
      compare_positive_positive]

/-- Floats of which one is less are not equal. -/
theorem beq_eq_false_of_lt (u v : UnpackedFloat) (h : u.lt v = true) : u.beq v = false := by
  unfold UnpackedFloat.lt at h
  unfold UnpackedFloat.beq
  rw [eq_of_beq h]
  rfl

/-! ## 3. Packing absolute values -/

/-- What a pattern of bits unpacks to is not changed by packing it. -/
theorem unpack_pack_unpack (b : BitVec 64) :
    UnpackedFloat.unpack .binary64 (UnpackedFloat.pack .binary64
      (UnpackedFloat.unpack .binary64 b)) = UnpackedFloat.unpack .binary64 b := by
  rw [pack_unpack]
  cases hb : @isNaNBits .binary64 b with
  | false => rw [if_neg Bool.false_ne_true]
  | true =>
    obtain ⟨hexponent, hmantissa⟩ := of_decide_eq_true hb
    rw [if_pos rfl, unpack_packedNaN]
    exact ((if_pos hexponent).trans (if_neg hmantissa)).symm

/-- An absolute value has the same bits but for the sign. -/
theorem abs_unpack (b : BitVec 64) :
    (UnpackedFloat.unpack .binary64 b).abs = UnpackedFloat.unpack .binary64
      (packComponents .binary64 .positive (@unpackExponent .binary64 b)
        (@unpackMantissa .binary64 b)) := by
  unfold UnpackedFloat.unpack
  simp only [unpackSign_packComponents, unpackExponent_packComponents,
    unpackMantissa_packComponents, Sign.ofBitVec_toBitVec]
  split
  · split <;> rfl
  · split
    · split <;> rfl
    · rfl

/-- The absolute value of an unpacked number is what packing it and unpacking it again gives. -/
theorem unpack_pack_abs (a : Float.Model) :
    (Float.Model.pack a.unpack.abs).unpack = a.unpack.abs := by
  have habs : a.unpack.abs = UnpackedFloat.unpack .binary64 _ := abs_unpack a.toBits.toBitVec
  rw [habs]
  exact unpack_pack_unpack _

theorem abs_abs_unpacked (u : UnpackedFloat) : u.abs.abs = u.abs := by cases u <;> rfl

theorem place_abs_isSome (u : UnpackedFloat) :
    (∃ p, place u.abs = some p) ↔ ∃ p, place u = some p := by
  rcases u with (_ | _) | _ | (_ | _) | ⟨_ | _, m, e, hm⟩ <;> simp [UnpackedFloat.abs, place]

/-- Absolute values in the same place are the same. -/
theorem abs_eq_of_place {u v : UnpackedFloat} {p : Place} (hu : place u.abs = some p)
    (hv : place v.abs = some p) : u.abs = v.abs := by
  rcases u with s | _ | s | ⟨s, m, e, hm⟩ <;> rcases v with s' | _ | s' | ⟨s', m', e', hm'⟩ <;>
    simp only [UnpackedFloat.abs, place, reduceCtorEq, Option.some.injEq] at hu hv ⊢ <;>
    subst hu <;> simp_all

/-! ## 4. The laws -/

/-- The place of a machine number. -/
def placeOf (a : Float) : Option Place := place a.toModel.unpack

section Floats

variable {a b : Float}

theorem le_iff : a ≤ b ↔ ∃ p q, placeOf a = some p ∧ placeOf b = some q ∧ p.Before q := by
  refine Iff.trans ?_ (le_iff_place a.toModel.unpack b.toModel.unpack)
  exact decide_eq_true_iff

theorem lt_iff : a < b ↔ ∃ p q, placeOf a = some p ∧ placeOf b = some q ∧ ¬ q.Before p := by
  refine Iff.trans ?_ (lt_iff_place a.toModel.unpack b.toModel.unpack)
  exact decide_eq_true_iff

/-- A number that is less than another is not equal to it. -/
theorem beq_eq_false (h : a < b) : (a == b) = false :=
  beq_eq_false_of_lt a.toModel.unpack b.toModel.unpack (of_decide_eq_true h)

theorem isNumber_iff : Scalar.IsNumber a ↔ ∃ p, placeOf a = some p :=
  beq_self_iff_place a.toModel.unpack

theorem place_isSome_iff (u : UnpackedFloat) : (∃ p, place u = some p) ↔ u.isNaN = false := by
  rcases u with (_ | _) | _ | (_ | _) | ⟨_ | _, m, e, hm⟩ <;> simp [UnpackedFloat.isNaN, place]

theorem isNumber_iff_isNaN : Scalar.IsNumber a ↔ a.isNaN = false :=
  isNumber_iff.trans (place_isSome_iff a.toModel.unpack)

theorem unpack_abs (a : Float) : (Float.abs a).toModel.unpack = a.toModel.unpack.abs :=
  unpack_pack_abs a.toModel

theorem abs_abs (a : Float) : Float.abs (Float.abs a) = Float.abs a := by
  show Float.ofModel (.pack (Float.abs a).toModel.unpack.abs) =
    .ofModel (.pack a.toModel.unpack.abs)
  rw [unpack_abs, abs_abs_unpacked]

theorem abs_antisymm (h : Float.abs a ≤ Float.abs b) (h' : Float.abs b ≤ Float.abs a) :
    Float.abs a = Float.abs b := by
  obtain ⟨p, q, hp, hq, hpq⟩ := le_iff.1 h
  obtain ⟨q', p', hq', hp', hqp⟩ := le_iff.1 h'
  obtain rfl : q = q' := Option.mem_unique hq hq'
  obtain rfl : p = p' := Option.mem_unique hp hp'
  obtain rfl : p = q := Place.before_antisymm hpq hqp
  unfold placeOf at hp hq
  rw [unpack_abs] at hp hq
  show Float.ofModel (.pack a.toModel.unpack.abs) = .ofModel (.pack b.toModel.unpack.abs)
  rw [abs_eq_of_place hp hq]

/-- A float differs from itself by zero if it is finite, and by no number if it is not. -/
theorem sub_self_unpacked (u : UnpackedFloat) :
    UnpackedFloat.sub .binary64 u u = if u.isFinite then .zero .positive else .notANumber := by
  rcases u with s | _ | s | ⟨s, m, e, hm⟩
  · cases s <;> rfl
  · rfl
  · cases s <;> rfl
  · have hzero : s.apply (m <<< (e - min e e).toNat : Nat) -
        s.apply (m <<< (e - min e e).toNat : Nat) = 0 := Int.sub_self _
    show UnpackedFloat.normalize .binary64 _ (min e e) .positive = .zero .positive
    rw [hzero]
    rfl

theorem isFinite_eq (a : Float) : Scalar.isFinite a = a.isFinite := by
  have hsub : a - a = .ofModel (.pack (UnpackedFloat.sub .binary64 a.toModel.unpack
      a.toModel.unpack)) := rfl
  unfold Scalar.isFinite
  rw [hsub, sub_self_unpacked]
  show _ = a.toModel.unpack.isFinite
  cases a.toModel.unpack.isFinite <;> decide

end Floats

/-- **IEEE double precision numbers compare lawfully.** -/
instance : LawfulScalar Float where
  isNumber_of_le := by
    intro a b h
    obtain ⟨p, q, hp, hq, -⟩ := le_iff.1 h
    exact ⟨isNumber_iff.2 ⟨p, hp⟩, isNumber_iff.2 ⟨q, hq⟩⟩
  le_total := by
    intro a b ha hb
    obtain ⟨p, hp⟩ := isNumber_iff.1 ha
    obtain ⟨q, hq⟩ := isNumber_iff.1 hb
    exact (Place.before_total p q).imp (fun h => le_iff.2 ⟨p, q, hp, hq, h⟩)
      fun h => le_iff.2 ⟨q, p, hq, hp, h⟩
  le_trans := by
    intro a b c h h'
    obtain ⟨p, q, hp, hq, hpq⟩ := le_iff.1 h
    obtain ⟨q', r, hq', hr, hqr⟩ := le_iff.1 h'
    obtain rfl : q = q' := Option.mem_unique hq hq'
    exact le_iff.2 ⟨p, r, hp, hr, Place.before_trans hpq hqr⟩
  lt_iff := by
    intro a b
    constructor
    · intro h
      obtain ⟨p, q, hp, hq, hn⟩ := lt_iff.1 h
      refine ⟨le_iff.2 ⟨p, q, hp, hq, (Place.before_total p q).resolve_right hn⟩, fun h' => ?_⟩
      obtain ⟨q', p', hq', hp', hqp⟩ := le_iff.1 h'
      obtain rfl : q = q' := Option.mem_unique hq hq'
      obtain rfl : p = p' := Option.mem_unique hp hp'
      exact hn hqp
    · intro hle
      obtain ⟨h, hn⟩ := hle
      obtain ⟨p, q, hp, hq, -⟩ := le_iff.1 h
      exact lt_iff.2 ⟨p, q, hp, hq, fun hqp => hn (le_iff.2 ⟨q, p, hq, hp, hqp⟩)⟩
  isNumber_zero := by decide
  abs_zero := by decide
  abs_abs := abs_abs
  isNumber_abs := by
    intro a
    refine isNumber_iff.trans (Iff.trans ?_ isNumber_iff.symm)
    unfold placeOf
    rw [show Scalar.abs a = Float.abs a from rfl, unpack_abs]
    exact place_abs_isSome a.toModel.unpack
  abs_antisymm := abs_antisymm

end Articulated.Machine
