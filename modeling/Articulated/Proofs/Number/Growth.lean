import Articulated.Proofs.Number.Machine

/-!
# Products of IEEE numbers

A double precision number of at least the smallest normal one, multiplied by a number above one,
becomes larger or infinite: rounding may take something from the product, but never all that it
gained. Below the smallest normal number a product may round back to what it was.

The product of finite numbers that are not negative is not negative. Of infinity and zero it is no
number at all.

* `canonical_unpack`: the mantissas and exponents that occur.
* `unpack_pack_normal`, `pack_large`: packing a rounded number loses nothing, or makes it infinite.
* `roundWithAccuracy_normal`: a mantissa with too many bits is rounded to no less than its leading
  bits.
* `lt_mul_or_eq_infinity`: the growth.
* `nonneg_iff`, `isNonneg_unpack_pack`: the numbers that are not negative, and what packing makes
  of them.
* `mul_nonneg`: their products.
-/

namespace Articulated.Machine

open Float.Model
open Float.Model.UnpackedFloat

/-! ## 1. The numbers that occur -/

/-- The bounds of a mantissa and an exponent. Only in the lowest exponent may a mantissa lack its
leading bit. -/
def Canonical : UnpackedFloat → Prop
  | .finite _ m e _ => m < 2 ^ 53 ∧ -1074 ≤ e ∧ e ≤ 971 ∧ (2 ^ 52 ≤ m ∨ e = -1074)
  | _ => True

/-- The leading bit of a normal number is not packed, and comes back in front. -/
theorem one_append_toNat (v : BitVec 52) : (1#1 ++ v).toNat = 2 ^ 52 + v.toNat := by
  rw [BitVec.toNat_append, Nat.shiftLeft_eq, Nat.mul_comm]
  exact (Nat.two_pow_add_eq_or_of_lt v.isLt 1).symm

theorem canonical_unpack (b : BitVec 64) : Canonical (UnpackedFloat.unpack .binary64 b) := by
  fun_cases UnpackedFloat.unpack .binary64 b with
  | case1 => trivial
  | case2 => trivial
  | case3 => trivial
  | case4 mvec evec e svec s h h' h'' =>
    have hm : mvec.toNat < 2 ^ 52 := mvec.isLt
    have hzero : evec.toNat = 0 := congrArg BitVec.toNat h'
    have he : e = (evec.toNat : Int) - (1023 + 52) := rfl
    exact ⟨by omega, by omega, by omega, .inr (by omega)⟩
  | case5 mvec evec e svec s h h' =>
    have hm : mvec.toNat < 2 ^ 52 := mvec.isLt
    have hlt : evec.toNat < 2048 := evec.isLt
    have hne : evec.toNat ≠ 2047 := fun heq => h (BitVec.eq_of_toNat_eq heq)
    have hpos : evec.toNat ≠ 0 := fun heq => h' (BitVec.eq_of_toNat_eq heq)
    have he : e = (evec.toNat : Int) - (1023 + 52) := rfl
    have hone := one_append_toNat mvec
    exact ⟨lt_of_eq_of_lt hone (by omega), by omega, by omega,
      .inl (le_of_le_of_eq (Nat.le_add_right _ _) hone.symm)⟩

/-! ## 2. Packing -/

theorem model_pack_congr {u v : UnpackedFloat}
    (h : UnpackedFloat.pack .binary64 u = UnpackedFloat.pack .binary64 v) :
    Float.Model.pack u = Float.Model.pack v := by
  unfold Float.Model.pack
  simp only [h]

theorem bias_eq (e : Int) : e + Format.binary64.exponentBias + (52 : Nat) = e + 1075 :=
  Int.add_assoc e 1023 52

section Normal

variable {m : Nat} {e : Int} (hm : 0 < m)

theorem pack_normal (hlow : 2 ^ 52 ≤ m) (hhigh : m < 2 ^ 53) (he : e ≤ 971) :
    UnpackedFloat.pack .binary64 (.finite .positive m e hm) =
      packComponents .binary64 .positive (BitVec.ofNat 11 (e + 1075).toNat)
        (BitVec.ofNat 52 m) := by
  have hlog : m.log2 + 1 = Format.binary64.mantissaBits := by
    rw [(Nat.log2_eq_iff (by omega)).2 ⟨hlow, hhigh⟩]
    rfl
  have hsmall : ¬ 2 ^ 11 ≤ (e + 1075).toNat + 1 := by omega
  unfold UnpackedFloat.pack
  simp only [bias_eq]
  rw [if_neg hsmall, if_pos hlog]

theorem pack_large (he : 971 < e) :
    UnpackedFloat.pack .binary64 (.finite .positive m e hm) =
      UnpackedFloat.pack .binary64 (.infinity .positive) := by
  have hlarge : 2 ^ 11 ≤ (e + 1075).toNat + 1 := by omega
  unfold UnpackedFloat.pack
  simp only [bias_eq]
  rw [if_pos hlarge]

theorem unpack_pack_normal (hlow : 2 ^ 52 ≤ m) (hhigh : m < 2 ^ 53) (he : -1074 ≤ e)
    (he' : e ≤ 971) :
    UnpackedFloat.unpack .binary64 (UnpackedFloat.pack .binary64 (.finite .positive m e hm)) =
      .finite .positive m e hm := by
  have hexponent : (BitVec.ofNat 11 (e + 1075).toNat).toNat = (e + 1075).toNat := by
    rw [BitVec.toNat_ofNat]
    exact Nat.mod_eq_of_lt (by omega)
  have hmantissa : (1#1 ++ BitVec.ofNat 52 m).toNat = m := by
    rw [one_append_toNat, BitVec.toNat_ofNat]
    omega
  have hfinite : BitVec.ofNat 11 (e + 1075).toNat ≠ -1#_ := fun h => by
    have heq : (e + 1075).toNat = 2047 := hexponent.symm.trans (congrArg BitVec.toNat h)
    omega
  have hnormal : BitVec.ofNat 11 (e + 1075).toNat ≠ 0#_ := fun h => by
    have heq : (e + 1075).toNat = 0 := hexponent.symm.trans (congrArg BitVec.toNat h)
    omega
  rw [pack_normal hm hlow hhigh he']
  unfold UnpackedFloat.unpack
  simp only [unpackSign_packComponents, unpackExponent_packComponents,
    unpackMantissa_packComponents, Sign.ofBitVec_toBitVec]
  rw [if_neg hfinite, if_neg hnormal, UnpackedFloat.finite.injEq]
  refine ⟨rfl, hmantissa, ?_⟩
  rw [hexponent]
  show ((e + 1075).toNat : Int) - (1023 + 52) = e
  omega

end Normal

/-! ## 3. Rounding -/

/-- A shift divides the mantissa; what is lost shows in the residual bits only. -/
theorem mantissa_shiftRight (em : ExtendedMantissa) (k : Nat) :
    (em >>> k).mantissa = em.mantissa / 2 ^ k := by
  induction k with
  | zero => exact (Nat.div_one _).symm
  | succ k ih =>
    show (em >>> k).mantissa / 2 = _
    rw [ih, Nat.div_div_eq_div_mul, Nat.pow_succ]

/-- Rounding adds at most one to the mantissa. -/
theorem roundedMantissa_bounds (em : ExtendedMantissa) :
    em.mantissa ≤ em.roundedMantissa ∧ em.roundedMantissa ≤ em.mantissa + 1 := by
  obtain ⟨m, r, s⟩ := em
  have hparity := Nat.mod_lt m (by decide : 0 < 2)
  cases r <;> cases s <;>
    simp only [ExtendedMantissa.roundedMantissa, ExtendedMantissa.accuracy,
      Accuracy.roundToNearestEven] <;>
    omega

/-- The exponent to which a mantissa with `k` bits too many is shifted. -/
theorem targetExponent_eq {m : Nat} {e : Int} {k : Nat} (hlow : 2 ^ (52 + k) ≤ m)
    (hhigh : m < 2 ^ (53 + k)) (hmin : -1074 ≤ e + k) :
    Format.binary64.targetExponent (totalExponent m e) = e + k := by
  have hlog : m.log2 = 52 + k := by
    have hpos : 0 < m := (Nat.two_pow_pos _).trans_le hlow
    refine (Nat.log2_eq_iff (Nat.ne_of_gt hpos)).2 ⟨hlow, ?_⟩
    rwa [show 52 + k + 1 = 53 + k by omega]
  show max ((m.log2 : Int) + 1 + e - 53) (-1074) = e + k
  omega

theorem shiftToTargetExponent_eq {m : Nat} {e : Int} {k : Nat} (a : Accuracy)
    (hlow : 2 ^ (52 + k) ≤ m) (hhigh : m < 2 ^ (53 + k)) (hmin : -1074 ≤ e + k) :
    shiftToTargetExponent .binary64 m e a =
      (ExtendedMantissa.ofMantissaAndAccuracy m a >>> k, e + k) := by
  have hshift : (e + k - e).toNat = k := by omega
  unfold shiftToTargetExponent shiftToExponent
  rw [targetExponent_eq hlow hhigh hmin]
  simp only [hshift]

/-- The second shift takes back what rounding carried over the leading bit. -/
theorem carry_bounds {m : Nat} {e : Int} (hlow : 2 ^ 52 ≤ m) (hhigh : m ≤ 2 ^ 53)
    (hmin : -1074 ≤ e) :
    2 ^ 52 ≤ (shiftToTargetExponent .binary64 m e .exact).1.mantissa ∧
      (shiftToTargetExponent .binary64 m e .exact).1.mantissa < 2 ^ 53 ∧
      (e < (shiftToTargetExponent .binary64 m e .exact).2 ∨
        e = (shiftToTargetExponent .binary64 m e .exact).2 ∧
          m ≤ (shiftToTargetExponent .binary64 m e .exact).1.mantissa) := by
  rcases hhigh.lt_or_eq with hlt | rfl
  · rw [shiftToTargetExponent_eq (k := 0) .exact hlow hlt (by omega), mantissa_shiftRight]
    show 2 ^ 52 ≤ m / 2 ^ 0 ∧ m / 2 ^ 0 < 2 ^ 53 ∧ (e < e + 0 ∨ e = e + 0 ∧ m ≤ m / 2 ^ 0)
    omega
  · rw [shiftToTargetExponent_eq (k := 1) .exact (Nat.le_refl _) (by decide) (by omega),
      mantissa_shiftRight]
    exact ⟨by decide, by decide, .inl (Int.lt_succ e)⟩

/-- A mantissa with `k` bits too many is rounded to no less than its leading bits. -/
theorem roundWithAccuracy_normal (s : Sign) {m : Nat} {e : Int} {k : Nat}
    (hlow : 2 ^ (52 + k) ≤ m) (hhigh : m < 2 ^ (53 + k)) (hmin : -1074 ≤ e + k) :
    ∃ m' e' h, roundWithAccuracy .binary64 s m e .exact = .finite s m' e' h ∧ 2 ^ 52 ≤ m' ∧
      m' < 2 ^ 53 ∧ (e + k < e' ∨ e + k = e' ∧ m / 2 ^ k ≤ m') := by
  have hq : 2 ^ 52 ≤ m / 2 ^ k := by
    rw [Nat.le_div_iff_mul_le (Nat.two_pow_pos _), ← Nat.pow_add]
    exact hlow
  have hq' : m / 2 ^ k < 2 ^ 53 := by
    rw [Nat.div_lt_iff_lt_mul (Nat.two_pow_pos _), ← Nat.pow_add]
    exact hhigh
  have hr := roundedMantissa_bounds (ExtendedMantissa.ofMantissaAndAccuracy m .exact >>> k)
  rw [mantissa_shiftRight] at hr
  obtain ⟨hr, hr'⟩ : m / 2 ^ k ≤ _ ∧ _ ≤ m / 2 ^ k + 1 := hr
  obtain ⟨hm, hm', he⟩ := carry_bounds (hq.trans hr) (by omega) hmin
  unfold roundWithAccuracy
  simp only [shiftToTargetExponent_eq _ hlow hhigh hmin]
  rw [dif_neg (by omega)]
  exact ⟨_, _, (Nat.two_pow_pos _).trans_le hm, rfl, hm, hm',
    he.imp_right fun h => ⟨h.1, hr.trans h.2⟩⟩

/-! ## 4. Growth -/

/-- The product of a normal number with one above one, rounded, is in a later place. -/
theorem round_product {m m' : Nat} {e e' : Int} (hm : 2 ^ 52 ≤ m ∧ m < 2 ^ 53) (he : -1074 ≤ e)
    (hm' : 2 ^ 52 ≤ m' ∧ m' < 2 ^ 53) (hone : -52 < e' ∨ -52 = e' ∧ 2 ^ 52 < m') :
    ∃ n i h, roundWithAccuracy .binary64 .positive (m * m') (e + e') .exact =
      .finite .positive n i h ∧ 2 ^ 52 ≤ n ∧ n < 2 ^ 53 ∧ (e < i ∨ e = i ∧ m < n) := by
  have hlow : 2 ^ 52 * 2 ^ 52 ≤ m * m' := Nat.mul_le_mul hm.1 hm'.1
  have hhigh : m * m' < 2 ^ 53 * 2 ^ 53 :=
    Nat.mul_lt_mul_of_lt_of_le hm.2 (Nat.le_of_lt hm'.2) (by decide)
  rcases Nat.lt_or_ge (m * m') (2 ^ (53 + 52)) with hlt | hge
  · obtain ⟨n, i, h, hround, hn, hn', hi⟩ :=
      roundWithAccuracy_normal (e := e + e') (k := 52) .positive (by omega) hlt (by omega)
    refine ⟨n, i, h, hround, hn, hn', ?_⟩
    rcases hone with hlarge | ⟨rfl, hlarge⟩
    · omega
    · have hgain : (m + 1) * 2 ^ 52 ≤ m * m' := by
        calc (m + 1) * 2 ^ 52 = m * 2 ^ 52 + 2 ^ 52 := Nat.succ_mul m _
          _ ≤ m * 2 ^ 52 + m := Nat.add_le_add_left hm.1 _
          _ = m * (2 ^ 52 + 1) := (Nat.mul_succ m _).symm
          _ ≤ m * m' := Nat.mul_le_mul_left m hlarge
      have hquotient := (Nat.le_div_iff_mul_le (Nat.two_pow_pos 52)).2 hgain
      omega
  · obtain ⟨n, i, h, hround, hn, hn', hi⟩ :=
      roundWithAccuracy_normal (e := e + e') (k := 53) .positive hge (by omega) (by omega)
    exact ⟨n, i, h, hround, hn, hn', by omega⟩

/-- What has its place above zero is an infinity or a finite number, both positive. -/
theorem positive_of_place {u : UnpackedFloat} {q : Place} (hq : place u = some q)
    (hkind : 0 < q.kind) : u = .infinity .positive ∨
      ∃ m e hm, u = .finite .positive m e hm ∧ q = ⟨1, e, m⟩ := by
  rcases u with (_ | _) | _ | s | ⟨_ | _, m, e, hm⟩ <;>
    simp only [place, Option.some.injEq, reduceCtorEq] at hq
  · subst hq
    exact absurd hkind (by decide)
  · exact .inl rfl
  · subst hq
    exact absurd hkind (by decide)
  · subst hq
    exact absurd hkind (by show ¬ (0 : Int) < -1; decide)
  · exact .inr ⟨m, e, hm, rfl, hq.symm⟩

theorem before_infinity {u : UnpackedFloat} {q : Place} (hq : place u = some q) :
    q.Before ⟨2, 0, 0⟩ := by
  rcases u with (_ | _) | _ | s | ⟨_ | _, m, e, hm⟩ <;>
    simp only [place, Option.some.injEq, reduceCtorEq] at hq <;>
    subst hq <;>
    simp [Place.Before]

section Floats

variable {x f : Float}

/-- What is below some number is below infinity. -/
theorem lt_infinity_of_lt {y : Float} (h : x < y) : x < 1 / 0 := by
  have hplace : placeOf (1 / 0) = some ⟨2, 0, 0⟩ := by decide +kernel
  obtain ⟨p, q, hp, hq, hn⟩ := lt_iff.1 h
  exact lt_iff.2 ⟨p, _, hp, hplace, fun hbefore =>
    hn (Place.before_trans (before_infinity hq) hbefore)⟩

/-- What is at least the smallest normal number has all its bits, or is infinite. -/
theorem unpack_of_le (h : 2.2250738585072014e-308 ≤ x) : x.toModel.unpack = .infinity .positive ∨
    ∃ m e hm, x.toModel.unpack = .finite .positive m e hm ∧ (2 ^ 52 ≤ m ∧ m < 2 ^ 53) ∧
      -1074 ≤ e := by
  have hplace : placeOf 2.2250738585072014e-308 = some ⟨1, -1074, 2 ^ 52⟩ := by decide +kernel
  obtain ⟨p, q, hp, hq, hpq⟩ := le_iff.1 h
  obtain rfl := Option.some.inj (hplace.symm.trans hp)
  dsimp only [Place.Before] at hpq
  refine (positive_of_place hq (by omega)).imp_right fun ⟨m, e, hm, hx, hplace⟩ => ?_
  have hcanonical : Canonical x.toModel.unpack := canonical_unpack _
  rw [hx] at hcanonical
  obtain ⟨hm', he, -, hlow⟩ := hcanonical
  subst hplace
  dsimp only at hpq
  exact ⟨m, e, hm, hx, ⟨by omega, hm'⟩, he⟩

/-- What is above one has all its bits, in the exponent of one or a larger one, or is infinite. -/
theorem unpack_of_one_lt (h : 1 < f) : f.toModel.unpack = .infinity .positive ∨
    ∃ m e hm, f.toModel.unpack = .finite .positive m e hm ∧ (2 ^ 52 ≤ m ∧ m < 2 ^ 53) ∧
      (-52 < e ∨ -52 = e ∧ 2 ^ 52 < m) := by
  have hplace : placeOf 1 = some ⟨1, -52, 2 ^ 52⟩ := by decide +kernel
  obtain ⟨p, q, hp, hq, hpq⟩ := lt_iff.1 h
  obtain rfl := Option.some.inj (hplace.symm.trans hp)
  dsimp only [Place.Before] at hpq
  refine (positive_of_place hq (by omega)).imp_right fun ⟨m, e, hm, hf, hplace⟩ => ?_
  have hcanonical : Canonical f.toModel.unpack := canonical_unpack _
  rw [hf] at hcanonical
  obtain ⟨hm', he, -, hlow⟩ := hcanonical
  subst hplace
  dsimp only at hpq
  exact ⟨m, e, hm, hf, ⟨by omega, hm'⟩, by omega⟩

/-- **A product grows.** A number of at least the smallest normal one, multiplied by a number above
one, becomes larger or infinite. -/
theorem lt_mul_or_eq_infinity (hx : 2.2250738585072014e-308 ≤ x) (hf : 1 < f) :
    x < x * f ∨ x * f = 1 / 0 := by
  have hinfinity : Float.ofModel (.pack (.infinity .positive)) = 1 / 0 := by decide +kernel
  have hmul : x * f = .ofModel (.pack (UnpackedFloat.mul .binary64 x.toModel.unpack
      f.toModel.unpack)) := rfl
  rw [hmul]
  rcases unpack_of_le hx with hx' | ⟨m, e, hm, hx', hmantissa, he⟩
  · rcases unpack_of_one_lt hf with hf' | ⟨m', e', hm', hf', -⟩ <;>
      exact .inr (by rw [hx', hf']; exact hinfinity)
  rcases unpack_of_one_lt hf with hf' | ⟨m', e', hm', hf', hmantissa', hone⟩
  · exact .inr (by rw [hx', hf']; exact hinfinity)
  obtain ⟨n, i, hn, hround, hlow, hhigh, hlater⟩ := round_product hmantissa he hmantissa' hone
  have hunpacked : UnpackedFloat.mul .binary64 x.toModel.unpack f.toModel.unpack =
      .finite .positive n i hn := by
    rw [hx', hf']
    exact hround
  rw [hunpacked]
  rcases Int.lt_or_le 971 i with hlarge | hsmall
  · rw [model_pack_congr (pack_large hn hlarge)]
    exact .inr hinfinity
  · refine .inl (lt_iff.2 ⟨⟨1, e, m⟩, ⟨1, i, n⟩, ?_, ?_, ?_⟩)
    · unfold placeOf
      rw [hx']
      rfl
    · show place (UnpackedFloat.unpack .binary64 (UnpackedFloat.pack .binary64 _)) = _
      rw [unpack_pack_normal hn hlow hhigh (by omega) hsmall]
      rfl
    · dsimp only [Place.Before]
      omega

end Floats

/-! ## 5. Signs -/

/-- The number is a zero of either sign, or positive. -/
def IsNonneg : UnpackedFloat → Prop
  | .notANumber => False
  | .infinity s | .finite s _ _ _ => s = .positive
  | .zero _ => True

theorem isNonneg_iff_place (u : UnpackedFloat) :
    IsNonneg u ↔ ∃ p, place u = some p ∧ Place.Before ⟨0, 0, 0⟩ p := by
  rcases u with (_ | _) | _ | (_ | _) | ⟨_ | _, m, e, hm⟩ <;>
    simp [place, IsNonneg, Place.Before]

theorem nonneg_iff {x : Float} : 0 ≤ x ↔ IsNonneg x.toModel.unpack := by
  have hzero : placeOf 0 = some ⟨0, 0, 0⟩ := by decide +kernel
  rw [le_iff, isNonneg_iff_place]
  constructor
  · rintro ⟨p, q, hp, hq, hpq⟩
    obtain rfl := Option.some.inj (hzero.symm.trans hp)
    exact ⟨q, hq, hpq⟩
  · rintro ⟨q, hq, hpq⟩
    exact ⟨_, q, hzero, hq, hpq⟩

/-- Bits without a sign that are no NaN make a number that is not negative. -/
theorem isNonneg_components {exponent : BitVec 11} {mantissa : BitVec 52}
    (h : exponent ≠ -1#_ ∨ mantissa = 0#_) :
    IsNonneg (UnpackedFloat.unpack .binary64
      (packComponents .binary64 .positive exponent mantissa)) := by
  unfold UnpackedFloat.unpack
  simp only [unpackSign_packComponents, unpackExponent_packComponents,
    unpackMantissa_packComponents, Sign.ofBitVec_toBitVec]
  split
  · rename_i hexponent
    rw [if_pos (h.resolve_left fun hne => hne hexponent)]
    rfl
  · split
    · split
      · trivial
      · rfl
    · rfl

/-- Packing makes no NaN, and only a zero negative. -/
theorem isNonneg_unpack_pack {u : UnpackedFloat} (h : IsNonneg u) :
    IsNonneg (UnpackedFloat.unpack .binary64 (UnpackedFloat.pack .binary64 u)) := by
  rcases u with s | _ | s | ⟨s, m, e, hm⟩
  · obtain rfl : s = .positive := h
    exact isNonneg_components (.inr rfl)
  · exact h.elim
  · cases s with
    | negative => trivial
    | positive => exact isNonneg_components (.inr rfl)
  · obtain rfl : s = .positive := h
    unfold UnpackedFloat.pack
    simp only [bias_eq]
    split
    · exact isNonneg_components (.inr rfl)
    · rename_i hsmall
      split
      · refine isNonneg_components (.inl fun hones => ?_)
        have heq := congrArg BitVec.toNat hones
        rw [BitVec.toNat_ofNat] at heq
        change ¬ 2 ^ 11 ≤ _ at hsmall
        change _ % 2 ^ 11 = 2047 at heq
        omega
      · exact isNonneg_components (.inl (by decide))

theorem isNonneg_round {m : Nat} {e : Int} (a : Accuracy) :
    IsNonneg (roundWithAccuracy .binary64 .positive m e a) := by
  unfold roundWithAccuracy
  show IsNonneg (dite _ _ _)
  split
  · trivial
  · rfl

theorem isNonneg_mul {u v : UnpackedFloat} (hu : IsNonneg u) (hv : IsNonneg v)
    (hu' : u.isFinite = true) (hv' : v.isFinite = true) :
    IsNonneg (UnpackedFloat.mul .binary64 u v) := by
  rcases u with s | _ | s | ⟨s, m, e, hm⟩
  · cases hu'
  · cases hu'
  · rcases v with s' | _ | s' | ⟨s', m', e', hm'⟩
    · cases hv'
    · cases hv'
    · trivial
    · trivial
  · rcases v with s' | _ | s' | ⟨s', m', e', hm'⟩
    · cases hv'
    · cases hv'
    · trivial
    · obtain rfl : s = .positive := hu
      obtain rfl : s' = .positive := hv
      exact isNonneg_round _

theorem mul_nonneg {x y : Float} (hx : 0 ≤ x) (hy : 0 ≤ y) (hx' : x.isFinite = true)
    (hy' : y.isFinite = true) : 0 ≤ x * y := by
  rw [nonneg_iff] at hx hy ⊢
  exact isNonneg_unpack_pack (isNonneg_mul hx hy hx' hy')

end Articulated.Machine
