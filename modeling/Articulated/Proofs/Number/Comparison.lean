import Articulated.Scalar

/-!
# Comparing numbers, some of which are no numbers

The largest violation of a set of constraints is found with comparisons alone. `LawfulScalar`
says what is relied on: among the numbers that equal themselves `≤` is a total preorder, a
comparison never holds of anything else, and absolute values with the same place in the order
are the same number. IEEE numbers are of this kind.

* `maxNum_le_iff`, `foldl_maxNum_le_iff`, `maxAbs_le_iff`: a maximum is within a bound exactly if
  every number that went into it is; entries that are no numbers are passed over.
* `IsMagnitude.eq_of_le_iff`: a magnitude is determined by its upper bounds, so a maximum of
  magnitudes does not depend on the order it is taken in.
-/

namespace Articulated

namespace Scalar

variable {α : Type} [Scalar α]

/-- The value is a number: it equals itself, as a NaN does not. -/
def IsNumber (x : α) : Prop := (x == x) = true

instance (x : α) : Decidable (IsNumber x) := inferInstanceAs (Decidable (_ = true))

/-- The value is a number of its own absolute value. -/
def IsMagnitude (x : α) : Prop := IsNumber x ∧ abs x = x

end Scalar

open Scalar

/-- The laws of comparison that IEEE numbers obey. -/
class LawfulScalar (α : Type) [Scalar α] : Prop where
  /-- Only numbers compare. -/
  isNumber_of_le {a b : α} : a ≤ b → IsNumber a ∧ IsNumber b
  /-- Of two numbers one is at most the other. -/
  le_total {a b : α} : IsNumber a → IsNumber b → a ≤ b ∨ b ≤ a
  le_trans {a b c : α} : a ≤ b → b ≤ c → a ≤ c
  /-- Less means at most, but not the other way round. -/
  lt_iff {a b : α} : a < b ↔ a ≤ b ∧ ¬ b ≤ a
  isNumber_zero : IsNumber (0 : α)
  abs_zero : Scalar.abs (0 : α) = 0
  abs_abs (a : α) : Scalar.abs (Scalar.abs a) = Scalar.abs a
  isNumber_abs {a : α} : IsNumber (Scalar.abs a) ↔ IsNumber a
  /-- Absolute values that are each at most the other are the same number. -/
  abs_antisymm {a b : α} : Scalar.abs a ≤ Scalar.abs b → Scalar.abs b ≤ Scalar.abs a →
    Scalar.abs a = Scalar.abs b

section Laws

variable {α : Type} [Scalar α] [LawfulScalar α] {a b m t : α}

open LawfulScalar

theorem le_refl_of_isNumber (h : IsNumber a) : a ≤ a := (le_total h h).elim id id

theorem le_of_not_lt (ha : IsNumber a) (hb : IsNumber b) (h : ¬ a < b) : b ≤ a := by
  rcases le_total hb ha with hba | hab
  · exact hba
  · exact Decidable.byContradiction fun hn => h (lt_iff.2 ⟨hab, hn⟩)

theorem LawfulScalar.lt_irrefl (a : α) : ¬ a < a := fun h => (lt_iff.1 h).2 (lt_iff.1 h).1

theorem LawfulScalar.lt_trans (hab : a < b) (hbm : b < m) : a < m := by
  obtain ⟨hab, -⟩ := lt_iff.1 hab
  obtain ⟨hbm, hnot⟩ := lt_iff.1 hbm
  exact lt_iff.2 ⟨le_trans hab hbm, fun hma => hnot (le_trans hma hab)⟩

/-! ## 1. The larger of two -/

theorem isNumber_maxNum (hm : IsNumber m) (a : α) : IsNumber (maxNum m a) := by
  unfold maxNum
  split
  · rename_i hlt
    exact (isNumber_of_le (lt_iff.1 hlt).1).2
  · exact (if_pos (show (m == m) = true from hm)).symm ▸ hm

omit [LawfulScalar α] in
theorem maxNum_eq_or (hm : IsNumber m) (a : α) : maxNum m a = m ∨ maxNum m a = a := by
  unfold maxNum
  split
  · exact .inr rfl
  · exact .inl (if_pos hm)

/-- The larger of two is not below the second one. -/
theorem le_maxNum (ha : IsNumber a) (m : α) : a ≤ maxNum m a := by
  unfold maxNum
  split
  · exact le_refl_of_isNumber ha
  · rename_i hge
    split
    · rename_i hm
      exact le_of_not_lt hm ha hge
    · exact le_refl_of_isNumber ha

/-- The larger of two is within a bound exactly if both are, as far as the second is a number. -/
theorem maxNum_le_iff (hm : IsNumber m) : maxNum m a ≤ t ↔ m ≤ t ∧ (IsNumber a → a ≤ t) := by
  unfold maxNum
  split
  · rename_i hlt
    have hle := (lt_iff.1 hlt).1
    exact ⟨fun h => ⟨le_trans hle h, fun _ => h⟩, fun h => h.2 (isNumber_of_le hle).2⟩
  · rename_i hge
    rw [if_pos (show (m == m) = true from hm)]
    exact ⟨fun h => ⟨h, fun ha => le_trans (le_of_not_lt hm ha hge) h⟩, And.left⟩

/-! ## 2. The largest of a list -/

theorem foldl_maxNum_le_iff :
    ∀ (v : List α) {m : α}, IsNumber m →
      (v.foldl maxNum m ≤ t ↔ m ≤ t ∧ ∀ a ∈ v, IsNumber a → a ≤ t)
  | [], m, _ => by simp
  | a :: v, m, hm => by
    rw [List.foldl_cons, foldl_maxNum_le_iff v (isNumber_maxNum hm a), maxNum_le_iff hm,
      List.forall_mem_cons, and_assoc]

omit [LawfulScalar α] in
theorem maxAbs_eq_foldl (v : List α) : maxAbs v = (v.map Scalar.abs).foldl maxNum 0 := by
  rw [maxAbs, List.foldl_map]

/-- **The largest absolute entry is within a bound exactly if zero is and every number of the list
is, in absolute value.** -/
theorem maxAbs_le_iff (v : List α) :
    maxAbs v ≤ t ↔ 0 ≤ t ∧ ∀ x ∈ v, IsNumber x → Scalar.abs x ≤ t := by
  rw [maxAbs_eq_foldl, foldl_maxNum_le_iff _ isNumber_zero, List.forall_mem_map]
  simp only [isNumber_abs]

/-! ## 3. Magnitudes -/

theorem isMagnitude_zero : IsMagnitude (0 : α) := ⟨isNumber_zero, LawfulScalar.abs_zero⟩

theorem isMagnitude_maxNum (hm : IsMagnitude m) (ha : Scalar.abs a = a) :
    IsMagnitude (maxNum m a) := by
  refine ⟨isNumber_maxNum hm.1 a, ?_⟩
  rcases maxNum_eq_or hm.1 a with h | h
  · rw [h, hm.2]
  · rw [h, ha]

theorem isMagnitude_foldl_maxNum :
    ∀ (v : List α) {m : α}, IsMagnitude m → (∀ a ∈ v, Scalar.abs a = a) →
      IsMagnitude (v.foldl maxNum m)
  | [], _, hm, _ => hm
  | a :: v, _, hm, hv =>
    isMagnitude_foldl_maxNum v (isMagnitude_maxNum hm (hv a List.mem_cons_self))
      fun b hb => hv b (List.mem_cons_of_mem a hb)

theorem isMagnitude_maxAbs (v : List α) : IsMagnitude (maxAbs v) := by
  rw [maxAbs_eq_foldl]
  refine isMagnitude_foldl_maxNum _ isMagnitude_zero fun a ha => ?_
  obtain ⟨x, -, rfl⟩ := List.mem_map.1 ha
  exact LawfulScalar.abs_abs x

/-- **A magnitude is determined by its upper bounds.** -/
theorem Scalar.IsMagnitude.eq_of_le_iff (ha : IsMagnitude a)
    (hb : IsMagnitude b) (h : ∀ t, a ≤ t ↔ b ≤ t) : a = b := by
  have hab : a ≤ b := (h b).2 (le_refl_of_isNumber hb.1)
  have hba : b ≤ a := (h a).1 (le_refl_of_isNumber ha.1)
  rw [← ha.2, ← hb.2] at hab hba ⊢
  exact LawfulScalar.abs_antisymm hab hba

/-- The largest of some magnitudes does not depend on their order. -/
theorem foldl_maxNum_perm {v w : List α} (h : v.Perm w) (hm : IsMagnitude m)
    (hv : ∀ a ∈ v, Scalar.abs a = a) : v.foldl maxNum m = w.foldl maxNum m := by
  have hw : ∀ a ∈ w, Scalar.abs a = a := fun a ha => hv a (h.mem_iff.2 ha)
  refine (isMagnitude_foldl_maxNum v hm hv).eq_of_le_iff (isMagnitude_foldl_maxNum w hm hw)
    fun t => ?_
  rw [foldl_maxNum_le_iff v hm.1, foldl_maxNum_le_iff w hm.1]
  exact and_congr_right fun _ => forall_congr' fun a => by rw [h.mem_iff]

end Laws

end Articulated
