import Articulated.Graph.Basic
import Articulated.Proofs.Key.Lookup
import Articulated.Proofs.Number.Exact
import Articulated.Proofs.Reordering

/-!
# Reordered graphs

Graphs whose factors correspond in some order have the same signatures and variables. Factors
correspond if they are equal, or if they balance the same wrenches in another order. The errors of
such graphs evaluate at the same assignments, and are equal there as far as sums do not depend on
the order of their terms, which they do for machine numbers.

* `Signature.sort_eq`: sorted signatures do not depend on the order.
* `Scalar.ExactSums`: sums that do not depend on order or grouping.
* `FactorGraph.Reordered`: factors correspond in some order.
* `FactorGraph.Reordered.signatures_eq`, `keys_eq`, `error_matching`: what is the same then.
-/

namespace Articulated

/-! ## 1. Sorted signatures -/

namespace Signature

theorem keysBelow_cons {a b : Key} {as bs : List Key} :
    keysBelow (a :: as) (b :: bs) = true ↔ a < b ∨ a = b ∧ keysBelow as bs = true := by
  rw [keysBelow, Bool.or_eq_true, Bool.and_eq_true, decide_eq_true_iff, beq_iff_eq]

theorem keysBelow_total : ∀ as bs : List Key, keysBelow as bs = true ∨ keysBelow bs as = true
  | [], _ => .inl rfl
  | _ :: _, [] => .inr rfl
  | a :: as, b :: bs => by
    rw [keysBelow_cons, keysBelow_cons]
    exact lex_total Key.lt_or_eq_or_lt (keysBelow_total as bs)

theorem keysBelow_trans : ∀ {as bs cs : List Key}, keysBelow as bs = true →
    keysBelow bs cs = true → keysBelow as cs = true
  | [], _, _, _, _ => rfl
  | _ :: _, _ :: _, [], _, h => nomatch h
  | a :: as, b :: bs, c :: cs, h, h' => by
    rw [keysBelow_cons] at h h' ⊢
    exact lex_trans Key.lt_trans' keysBelow_trans h h'

theorem keysBelow_antisymm : ∀ {as bs : List Key}, keysBelow as bs = true →
    keysBelow bs as = true → as = bs
  | [], [], _, _ => rfl
  | a :: as, b :: bs, h, h' => by
    rw [keysBelow_cons] at h h'
    obtain ⟨rfl, rfl⟩ := lex_antisymm Key.lt_asymm Key.lt_irrefl keysBelow_antisymm h h'
    rfl

theorem below_iff {a b : Signature} :
    below a b = true ↔ a.name < b.name ∨ a.name = b.name ∧ keysBelow a.keys b.keys = true := by
  rw [below, Bool.or_eq_true, Bool.and_eq_true, decide_eq_true_iff, beq_iff_eq]

theorem below_antisymm {a b : Signature} (h : below a b = true) (h' : below b a = true) :
    a = b := by
  rw [below_iff] at h h'
  obtain ⟨hname, hkeys⟩ := lex_antisymm String.lt_asymm String.lt_irrefl keysBelow_antisymm h h'
  cases a
  cases b
  exact congrArg₂ Signature.mk hname hkeys

theorem name_lt_or_eq_or_lt (a b : String) : a < b ∨ a = b ∨ b < a := by
  by_cases hab : a < b
  · exact .inl hab
  · by_cases hba : b < a
    · exact .inr (.inr hba)
    · exact .inr (.inl (String.le_antisymm hba hab))

/-- **Sorted signatures do not depend on the order of the factors.** -/
theorem sort_eq {l l' : List Signature} (h : l.Perm l') :
    l.mergeSort below = l'.mergeSort below := by
  refine mergeSort_eq_of_perm (fun a b c hab hbc => ?_) (fun a b => ?_)
    (fun a b _ _ => below_antisymm) h
  · rw [below_iff] at hab hbc ⊢
    exact lex_trans String.lt_trans keysBelow_trans hab hbc
  · rw [Bool.or_eq_true, below_iff, below_iff]
    exact lex_total name_lt_or_eq_or_lt (keysBelow_total a.keys b.keys)

end Signature

theorem Key.sort_eq {l l' : List Key} (h : l.Perm l') :
    l.mergeSort (· ≤ ·) = l'.mergeSort (· ≤ ·) := by
  refine mergeSort_eq_of_perm (fun a b c hab hbc => ?_) (fun a b => ?_)
    (fun a b _ _ hab hba => ?_) h
  · exact decide_eq_true (le_trans (of_decide_eq_true hab) (of_decide_eq_true hbc))
  · rw [Bool.or_eq_true, decide_eq_true_iff, decide_eq_true_iff]
    exact le_total a b
  · exact le_antisymm (of_decide_eq_true hab) (of_decide_eq_true hba)

/-! ## 2. Corresponding factors -/

section Similar

variable {α : Type}

/-- The relations are equal, or add up the same wrenches in another order. -/
inductive Relation.Similar : Relation α → Relation α → Prop where
  | refl (r : Relation α) : Similar r r
  | wrenchBalance {pose twist accel : Key} {wrenches wrenches' : List Key} {mass : α}
      {inertia : SpatialMatrix α} {gravity : Vec3 α} (h : wrenches.Perm wrenches') :
      Similar (.wrenchBalance pose twist accel wrenches mass inertia gravity)
        (.wrenchBalance pose twist accel wrenches' mass inertia gravity)

/-- The factors have corresponding relations and the same noise. -/
structure Factor.Similar (f f' : Factor α) : Prop where
  relation : f.relation.Similar f'.relation
  noise_eq : f.noise = f'.noise

theorem Factor.Similar.refl (f : Factor α) : f.Similar f := ⟨.refl _, rfl⟩

theorem Factor.Similar.keys_perm {f f' : Factor α} (h : f.Similar f') : f.keys.Perm f'.keys := by
  obtain ⟨relation, noise⟩ := f
  obtain ⟨relation', noise'⟩ := f'
  cases h.relation with
  | refl => exact .refl _
  | wrenchBalance hperm => exact ((hperm.cons _).cons _).cons _

theorem Factor.Similar.signature_eq {f f' : Factor α} (h : f.Similar f') :
    f.signature = f'.signature := by
  have hname : f.name = f'.name := by
    obtain ⟨relation, noise⟩ := f
    obtain ⟨relation', noise'⟩ := f'
    cases h.relation <;> rfl
  exact congrArg₂ Signature.mk hname (Key.sort_eq h.keys_perm)

end Similar

/-! ## 3. Sums -/

section Sums

/-- Sums do not depend on the order and the grouping of their terms. -/
structure Scalar.ExactSums (α : Type) [Scalar α] : Prop where
  add_comm : ∀ a b : α, a + b = b + a
  add_assoc : ∀ a b c : α, a + b + c = a + (b + c)

theorem Scalar.exactSums_real : ExactSums ℝ := ⟨add_comm, add_assoc⟩

variable {α : Type} [Scalar α]

theorem Scalar.ExactSums.add_right_comm (h : ExactSums α) (a b c : α) : a + b + c = a + c + b := by
  rw [h.add_assoc, h.add_comm b, ← h.add_assoc]

theorem SpatialVector.add_right_comm (h : Scalar.ExactSums α) (a b c : SpatialVector α) :
    a + b + c = a + c + b := by
  refine SpatialVector.ext (Vec3.ext ?_ ?_ ?_) (Vec3.ext ?_ ?_ ?_) <;>
    exact h.add_right_comm _ _ _

/-- A sum of numbers in another order. -/
theorem Scalar.ExactSums.sum_eq (h : ExactSums α) {xs ys : List α} (hperm : xs.Perm ys) :
    Scalar.sum xs = Scalar.sum ys :=
  hperm.foldl_eq' (fun _ _ _ _ _ => h.add_right_comm _ _ _) 0

/-- The results are equal if sums are exact. -/
def UpToSums (α : Type) [Scalar α] {β : Type} (x y : β) : Prop := Scalar.ExactSums α → x = y

/-- Wrenches that are added one by one are read first and then summed. -/
theorem Relation.addWrenches_eq (vs : Values α) : ∀ (ks : List Key) (sum : SpatialVector α),
    addWrenches vs ks sum = do return (← ks.mapM vs.vector6).foldl (· + ·) sum
  | [], _ => rfl
  | k :: ks, sum => by
    rw [addWrenches, List.mapM_cons]
    cases vs.vector6 k with
    | error e => rfl
    | ok w =>
      refine (addWrenches_eq vs ks (sum + w)).trans ?_
      cases ks.mapM vs.vector6 <;> rfl

end Sums

/-! ## 4. Errors -/

section Errors

variable {α : Type} [Scalar α] (vs : Values α)

theorem Relation.addWrenches_matching {ks ks' : List Key} (h : ks.Perm ks')
    (sum : SpatialVector α) :
    Matching (UpToSums α) (addWrenches vs ks sum) (addWrenches vs ks' sum) := by
  rw [addWrenches_eq, addWrenches_eq]
  refine (Matching.mapM_perm h).bind fun ws ws' hperm => .pure fun hexact => ?_
  exact hperm.foldl_eq' (fun _ _ _ _ _ => SpatialVector.add_right_comm hexact _ _ _) sum

/-- Corresponding factors have as many rows, and the same ones up to sums. -/
theorem Factor.Similar.residual_matching {f f' : Factor α} (h : f.Similar f') :
    Matching (fun rows rows' => rows.length = rows'.length ∧ UpToSums α rows rows')
      (f.residual vs) (f'.residual vs) := by
  obtain ⟨relation, noise⟩ := f
  obtain ⟨relation', noise'⟩ := f'
  cases h.relation with
  | refl => exact .same fun rows => ⟨rfl, fun _ => rfl⟩
  | wrenchBalance hperm =>
    refine .bind_same fun pose => .bind_same fun twist => .bind_same fun accel => ?_
    refine (Relation.addWrenches_matching vs hperm _).bind fun w w' hw =>
      .pure ⟨rfl, fun hexact => ?_⟩
    exact congrArg SpatialVector.toList (hw hexact)

theorem Factor.Similar.cost_matching {f f' : Factor α} (h : f.Similar f') :
    Matching (UpToSums α) (f.cost vs) (f'.cost vs) := by
  have hwhitened : Matching (UpToSums α) (f.whitened vs) (f'.whitened vs) := by
    refine (h.residual_matching vs).bind fun rows rows' hrows => ?_
    unfold Noise.whiten
    rw [h.noise_eq, hrows.1]
    split
    · exact .pure fun hexact => by rw [hrows.2 hexact]
    · trivial
  exact hwhitened.bind fun rows rows' hrows => .pure fun hexact => by rw [hrows hexact]

namespace FactorGraph

/-- The factors of the graphs correspond in some order. -/
def Reordered (g g' : FactorGraph α) : Prop := ReorderedBy Factor.Similar g.factors g'.factors

variable {g g' : FactorGraph α}

omit [Scalar α] in
theorem Reordered.signatures_eq (h : g.Reordered g') : g.signatures = g'.signatures :=
  Signature.sort_eq (ReorderedBy.map_perm h fun _ _ => Factor.Similar.signature_eq)

omit [Scalar α] in
theorem Reordered.keys_eq (h : g.Reordered g') : g.keys = g'.keys := by
  have hperm : (g.factors.flatMap Factor.keys).Perm (g'.factors.flatMap Factor.keys) :=
    (h.flatMap fun f f' hf => ReorderedBy.of_perm hf.keys_perm fun _ _ => rfl).eq_perm
  refine KeySet.ext_mem fun k => ?_
  rw [keys, keys, KeySet.ofLists, KeySet.ofLists, KeySet.mem_ofList, KeySet.mem_ofList,
    ← List.flatMap_def, ← List.flatMap_def]
  exact hperm.mem_iff

/-- Graphs whose factors have matching costs, one by one in some order, have matching errors. -/
theorem error_matching_of_cost [Runtime α] {R : Factor α → Factor α → Prop}
    (h : ReorderedBy R g.factors g'.factors)
    (hcost : ∀ f f', R f f' → Matching (UpToSums α) (f.cost vs) (f'.cost vs)) :
    Matching (UpToSums α) (g.error vs) (g'.error vs) := by
  refine (Matching.mapM h hcost).inParallel.bind fun xs ys hcosts => .pure fun hexact => ?_
  exact hexact.sum_eq (hcosts.mono fun x y hxy => hxy hexact).eq_perm

/-- **The errors of reordered graphs** evaluate at the same assignments, and are the same sums. -/
theorem Reordered.error_matching [Runtime α] (h : g.Reordered g') :
    Matching (UpToSums α) (g.error vs) (g'.error vs) :=
  error_matching_of_cost vs h fun _ _ hf => hf.cost_matching vs

end FactorGraph

end Errors

end Articulated
