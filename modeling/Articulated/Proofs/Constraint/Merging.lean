import Articulated.Proofs.Constraint.Partition
import Articulated.Proofs.Constraint.Tolerance
import Articulated.Proofs.Factor.Locality

/-!
# Retracting the components one by one

Each component is retracted on a copy of its own, and of every outcome only the variables of its
component are taken over. A constraint reads the variables of its component alone, so what an
outcome says about its own assignment holds of the merged one.

* `Retraction.get?_merge`: what a merge does at one variable.
* `mergeAll_spec`: what all merges together do, for components that share no variable.
* `Constraint.violation_congr`: the violation of a constraint at assignments that agree.
* `retractAll_spec`: the merged outcome says of the merged assignment what a test of all
  constraints says.
-/

namespace Articulated

open Scalar Values

variable {α : Type} [Scalar α]

/-! ## 1. Merging -/

section Merge

variable {m m' r : Retraction α} {c : Component α}

/-- A merge takes the variables of the component from its outcome and keeps all others. -/
theorem Retraction.get?_merge (h : m.merge c r = .ok m') (k : Key) :
    m'.values.get? k = if k ∈ c.keys.toList then r.values.get? k else m.values.get? k := by
  obtain ⟨own, hown, rfl⟩ := map_eq_ok.1 h
  show (m.values.update own).get? k = _
  rw [get?_update, get?_subset hown]
  split
  · rename_i hk
    obtain ⟨v, hv⟩ := defined_of_subset hown hk
    rw [hv, Option.some_or]
  · rw [Option.none_or]

theorem Retraction.converged_merge (h : m.merge c r = .ok m') :
    m'.converged = (m.converged && r.converged) := by
  obtain ⟨own, -, rfl⟩ := map_eq_ok.1 h
  rfl

theorem Retraction.largestViolation_merge (h : m.merge c r = .ok m') :
    m'.largestViolation = maxNum m.largestViolation r.largestViolation := by
  obtain ⟨own, -, rfl⟩ := map_eq_ok.1 h
  rfl

/-- Variables of no component keep their values. -/
theorem get?_mergeAll {k : Key} : ∀ {l : List (Component α × Retraction α)} {m m' : Retraction α},
    l.foldlM (fun m e => m.merge e.1 e.2) m = .ok m' → (∀ e ∈ l, k ∉ e.1.keys.toList) →
      m'.values.get? k = m.values.get? k
  | [], m, m', h, _ => by
    rw [List.foldlM_nil, pure_eq_ok] at h
    rw [h]
  | e :: l, m, m', h, hk => by
    rw [List.foldlM_cons, bind_eq_ok] at h
    obtain ⟨m₁, h₁, h⟩ := h
    rw [get?_mergeAll h fun e' he' => hk e' (List.mem_cons_of_mem e he'), Retraction.get?_merge h₁,
      if_neg (hk e List.mem_cons_self)]

/-- The merges of components without common variables: every outcome agrees with the merged one
on the variables of its component, and the merged one has converged if all have, with the largest
violation of all. -/
theorem mergeAll_spec : ∀ {l : List (Component α × Retraction α)} {m m' : Retraction α},
    l.foldlM (fun m e => m.merge e.1 e.2) m = .ok m' →
    l.Pairwise (fun e f => ∀ k ∈ e.1.keys.toList, k ∉ f.1.keys.toList) →
      (∀ e ∈ l, AgreeOn e.1.keys.toList e.2.values m'.values) ∧
      (m'.converged = true ↔ m.converged = true ∧ ∀ e ∈ l, e.2.converged = true) ∧
      m'.largestViolation = (l.map fun e => e.2.largestViolation).foldl maxNum m.largestViolation
  | [], m, m', h, _ => by
    rw [List.foldlM_nil, pure_eq_ok] at h
    subst h
    exact ⟨fun e he => absurd he List.not_mem_nil, by simp, rfl⟩
  | e :: l, m, m', h, hdisjoint => by
    obtain ⟨hhead, hrest⟩ := List.pairwise_cons.1 hdisjoint
    rw [List.foldlM_cons, bind_eq_ok] at h
    obtain ⟨m₁, h₁, h⟩ := h
    obtain ⟨hagree, hconverged, hviolation⟩ := mergeAll_spec h hrest
    refine ⟨List.forall_mem_cons.2 ⟨fun k hk => ?_, hagree⟩, ?_, ?_⟩
    · rw [get?_mergeAll h fun f hf => hhead f hf k hk, Retraction.get?_merge h₁, if_pos hk]
    · rw [hconverged, Retraction.converged_merge h₁, Bool.and_eq_true, List.forall_mem_cons,
        and_assoc]
    · rw [hviolation, Retraction.largestViolation_merge h₁, List.map_cons, List.foldl_cons]

/-- The merged iteration count is the largest one. -/
theorem iterations_mergeAll : ∀ {l : List (Component α × Retraction α)} {m m' : Retraction α},
    l.foldlM (fun m e => m.merge e.1 e.2) m = .ok m' →
      m'.iterations = (l.map fun e => e.2.iterations).foldl max m.iterations
  | [], m, m', h => by
    rw [List.foldlM_nil, pure_eq_ok] at h
    rw [h]
    rfl
  | e :: l, m, m', h => by
    rw [List.foldlM_cons, bind_eq_ok] at h
    obtain ⟨m₁, h₁, h⟩ := h
    obtain ⟨own, -, rfl⟩ := map_eq_ok.1 h₁
    rw [iterations_mergeAll h, List.map_cons, List.foldl_cons]

end Merge

/-! ## 2. Carrying a test over -/

section Transfer

variable {cs : Constraints α} {vs vs' : Values α}

theorem Constraint.violation_congr {q : Constraint α} (hq : q.factor.relation.IsBuiltIn)
    (h : AgreeOn q.keys vs vs') : q.violation vs = q.violation vs' := by
  unfold Constraint.violation Factor.residual
  rw [Relation.residual_congr hq h]

namespace Constraints

theorem largestViolation_congr
    (h : ∀ q ∈ cs.items, q.violation vs = q.violation vs') :
    cs.largestViolation vs = cs.largestViolation vs' := by
  unfold largestViolation
  generalize (0 : α) = m
  generalize cs.items = l at h
  induction l generalizing m with
  | nil => rfl
  | cons q l ih =>
    rw [List.foldlM_cons, List.foldlM_cons, h q List.mem_cons_self]
    exact congrArg _ (funext fun m' => ih m' fun p hp => h p (List.mem_cons_of_mem q hp))

theorem allCompliant_congr : ∀ {l : List (Constraint α)},
    (∀ q ∈ l, q.violation vs = q.violation vs') → allCompliant vs l = allCompliant vs' l
  | [], _ => rfl
  | q :: l, h => by
    have hl := allCompliant_congr fun p hp => h p (List.mem_cons_of_mem q hp)
    unfold allCompliant Constraint.compliant
    rw [h q List.mem_cons_self, hl]

theorem compliant_congr (h : ∀ q ∈ cs.items, q.violation vs = q.violation vs') :
    cs.compliant vs = cs.compliant vs' := allCompliant_congr h

end Constraints

end Transfer

/-! ## 3. All components -/

section All

variable {cs : Constraints α}

/-- What an outcome says about its own assignment holds of the merged one. -/
theorem outcome_at_merged [Factorization α] [Runtime α] {attempts : Nat} {c : Component α}
    {r : Retractor} {p : RetractParams α} {vs : Values α} {out m : Retraction α}
    (hc : c ∈ cs.components) (hbuiltIn : ∀ q ∈ cs.items, q.factor.relation.IsBuiltIn)
    (hout : retract attempts c r p vs = .ok out)
    (hagree : AgreeOn c.keys.toList out.values m.values) :
    c.constraints.largestViolation m.values = .ok out.largestViolation ∧
      c.constraints.compliant m.values = .ok out.converged := by
  have hviolation : ∀ q ∈ c.constraints.items,
      q.violation out.values = q.violation m.values := by
    intro q hq
    refine Constraint.violation_congr (hbuiltIn q (Constraints.mem_items_iff.2 ⟨c, hc, hq⟩)) ?_
    refine hagree.mono fun k hk => ?_
    rw [Constraints.keys_component hc]
    exact Constraints.mem_keys_of_mem hq hk
  obtain ⟨n, hn⟩ := retract_conclude hout
  obtain ⟨-, hlargest, hcompliant⟩ := conclude_spec hn
  rw [Constraints.largestViolation_congr hviolation] at hlargest
  rw [Constraints.compliant_congr hviolation] at hcompliant
  exact ⟨hlargest, hcompliant⟩

/-- The tests of the components at one assignment amount to the test of the whole set. -/
theorem test_of_components [LawfulScalar α] {l : List (Component α × Retraction α)} {vs : Values α}
    (hfst : l.map Prod.fst = cs.components)
    (hlargest : ∀ e ∈ l, e.1.constraints.largestViolation vs = .ok e.2.largestViolation)
    (hcompliant : ∀ e ∈ l, e.1.constraints.compliant vs = .ok e.2.converged) :
    (∃ b, cs.compliant vs = .ok b ∧ (b = true ↔ ∀ e ∈ l, e.2.converged = true)) ∧
      cs.largestViolation vs =
        .ok ((l.map fun e => e.2.largestViolation).foldl maxNum 0) := by
  have hmem : ∀ {q}, q ∈ cs.items ↔ ∃ e ∈ l, q ∈ e.1.constraints.items := by
    intro q
    rw [Constraints.mem_items_iff, ← hfst]
    simp only [List.mem_map, exists_exists_and_eq_and]
  obtain ⟨x, hx⟩ : ∃ x, cs.largestViolation vs = .ok x := by
    refine Constraints.exists_largestViolation fun q hq => ?_
    obtain ⟨e, he, hqe⟩ := hmem.1 hq
    exact Constraints.exists_violation (hlargest e he) hqe
  constructor
  · obtain ⟨b, hb, hiff⟩ := Constraints.compliant_of_evaluates hx
    refine ⟨b, hb, hiff.trans ⟨fun h e he => ?_, fun h q hq => ?_⟩⟩
    · obtain ⟨b', hb', hiff'⟩ := Constraints.compliant_of_evaluates (hlargest e he)
      rw [← answer_unique hb' (hcompliant e he)]
      exact hiff'.2 fun q hq => h q (hmem.2 ⟨e, he, hq⟩)
    · obtain ⟨e, he, hqe⟩ := hmem.1 hq
      obtain ⟨b', hb', hiff'⟩ := Constraints.compliant_of_evaluates (hlargest e he)
      refine hiff'.1 ?_ q hqe
      rw [answer_unique hb' (hcompliant e he)]
      exact h e he
  · rw [hx]
    refine congrArg _ ((Constraints.isMagnitude_largestViolation hx).eq_of_le_iff ?_ fun t => ?_)
    · refine isMagnitude_foldl_maxNum _ isMagnitude_zero fun y hy => ?_
      obtain ⟨e, he, rfl⟩ := List.mem_map.1 hy
      exact (Constraints.isMagnitude_largestViolation (hlargest e he)).2
    · rw [Constraints.largestViolation_le_iff hx,
        foldl_maxNum_le_iff _ LawfulScalar.isNumber_zero, List.forall_mem_map]
      refine and_congr_right fun ht => ⟨fun h e he _ => ?_, fun h q hq y hy => ?_⟩
      · refine (Constraints.largestViolation_le_iff (hlargest e he)).2 ⟨ht, fun q hq => ?_⟩
        exact h q (hmem.2 ⟨e, he, hq⟩)
      · obtain ⟨e, he, hqe⟩ := hmem.1 hq
        have hnum := (Constraints.isMagnitude_largestViolation (hlargest e he)).1
        exact ((Constraints.largestViolation_le_iff (hlargest e he)).1 (h e he hnum)).2 q hqe y hy

end All

/-- **The merged outcome says of the merged assignment what a test of all constraints says.** -/
theorem retractAll_spec [Factorization Float] [Runtime Float] {attempts : Nat}
    {cs : Constraints Float} {r : Retractor} {p : RetractParams Float} {vs : Values Float}
    {m : Retraction Float} (hbuiltIn : ∀ q ∈ cs.items, q.factor.relation.IsBuiltIn)
    (h : retractAll attempts cs.components r p vs = .ok m) :
    cs.compliant m.values = .ok m.converged ∧
      cs.largestViolation m.values = .ok m.largestViolation := by
  obtain ⟨outcomes, hout, hmerge⟩ := bind_eq_ok.1 h
  have hall := mapM_eq_ok.1 (inParallel_eq_ok.1 hout)
  have hfst : (cs.components.zip outcomes).map Prod.fst = cs.components :=
    List.map_fst_zip hall.length_eq.le
  have hdisjoint : (cs.components.zip outcomes).Pairwise
      fun e f => ∀ k ∈ e.1.keys.toList, k ∉ f.1.keys.toList := by
    have := Constraints.components_disjoint cs
    rw [← hfst] at this
    exact List.pairwise_map.1 this
  obtain ⟨hagree, hconverged, hviolation⟩ := mergeAll_spec hmerge hdisjoint
  have hmerged : ∀ e ∈ cs.components.zip outcomes,
      e.1.constraints.largestViolation m.values = .ok e.2.largestViolation ∧
        e.1.constraints.compliant m.values = .ok e.2.converged := by
    intro e he
    exact outcome_at_merged (List.of_mem_zip he).1 hbuiltIn
      ((List.forall₂_iff_zip.1 hall).2 he) (hagree e he)
  obtain ⟨⟨b, hb, hiff⟩, hlargest⟩ := test_of_components hfst
    (fun e he => (hmerged e he).1) (fun e he => (hmerged e he).2)
  have hbm : b = m.converged := by
    rw [Bool.eq_iff_iff, hiff, hconverged, and_iff_right rfl]
  exact ⟨hbm ▸ hb, hviolation ▸ hlargest⟩

/-- Two scalar variables are one, each by itself. -/
def twoPins : Constraints Float := ⟨[pin, ⟨.scalarPrior ⟨2⟩ 1 1, 1e-6⟩]⟩

/-- The second variable is off. -/
def onePinned : Values Float := (Values.empty.insert ⟨1⟩ (.scalar 1)).insert ⟨2⟩ (.scalar 3)

theorem twoPins_isBuiltIn : ∀ q ∈ twoPins.items, q.factor.relation.IsBuiltIn := by
  intro q hq
  rcases List.mem_cons.1 hq with rfl | hq
  · trivial
  · rw [List.mem_singleton.1 hq]
    trivial

set_option maxRecDepth 2000 in
theorem retractAll_twoPins :
    retractAll 0 twoPins.components .projecting uncorrected onePinned =
      .ok ⟨onePinned, false, 0, 2⟩ := rfl

set_option maxRecDepth 2000 in
theorem retractAll_spec_twoPins :
    (∀ q ∈ twoPins.items, q.factor.relation.IsBuiltIn) ∧
      retractAll 0 twoPins.components .projecting uncorrected onePinned =
        .ok ⟨onePinned, false, 0, 2⟩ ∧
      twoPins.compliant onePinned = .ok false ∧ twoPins.largestViolation onePinned = .ok 2 :=
  ⟨twoPins_isBuiltIn, retractAll_twoPins, retractAll_spec twoPins_isBuiltIn retractAll_twoPins⟩

end Articulated
