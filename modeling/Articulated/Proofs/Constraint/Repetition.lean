import Articulated.Proofs.Constraint.Independence
import Articulated.Proofs.Factor.Kinds

/-!
# Retracting what is retracted already

No component was ever retracted on the merged assignment of a retraction. But a constraint reads
the variables of its component alone, so it holds there if it holds in the outcome of its
component. Where all constraints hold no correction is made, and an assignment takes over nothing
new from itself.

* `retract_again`: a retraction by corrections where the constraints hold.
* `mergeAll_own`: merges of outcomes that carry the merged assignment already, by induction on the
  components.
* `defined_of_retractAll`: a merged assignment has values for the variables of all components.
* `retractAll_idempotent`: a second retraction, after one that has converged, does nothing.
-/

namespace Articulated

open Scalar Values

variable {α : Type} [Scalar α]

/-! ## 1. One component -/

section Component

variable [Factorization α] [Runtime α] {c : Component α} {vs : Values α}

/-- Where the constraints hold nothing is corrected. -/
theorem correct_of_compliant {free : List Key} {ε : α}
    (h : c.constraints.compliant vs = .ok true) (n : Nat) :
    ∀ budget, correct c free ε budget vs n = .ok (vs, n)
  | 0 => rfl
  | budget + 1 => by
    unfold correct
    split
    · rfl
    · rw [h]
      rfl

/-- A retraction by corrections has been made from one assignment. From another one with values for
the same variables, where the constraints hold, it ends at once. -/
theorem retract_again {attempts : Nat} {r : Retractor} {p : RetractParams α} {vs' : Values α}
    {out : Retraction α} {x : α} (hr : r ≠ .optimizing) (hout : retract attempts c r p vs = .ok out)
    (hsome : ∀ k, (vs'.get? k).isSome = (vs.get? k).isSome)
    (hlargest : c.constraints.largestViolation vs' = .ok x)
    (hcompliant : c.constraints.compliant vs' = .ok true) :
    retract attempts c r p vs' = .ok ⟨vs', true, 0, x⟩ := by
  have hproject : ∀ free, project c free p vs' = .ok ⟨vs', true, 0, x⟩ := by
    intro free
    refine bind_eq_ok.2 ⟨_, correct_of_compliant hcompliant 0 p.maxIterations, ?_⟩
    exact bind_eq_ok.2 ⟨x, hlargest, map_eq_ok.2 ⟨true, hcompliant, rfl⟩⟩
  cases r with
  | optimizing => exact absurd rfl hr
  | projecting => exact hproject _
  | overBasis basis =>
    obtain ⟨_, hbasis, -⟩ := bind_eq_ok.1 hout
    rw [← forM_congr fun k _ => discard_lookup_congr (hsome k)] at hbasis
    exact bind_eq_ok.2 ⟨(), hbasis, hproject _⟩

end Component

/-! ## 2. Merging once more -/

section Merging

variable {m m' out : Retraction α} {c : Component α}

/-- An assignment takes over nothing new from itself. -/
theorem Retraction.merge_own (hkeys : ∀ k ∈ c.keys.toList, ∃ v, m.values.get? k = some v)
    (hown : out.values = m.values) :
    m.merge c out = .ok ⟨m.values, m.converged && out.converged, max m.iterations out.iterations,
      maxNum m.largestViolation out.largestViolation⟩ := by
  obtain ⟨own, hsubset, -⟩ := Values.subset_answers hkeys
  have hupdate : m.values.update own = m.values := by
    refine ext_get? fun k => ?_
    rw [get?_update, get?_subset hsubset]
    split
    · exact Option.or_self
    · exact Option.none_or
  refine map_eq_ok.2 ⟨own, hown ▸ hsubset, ?_⟩
  rw [hupdate]

/-- Outcomes without corrections, all at one assignment, leave it as it is. -/
theorem mergeAll_own {vs : Values α} (x : Component α → α) : ∀ {l : List (Component α)} {y : α},
    (∀ c ∈ l, ∀ k ∈ c.keys.toList, ∃ v, vs.get? k = some v) →
      (l.map fun c => (c, (⟨vs, true, 0, x c⟩ : Retraction α))).foldlM
          (fun m e => Retraction.merge m e.1 e.2) ⟨vs, true, 0, y⟩ =
        .ok ⟨vs, true, 0, (l.map x).foldl maxNum y⟩
  | [], _, _ => rfl
  | c :: l, y, hkeys => by
    obtain ⟨hc, hl⟩ := List.forall_mem_cons.1 hkeys
    rw [List.map_cons, List.foldlM_cons]
    exact bind_eq_ok.2 ⟨_, Retraction.merge_own hc rfl, mergeAll_own x hl⟩

theorem Retraction.defined_merge {k : Key} (h : m.merge c out = .ok m')
    (hk : k ∈ c.keys.toList ∨ ∃ v, m.values.get? k = some v) :
    ∃ v, m'.values.get? k = some v := by
  obtain ⟨own, hsubset, -⟩ := map_eq_ok.1 h
  rw [Retraction.get?_merge h]
  split
  · rename_i hmem
    exact defined_of_subset hsubset hmem
  · rename_i hmem
    exact hk.resolve_left hmem

/-- Merges leave values for the variables of their components. -/
theorem defined_of_mergeAll {k : Key} : ∀ {l : List (Component α × Retraction α)}
    {m m' : Retraction α}, l.foldlM (fun m e => m.merge e.1 e.2) m = .ok m' →
    ((∃ c ∈ l.map Prod.fst, k ∈ c.keys.toList) ∨ ∃ v, m.values.get? k = some v) →
      ∃ v, m'.values.get? k = some v
  | [], m, m', h, hk => by
    rw [List.foldlM_nil, pure_eq_ok] at h
    rw [← h]
    exact hk.resolve_left fun hnone => absurd hnone.choose_spec.1 List.not_mem_nil
  | e :: l, m, m', h, hk => by
    rw [List.foldlM_cons, bind_eq_ok] at h
    obtain ⟨m₁, h₁, h⟩ := h
    rw [List.map_cons, List.exists_mem_cons_iff, or_right_comm] at hk
    exact defined_of_mergeAll h (hk.symm.imp_right (Retraction.defined_merge h₁))

theorem defined_of_retractAll [Factorization α] [Runtime α] {attempts : Nat}
    {cs : List (Component α)} {r : Retractor} {p : RetractParams α} {vs : Values α} {k : Key}
    (h : retractAll attempts cs r p vs = .ok m) (hc : c ∈ cs) (hk : k ∈ c.keys.toList) :
    ∃ v, m.values.get? k = some v := by
  obtain ⟨outs, houts, hmerge⟩ := bind_eq_ok.1 h
  refine defined_of_mergeAll hmerge (.inl ⟨c, ?_, hk⟩)
  rwa [List.map_fst_zip (mapM_eq_ok.1 (inParallel_eq_ok.1 houts)).length_eq.le]

end Merging

/-! ## 3. All components -/

section All

variable [Factorization α] [Runtime α] {attempts : Nat} {r : Retractor} {p : RetractParams α}
  {vs : Values α} {m : Retraction α}

/-- A retraction that has converged, repeated: every component stays where the merges have left
it. -/
theorem retractAll_again {sets : List (Constraints α)}
    (hbuiltIn : ∀ cs ∈ sets, ∀ q ∈ cs.items, q.factor.relation.IsBuiltIn)
    (hapart : sets.Pairwise Constraints.Apart) (hr : r ≠ .optimizing)
    (h : retractAll attempts (sets.map .ofConstraints) r p vs = .ok m)
    (hconverged : m.converged = true) :
    retractAll attempts (sets.map .ofConstraints) r p m.values =
      .ok ⟨m.values, true, 0, m.largestViolation⟩ := by
  obtain ⟨outcome, hruns, hagree, hkept, hall, -, hviolation⟩ := retractAll_outcomes hapart h
  have hsome : ∀ k, (m.values.get? k).isSome = (vs.get? k).isSome := by
    intro k
    by_cases hk : ∃ cs ∈ sets, k ∈ cs.keys.toList
    · obtain ⟨cs, hcs, hk⟩ := hk
      rw [← hagree cs hcs k hk, (retract_frame (hruns cs hcs)).isSome_eq]
    · rw [hkept k fun cs hcs hks => hk ⟨cs, hcs, hks⟩]
  have hstay : ∀ c ∈ sets.map Component.ofConstraints, retract attempts c r p m.values =
      .ok ⟨m.values, true, 0, (outcome c.constraints).largestViolation⟩ := by
    intro c hc
    obtain ⟨cs, hcs, rfl⟩ := List.mem_map.1 hc
    obtain ⟨n, hn⟩ := retract_conclude (hruns cs hcs)
    obtain ⟨-, hlargest, hcompliant⟩ := conclude_spec hn
    -- What the outcome says about its own assignment holds of the merged one.
    have hviolations := Constraints.violations_eq (hbuiltIn cs hcs) (hagree cs hcs)
    rw [Component.ofConstraints, Constraints.largestViolation_congr hviolations] at hlargest
    rw [Component.ofConstraints, Constraints.compliant_congr hviolations,
      hall.1 hconverged cs hcs] at hcompliant
    exact retract_again hr (hruns cs hcs) hsome hlargest hcompliant
  refine bind_eq_ok.2 ⟨_, inParallel_eq_ok.2 (mapM_eq_map hstay), ?_⟩
  rw [← List.map_prod_left_eq_zip]
  refine (mergeAll_own (fun c => (outcome c.constraints).largestViolation)
    fun c hc k hk => defined_of_retractAll h hc hk).trans ?_
  rw [List.map_map, hviolation]
  rfl

end All

omit [Scalar α] in
/-- A component is no more than its constraints. -/
theorem Constraints.components_eq_ofConstraints (cs : Constraints α) :
    cs.components = (cs.components.map (·.constraints)).map .ofConstraints := by
  have hself : ∀ c ∈ cs.components, c = .ofConstraints c.constraints := by
    intro c hc
    rw [Component.ofConstraints, ← Constraints.keys_component hc]
  rw [List.map_map]
  exact (List.map_id _).symm.trans (List.map_congr_left hself)

omit [Scalar α] in
theorem Constraints.components_apart (cs : Constraints α) :
    (cs.components.map (·.constraints)).Pairwise Constraints.Apart := by
  have hdisjoint := Constraints.components_disjoint cs
  rw [Constraints.components_eq_ofConstraints, List.pairwise_map] at hdisjoint
  exact hdisjoint

/-- **Retracting the components by corrections is idempotent.** After a retraction that has
converged, a second one of the same kind makes no correction, keeps all values and finds the same
violation. -/
theorem retractAll_idempotent [Factorization α] [Runtime α] {attempts : Nat} {cs : Constraints α}
    {r : Retractor} {p : RetractParams α} {vs : Values α} {m : Retraction α}
    (hbuiltIn : ∀ q ∈ cs.items, q.factor.relation.IsBuiltIn) (hr : r ≠ .optimizing)
    (h : retractAll attempts cs.components r p vs = .ok m) (hconverged : m.converged = true) :
    retractAll attempts cs.components r p m.values =
      .ok ⟨m.values, true, 0, m.largestViolation⟩ := by
  rw [Constraints.components_eq_ofConstraints] at h ⊢
  refine retractAll_again (fun part hpart q hq => ?_) (Constraints.components_apart cs) hr h
    hconverged
  obtain ⟨c, hc, rfl⟩ := List.mem_map.1 hpart
  exact hbuiltIn q (Constraints.mem_items_iff.2 ⟨c, hc, hq⟩)

/-- The step with its start held, and a variable that is pinned elsewhere: the first retraction
has something to correct. -/
theorem retractAll_idempotent_step :
    let cs : Constraints Float := ⟨unitStep.items ++ bystander.items⟩
    let r : Retractor := .overBasis [⟨1⟩, ⟨3⟩]
    cs.components.length = 2 ∧ (∀ q ∈ cs.items, q.factor.relation.IsBuiltIn) ∧
      ∃ m, retractAll 0 cs.components r .default offStep = .ok m ∧ m.converged = true ∧
        m.iterations = 1 ∧
        retractAll 0 cs.components r .default m.values =
          .ok ⟨m.values, true, 0, m.largestViolation⟩ := by
  intro cs r
  have hbuiltIn : ∀ q ∈ cs.items, q.factor.relation.IsBuiltIn := by
    simp only [cs, unitStep, bystander, List.cons_append, List.nil_append, List.forall_mem_cons,
      List.not_mem_nil, false_implies, implies_true, and_true]
    exact ⟨trivial, trivial⟩
  have hr : r ≠ .optimizing := by simp [r]
  have hrun : (retractAll 0 cs.components r .default offStep).toOption.map
      (fun m => (m.converged, m.iterations)) = some (true, 1) := by
    decide +kernel
  obtain ⟨m, hm, hends⟩ := Option.map_eq_some_iff.1 hrun
  have h := toOption_eq_some_iff.1 hm
  have hconverged : m.converged = true := congrArg Prod.fst hends
  exact ⟨by decide +kernel, hbuiltIn, m, h, hconverged, congrArg Prod.snd hends,
    retractAll_idempotent hbuiltIn hr h hconverged⟩

end Articulated
