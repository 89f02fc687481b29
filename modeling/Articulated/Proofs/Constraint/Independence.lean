import Articulated.Proofs.Constraint.Frame
import Articulated.Proofs.Constraint.Merging
import Articulated.Proofs.Solver.Locality

/-!
# Components do not interfere

A retraction of a component reads the values of its variables, and of the basis only whether it has
values at all. A retraction of another component changes neither. So components without common
variables may be retracted one after the other, in any order, each on what the last one left: every
retraction goes as it would have gone on the first assignment.

* `retract_alike`: two retractions of one component on assignments that agree on its variables.
* `retractInTurn`: components retracted one after the other.
* `inTurn_outcomes`: what a run through components leaves, by induction on the components.
* `retractInTurn_spec`: in every order the run ends where the merged retraction does.
-/

namespace Articulated

open Scalar Values

/-! ## 1. Two retractions of one component -/

section Runs

variable {α : Type} [Scalar α] {cs : Constraints α} {vs vs' : Values α}

/-- The same outcome up to variables other than `ks`. -/
inductive Retraction.Alike (ks : List Key) : Retraction α → Retraction α → Prop
  | mk {vs vs' : Values α} (h : AgreeOn ks vs vs') (converged : Bool) (iterations : Nat)
      (largestViolation : α) :
      Alike ks ⟨vs, converged, iterations, largestViolation⟩
        ⟨vs', converged, iterations, largestViolation⟩

omit [Scalar α] in
/-- The costs of constraints of the library are factors of the library. -/
theorem Constraints.asCosts_isBuiltIn (hcs : ∀ q ∈ cs.items, q.factor.relation.IsBuiltIn)
    (sigma : α) : ∀ f ∈ (cs.asCosts sigma).factors, f.relation.IsBuiltIn := by
  intro f hf
  obtain ⟨q, hq, rfl⟩ := List.mem_map.1 hf
  exact hcs q hq

variable (hcs : ∀ q ∈ cs.items, q.factor.relation.IsBuiltIn) (h : AgreeOn cs.keys.toList vs vs')

include hcs h

theorem Constraints.violations_eq : ∀ q ∈ cs.items, q.violation vs = q.violation vs' :=
  fun q hq => Constraint.violation_congr (hcs q hq) (h.mono fun _ => mem_keys_of_mem hq)

theorem Constraints.linearize_congr [Runtime α] : cs.linearize vs = cs.linearize vs' :=
  mapM_congr fun q hq =>
    Factor.linearize_congr (hcs q hq) (h.mono fun _ => mem_keys_of_mem hq) false

/-- Outcomes at assignments that agree say the same. -/
theorem conclude_alike (iterations : Nat) :
    Alike (Retraction.Alike cs.keys.toList) (conclude (.ofConstraints cs) vs iterations)
      (conclude (.ofConstraints cs) vs' iterations) := by
  have hviolations := Constraints.violations_eq hcs h
  unfold conclude Component.ofConstraints
  dsimp only
  rw [Constraints.largestViolation_congr hviolations, Constraints.compliant_congr hviolations]
  exact .bind_same fun violation => .bind_same fun converged => .pure (.mk h ..)

variable [Factorization α] [Runtime α]

omit h in
/-- Corrections over variables of the component. -/
theorem correct_alike {free : List Key} (hfree : ∀ k ∈ free, k ∈ cs.keys.toList) (ε : α) :
    ∀ {budget : Nat} {vs vs' : Values α} (n : Nat), AgreeOn cs.keys.toList vs vs' →
      Alike (fun a a' => AgreeOn cs.keys.toList a.1 a'.1 ∧ a.2 = a'.2)
        (correct (.ofConstraints cs) free ε budget vs n)
        (correct (.ofConstraints cs) free ε budget vs' n)
  | 0, _, _, _, h => .pure ⟨h, rfl⟩
  | budget + 1, vs, vs', n, h => by
    unfold correct
    split
    · exact .pure ⟨h, rfl⟩
    · dsimp only [Component.ofConstraints]
      rw [Constraints.compliant_congr (Constraints.violations_eq hcs h),
        Constraints.linearize_congr hcs h]
      refine .bind_same fun holds => ?_
      split
      · exact .pure ⟨h, rfl⟩
      · refine .bind_same fun models => ?_
        rw [Jacobian.stack_congr (h.mono hfree)]
        refine .bind_same fun j => .bind_same fun δ => ?_
        exact (Values.retract_alike h hfree δ).bind fun next next' hnext =>
          correct_alike hfree ε (n + 1) hnext

theorem project_alike {free : List Key} (hfree : ∀ k ∈ free, k ∈ cs.keys.toList)
    (p : RetractParams α) :
    Alike (Retraction.Alike cs.keys.toList) (project (.ofConstraints cs) free p vs)
      (project (.ofConstraints cs) free p vs') := by
  refine (correct_alike hcs hfree p.epsilon 0 h).bind fun a a' hlast => ?_
  obtain ⟨last, n⟩ := a
  obtain ⟨last', n'⟩ := a'
  obtain ⟨hlast, rfl⟩ := hlast
  exact conclude_alike hcs hlast n

/-- **Two retractions of one component go the same way on assignments that agree on its variables
and give values to the same variables of the basis.** -/
theorem retract_alike {attempts : Nat} {r : Retractor} {p : RetractParams α}
    (hheld : ∀ k, r.Holds k → (vs.get? k).isSome = (vs'.get? k).isSome) :
    Alike (Retraction.Alike cs.keys.toList) (retract attempts (.ofConstraints cs) r p vs)
      (retract attempts (.ofConstraints cs) r p vs') := by
  cases r with
  | optimizing =>
    have hcosts : AgreeOn (cs.asCosts p.penaltySigma).keys.toList vs vs' := by
      rw [Constraints.keys_asCosts]
      exact h
    refine (optimize_alike (Constraints.asCosts_isBuiltIn hcs p.penaltySigma) hcosts).bind
      fun solution solution' hsolution => ?_
    obtain ⟨hlast, iterations, -, -, -⟩ := hsolution
    rw [Constraints.keys_asCosts] at hlast
    exact conclude_alike hcs hlast iterations
  | projecting => exact project_alike hcs h (fun _ hk => hk) p
  | overBasis basis =>
    unfold retract
    dsimp only
    rw [forM_congr fun k hk => discard_lookup_congr (hheld k hk)]
    refine .bind_same fun _ => project_alike hcs h (fun k hk => ?_) p
    exact (List.mem_filter.1 hk).1

end Runs

/-! ## 2. One after the other -/

section InTurn

variable {α : Type} [Scalar α] [Factorization α] [Runtime α]

/-- Retracts components one after the other, each from what the last one left. The answer has the
outcomes in this order and the assignment that is left in the end. -/
def retractInTurn (attempts : Nat) (r : Retractor) (p : RetractParams α) :
    List (Component α) → Values α → Except (Fault α) (List (Retraction α) × Values α)
  | [], vs => pure ([], vs)
  | c :: cs, vs => do
    let out ← retract attempts c r p vs
    let (outs, last) ← retractInTurn attempts r p cs out.values
    return (out :: outs, last)

omit [Scalar α] [Factorization α] [Runtime α] in
/-- What an outcome says apart from its assignment. -/
def Retraction.verdict (out : Retraction α) : Bool × Nat × α :=
  (out.converged, out.iterations, out.largestViolation)

/-- Constraints without common variables. -/
def Constraints.Apart (a b : Constraints α) : Prop := ∀ k ∈ a.keys.toList, k ∉ b.keys.toList

omit [Scalar α] [Factorization α] [Runtime α] in
theorem Constraints.Apart.symm {a b : Constraints α} (h : a.Apart b) : b.Apart a :=
  fun k hb ha => h k ha hb

omit [Scalar α] [Factorization α] [Runtime α] in
theorem Retraction.Alike.verdict_eq {ks : List Key} {out out' : Retraction α}
    (h : out.Alike ks out') : out.verdict = out'.verdict := by
  cases h
  rfl

omit [Scalar α] [Factorization α] [Runtime α] in
theorem Retraction.Alike.agree {ks : List Key} {out out' : Retraction α} (h : out.Alike ks out') :
    AgreeOn ks out.values out'.values := by
  cases h
  assumption

variable {attempts : Nat} {r : Retractor} {p : RetractParams α} {vs : Values α}
  {outcome : Constraints α → Retraction α}

/-- A run through components without common variables, from an assignment that agrees on them with
the one where the outcomes are known: the verdicts are the same, every component ends with the
values of its outcome, and variables of no component stay as they are. -/
theorem inTurn_outcomes : ∀ {sets : List (Constraints α)} {vs₁ : Values α},
    (∀ cs ∈ sets, ∀ q ∈ cs.items, q.factor.relation.IsBuiltIn) →
    sets.Pairwise Constraints.Apart →
    (∀ cs ∈ sets, retract attempts (.ofConstraints cs) r p vs = .ok (outcome cs)) →
    (∀ cs ∈ sets, AgreeOn cs.keys.toList vs vs₁) →
    (∀ k, (vs.get? k).isSome = (vs₁.get? k).isSome) →
      ∃ outs last, retractInTurn attempts r p (sets.map .ofConstraints) vs₁ = .ok (outs, last) ∧
        outs.map Retraction.verdict = sets.map (fun cs => (outcome cs).verdict) ∧
        (∀ cs ∈ sets, AgreeOn cs.keys.toList (outcome cs).values last) ∧
        ∀ k, (∀ cs ∈ sets, k ∉ cs.keys.toList) → last.get? k = vs₁.get? k
  | [], vs₁, _, _, _, _, _ => ⟨[], vs₁, rfl, rfl, nofun, fun _ _ => rfl⟩
  | cs :: sets, vs₁, hcs, hapart, hruns, hagree, hsome => by
    obtain ⟨hhead, hapart⟩ := List.pairwise_cons.1 hapart
    obtain ⟨hcs₀, hcs⟩ := List.forall_mem_cons.1 hcs
    obtain ⟨hrun, hruns⟩ := List.forall_mem_cons.1 hruns
    obtain ⟨hagree₀, hagree⟩ := List.forall_mem_cons.1 hagree
    obtain ⟨out, hout, halike⟩ :=
      (retract_alike hcs₀ hagree₀ fun k _ => hsome k).answer hrun
    have hframe := retract_frame hout
    have hothers : ∀ cs' ∈ sets, AgreeOn cs'.keys.toList vs₁ out.values :=
      fun cs' hcs' k hk => (hframe.outside_eq k ((hhead cs' hcs').symm k hk)).symm
    obtain ⟨outs, last, hrest, hverdicts, hvalues, hkept⟩ := inTurn_outcomes hcs hapart hruns
      (fun cs' hcs' => (hagree cs' hcs').trans (hothers cs' hcs'))
      (fun k => (hsome k).trans (hframe.isSome_eq k).symm)
    refine ⟨out :: outs, last, bind_eq_ok.2 ⟨out, hout, bind_eq_ok.2 ⟨_, hrest, rfl⟩⟩, ?_,
      List.forall_mem_cons.2 ⟨fun k hk => ?_, hvalues⟩, fun k hk => ?_⟩
    · rw [List.map_cons, List.map_cons, hverdicts, halike.verdict_eq]
    · rw [halike.agree k hk, hkept k fun cs' hcs' => hhead cs' hcs' k hk]
    · obtain ⟨hk₀, hk⟩ := List.forall_mem_cons.1 hk
      rw [hkept k hk, hframe.outside_eq k hk₀]

/-- What the merged retraction knows: the outcomes of all components on one assignment. -/
theorem retractAll_outcomes {sets : List (Constraints α)} {m : Retraction α}
    (hapart : sets.Pairwise Constraints.Apart)
    (h : retractAll attempts (sets.map .ofConstraints) r p vs = .ok m) :
    ∃ outcome : Constraints α → Retraction α,
      (∀ cs ∈ sets, retract attempts (.ofConstraints cs) r p vs = .ok (outcome cs)) ∧
      (∀ cs ∈ sets, AgreeOn cs.keys.toList (outcome cs).values m.values) ∧
      (∀ k, (∀ cs ∈ sets, k ∉ cs.keys.toList) → m.values.get? k = vs.get? k) ∧
      (m.converged = true ↔ ∀ cs ∈ sets, (outcome cs).converged = true) ∧
      m.iterations = (sets.map fun cs => (outcome cs).iterations).foldl max 0 ∧
      m.largestViolation =
        (sets.map fun cs => (outcome cs).largestViolation).foldl maxNum 0 := by
  obtain ⟨outs, houts, hmerge⟩ := bind_eq_ok.1 h
  let outcome : Constraints α → Retraction α := fun cs =>
    answerOr ⟨vs, true, 0, 0⟩ (retract attempts (.ofConstraints cs) r p vs)
  have hall := mapM_eq_ok.1 (inParallel_eq_ok.1 houts)
  have hzip : (sets.map Component.ofConstraints).zip outs =
      sets.map fun cs => (Component.ofConstraints cs, outcome cs) := by
    rw [eq_map_answerOr ⟨vs, true, 0, 0⟩ hall, List.map_map, List.zip_map']
    rfl
  have hruns : ∀ cs ∈ sets, retract attempts (.ofConstraints cs) r p vs = .ok (outcome cs) := by
    intro cs hcs
    obtain ⟨out, -, hout⟩ := exists_answer hall (List.mem_map_of_mem hcs)
    show _ = Except.ok (answerOr _ (retract attempts (.ofConstraints cs) r p vs))
    rw [hout, answerOr]
  rw [hzip] at hmerge
  have hdisjoint : (sets.map fun cs => (Component.ofConstraints cs, outcome cs)).Pairwise
      fun e f => ∀ k ∈ e.1.keys.toList, k ∉ f.1.keys.toList := List.pairwise_map.2 hapart
  obtain ⟨hagree, hconverged, hviolation⟩ := mergeAll_spec hmerge hdisjoint
  refine ⟨outcome, hruns, fun cs hcs => hagree _ (List.mem_map_of_mem hcs), fun k hk => ?_, ?_, ?_,
    ?_⟩
  · refine get?_mergeAll hmerge fun e he => ?_
    obtain ⟨cs, hcs, rfl⟩ := List.mem_map.1 he
    exact hk cs hcs
  · rw [hconverged, and_iff_right rfl, List.forall_mem_map]
  · rw [iterations_mergeAll hmerge, List.map_map]
    rfl
  · rw [hviolation, List.map_map]
    rfl

end InTurn

/-! ## 3. Every order -/

/-- **Components without common variables may be retracted one after the other, in any order:
the run succeeds and ends where the merged retraction does.** -/
theorem retractInTurn_spec [Factorization Float] [Runtime Float] {attempts : Nat}
    {sets order : List (Constraints Float)} {r : Retractor} {p : RetractParams Float}
    {vs : Values Float} {m : Retraction Float}
    (hbuiltIn : ∀ cs ∈ sets, ∀ q ∈ cs.items, q.factor.relation.IsBuiltIn)
    (hapart : sets.Pairwise Constraints.Apart)
    (h : retractAll attempts (sets.map .ofConstraints) r p vs = .ok m) (horder : order.Perm sets) :
    ∃ outs, retractInTurn attempts r p (order.map .ofConstraints) vs = .ok (outs, m.values) ∧
      (m.converged = true ↔ ∀ out ∈ outs, out.converged = true) ∧
      m.iterations = (outs.map (·.iterations)).foldl max 0 ∧
      m.largestViolation = (outs.map (·.largestViolation)).foldl maxNum 0 := by
  obtain ⟨outcome, hruns, hagree, hkept, hconverged, hiterations, hviolation⟩ :=
    retractAll_outcomes hapart h
  have hmem : ∀ {cs}, cs ∈ order → cs ∈ sets := horder.mem_iff.1
  obtain ⟨outs, last, hturn, hverdicts, hvalues, hrest⟩ :=
    inTurn_outcomes (fun cs hcs => hbuiltIn cs (hmem hcs))
      (horder.symm.pairwise hapart Constraints.Apart.symm) (fun cs hcs => hruns cs (hmem hcs))
      (fun cs _ => .refl cs.keys.toList vs) (fun _ => rfl)
  have hlast : last = m.values := by
    refine Values.ext_get? fun k => ?_
    by_cases hk : ∃ cs ∈ sets, k ∈ cs.keys.toList
    · obtain ⟨cs, hcs, hk⟩ := hk
      rw [← hvalues cs (horder.mem_iff.2 hcs) k hk, hagree cs hcs k hk]
    · have hnone : ∀ cs ∈ sets, k ∉ cs.keys.toList := fun cs hcs hks => hk ⟨cs, hcs, hks⟩
      rw [hrest k fun cs hcs => hnone cs (hmem hcs), hkept k hnone]
  have hperm : ∀ {β : Type} (f : Bool × Nat × Float → β),
      (sets.map fun cs => f (outcome cs).verdict).Perm (outs.map fun out => f out.verdict) := by
    intro β f
    have hmap := congrArg (List.map f) hverdicts
    rw [List.map_map, List.map_map] at hmap
    exact (horder.symm.map _).trans (.of_eq hmap.symm)
  refine ⟨outs, hlast ▸ hturn, ?_, ?_, ?_⟩
  · have hall : (∀ b ∈ sets.map fun cs => (outcome cs).verdict.1, b = true) ↔
        ∀ b ∈ outs.map fun out => out.verdict.1, b = true :=
      forall_congr' fun b => by rw [(hperm Prod.fst).mem_iff]
    rw [List.forall_mem_map, List.forall_mem_map] at hall
    exact hconverged.trans hall
  · rw [hiterations]
    exact (hperm fun v => v.2.1).foldl_eq 0
  · rw [hviolation]
    refine foldl_maxNum_perm (hperm fun v => v.2.2) isMagnitude_zero fun a ha => ?_
    obtain ⟨cs, hcs, rfl⟩ := List.mem_map.1 ha
    obtain ⟨n, hn⟩ := retract_conclude (hruns cs hcs)
    exact (Constraints.isMagnitude_largestViolation (conclude_spec hn).2.1).2

/-- The variable that has no part in the step, pinned. -/
def bystander : Constraints Float := ⟨[⟨.scalarPrior ⟨9⟩ 1 1, 1e-6⟩]⟩

theorem step_isBuiltIn :
    ∀ cs ∈ [unitStep, bystander], ∀ q ∈ cs.items, q.factor.relation.IsBuiltIn := by
  simp only [unitStep, bystander, List.forall_mem_cons, List.not_mem_nil, false_implies,
    implies_true, and_true]
  exact ⟨trivial, trivial⟩

theorem step_apart : [unitStep, bystander].Pairwise Constraints.Apart := by
  rw [List.pairwise_pair]
  show ∀ k ∈ unitStep.keys.toList, k ∉ bystander.keys.toList
  decide +kernel

/-- The step and the bystander, merged or with the bystander first: one correction each. -/
theorem retractInTurn_spec_bystander :
    ∃ m, retractAll 0 ([unitStep, bystander].map .ofConstraints) .projecting .default offStep =
        .ok m ∧ m.converged = true ∧ m.iterations = 1 ∧
      ∃ outs, retractInTurn 0 .projecting .default ([bystander, unitStep].map .ofConstraints)
          offStep = .ok (outs, m.values) ∧
        (m.converged = true ↔ ∀ out ∈ outs, out.converged = true) ∧
        m.iterations = (outs.map (·.iterations)).foldl max 0 ∧
        m.largestViolation = (outs.map (·.largestViolation)).foldl maxNum 0 := by
  have hrun : (retractAll 0 ([unitStep, bystander].map .ofConstraints) .projecting .default
      offStep).toOption.map (fun m => (m.converged, m.iterations)) = some (true, 1) := by
    decide +kernel
  obtain ⟨m, hm, hends⟩ := Option.map_eq_some_iff.1 hrun
  have h := toOption_eq_some_iff.1 hm
  exact ⟨m, h, congrArg Prod.fst hends, congrArg Prod.snd hends,
    retractInTurn_spec step_isBuiltIn step_apart h (.swap _ _ [])⟩

end Articulated
