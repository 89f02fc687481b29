import Articulated.Proofs.Constraint.Connectivity
import Articulated.Proofs.Constraint.Frame
import Articulated.Proofs.Factor.Reading

/-!
# Variables without values

Neither the optimizer nor a retraction goes on without the value of one of its variables. The
optimizer looks at all variables before anything else. A retraction may first find that a constraint
does not hold which has all of its variables, but then it makes a linear model of all constraints,
and does not get over that.

* `optimize_missing`: the optimizer names the smallest variable without a value.
* `correct_missing`: corrections do not move anything without the value of a variable.
* `missing_never_recovered`: neither of both succeeds, and what they fail with.
* `retract_short_noise`: a retraction that fails for another reason before it comes to the variable
  without a value.
-/

namespace Articulated

/-! ## 1. The smallest variable without a value -/

section Missing

variable {α : Type} {vs : Values α}

/-- The smallest of some variables that has no value. -/
structure Values.FirstMissing (vs : Values α) (ks : List Key) (k : Key) : Prop where
  mem : k ∈ ks
  missing : vs.get? k = none
  le : ∀ q ∈ ks, vs.get? q = none → k ≤ q

/-- The dimensions of variables are looked up in order, up to the first one without a value. -/
theorem Values.totalDim_missing : ∀ {ks : List Key}, ks.Pairwise (· < ·) →
    (∃ k ∈ ks, vs.get? k = none) →
      ∃ k, vs.FirstMissing ks k ∧ vs.totalDim ks = .error (.missing k)
  | [], _, h => by
    obtain ⟨k, hk, -⟩ := h
    exact absurd hk List.not_mem_nil
  | k :: ks, hsorted, h => by
    obtain ⟨hk, hks⟩ := List.pairwise_cons.1 hsorted
    unfold totalDim dim
    cases hv : vs.get? k with
    | none =>
      refine ⟨k, ⟨List.mem_cons_self, hv, fun q hq _ => ?_⟩, by rw [lookup_eq_error hv]; rfl⟩
      rcases List.mem_cons.1 hq with rfl | hq
      · exact Key.le_refl q
      · exact Key.le_of_lt (hk q hq)
    | some v =>
      have hrest : ∀ q ∈ k :: ks, vs.get? q = none → q ∈ ks := by
        intro q hq hmissing
        refine (List.mem_cons.1 hq).resolve_left ?_
        rintro rfl
        cases hv.symm.trans hmissing
      obtain ⟨q, hq, hmissing⟩ := h
      obtain ⟨m, hm, hdim⟩ := totalDim_missing hks ⟨q, hrest q hq hmissing, hmissing⟩
      refine ⟨m, ⟨List.mem_cons_of_mem k hm.mem, hm.missing, fun q hq hq' => ?_⟩, ?_⟩
      · exact hm.le q (hrest q hq hq') hq'
      · rw [lookup_eq_ok.2 hv, hdim]
        rfl

variable [Scalar α] [Factorization α] [Runtime α]

/-- **The optimizer names the smallest variable without a value**, before it computes anything. -/
theorem optimize_missing (attempts : Nat) {g : FactorGraph α} (p : OptimizerParams α)
    (h : ∃ k ∈ g.keys.toList, vs.get? k = none) :
    ∃ k, vs.FirstMissing g.keys.toList k ∧ optimize attempts g vs p = .error (.missing k) := by
  obtain ⟨k, hk, hdim⟩ := Values.totalDim_missing g.keys.sorted h
  refine ⟨k, hk, ?_⟩
  unfold optimize
  simp only [hdim]
  rfl

end Missing

/-! ## 2. Constraints -/

namespace Constraints

variable {α : Type} {cs : Constraints α} {vs : Values α} {held : Key → Prop}

/-- Why an evaluation of the constraints fails: a variable of them, or one that is held, cannot be
read, or the noise of some constraint does not fit its residual. -/
def EvaluationFault (cs : Constraints α) (vs : Values α) (held : Key → Prop) (e : Fault α) : Prop :=
  vs.ReadingFault (fun k => k ∈ cs.keys.toList ∨ held k) e ∨
    (∃ c ∈ cs.items, ¬ c.factor.IsRegular) ∧ Factor.RowsBreach e

/-- All relations are from the library, and some variable has no value. -/
structure Lacks (cs : Constraints α) (vs : Values α) : Prop where
  isBuiltIn : ∀ c ∈ cs.items, c.factor.relation.IsBuiltIn
  missing : ∃ k ∈ cs.keys.toList, vs.get? k = none

theorem evaluationFault_of_reading {c : Constraint α} (hc : c ∈ cs.items) {e : Fault α}
    (he : vs.ReadingFault (· ∈ c.keys) e) : cs.EvaluationFault vs held e :=
  .inl (he.mono fun _ hk => .inl (mem_keys_of_mem hc hk))

variable [Scalar α] (h : cs.Lacks vs)

include h

/-- Some constraint does not evaluate. -/
theorem Lacks.exists_unread : ∃ c ∈ cs.items, ∀ rows, c.factor.residual vs ≠ .ok rows := by
  obtain ⟨k, hk, hmissing⟩ := h.missing
  obtain ⟨c, hc, hk⟩ := mem_keys.1 hk
  exact ⟨c, hc, Factor.residual_ne_ok (h.isBuiltIn c hc) hk hmissing⟩

theorem Lacks.violation_faults {c : Constraint α} (hc : c ∈ cs.items) :
    Faults (cs.EvaluationFault vs held) (c.violation vs) :=
  .bind ((Relation.residual_faults (h.isBuiltIn c hc)).mono fun _ he =>
    evaluationFault_of_reading hc he) fun _ _ => .pure _

theorem Lacks.largestViolation_faults :
    Faults (cs.EvaluationFault vs held) (cs.largestViolation vs) :=
  .foldlM (fun _ _ hc => (h.violation_faults hc).bind fun _ _ => .pure _) 0

theorem Lacks.largestViolation_ne_ok (x : α) : cs.largestViolation vs ≠ .ok x := by
  intro hx
  obtain ⟨c, hc, hne⟩ := h.exists_unread
  obtain ⟨y, hy⟩ := exists_violation hx hc
  obtain ⟨rows, hrows, -⟩ := Constraint.violation_eq_ok.1 hy
  exact hne rows hrows

theorem Lacks.compliant_faults : Faults (cs.EvaluationFault vs held) (cs.compliant vs) := by
  have hall : ∀ l : List (Constraint α), (∀ c ∈ l, c ∈ cs.items) →
      Faults (cs.EvaluationFault vs held) (allCompliant vs l) := by
    intro l
    induction l with
    | nil => exact fun _ => .pure true
    | cons c l ih =>
      intro hl
      obtain ⟨hc, hl⟩ := List.forall_mem_cons.1 hl
      refine ((h.violation_faults hc).bind fun _ _ => .pure _).bind fun b _ => ?_
      cases b with
      | true => exact ih hl
      | false => exact .pure false
  exact hall cs.items fun _ => id

theorem Lacks.linearize_faults [Runtime α] :
    Faults (cs.EvaluationFault vs held) (cs.linearize vs) :=
  .mapM fun c hc => (Factor.linearize_faults (h.isBuiltIn c hc)).mono fun _ he =>
    he.imp (·.mono fun _ hk => .inl (mem_keys_of_mem hc hk)) fun he => ⟨⟨c, hc, he.1⟩, he.2⟩

theorem Lacks.linearize_ne_ok [Runtime α] (models : List (Linearization α)) :
    cs.linearize vs ≠ .ok models := by
  intro hmodels
  obtain ⟨c, hc, hne⟩ := h.exists_unread
  obtain ⟨model, -, hmodel⟩ := exists_answer (mapM_eq_ok.1 hmodels) hc
  obtain ⟨rows, hrows, -⟩ := bind_eq_ok.1 hmodel
  exact hne rows hrows

end Constraints

/-! ## 3. Retractions -/

section Retractions

variable {α : Type} [Scalar α] [Factorization α] [Runtime α] {cs : Constraints α} {vs : Values α}
  {held : Key → Prop}

omit [Factorization α] [Runtime α] in
/-- The outcome at an assignment without the value of some variable is a fault. -/
theorem conclude_missing (h : cs.Lacks vs) (n : Nat) :
    ∃ e, conclude (.ofConstraints cs) vs n = .error e ∧ cs.EvaluationFault vs held e := by
  refine Faults.exists_fault ?_ fun out hout => ?_
  · exact h.largestViolation_faults.bind fun _ _ => h.compliant_faults.bind fun _ _ => .pure _
  · obtain ⟨x, hx, -⟩ := bind_eq_ok.1 hout
    exact h.largestViolation_ne_ok x hx

/-- **Corrections do not move anything without the value of a variable.** Whatever the budget, they
fail with the linear model, or end where they began. -/
theorem correct_missing (h : cs.Lacks vs) (free : List Key) (ε : α) (budget n : Nat) :
    Faults (cs.EvaluationFault vs held) (correct (.ofConstraints cs) free ε budget vs n) ∧
      ∀ last m, correct (.ofConstraints cs) free ε budget vs n = .ok (last, m) → last = vs := by
  have hstay : Faults (cs.EvaluationFault vs held) (Pure.pure (vs, n) : Except (Fault α) _) ∧
      ∀ last m, (Pure.pure (vs, n) : Except (Fault α) _) = .ok (last, m) → last = vs :=
    ⟨.pure _, fun last m heq => (congrArg Prod.fst (Except.ok.inj heq)).symm⟩
  cases budget with
  | zero => exact hstay
  | succ budget =>
    unfold correct
    by_cases hfree : free.isEmpty
    · rw [if_pos hfree]
      exact hstay
    · rw [if_neg hfree]
      show Faults _ (cs.compliant vs >>= _) ∧ ∀ last m, (cs.compliant vs >>= _) = _ → _
      cases hb : cs.compliant vs with
      | error e => exact ⟨.error (h.compliant_faults e hb), fun _ _ heq => by cases heq⟩
      | ok b =>
        cases b with
        | true => exact hstay
        | false =>
          -- The constraints after one that does not hold are read here.
          obtain ⟨e, he, hfault⟩ := h.linearize_faults.exists_fault h.linearize_ne_ok
          show Faults _ (cs.linearize vs >>= _) ∧ ∀ last m, (cs.linearize vs >>= _) = _ → _
          rw [he]
          exact ⟨.error hfault, fun _ _ heq => by cases heq⟩

theorem project_missing (h : cs.Lacks vs) (free : List Key) (p : RetractParams α) :
    ∃ e, project (.ofConstraints cs) free p vs = .error e ∧ cs.EvaluationFault vs held e := by
  obtain ⟨hfaults, hlast⟩ : Faults (cs.EvaluationFault vs held) _ ∧ _ :=
    correct_missing h free p.epsilon p.maxIterations 0
  refine hfaults.bind_fails fun out hout => ?_
  obtain ⟨last, n⟩ := out
  obtain rfl := hlast last n hout
  exact conclude_missing h n

omit [Scalar α] [Factorization α] [Runtime α] in
/-- A basis is held, and so its variables are looked up first. -/
theorem basis_faults : ∀ {basis : List Key}, (∀ k ∈ basis, held k) →
    Faults (cs.EvaluationFault vs held) (basis.forM fun k => discard <| vs.lookup k)
  | [], _ => .pure ()
  | k :: basis, hheld => by
    obtain ⟨hk, hbasis⟩ := List.forall_mem_cons.1 hheld
    refine Faults.bind (x := discard <| vs.lookup k) ?_ fun _ _ => basis_faults hbasis
    cases hv : vs.get? k with
    | none =>
      rw [Values.lookup_eq_error hv]
      exact .error (.inl (.missing (.inr hk) hv))
    | some v =>
      rw [Values.lookup_eq_ok.2 hv]
      exact .pure ()

/-- **No retraction succeeds without the value of a variable.** -/
theorem retract_missing (attempts : Nat) (r : Retractor) (p : RetractParams α)
    (h : cs.Lacks vs) : ∃ e, retract attempts (.ofConstraints cs) r p vs = .error e ∧
      cs.EvaluationFault vs r.Holds e := by
  cases r with
  | optimizing =>
    obtain ⟨k, hk, hmissing⟩ := h.missing
    rw [← cs.keys_asCosts p.penaltySigma] at hk
    obtain ⟨m, hm, hoptimize⟩ := optimize_missing attempts p.optimizer ⟨k, hk, hmissing⟩
    have hmem : m ∈ cs.keys.toList := cs.keys_asCosts p.penaltySigma ▸ hm.mem
    refine ⟨.missing m, ?_, .inl (.missing (.inl hmem) hm.missing)⟩
    unfold retract
    show (optimize attempts (cs.asCosts p.penaltySigma) vs p.optimizer >>= _) = _
    rw [hoptimize]
    rfl
  | projecting => exact project_missing h _ p
  | overBasis basis =>
    have hfaults : Faults (cs.EvaluationFault vs (Retractor.overBasis basis).Holds)
        (basis.forM fun k => discard <| vs.lookup k) := basis_faults fun k => id
    exact hfaults.bind_fails fun _ _ => project_missing h _ p

/-- **Missing variables are never recovered.** Without the value of one of its variables, a
component of constraints of the library is not retracted, in whatever way and whatever the budget:
the retraction names a variable of the component, or one of its basis, that it cannot read. It may
come to another fault before that, if the noise of some constraint does not fit its residual. A
graph with any factors is not optimized, and the optimizer names its smallest variable without a
value. A factor of the library only ever misses one of its own variables, which then has no
value. -/
theorem missing_never_recovered (attempts : Nat) (vs : Values α) :
    (∀ cs : Constraints α, (∀ c ∈ cs.items, c.factor.relation.IsBuiltIn) →
      (∃ k ∈ cs.keys.toList, vs.get? k = none) → ∀ (r : Retractor) (p : RetractParams α),
        ∃ e, retract attempts (.ofConstraints cs) r p vs = .error e ∧
          (vs.ReadingFault (fun k => k ∈ cs.keys.toList ∨ r.Holds k) e ∨
            (∃ c ∈ cs.items, ¬ c.factor.IsRegular) ∧ Factor.RowsBreach e)) ∧
    (∀ (g : FactorGraph α) (p : OptimizerParams α), (∃ k ∈ g.keys.toList, vs.get? k = none) →
      ∃ k, vs.FirstMissing g.keys.toList k ∧ optimize attempts g vs p = .error (.missing k)) ∧
    ∀ f : Factor α, f.relation.IsBuiltIn → ∀ k, f.residual vs = .error (.missing k) →
      k ∈ f.keys ∧ vs.get? k = none := by
  refine ⟨fun cs hcs hmissing r p => ?_, fun g p => optimize_missing attempts p,
    fun f hf k hk => ?_⟩
  · exact retract_missing attempts r p ⟨hcs, hmissing⟩
  · cases Relation.residual_faults hf _ hk with
    | missing hmem hnone => exact ⟨hmem, hnone⟩

end Retractions

/-- The end of a step without its start. -/
def lostStart : Values Float := (Values.empty.insert ⟨2⟩ (.scalar 5)).insert ⟨3⟩ (.scalar 2)

/-- A step without its start is not corrected, not minimized and not evaluated. -/
theorem missing_never_recovered_lostStart :
    (∀ c ∈ unitStep.items, c.factor.relation.IsBuiltIn) ∧ ⟨1⟩ ∈ unitStep.keys.toList ∧
      lostStart.get? ⟨1⟩ = none ∧
      (∃ e, retract 0 (.ofConstraints unitStep) .projecting .default lostStart = .error e) ∧
      (∃ k, lostStart.FirstMissing (unitStep.asCosts 1).keys.toList k ∧
        optimize 0 (unitStep.asCosts 1) lostStart .damped = .error (.missing k)) ∧
      ∀ c ∈ unitStep.items, c.factor.residual lostStart = .error (.missing ⟨1⟩) ∧
        ⟨1⟩ ∈ c.factor.keys := by
  obtain ⟨hretract, hoptimize, hfactor⟩ := missing_never_recovered 0 lostStart
  have hbuiltIn : ∀ c ∈ unitStep.items, c.factor.relation.IsBuiltIn :=
    List.forall_mem_singleton.2 trivial
  have hmem : ⟨1⟩ ∈ unitStep.keys.toList := by decide
  have hmissing : lostStart.get? ⟨1⟩ = none := rfl
  refine ⟨hbuiltIn, hmem, hmissing, ?_, hoptimize _ _ ⟨⟨1⟩, by decide, hmissing⟩, ?_⟩
  · obtain ⟨e, he, -⟩ := hretract unitStep hbuiltIn ⟨⟨1⟩, hmem, hmissing⟩ .projecting .default
    exact ⟨e, he⟩
  · intro c hc
    have hresidual : c.factor.residual lostStart = .error (.missing ⟨1⟩) := by
      obtain rfl := List.mem_singleton.1 hc
      rfl
    exact ⟨hresidual, (hfactor _ (hbuiltIn c hc) _ hresidual).1⟩

/-- Two relative poses in a row, the first one with too few standard deviations. -/
def shortNoise : Constraints Float :=
  ⟨[⟨⟨.between ⟨1⟩ ⟨2⟩ .identity, .isotropic 3 1⟩, 1e-6⟩,
    ⟨.isotropic (.between ⟨2⟩ ⟨3⟩ .identity) 6 1, 1e-6⟩]⟩

/-- The first two poses, which are not where they should be. -/
def twoPoses : Values Float :=
  (Values.empty.insert ⟨1⟩ (.pose .identity)).insert ⟨2⟩ (.pose (.shift ⟨1, 0, 0⟩))

/-- **A retraction may break off before it comes to the missing variable.** The first constraint
does not hold and has noise for three of its six rows. Its linear model is a breach of contract, and
the variable that the second constraint misses is not named. -/
theorem retract_short_noise :
    (∀ c ∈ shortNoise.items, c.factor.relation.IsBuiltIn) ∧ ⟨3⟩ ∈ shortNoise.keys.toList ∧
      twoPoses.get? ⟨3⟩ = none ∧
      retract 0 (.ofConstraints shortNoise) .projecting .default twoPoses =
        .error (.breach (.residualRows 6 3)) := by
  have hbuiltIn : ∀ c ∈ shortNoise.items, c.factor.relation.IsBuiltIn :=
    List.forall_mem_cons.2 ⟨trivial, List.forall_mem_singleton.2 trivial⟩
  have hviolated : shortNoise.compliant twoPoses = .ok false :=
    toOption_eq_some_iff.1 (by decide +kernel)
  have hcorrect : correct (.ofConstraints shortNoise) shortNoise.keys.toList 1e-6 (99 + 1)
      twoPoses 0 = .error (.breach (.residualRows 6 3)) := by
    unfold correct
    rw [if_neg (by decide)]
    show (shortNoise.compliant twoPoses >>= _) = _
    rw [hviolated]
    -- The linear model of the first constraint is all that is left to compute.
    rfl
  refine ⟨hbuiltIn, by decide, rfl, ?_⟩
  show (correct _ shortNoise.keys.toList 1e-6 (99 + 1) twoPoses 0 >>= _) = _
  rw [hcorrect]
  rfl

end Articulated
