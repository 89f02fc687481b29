import Articulated.Dense.Jacobi
import Articulated.Proofs.Number.Growth
import Articulated.Proofs.Settings.Entries
import Articulated.Proofs.Solver.Attempts

/-!
# When damping ends

Damped attempts are not counted against the budget of iterations. They end when a step lowers the
error or when the damping, which every rejected attempt multiplies by its factor, passes its bound.
Where no step helps only the second way is left, and whether it is open depends on the parameters
alone.

* `OptimizerParams.Escapes`: the multiples of a damping pass the bound. They do so within as many
  attempts as there are machine numbers, or never (`Escapes.within`).
* `optimize_finishes`: a run ends if the damping escapes wherever its attempts may start
  (`OptimizerParams.Starts`).
* `OptimizerParams.escapes_of_least_le`: with a factor above one and a bound below infinity every
  damping of at least the smallest normal number escapes, by the growth of products.
* `Stuck.unfinished`: a run in which no step helps does not end if the damping does not escape.
* `optimize_ends_iff`: with a factor above one, all runs end exactly if the first damping escapes.
* `optimize_constant_damping_unfinished`: settings with a factor of one are accepted, and there is
  a run with them that does not end.
-/

namespace Articulated

open Scalar

/-! ## 1. The dampings of a run -/

namespace OptimizerParams

variable (p : OptimizerParams Float)

/-- The damping after a number of rejected attempts. -/
def dampingAfter (lambda : Float) (k : Nat) : Float := (· * p.lambdaFactor)^[k] lambda

/-- After some number of rejected attempts the damping is beyond its bound. -/
def Escapes (lambda : Float) : Prop := ∃ k, p.maxLambda < p.dampingAfter lambda (k + 1)

/-- The dampings with which the attempts of an iteration may start: the first one, and what an
accepted step leaves. -/
inductive Starts : Float → Prop
  | initial : Starts p.initialLambda
  | accepted {lambda : Float} {k : Nat} (h : Starts lambda)
      (hrejected : ∀ i < k, ¬ p.maxLambda < p.dampingAfter lambda (i + 1)) :
      Starts (maxNum (p.dampingAfter lambda k / p.lambdaFactor) leastLambda)

theorem dampingAfter_succ (lambda : Float) (k : Nat) :
    p.dampingAfter lambda (k + 1) = p.dampingAfter lambda k * p.lambdaFactor :=
  Function.iterate_succ_apply' _ k lambda

theorem dampingAfter_add (lambda : Float) (j k : Nat) :
    p.dampingAfter lambda (j + k) = p.dampingAfter (p.dampingAfter lambda k) j :=
  Function.iterate_add_apply _ j k lambda

end OptimizerParams

/-! ## 2. Runs -/

/-- A run without iterations ends, and one whose damping escapes wherever it may start. -/
theorem optimize_finishes [Runtime Float] {g : FactorGraph Float} {p : OptimizerParams Float}
    {vs : Values Float} (hg : g.Ends) {attempts : Nat} (hmethod : p.method = .levenbergMarquardt)
    (hescapes : p.maxIterations = 0 ∨ ∀ lambda, p.Starts lambda → ∃ k < attempts,
      p.maxLambda < p.dampingAfter lambda (k + 1)) :
    Finishes (optimize attempts g vs p) :=
  optimize_finishes_of_startsIn hg hmethod ⟨.initial, .accepted⟩ hescapes

/-! ## 3. Escaping -/

/-- There are finitely many machine numbers. -/
instance finite_float : Finite Float :=
  Finite.of_injective (fun x : Float => x.toModel.toBits.toBitVec.toFin) fun x y h => by
    obtain ⟨⟨⟨⟨x⟩⟩, hx⟩⟩ := x
    obtain ⟨⟨⟨⟨y⟩⟩, hy⟩⟩ := y
    cases h
    rfl

namespace OptimizerParams

variable {p : OptimizerParams Float} {lambda : Float}

/-- A damping that comes back goes round, so it escapes before it does or not at all. -/
theorem Escapes.within (h : p.Escapes lambda) :
    ∃ k < Nat.card Float, p.maxLambda < p.dampingAfter lambda (k + 1) := by
  classical
  refine ⟨Nat.find h, ?_, Nat.find_spec h⟩
  have hnew : ∀ i j, i < j → j ≤ Nat.find h →
      p.dampingAfter lambda (i + 1) ≠ p.dampingAfter lambda (j + 1) := by
    intro i j hij hj heq
    have hshort : Nat.find h - j + i < Nat.find h := by omega
    refine Nat.find_min h hshort ?_
    rw [Nat.add_assoc, dampingAfter_add, heq, ← dampingAfter_add, ← Nat.add_assoc,
      Nat.sub_add_cancel hj]
    exact Nat.find_spec h
  have hinjective : Function.Injective
      fun i : Fin (Nat.find h + 1) => p.dampingAfter lambda (i + 1) := by
    intro i j heq
    rcases Nat.lt_trichotomy i j with hlt | heq' | hlt
    · exact absurd heq (hnew i j hlt (Nat.le_of_lt_succ j.isLt))
    · exact Fin.ext heq'
    · exact absurd heq.symm (hnew j i hlt (Nat.le_of_lt_succ i.isLt))
  have hcard := Nat.card_le_card_of_injective _ hinjective
  rwa [Nat.card_fin] at hcard

/-- **Above the smallest normal number a damping escapes**, if its factor is above one and its bound
is no infinity. -/
theorem escapes_of_least_le (hfactor : 1 < p.lambdaFactor) (hmax : p.maxLambda < 1 / 0)
    (hlambda : leastLambda ≤ lambda) : p.Escapes lambda := by
  by_contra hnever
  have hgrows : ∀ k, leastLambda ≤ p.dampingAfter lambda k →
      p.dampingAfter lambda k < p.dampingAfter lambda (k + 1) := by
    intro k hk
    have hbelow : ¬ p.maxLambda < p.dampingAfter lambda (k + 1) := fun h => hnever ⟨k, h⟩
    rw [dampingAfter_succ] at hbelow ⊢
    refine (Machine.lt_mul_or_eq_infinity hk hfactor).resolve_right fun hinfinity => hbelow ?_
    rw [hinfinity]
    exact hmax
  have hleast : ∀ k, leastLambda ≤ p.dampingAfter lambda k := by
    intro k
    induction k with
    | zero => exact hlambda
    | succ k ih => exact LawfulScalar.le_trans ih (LawfulScalar.lt_iff.1 (hgrows k ih)).1
  have hlt : ∀ i j, i < j → p.dampingAfter lambda i < p.dampingAfter lambda j := by
    intro i j hij
    induction hij with
    | refl => exact hgrows i (hleast i)
    | step _ ih => exact LawfulScalar.lt_trans ih (hgrows _ (hleast _))
  refine not_injective_infinite_finite (p.dampingAfter lambda) fun i j heq => ?_
  rcases Nat.lt_trichotomy i j with hij | hij | hji
  · exact absurd (heq ▸ hlt i j hij) (LawfulScalar.lt_irrefl _)
  · exact hij
  · exact absurd (heq ▸ hlt j i hji) (LawfulScalar.lt_irrefl _)

/-- What an accepted step leaves is not below the smallest normal number. -/
theorem leastLambda_le_maxNum (x : Float) : leastLambda ≤ maxNum x leastLambda :=
  le_maxNum (by decide +kernel) x

/-- If the first damping escapes, so does every one that an accepted step leaves. -/
theorem starts_escape (hfactor : 1 < p.lambdaFactor) (h : p.Escapes p.initialLambda) :
    ∀ {lambda : Float}, p.Starts lambda → p.Escapes lambda
  | _, .initial => h
  | _, .accepted _ _ => by
    obtain ⟨k, hk⟩ := h
    exact escapes_of_least_le hfactor (Machine.lt_infinity_of_lt hk) (leastLambda_le_maxNum _)

end OptimizerParams

/-! ## 4. Not ending -/

section Stuck

variable [Runtime Float] {g : FactorGraph Float} {p : OptimizerParams Float} {vs : Values Float}

/-- If no attempt succeeds and the damping does not escape, the attempts do not end. -/
theorem damp_unfinished {ordering : List Key} {error : Float} {gram : List (List Float)}
    {descent : List Float} : ∀ {attempts : Nat} {lambda : Float}, ¬ p.Escapes lambda →
      (∀ k, tryStep g ordering vs error gram descent (p.dampingAfter lambda k) = .ok none) →
        damp g ordering p vs error gram descent attempts lambda = .error .unfinished
  | 0, _, _, _ => rfl
  | attempts + 1, lambda, hnever, htry => by
    have hbelow : ¬ p.maxLambda < lambda * p.lambdaFactor := fun h => hnever ⟨0, h⟩
    have hafter : ¬ p.Escapes (lambda * p.lambdaFactor) := by
      rintro ⟨k, hk⟩
      exact hnever ⟨k + 1, hk⟩
    have hfirst : tryStep g ordering vs error gram descent lambda = .ok none := htry 0
    rw [damp_of_below attempts hfirst hbelow]
    exact damp_unfinished hafter fun k => htry (k + 1)

/-- From the first linear model on, no damping of a run makes a step that lowers the error. -/
structure Stuck (g : FactorGraph Float) (vs : Values Float) (p : OptimizerParams Float) :
    Prop where
  nonempty : g.isEmpty = false
  dim : ∃ n, vs.totalDim g.keys.toList = .ok n
  rejects : ∃ error j, g.error vs = .ok error ∧ ¬ error ≤ p.absoluteTolerance ∧
    g.jacobian vs g.keys.toList p.rankTolerance = .ok j ∧
      ∀ k, tryStep g g.keys.toList vs error j.matrix.gram
        ((j.matrix.applyTransposed j.residual).map (- ·)) (p.dampingAfter p.initialLambda k) =
          .ok none

/-- A run that is stuck does not end if its damping does not escape. -/
theorem Stuck.unfinished (h : Stuck g vs p) (hmethod : p.method = .levenbergMarquardt)
    (hbudget : p.maxIterations ≠ 0) (hnever : ¬ p.Escapes p.initialLambda) (attempts : Nat) :
    optimize attempts g vs p = .error .unfinished := by
  obtain ⟨n, hn⟩ := h.dim
  obtain ⟨error, j, herror, hlarge, hj, htry⟩ := h.rejects
  obtain ⟨budget, hbudget⟩ := Nat.exists_eq_succ_of_ne_zero hbudget
  have hrun : levenbergMarquardt attempts g g.keys.toList p p.maxIterations p.initialLambda
      ⟨vs, error, 0, error ≤ p.absoluteTolerance⟩ = .error .unfinished := by
    have hopen : ¬ decide (error ≤ p.absoluteTolerance) = true := mt of_decide_eq_true hlarge
    rw [hbudget]
    unfold levenbergMarquardt
    rw [if_neg hopen, hj]
    show (damp g g.keys.toList p vs error j.matrix.gram _ attempts p.initialLambda >>= _) = _
    rw [damp_unfinished hnever htry]
    rfl
  unfold optimize
  dsimp only
  rw [hn, herror]
  show ite _ _ _ = _
  rw [h.nonempty, if_neg Bool.false_ne_true, hmethod]
  show (levenbergMarquardt attempts g g.keys.toList p p.maxIterations p.initialLambda _ >>= _) = _
  rw [hrun]
  rfl

/-- A relation without variables whose residual is no number, alone in a graph. -/
def hopelessGraph : FactorGraph Float :=
  ⟨[⟨.custom ⟨"hopeless", [], fun _ => pure [0 / 0], none⟩, ⟨[1]⟩⟩]⟩

omit [Runtime Float] in
theorem hopelessGraph_ends : hopelessGraph.Ends :=
  List.forall_mem_singleton.2 ⟨fun _ => .pure _, nofun⟩

/-- No step lowers an error that is no number. -/
theorem hopelessGraph_stuck (p : OptimizerParams Float) : Stuck hopelessGraph .empty p := by
  refine ⟨rfl, ⟨0, rfl⟩, _, _, rfl, ?_, rfl, fun k => ?_⟩
  · intro hle
    exact absurd (LawfulScalar.isNumber_of_le hle).1 (by decide +kernel)
  · show Except.ok (ite _ _ _) = _
    rw [if_neg (LawfulScalar.lt_irrefl _)]

end Stuck

/-! ## 5. When damping ends -/

/-- **Damping ends exactly if it escapes.** With a damping factor above one, the runs from all
assignments of all graphs come to an outcome of their own, if they are given enough attempts,
exactly if there are no iterations or the first damping, multiplied by its factor again and again,
passes its bound. This is so for a first damping of at least the smallest normal number and a bound
that is no infinity. -/
theorem optimize_ends_iff [Runtime Float] {p : OptimizerParams Float}
    (hmethod : p.method = .levenbergMarquardt) (hfactor : 1 < p.lambdaFactor) :
    ((∀ (g : FactorGraph Float) (vs : Values Float), g.Ends → ∃ out, Finishes out ∧
        ∃ enough, ∀ attempts ≥ enough, optimize attempts g vs p = out) ↔
      p.maxIterations = 0 ∨ p.Escapes p.initialLambda) ∧
    (leastLambda ≤ p.initialLambda → p.maxLambda < 1 / 0 → p.Escapes p.initialLambda) := by
  refine ⟨⟨fun hends => ?_, fun hescapes g vs hg => ?_⟩, fun hleast hmax =>
    OptimizerParams.escapes_of_least_le hfactor hmax hleast⟩
  · by_contra hnot
    obtain ⟨hbudget, hnever⟩ := not_or.1 hnot
    obtain ⟨out, hout, enough, hall⟩ := hends hopelessGraph .empty hopelessGraph_ends
    have hstopped := (hopelessGraph_stuck p).unfinished hmethod hbudget hnever enough
    exact hout ((hall enough (Nat.le_refl _)).symm.trans hstopped)
  · have hwithin : p.maxIterations = 0 ∨ ∀ lambda, p.Starts lambda → ∃ k < Nat.card Float,
        p.maxLambda < p.dampingAfter lambda (k + 1) :=
      hescapes.imp_right fun h _ hstart => (OptimizerParams.starts_escape hfactor h hstart).within
    have hfinishes : Finishes (optimize (Nat.card Float) g vs p) :=
      optimize_finishes hg hmethod hwithin
    exact ⟨_, hfinishes, Nat.card Float, fun attempts hle => optimize_stable hle hfinishes⟩

/-- A variable is asked to be one and to be minus one. -/
def opposedGraph : FactorGraph Float := ⟨[.scalarPrior ⟨1⟩ 1 1, .scalarPrior ⟨1⟩ (-1) 1]⟩

/-- The variable at zero, where the error is smallest. -/
def opposedStart : Values Float := Values.empty.insert ⟨1⟩ (.scalar 0)

theorem opposedGraph_ends : opposedGraph.Ends := by
  intro f hf
  rcases List.mem_pair.1 hf with rfl | rfl <;> trivial

/-- The default damping ends at the minimum. -/
theorem optimize_ends_iff_damped :
    (OptimizerParams.damped (α := Float)).method = .levenbergMarquardt ∧
      1 < (OptimizerParams.damped (α := Float)).lambdaFactor ∧
      ∃ out, Finishes out ∧
        ∃ enough, ∀ attempts ≥ enough,
          optimize attempts opposedGraph opposedStart .damped = out := by
  have hfactor : 1 < (OptimizerParams.damped (α := Float)).lambdaFactor := by decide +kernel
  have h := optimize_ends_iff (p := .damped) rfl hfactor
  have hescapes := h.2 (by decide +kernel) (by decide +kernel)
  exact ⟨rfl, hfactor, h.1.2 (.inr hescapes) opposedGraph opposedStart opposedGraph_ends⟩

/-- A document that asks for damping and for a damping factor of one. -/
def constantDamping : List Yaml.Node :=
  [.mapping [(.text "optimizer".toList, .mapping [
    (.text "type".toList, .text "levenberg_marquardt".toList),
    (.text "lambda_factor".toList, .integer 1)])]]

/-- The parameters of the document. -/
def constantParams : OptimizerParams Float :=
  { OptimizerParams.damped with lambdaFactor := .ofInt 1 }

theorem constantDamping_accepted :
    Settings.ofDocuments constantDamping = .ok ⟨fun _ => 0.001, constantParams⟩ := by
  have hsigma : 0 < (0.001 : Float) ∧ (0.001 : Float).isFinite = true := by decide +kernel
  refine Settings.ofDocuments_eq_ok.2 ⟨rfl, rfl, ⟨fun n => .absent .none, ?_⟩, fun n => hsigma⟩
  exact ⟨.absent .none, .absent .none, .absent .none, .given (.integer 1), .absent .none,
    .absent .none⟩

theorem constantParams_dampingAfter (k : Nat) :
    constantParams.dampingAfter constantParams.initialLambda k = constantParams.initialLambda :=
  Function.iterate_fixed (by decide +kernel) k

theorem opposedStart_stuck : Stuck opposedGraph opposedStart constantParams := by
  have hrun : (do
      let error ← opposedGraph.error opposedStart
      let j ← opposedGraph.jacobian opposedStart opposedGraph.keys.toList
        constantParams.rankTolerance
      let out ← tryStep opposedGraph opposedGraph.keys.toList opposedStart error j.matrix.gram
        ((j.matrix.applyTransposed j.residual).map (- ·)) constantParams.initialLambda
      return (decide (error ≤ constantParams.absoluteTolerance), out.isNone)).toOption =
        some (false, true) := by
    decide +kernel
  obtain ⟨error, herror, h⟩ := bind_eq_ok.1 (toOption_eq_some_iff.1 hrun)
  obtain ⟨j, hj, h⟩ := bind_eq_ok.1 h
  obtain ⟨out, hout, h⟩ := map_eq_ok.1 h
  obtain ⟨hlarge, hnone⟩ := Prod.mk.inj h
  refine ⟨rfl, ⟨1, rfl⟩, error, j, herror, of_decide_eq_false hlarge, hj, fun k => ?_⟩
  rw [constantParams_dampingAfter, hout, Option.isNone_iff_eq_none.1 hnone]

/-- **A damping factor of one is accepted, and a run at the minimum does not end with it.** -/
theorem optimize_constant_damping_unfinished :
    ∃ s, Settings.ofDocuments constantDamping = .ok s ∧
      s.optimizer.method = .levenbergMarquardt ∧ opposedGraph.Ends ∧
      ∀ attempts, optimize attempts opposedGraph opposedStart s.optimizer = .error .unfinished := by
  refine ⟨_, constantDamping_accepted, rfl, opposedGraph_ends, fun attempts => ?_⟩
  refine opposedStart_stuck.unfinished rfl (by decide) (fun ⟨k, hk⟩ => ?_) attempts
  rw [constantParams_dampingAfter] at hk
  exact absurd hk (by decide +kernel)

end Articulated
