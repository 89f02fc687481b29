import Articulated.Proofs.Fault.Outcome
import Articulated.Solver.Optimize

/-!
# What is computed without a search

Of the computations of a solver only the damped attempts are a search with a bound. Everything
else comes to its end by itself, with an answer or with a fault that says why there is none; the
relations that are given from outside must do so too (`FactorGraph.Ends`).

* `Finishes`: a computation does not meet the bound of a search. It passes from the parts of a
  sequence to the whole.
* `FactorGraph.error_finishes`, `FactorGraph.jacobian_finishes`: what an iteration computes of a
  graph.
* `tryStep_finishes`: a single damped attempt.
-/

namespace Articulated

variable {α β γ : Type}

/-! ## 1. Computations -/

/-- The computation was not stopped by the bound of a search. -/
def Finishes (x : Except (Fault α) β) : Prop := x ≠ .error .unfinished

namespace Finishes

variable {x : Except (Fault α) β}

theorem ok (b : β) : Finishes (.ok b : Except (Fault α) β) := nofun

theorem pure (b : β) : Finishes (Pure.pure b : Except (Fault α) β) := ok b

theorem throw {e : Fault α} (h : e ≠ .unfinished) :
    Finishes (MonadExcept.throw e : Except (Fault α) β) :=
  fun heq => h (Except.error.inj heq)

theorem bind_of {f : β → Except (Fault α) γ} (hx : Finishes x)
    (hf : ∀ b, x = .ok b → Finishes (f b)) : Finishes (x >>= f) := by
  cases x with
  | error e => exact fun heq => hx (congrArg Except.error (Except.error.inj heq))
  | ok b => exact hf b rfl

theorem bind {f : β → Except (Fault α) γ} (hx : Finishes x) (hf : ∀ b, Finishes (f b)) :
    Finishes (x >>= f) :=
  hx.bind_of fun b _ => hf b

/-- The first part of a sequence that is not stopped is not stopped. -/
theorem of_bind {f : β → Except (Fault α) γ} (h : Finishes (x >>= f)) : Finishes x :=
  fun hstopped => h (hstopped ▸ rfl)

/-- A sequence that is not stopped is not changed by what makes no difference to rests that are not
stopped. -/
theorem bind_congr {f f' : β → Except (Fault α) γ} (h : Finishes (x >>= f))
    (hf : ∀ b, Finishes (f b) → f' b = f b) : (x >>= f') = x >>= f := by
  cases x with
  | error e => rfl
  | ok b => exact hf b h

theorem discard (hx : Finishes x) : Finishes (Functor.discard x) := by
  cases x with
  | error e => exact fun heq => hx (congrArg Except.error (Except.error.inj heq))
  | ok b => exact ok ()

theorem mapM {f : β → Except (Fault α) γ} : ∀ {l : List β}, (∀ b ∈ l, Finishes (f b)) →
    Finishes (l.mapM f)
  | [], _ => pure []
  | b :: l, h => by
    rw [List.mapM_cons]
    refine (h b List.mem_cons_self).bind fun c => ?_
    exact (mapM fun b' hb' => h b' (List.mem_cons_of_mem b hb')).bind fun cs => pure _

theorem inParallel [Runtime α] {f : β → Except (Fault α) γ} {l : List β}
    (h : ∀ b ∈ l, Finishes (f b)) : Finishes (inParallel l f) := by
  intro heq
  obtain ⟨b, hb, hstopped⟩ := exists_failed heq
  exact h b hb hstopped

theorem foldlM {f : γ → β → Except (Fault α) γ} (h : ∀ c b, Finishes (f c b)) :
    ∀ {l : List β} {c : γ}, Finishes (l.foldlM f c)
  | [], c => pure c
  | b :: l, c => by
    rw [List.foldlM_cons]
    exact (h c b).bind fun c' => foldlM h

end Finishes

/-! ## 2. Assignments -/

section Values

variable (vs : Values α) (k : Key)

theorem Values.lookup_finishes : Finishes (vs.lookup k) := by
  unfold lookup
  split
  · exact .ok _
  · exact nofun

theorem Values.scalar_finishes : Finishes (vs.scalar k) :=
  (vs.lookup_finishes k).bind fun v => by cases v <;> first | exact .pure _ | exact .throw nofun

theorem Values.vector6_finishes : Finishes (vs.vector6 k) :=
  (vs.lookup_finishes k).bind fun v => by cases v <;> first | exact .pure _ | exact .throw nofun

theorem Values.pose_finishes : Finishes (vs.pose k) :=
  (vs.lookup_finishes k).bind fun v => by cases v <;> first | exact .pure _ | exact .throw nofun

theorem Values.dim_finishes : Finishes (vs.dim k) := (vs.lookup_finishes k).bind fun _ => .pure _

theorem Values.totalDim_finishes : ∀ ks, Finishes (vs.totalDim ks)
  | [] => .pure 0
  | k :: ks => (vs.dim_finishes k).bind fun _ => (totalDim_finishes ks).bind fun _ => .pure _

theorem Values.subset_finishes (ks : List Key) : Finishes (vs.subset ks) :=
  .foldlM fun _ k => (vs.lookup_finishes k).bind fun _ => .pure _

theorem Values.retractInto_finishes [Scalar α] : ∀ ks δ acc, Finishes (vs.retractInto ks δ acc)
  | [], _, acc => .pure acc
  | k :: ks, δ, acc => (vs.lookup_finishes k).bind fun v => by
    split
    · exact nofun
    · exact retractInto_finishes ks _ _

theorem Values.retract_finishes [Scalar α] (ks : List Key) (δ : List α) :
    Finishes (vs.retract ks δ) :=
  vs.retractInto_finishes ks δ vs

end Values

/-! ## 3. Factors -/

/-- A relation given from outside comes to an end; all others do. -/
def Relation.Ends : Relation α → Prop
  | .custom r => (∀ vs, Finishes (r.residual vs)) ∧
    ∀ blocks ∈ r.blocks?, ∀ vs, Finishes (blocks vs)
  | _ => True

/-- All relations of the graph come to an end. -/
def FactorGraph.Ends (g : FactorGraph α) : Prop := ∀ f ∈ g.factors, f.relation.Ends

section Factors

variable [Scalar α] {vs : Values α} {r : Relation α} {f : Factor α} {g : FactorGraph α}

theorem Relation.addWrenches_finishes :
    ∀ ks sum, Finishes (addWrenches vs ks sum)
  | [], sum => .pure sum
  | k :: ks, _ => (vs.vector6_finishes k).bind fun _ => addWrenches_finishes ks _

theorem Relation.readStep_finishes (x₀ x₁ r₀ r₁ : Key) (step : TimeStep α)
    (scheme : CollocationScheme) :
    Finishes (readStep vs x₀ x₁ r₀ r₁ step scheme) := by
  refine (vs.scalar_finishes x₀).bind fun _ => (vs.scalar_finishes x₁).bind fun _ =>
    (vs.scalar_finishes r₀).bind fun _ => ?_
  cases scheme with
  | euler =>
    cases step with
    | fixed dt => exact .pure _
    | phase k => exact (vs.scalar_finishes k).bind fun _ => .pure _
  | trapezoidal =>
    refine (vs.scalar_finishes r₁).bind fun _ => ?_
    cases step with
    | fixed dt => exact .pure _
    | phase k => exact (vs.scalar_finishes k).bind fun _ => .pure _

theorem Relation.residual_finishes (h : r.Ends) : Finishes (r.residual vs) := by
  cases r with
  | prior k value =>
    refine (vs.lookup_finishes k).bind fun v => ?_
    cases value.local? v with
    | none => exact nofun
    | some δ => exact .pure δ
  | between k₁ k₂ measured =>
    exact (vs.pose_finishes k₁).bind fun _ => (vs.pose_finishes k₂).bind fun _ => .pure _
  | jointPose p c q frames =>
    exact (vs.pose_finishes p).bind fun _ => (vs.pose_finishes c).bind fun _ =>
      (vs.scalar_finishes q).bind fun _ => .pure _
  | jointTwist p c q v frames =>
    exact (vs.vector6_finishes p).bind fun _ => (vs.vector6_finishes c).bind fun _ =>
      (vs.scalar_finishes q).bind fun _ => (vs.scalar_finishes v).bind fun _ => .pure _
  | jointTwistAccel t p c q v a frames =>
    exact (vs.vector6_finishes t).bind fun _ => (vs.vector6_finishes p).bind fun _ =>
      (vs.vector6_finishes c).bind fun _ => (vs.scalar_finishes q).bind fun _ =>
      (vs.scalar_finishes v).bind fun _ => (vs.scalar_finishes a).bind fun _ => .pure _
  | wrenchBalance p v a ws mass inertia gravity =>
    exact (vs.pose_finishes p).bind fun _ => (vs.vector6_finishes v).bind fun _ =>
      (vs.vector6_finishes a).bind fun _ => (addWrenches_finishes ws _).bind fun _ => .pure _
  | wrenchEquivalence p c q frames =>
    exact (vs.vector6_finishes p).bind fun _ => (vs.vector6_finishes c).bind fun _ =>
      (vs.scalar_finishes q).bind fun _ => .pure _
  | torque w t screw =>
    exact (vs.vector6_finishes w).bind fun _ => (vs.scalar_finishes t).bind fun _ => .pure _
  | wrenchPlanar w rows => exact (vs.vector6_finishes w).bind fun _ => .pure _
  | jointLimit k lower upper => exact (vs.scalar_finishes k).bind fun _ => .pure _
  | collocation x₀ x₁ r₀ r₁ step scheme =>
    exact (readStep_finishes x₀ x₁ r₀ r₁ step scheme).bind fun _ => .pure _
  | custom r => exact h.1 vs

theorem Relation.exactBlocks_finishes (h : r.Ends) :
    ∀ blocks ∈ r.exactBlocks?, Finishes (blocks vs) := by
  intro blocks hblocks
  cases r with
  | prior k value => cases value <;> cases hblocks <;> exact .pure _
  | torque | wrenchPlanar => cases hblocks; exact .pure _
  | jointLimit k lower upper =>
    cases hblocks
    exact (vs.scalar_finishes k).bind fun _ => .pure _
  | collocation x₀ x₁ r₀ r₁ step scheme =>
    cases hblocks
    exact (readStep_finishes x₀ x₁ r₀ r₁ step scheme).bind fun _ => .pure _
  | custom r => exact h.2 blocks hblocks vs
  | between | jointPose | jointTwist | jointTwistAccel | wrenchBalance | wrenchEquivalence =>
    cases hblocks

theorem Noise.whiten_finishes (n : Noise α) (residual : List α) :
    Finishes (n.whiten residual) := by
  unfold whiten
  split
  · exact .pure _
  · exact nofun

theorem Factor.cost_finishes (h : f.relation.Ends) : Finishes (f.cost vs) :=
  ((Relation.residual_finishes h).bind fun _ => f.noise.whiten_finishes _).bind fun _ => .pure _

theorem Factor.blocks_finishes [Runtime α] (h : f.relation.Ends) : Finishes (f.blocks vs) := by
  unfold blocks
  split
  · rename_i blocks hblocks
    exact Relation.exactBlocks_finishes h blocks hblocks
  · refine (vs.subset_finishes _).bind fun own => .inParallel fun k _ => ?_
    refine (own.lookup_finishes k).bind fun value => .mapM fun direction _ => ?_
    refine (Relation.residual_finishes h).bind fun plus => ?_
    refine (Relation.residual_finishes h).bind fun minus => ?_
    split
    · exact .pure _
    · exact nofun

theorem Factor.linearize_finishes [Runtime α] (h : f.relation.Ends) (whiten : Bool) :
    Finishes (f.linearize vs whiten) := by
  refine (Relation.residual_finishes h).bind fun residual => (blocks_finishes h).bind fun _ => ?_
  split
  · exact (f.noise.whiten_finishes residual).bind fun _ => .pure _
  · exact .pure _

/-! ## 4. Graphs -/

theorem FactorGraph.error_finishes [Runtime α] (hg : g.Ends) : Finishes (g.error vs) :=
  (Finishes.inParallel fun f hf => f.cost_finishes (hg f hf)).bind fun _ => .pure _

theorem Jacobian.columnsOf_finishes (l : Linearization α) (k : Key) (width : Nat) :
    Finishes (columnsOf l k width) := by
  unfold columnsOf
  split
  · exact .pure _
  · split
    · exact .pure _
    · exact nofun

theorem Jacobian.strip_finishes (l : Linearization α) : ∀ places, Finishes (strip l places)
  | [] => .pure []
  | (k, width) :: rest => by
    unfold strip
    split
    · exact (strip_finishes l rest).bind fun _ => .pure _
    · exact (columnsOf_finishes l k width).bind fun _ =>
        (strip_finishes l rest).bind fun _ => .pure _

theorem FactorGraph.jacobian_finishes [Runtime α] (hg : g.Ends) (ordering : List Key)
    (threshold : α) : Finishes (g.jacobian vs ordering threshold) := by
  refine (Finishes.inParallel fun f hf => f.linearize_finishes (hg f hf) true).bind fun ls => ?_
  refine (Finishes.mapM fun k _ => (vs.dim_finishes k).bind fun _ => .pure _).bind
    fun places => ?_
  exact (Finishes.mapM fun l _ =>
    (Jacobian.strip_finishes l places).bind fun _ => .pure _).bind fun _ => .pure _

end Factors

/-! ## 5. Steps -/

section Steps

variable [Scalar α] [Factorization α] [Runtime α] {g : FactorGraph α} {ordering : List Key}

theorem tryStep_finishes (hg : g.Ends) (vs : Values α) (error : α) (gram : List (List α))
    (descent : List α) (lambda : α) :
    Finishes (tryStep g ordering vs error gram descent lambda) := by
  unfold tryStep
  split
  · exact .pure _
  · exact (vs.retract_finishes _ _).bind fun _ =>
      (FactorGraph.error_finishes hg).bind fun _ => .pure _

end Steps

end Articulated
