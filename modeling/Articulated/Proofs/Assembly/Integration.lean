import Articulated.Proofs.Number.Exact
import Articulated.Proofs.Assembly.Coverage
import Articulated.Proofs.Assembly.Kinematics
import Articulated.Proofs.Factor.Steps

/-!
# Collocation is integration

The collocation factors of a trajectory relate the coordinates and rates of consecutive times. They
all vanish exactly if the coordinates and rates of every joint are what is obtained from those at
time zero by integrating step after step, with the accelerations that are assigned and the lengths
that the steps have. Numbers are exact here.

* `Factor.collocation_vanishes_iff`: one factor.
* `Values.StepHolds`: the motion at the end of a step is the one that is integrated from its start.
* `Builder.collocationWith_vanish_iff`: the factors of a step vanish exactly if it holds for all
  joints.
* `Values.IsIntegrated`: the motion at all times is the one that is integrated from time zero.
* `Values.isIntegrated_iff`: by induction on the steps, this says that every step holds.
* `Builder.collocation_integrates`: trajectories, over phases and of steps of known length.
-/

namespace Articulated

/-! ## 1. One factor -/

section Factors

variable {vs : Values ℝ} {x₀ x₁ r₀ r₁ : Key} {step : TimeStep ℝ} {scheme : CollocationScheme}

/-- **A collocation factor vanishes exactly if the value at the end is the integrated one.** -/
theorem Factor.collocation_vanishes_iff {noise : Noise ℝ} :
    Factor.Vanishes ⟨.collocation x₀ x₁ r₀ r₁ step scheme, noise⟩ vs ↔
      ∃ a₀ b₀ b₁ dt, vs.scalar x₀ = .ok a₀ ∧ vs.scalar r₀ = .ok b₀ ∧
        scheme.endRate (vs.scalar r₁) = .ok b₁ ∧ vs.lengthOf step = .ok dt ∧
          vs.scalar x₁ = .ok (scheme.integrate a₀ b₀ b₁ dt) := by
  constructor
  · intro h
    obtain ⟨rows, hrows, hzero⟩ := h
    obtain ⟨⟨a₀, a₁, b₀, b₁, dt⟩, hread, rfl⟩ := map_eq_ok.1 hrows
    obtain ⟨ha₀, ha₁, hb₀, hb₁, hdt⟩ := Relation.readStep_eq_ok.1 hread
    have hend : a₁ = scheme.integrate a₀ b₀ b₁ dt := sub_eq_zero.1 (hzero _ List.mem_cons_self)
    exact ⟨a₀, b₀, b₁, dt, ha₀, hb₀, hb₁, hdt, hend ▸ ha₁⟩
  · intro h
    obtain ⟨a₀, b₀, b₁, dt, ha₀, hb₀, hb₁, hdt, ha₁⟩ := h
    refine ⟨_, map_eq_ok.2 ⟨_, Relation.readStep_eq_ok.2 ⟨ha₀, ha₁, hb₀, hb₁, hdt⟩, rfl⟩, ?_⟩
    exact List.forall_mem_singleton.2 (sub_self _)

end Factors

/-! ## 2. One step -/

section Steps

variable (vs : Values ℝ) (scheme : CollocationScheme)

/-- The coordinate and the rate of a joint at a time. -/
def Values.motionOf (joint t : Nat) : Except (Fault ℝ) (ℝ × ℝ) := do
  let q ← vs.scalarOf (.jointAngle joint t)
  let v ← vs.scalarOf (.jointVel joint t)
  return (q, v)

/-- The motion of a joint after a step: the rate is integrated with the accelerations at both ends
of the step, and the coordinate with the rates. -/
noncomputable def Values.advance (length : Except (Fault ℝ) ℝ) (joint t : Nat) (m : ℝ × ℝ) :
    Except (Fault ℝ) (ℝ × ℝ) := do
  let a₀ ← vs.scalarOf (.jointAccel joint t)
  let a₁ ← scheme.endRate (vs.scalarOf (.jointAccel joint (t + 1)))
  let dt ← length
  let v := scheme.integrate m.2 a₀ a₁ dt
  return (scheme.integrate m.1 m.2 v dt, v)

/-- The motion of a joint at the end of a step is the one that is integrated from its start. -/
def Values.StepHolds (length : Except (Fault ℝ) ℝ) (joint t : Nat) : Prop :=
  ∃ m m', vs.motionOf joint t = .ok m ∧ vs.advance scheme length joint t m = .ok m' ∧
    vs.motionOf joint (t + 1) = .ok m'

variable {vs scheme}

theorem Values.motionOf_eq_ok {joint t : Nat} {m : ℝ × ℝ} :
    vs.motionOf joint t = .ok m ↔ vs.scalarOf (.jointAngle joint t) = .ok m.1 ∧
      vs.scalarOf (.jointVel joint t) = .ok m.2 := by
  constructor
  · intro h
    obtain ⟨q, hq, h⟩ := bind_eq_ok.1 h
    obtain ⟨v, hv, rfl⟩ := map_eq_ok.1 h
    exact ⟨hq, hv⟩
  · intro h
    obtain ⟨hq, hv⟩ := h
    exact bind_eq_ok.2 ⟨m.1, hq, map_eq_ok.2 ⟨m.2, hv, rfl⟩⟩

/-- A scheme that does not read the rate at the end integrates the same with any. -/
theorem CollocationScheme.integrate_endRate {x : Except (Fault ℝ) ℝ} {b b' : ℝ}
    (hb : scheme.endRate x = .ok b) (hb' : x = .ok b') (a₀ b₀ dt : ℝ) :
    scheme.integrate a₀ b₀ b dt = scheme.integrate a₀ b₀ b' dt := by
  cases scheme with
  | euler => rfl
  | trapezoidal => rw [answer_unique hb hb']

/-- The rate at the end of a step that is known is read, or not needed. -/
theorem CollocationScheme.exists_endRate (scheme : CollocationScheme) {x : Except (Fault ℝ) ℝ}
    {b : ℝ} (hx : x = .ok b) : ∃ b', scheme.endRate x = .ok b' := by
  cases scheme with
  | euler => exact ⟨0, rfl⟩
  | trapezoidal => exact ⟨b, hx⟩

theorem Values.scalarOf_of_key {v : Variable} {k : Key} (hk : v.key (α := ℝ) = .ok k) :
    vs.scalarOf v = vs.scalar k := by
  unfold scalarOf
  rw [hk]
  rfl

/-- Both factors of a joint vanish exactly if its step holds. -/
theorem stepFactors_vanish_iff {step : TimeStep ℝ} {joint t : Nat} {q₀ q₁ v₀ v₁ a₀ a₁ : Key}
    {noise noise' : Noise ℝ} (hq₀ : (Variable.jointAngle joint t).key (α := ℝ) = .ok q₀)
    (hq₁ : (Variable.jointAngle joint (t + 1)).key (α := ℝ) = .ok q₁)
    (hv₀ : (Variable.jointVel joint t).key (α := ℝ) = .ok v₀)
    (hv₁ : (Variable.jointVel joint (t + 1)).key (α := ℝ) = .ok v₁)
    (ha₀ : (Variable.jointAccel joint t).key (α := ℝ) = .ok a₀)
    (ha₁ : (Variable.jointAccel joint (t + 1)).key (α := ℝ) = .ok a₁) :
    (Factor.Vanishes ⟨.collocation q₀ q₁ v₀ v₁ step scheme, noise⟩ vs ∧
        Factor.Vanishes ⟨.collocation v₀ v₁ a₀ a₁ step scheme, noise'⟩ vs) ↔
      vs.StepHolds scheme (vs.lengthOf step) joint t := by
  rw [Factor.collocation_vanishes_iff, Factor.collocation_vanishes_iff,
    ← Values.scalarOf_of_key hq₀, ← Values.scalarOf_of_key hq₁, ← Values.scalarOf_of_key hv₀,
    ← Values.scalarOf_of_key hv₁, ← Values.scalarOf_of_key ha₀, ← Values.scalarOf_of_key ha₁]
  constructor
  · rintro ⟨⟨q, v, v', dt, hq, hv, hv', hdt, hq'⟩, w, a, a', dt', hw, ha, ha', hdt', hw'⟩
    obtain rfl := answer_unique hv hw
    obtain rfl := answer_unique hdt hdt'
    rw [CollocationScheme.integrate_endRate hv' hw'] at hq'
    refine ⟨(q, v), (_, _), Values.motionOf_eq_ok.2 ⟨hq, hv⟩, ?_,
      Values.motionOf_eq_ok.2 ⟨hq', hw'⟩⟩
    exact bind_eq_ok.2 ⟨a, ha, bind_eq_ok.2 ⟨a', ha', map_eq_ok.2 ⟨dt, hdt, rfl⟩⟩⟩
  · rintro ⟨⟨q, v⟩, m', hm, hadvance, hm'⟩
    obtain ⟨hq, hv⟩ := Values.motionOf_eq_ok.1 hm
    obtain ⟨a, ha, hadvance⟩ := bind_eq_ok.1 hadvance
    obtain ⟨a', ha', hadvance⟩ := bind_eq_ok.1 hadvance
    obtain ⟨dt, hdt, rfl⟩ := map_eq_ok.1 hadvance
    obtain ⟨hq', hw'⟩ := Values.motionOf_eq_ok.1 hm'
    obtain ⟨v', hv'⟩ := scheme.exists_endRate hw'
    refine ⟨⟨q, v, v', dt, hq, hv, hv', hdt, ?_⟩, v, a, a', dt, hv, ha, ha', hdt, hw'⟩
    rw [CollocationScheme.integrate_endRate hv' hw']
    exact hq'

/-- **The factors of a step vanish exactly if the step holds for all joints.** -/
theorem Builder.collocationWith_vanish_iff {b : Builder ℝ} {r : Robot ℝ} {t : Nat}
    {step : TimeStep ℝ} {g : FactorGraph ℝ} (h : b.collocationWith r t step scheme = .ok g) :
    (∀ f ∈ g.factors, f.Vanishes vs) ↔
      ∀ j ∈ r.joints, vs.StepHolds scheme (vs.lengthOf step) j.id t := by
  obtain ⟨fss, hfss, rfl⟩ := map_eq_ok.1 h
  have hflat : (∀ f ∈ fss.flatten, f.Vanishes vs) ↔ ∀ fs ∈ fss, ∀ f ∈ fs, f.Vanishes vs :=
    List.forall_mem_flatten
  have hsorted : (∀ j ∈ r.sortedJoints, vs.StepHolds scheme (vs.lengthOf step) j.id t) ↔
      ∀ j ∈ r.joints, vs.StepHolds scheme (vs.lengthOf step) j.id t :=
    forall_congr' fun j => imp_congr_left List.mem_mergeSort
  rw [hflat, ← hsorted]
  refine forall_answers_iff hfss fun j _ fs hfs => ?_
  obtain ⟨q₀, hq₀, hfs⟩ := bind_eq_ok.1 hfs
  obtain ⟨q₁, hq₁, hfs⟩ := bind_eq_ok.1 hfs
  obtain ⟨v₀, hv₀, hfs⟩ := bind_eq_ok.1 hfs
  obtain ⟨v₁, hv₁, hfs⟩ := bind_eq_ok.1 hfs
  obtain ⟨a₀, ha₀, hfs⟩ := bind_eq_ok.1 hfs
  obtain ⟨a₁, ha₁, rfl⟩ := map_eq_ok.1 hfs
  rw [List.forall_mem_cons, List.forall_mem_singleton]
  exact stepFactors_vanish_iff hq₀ hq₁ hv₀ hv₁ ha₀ ha₁

end Steps

/-! ## 3. All steps -/

section Runs

/-- The motion of a joint after some steps: what is integrated from the motion at time zero. -/
noncomputable def Values.integrated (vs : Values ℝ) (scheme : CollocationScheme)
    (length : Nat → Except (Fault ℝ) ℝ) (joint : Nat) : Nat → Except (Fault ℝ) (ℝ × ℝ)
  | 0 => vs.motionOf joint 0
  | t + 1 => do
    let m ← vs.integrated scheme length joint t
    vs.advance scheme (length t) joint t m

/-- The motion of a joint at the times from zero to `numSteps` is the integrated one. -/
def Values.IsIntegrated (vs : Values ℝ) (scheme : CollocationScheme)
    (length : Nat → Except (Fault ℝ) ℝ) (joint numSteps : Nat) : Prop :=
  ∀ t ≤ numSteps, BothAnswer Eq (vs.motionOf joint t) (vs.integrated scheme length joint t)

variable {vs : Values ℝ} {scheme : CollocationScheme} {length : Nat → Except (Fault ℝ) ℝ}
  {joint numSteps : Nat}

/-- Where every step holds, the motion is the integrated one. -/
theorem Values.integrated_of_steps (hpos : 0 < numSteps)
    (h : ∀ t < numSteps, vs.StepHolds scheme (length t) joint t) :
    vs.IsIntegrated scheme length joint numSteps
  | 0, _ => by
    obtain ⟨m, -, hm, -⟩ := h 0 hpos
    exact ⟨m, m, hm, hm, rfl⟩
  | t + 1, ht => by
    obtain ⟨m, m', hm, hadvance, hm'⟩ := h t ht
    obtain ⟨m₀, _, hm₀, hrun, rfl⟩ := integrated_of_steps hpos h t (Nat.le_of_succ_le ht)
    obtain rfl := answer_unique hm hm₀
    exact ⟨m', m', hm', bind_eq_ok.2 ⟨m, hrun, hadvance⟩, rfl⟩

/-- Where the motion is the integrated one, every step holds. -/
theorem Values.IsIntegrated.step (h : vs.IsIntegrated scheme length joint numSteps) {t : Nat}
    (ht : t < numSteps) : vs.StepHolds scheme (length t) joint t := by
  obtain ⟨m, _, hm, hrun, rfl⟩ := h t (Nat.le_of_lt ht)
  obtain ⟨m', _, hm', hrun', rfl⟩ := h (t + 1) ht
  obtain ⟨m₀, hm₀, hadvance⟩ := bind_eq_ok.1 hrun'
  obtain rfl := answer_unique hrun hm₀
  exact ⟨m, m', hm, hadvance, hm'⟩

/-- **The motion is the integrated one exactly if every step holds**, if there is a step. -/
theorem Values.isIntegrated_iff :
    (∀ t < numSteps, vs.StepHolds scheme (length t) joint t) ↔
      (0 < numSteps → vs.IsIntegrated scheme length joint numSteps) :=
  ⟨fun h hpos => integrated_of_steps hpos h,
    fun h _ ht => (h (Nat.zero_lt_of_lt ht)).step ht⟩

end Runs

/-! ## 4. Trajectories -/

section Trajectories

variable {α : Type}

/-- The factor integrates a quantity over a step. -/
def Factor.IsCollocation (f : Factor α) : Prop :=
  match f.relation with
  | .collocation .. => True
  | _ => False

/-- The graph ends with the given collocation factors, and others that it has come from given
graphs. -/
structure FactorGraph.EndsWithSteps (g : FactorGraph α) (given : List (FactorGraph α))
    (steps : List (Factor α)) : Prop where
  isCollocation : ∀ f ∈ steps, f.IsCollocation
  factors_eq : ∃ others, g.factors = others ++ steps ∧
    ∀ f ∈ others, f.IsCollocation → ∃ part ∈ given, f ∈ part.factors

namespace Builder

variable {b : Builder α} {r : Robot α} {t : Nat} {scheme : CollocationScheme}
  {g : FactorGraph α}

/-- The factors of a step are collocation factors. -/
theorem collocationWith_isCollocation {step : TimeStep α}
    (h : b.collocationWith r t step scheme = .ok g) : ∀ f ∈ g.factors, f.IsCollocation := by
  obtain ⟨fss, hfss, rfl⟩ := map_eq_ok.1 h
  refine List.forall_mem_flatten.2 fun fs hfs => ?_
  obtain ⟨j, -, hbuild⟩ := exists_computation hfss hfs
  obtain ⟨q₀, -, hbuild⟩ := bind_eq_ok.1 hbuild
  obtain ⟨q₁, -, hbuild⟩ := bind_eq_ok.1 hbuild
  obtain ⟨v₀, -, hbuild⟩ := bind_eq_ok.1 hbuild
  obtain ⟨v₁, -, hbuild⟩ := bind_eq_ok.1 hbuild
  obtain ⟨a₀, -, hbuild⟩ := bind_eq_ok.1 hbuild
  obtain ⟨a₁, -, rfl⟩ := map_eq_ok.1 hbuild
  exact List.forall_mem_cons.2 ⟨trivial, List.forall_mem_singleton.2 trivial⟩

/-- What a graph with slices, given graphs and steps ends with. -/
theorem endsWithSteps_of_parts {slices between given steps : List (FactorGraph α)}
    (hslices : ∀ part ∈ slices, ∀ f ∈ part.factors, ¬ f.IsCollocation)
    (hbetween : ∀ part ∈ between, (∀ f ∈ part.factors, ¬ f.IsCollocation) ∨ part ∈ given)
    (hsteps : ∀ part ∈ steps, ∀ f ∈ part.factors, f.IsCollocation) :
    (FactorGraph.join (slices ++ between ++ steps)).EndsWithSteps given
      (FactorGraph.join steps).factors := by
  refine ⟨List.forall_mem_flatMap.2 hsteps, (FactorGraph.join (slices ++ between)).factors,
    List.flatMap_append, fun f hf hcollocation => ?_⟩
  obtain ⟨part, hpart, hf⟩ := List.mem_flatMap.1 hf
  rcases List.mem_append.1 hpart with hpart | hpart
  · exact absurd hcollocation (hslices part hpart f hf)
  · rcases hbetween part hpart with hnot | hgiven
    · exact absurd hcollocation (hnot f hf)
    · exact ⟨part, hgiven, hf⟩

variable [Scalar α] [Runtime α] {gravity : Vec3 α} {planar : Option (Vec3 α)}

theorem dynamicsFactors_not_collocation (h : b.dynamicsFactors r t gravity planar = .ok g) :
    ∀ f ∈ g.factors, ¬ f.IsCollocation := by
  obtain ⟨links, hlinks, h⟩ := bind_eq_ok.1 h
  obtain ⟨joints, hjoints, rfl⟩ := map_eq_ok.1 h
  refine List.forall_mem_append.2 ⟨fun f hf => ?_, fun f hf => ?_⟩
  · obtain ⟨l, -, hbuild⟩ := exists_computation (inParallel_eq_ok.1 hlinks) hf
    obtain ⟨wrenches, -, hbuild⟩ := bind_eq_ok.1 hbuild
    obtain ⟨kp, -, hbuild⟩ := bind_eq_ok.1 hbuild
    obtain ⟨kv, -, hbuild⟩ := bind_eq_ok.1 hbuild
    obtain ⟨ka, -, rfl⟩ := map_eq_ok.1 hbuild
    exact id
  · obtain ⟨j, -, frames, fs, hbuild, hf⟩ := of_mem_perJoint hjoints hf
    obtain ⟨kp, -, hbuild⟩ := bind_eq_ok.1 hbuild
    obtain ⟨kc, -, hbuild⟩ := bind_eq_ok.1 hbuild
    obtain ⟨kq, -, hbuild⟩ := bind_eq_ok.1 hbuild
    obtain ⟨kt, -, rfl⟩ := map_eq_ok.1 hbuild
    simp only [List.mem_cons, List.mem_map] at hf
    rcases hf with rfl | rfl | ⟨axis, -, rfl⟩ <;> exact id

/-- No factor of a slice integrates. -/
theorem slice_not_collocation (h : b.slice r t gravity planar = .ok g) :
    ∀ f ∈ g.factors, ¬ f.IsCollocation := by
  intro f hf
  obtain ⟨part, ⟨group, -, hpart⟩, hf⟩ := (slice_madeOf h).source f hf
  cases group with
  | poses =>
    refine forall_kinematics (P := fun f => ¬ f.IsCollocation) hpart.symm
      (fun j _ frames fs hbuild => ?_) (fun _ _ _ _ => id) f hf
    obtain ⟨kp, -, hbuild⟩ := bind_eq_ok.1 hbuild
    obtain ⟨kc, -, hbuild⟩ := bind_eq_ok.1 hbuild
    obtain ⟨kq, -, rfl⟩ := map_eq_ok.1 hbuild
    exact List.forall_mem_singleton.2 id
  | twists =>
    refine forall_kinematics (P := fun f => ¬ f.IsCollocation) hpart.symm
      (fun j _ frames fs hbuild => ?_) (fun _ _ _ _ => id) f hf
    obtain ⟨kp, -, hbuild⟩ := bind_eq_ok.1 hbuild
    obtain ⟨kc, -, hbuild⟩ := bind_eq_ok.1 hbuild
    obtain ⟨kq, -, hbuild⟩ := bind_eq_ok.1 hbuild
    obtain ⟨kv, -, rfl⟩ := map_eq_ok.1 hbuild
    exact List.forall_mem_singleton.2 id
  | accels =>
    refine forall_kinematics (P := fun f => ¬ f.IsCollocation) hpart.symm
      (fun j _ frames fs hbuild => ?_) (fun _ _ _ _ => id) f hf
    obtain ⟨kt, -, hbuild⟩ := bind_eq_ok.1 hbuild
    obtain ⟨kp, -, hbuild⟩ := bind_eq_ok.1 hbuild
    obtain ⟨kc, -, hbuild⟩ := bind_eq_ok.1 hbuild
    obtain ⟨kq, -, hbuild⟩ := bind_eq_ok.1 hbuild
    obtain ⟨kv, -, hbuild⟩ := bind_eq_ok.1 hbuild
    obtain ⟨ka, -, rfl⟩ := map_eq_ok.1 hbuild
    exact List.forall_mem_singleton.2 id
  | dynamics => exact dynamicsFactors_not_collocation hpart.symm f hf

/-- A trajectory over phases ends with its steps. -/
theorem multiPhase_endsWithSteps {robots : List (Robot α)} {phaseSteps : List Nat}
    {given : Option (List (FactorGraph α))} (hwell : WellPhased robots phaseSteps given)
    (h : b.multiPhase robots phaseSteps given scheme gravity planar = .ok g) :
    ∃ steps, (List.range phaseSteps.sum).mapM (b.stepAt robots phaseSteps scheme) = .ok steps ∧
      g.EndsWithSteps (given.getD []) (FactorGraph.join steps).factors := by
  obtain ⟨-, h⟩ := seq_eq_ok.1 h
  obtain ⟨between, hbetween, h⟩ := bind_eq_ok.1 h
  obtain ⟨own, hown, h⟩ := bind_eq_ok.1 h
  obtain ⟨steps, hsteps, rfl⟩ := map_eq_ok.1 h
  refine ⟨steps, ?_, endsWithSteps_of_parts (fun part hpart => ?_) (fun part hpart => ?_)
    fun part hpart => ?_⟩
  · rw [phaseStarts_eq, hwell.map_fst, hwell.map_snd, List.mapM_map] at hsteps
    rw [← hsteps]
    refine mapM_congr fun t _ => ?_
    show _ = b.phaseCollocation _ (0 + t) (0 + _) scheme
    rw [Nat.zero_add, Nat.zero_add]
    rfl
  · obtain ⟨e, -, hslice⟩ := exists_computation (inParallel_eq_ok.1 hown) hpart
    exact slice_not_collocation hslice
  · cases given with
    | none =>
      obtain ⟨-, hbetween⟩ := seq_eq_ok.1 hbetween
      obtain ⟨e, -, hslice⟩ := exists_computation (inParallel_eq_ok.1 hbetween) hpart
      exact .inl (slice_not_collocation hslice)
    | some graphs =>
      unfold chosenTransitions at hbetween
      dsimp only at hbetween
      rw [if_pos (hwell.given_length graphs rfl)] at hbetween
      obtain rfl := pure_eq_ok.1 hbetween
      exact .inr hpart
  · obtain ⟨e, -, hstep⟩ := exists_computation hsteps hpart
    obtain ⟨k, -, hstep⟩ := bind_eq_ok.1 hstep
    exact collocationWith_isCollocation hstep

/-- A trajectory ends with its steps. -/
theorem trajectory_endsWithSteps {numSteps : Nat} {dt : α}
    (h : b.trajectory r numSteps dt scheme gravity planar = .ok g) :
    ∃ steps, (List.range numSteps).mapM (fun t => b.collocation r t dt scheme) = .ok steps ∧
      g.EndsWithSteps [] (FactorGraph.join steps).factors := by
  obtain ⟨slices, hslices, h⟩ := bind_eq_ok.1 h
  obtain ⟨steps, hsteps, rfl⟩ := map_eq_ok.1 h
  refine ⟨steps, hsteps, ?_⟩
  rw [← List.append_nil slices]
  refine endsWithSteps_of_parts (fun part hpart => ?_) nofun fun part hpart => ?_
  · obtain ⟨t, -, hslice⟩ := exists_computation (inParallel_eq_ok.1 hslices) hpart
    exact slice_not_collocation hslice
  · obtain ⟨t, -, hstep⟩ := exists_computation hsteps hpart
    exact collocationWith_isCollocation hstep

end Builder

end Trajectories

namespace Builder

/-! ## 5. Integration -/

section Integration

variable {b : Builder ℝ} {r : Robot ℝ} {scheme : CollocationScheme} {vs : Values ℝ}

/-- The factors of steps vanish exactly if the motion of every joint is the integrated one, as long
as there is a step. -/
theorem steps_vanish_iff {numSteps : Nat} {build : Nat → Except (Fault ℝ) (FactorGraph ℝ)}
    {steps : List (FactorGraph ℝ)} {length : Nat → Except (Fault ℝ) ℝ}
    (h : (List.range numSteps).mapM build = .ok steps)
    (hbuild : ∀ t part, build t = .ok part → ((∀ f ∈ part.factors, f.Vanishes vs) ↔
      ∀ j ∈ r.joints, vs.StepHolds scheme (length t) j.id t)) :
    (∀ f ∈ (FactorGraph.join steps).factors, f.Vanishes vs) ↔
      (0 < numSteps → ∀ j ∈ r.joints, vs.IsIntegrated scheme length j.id numSteps) := by
  have hsteps : (∀ f ∈ (FactorGraph.join steps).factors, f.Vanishes vs) ↔
      ∀ t ∈ List.range numSteps, ∀ j ∈ r.joints, vs.StepHolds scheme (length t) j.id t :=
    List.forall_mem_flatMap.trans (forall_answers_iff h fun t _ part hpart => hbuild t part hpart)
  rw [hsteps]
  constructor
  · intro hall hpos j hj
    exact Values.isIntegrated_iff.1 (fun t ht => hall t (List.mem_range.2 ht) j hj) hpos
  · intro hall t ht j hj
    exact Values.isIntegrated_iff.2 (fun hpos => hall hpos j hj) t (List.mem_range.1 ht)

/-- The length of a step of a phase is the duration of the phase. -/
theorem phaseCollocation_vanish_iff {t phase : Nat} {g : FactorGraph ℝ}
    (h : b.phaseCollocation r t phase scheme = .ok g) : (∀ f ∈ g.factors, f.Vanishes vs) ↔
      ∀ j ∈ r.joints, vs.StepHolds scheme (vs.scalarOf (.phaseDuration phase)) j.id t := by
  obtain ⟨k, hk, h⟩ := bind_eq_ok.1 h
  rw [Values.scalarOf_of_key hk]
  exact collocationWith_vanish_iff h

end Integration

/-- **Collocation is integration.** Trajectories of a valid robot over well-formed phases, and those
of steps of known length, are assembled if their end fits the keys. They end with their collocation
factors. Those over phases all vanish exactly if the coordinate and the rate of every joint at every
time are the ones that are integrated from time zero, where each step lasts as long as the phase
that it belongs to. The same holds of steps of known length, if there is one. -/
theorem collocation_integrates [Runtime ℝ] (b : Builder ℝ) (r : Robot ℝ)
    (scheme : CollocationScheme) (gravity : Vec3 ℝ) (planar : Option (Vec3 ℝ)) :
    (∀ phaseSteps given,
      let assembled := b.multiPhase (List.replicate phaseSteps.length r) phaseSteps given scheme
        gravity planar
      (r.check = .ok () → WellPhased (List.replicate phaseSteps.length r) phaseSteps given →
        phaseSteps.sum ≤ maxIndex → ∃ g, assembled = .ok g) ∧
      ∀ g, assembled = .ok g → ∃ steps, g.EndsWithSteps (given.getD []) steps ∧
        ∀ vs : Values ℝ, (∀ f ∈ steps, f.Vanishes vs) ↔ ∀ j ∈ r.joints,
          vs.IsIntegrated scheme (fun t => vs.scalarOf (.phaseDuration (phaseAt phaseSteps t))) j.id
            phaseSteps.sum) ∧
    ∀ numSteps dt,
      let assembled := b.trajectory r numSteps dt scheme gravity planar
      (r.check = .ok () → numSteps ≤ maxIndex → ∃ g, assembled = .ok g) ∧
      ∀ g, assembled = .ok g → ∃ steps, g.EndsWithSteps [] steps ∧
        ∀ vs : Values ℝ, (∀ f ∈ steps, f.Vanishes vs) ↔
          (0 < numSteps → ∀ j ∈ r.joints,
            vs.IsIntegrated scheme (fun _ => pure dt) j.id numSteps) := by
  refine ⟨fun phaseSteps given => ⟨fun hr hwell hle => ?_, fun g hg => ?_⟩,
    fun numSteps dt => ⟨fun hr hle => ?_, fun g hg => ?_⟩⟩
  · refine (multiPhase_needsKeys (fun r' hr' => ?_) hwell).succeeds hle
    exact List.eq_of_mem_replicate hr' ▸ Robot.check_eq_ok_iff.1 hr
  · have hwell := wellPhased_of_multiPhase hg
    obtain ⟨steps, hsteps, hends⟩ := multiPhase_endsWithSteps hwell hg
    refine ⟨_, hends, fun vs => ?_⟩
    have hpos : 0 < phaseSteps.sum := Nat.zero_lt_of_lt (hwell.phaseAt_lt_sum 0)
    refine (steps_vanish_iff hsteps fun t part hpart => ?_).trans (forall_prop_of_true hpos)
    rw [stepAt, List.eq_of_mem_replicate (hwell.robotAt_mem t)] at hpart
    exact phaseCollocation_vanish_iff hpart
  · exact trajectory_succeeds_of_le (Robot.check_eq_ok_iff.1 hr) hle dt
  · obtain ⟨steps, hsteps, hends⟩ := trajectory_endsWithSteps hg
    exact ⟨_, hends, fun vs => steps_vanish_iff hsteps fun t part hpart =>
      collocationWith_vanish_iff hpart⟩

/-- A joint that is pushed with the acceleration two, over two phases of one step each: the first
one lasts one, the second one two. -/
noncomputable def pushed : Values ℝ :=
  [(.phaseDuration 0, 1), (.phaseDuration 1, 2), (.jointAngle 0 0, 0), (.jointAngle 0 1, 1),
    (.jointAngle 0 2, 9), (.jointVel 0 0, 0), (.jointVel 0 1, 2), (.jointVel 0 2, 6),
    (.jointAccel 0 0, 2), (.jointAccel 0 1, 2), (.jointAccel 0 2, 2)].foldl
      (fun (vs : Values ℝ) (e : Variable × ℕ) => vs.insert (slot e.1) (.scalar e.2)) .empty

theorem pushed_reads :
    pushed.scalarOf (.phaseDuration 0) = .ok 1 ∧ pushed.scalarOf (.phaseDuration 1) = .ok 2 ∧
    pushed.motionOf 0 0 = .ok (0, 0) ∧ pushed.motionOf 0 1 = .ok (1, 2) ∧
    pushed.motionOf 0 2 = .ok (9, 6) ∧ pushed.scalarOf (.jointAccel 0 0) = .ok 2 ∧
    pushed.scalarOf (.jointAccel 0 1) = .ok 2 ∧ pushed.scalarOf (.jointAccel 0 2) = .ok 2 := by
  have hread : ∀ {v : Variable} {x : ℝ}, v.key (α := ℝ) = .ok (slot v) →
      pushed.get? (slot v) = some (.scalar x) → pushed.scalarOf v = .ok x := fun hk hx =>
    scalarOf_eq_ok hk (Values.scalar_eq_ok hx)
  have hget : pushed.get? (slot (.phaseDuration 0)) = some (.scalar 1) ∧
      pushed.get? (slot (.phaseDuration 1)) = some (.scalar 2) ∧
      pushed.get? (slot (.jointAngle 0 0)) = some (.scalar 0) ∧
      pushed.get? (slot (.jointAngle 0 1)) = some (.scalar 1) ∧
      pushed.get? (slot (.jointAngle 0 2)) = some (.scalar 9) ∧
      pushed.get? (slot (.jointVel 0 0)) = some (.scalar 0) ∧
      pushed.get? (slot (.jointVel 0 1)) = some (.scalar 2) ∧
      pushed.get? (slot (.jointVel 0 2)) = some (.scalar 6) ∧
      pushed.get? (slot (.jointAccel 0 0)) = some (.scalar 2) ∧
      pushed.get? (slot (.jointAccel 0 1)) = some (.scalar 2) ∧
      pushed.get? (slot (.jointAccel 0 2)) = some (.scalar 2) := by
    simp +decide only [pushed, List.foldl_cons, List.foldl_nil, Values.get?_insert, if_true,
      if_false, and_true, Nat.cast_zero, Nat.cast_one, Nat.cast_ofNat]
  obtain ⟨h₀, h₁, hq₀, hq₁, hq₂, hv₀, hv₁, hv₂, ha₀, ha₁, ha₂⟩ := hget
  exact ⟨hread rfl h₀, hread rfl h₁, Values.motionOf_eq_ok.2 ⟨hread rfl hq₀, hread rfl hv₀⟩,
    Values.motionOf_eq_ok.2 ⟨hread rfl hq₁, hread rfl hv₁⟩,
    Values.motionOf_eq_ok.2 ⟨hread rfl hq₂, hread rfl hv₂⟩, hread rfl ha₀, hread rfl ha₁,
    hread rfl ha₂⟩

/-- The coordinate and the rate of the joint are those of a constant acceleration. -/
theorem pushed_isIntegrated : pushed.IsIntegrated .trapezoidal
    (fun t => pushed.scalarOf (.phaseDuration (phaseAt [1, 1] t))) 0 2 := by
  obtain ⟨h₀, h₁, hm₀, hm₁, hm₂, ha₀, ha₁, ha₂⟩ := pushed_reads
  refine Values.integrated_of_steps Nat.two_pos fun t ht => ?_
  match t, ht with
  | 0, _ =>
    refine ⟨_, _, hm₀, bind_eq_ok.2 ⟨_, ha₀, bind_eq_ok.2 ⟨_, ha₁, map_eq_ok.2 ⟨_, h₀, ?_⟩⟩⟩, hm₁⟩
    norm_num [CollocationScheme.integrate, Scalar.half]
  | 1, _ =>
    refine ⟨_, _, hm₁, bind_eq_ok.2 ⟨_, ha₁, bind_eq_ok.2 ⟨_, ha₂, map_eq_ok.2 ⟨_, h₁, ?_⟩⟩⟩, hm₂⟩
    norm_num [CollocationScheme.integrate, Scalar.half]

/-- The collocation factors of the arm vanish where its joint is pushed. -/
theorem collocation_integrates_pushed :
    let r : Robot ℝ := .twoLinkArm
    let b : Builder ℝ := ofSettings .default
    r.check = .ok () ∧ WellPhased [r, r] [1, 1] (some [.empty]) ∧ [1, 1].sum ≤ maxIndex ∧
      (∀ j ∈ r.joints, pushed.IsIntegrated .trapezoidal
        (fun t => pushed.scalarOf (.phaseDuration (phaseAt [1, 1] t))) j.id 2) ∧
      ∃ g steps, b.multiPhase [r, r] [1, 1] (some [.empty]) .trapezoidal 0 none = .ok g ∧
        g.EndsWithSteps [.empty] steps ∧ ∀ f ∈ steps, f.Vanishes pushed := by
  intro r b
  have hr : r.check = .ok () := rfl
  have hwell : WellPhased [r, r] [1, 1] (some [.empty]) :=
    ⟨List.cons_ne_nil _ _, rfl, by decide, fun _ h => Option.some.inj h ▸ rfl⟩
  have hfits : [1, 1].sum ≤ maxIndex := by decide
  have hmotion : ∀ j ∈ r.joints, pushed.IsIntegrated .trapezoidal
      (fun t => pushed.scalarOf (.phaseDuration (phaseAt [1, 1] t))) j.id 2 :=
    List.forall_mem_singleton.2 pushed_isIntegrated
  obtain ⟨hassembled, hsteps⟩ :=
    (collocation_integrates b r .trapezoidal 0 none).1 [1, 1] (some [.empty])
  obtain ⟨g, hg⟩ := hassembled hr hwell hfits
  obtain ⟨steps, hends, hvanish⟩ := hsteps g hg
  exact ⟨hr, hwell, hfits, hmotion, g, steps, hg, hends, (hvanish pushed).2 hmotion⟩

end Builder

end Articulated
